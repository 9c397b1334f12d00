import MemoFlowApi.Calendar.Dates
import MemoFlowApi.Leads.Enums

/-!
# Lead Scores

The score of a lead is the sum of the points of the rules that its facts meet.
-/

namespace MemoFlowApi.Leads

/-! ## Tiers -/

def tierForScore (score : ℕ) : LeadTier :=
  if 8 ≤ score then .hot else if 4 ≤ score then .warm else .cold

def actionByTier : LeadTier → SuggestedAction
  | .hot => .interviewAndProOffer
  | .warm => .scheduledEmails
  | .cold => .newsletter

def suggestedAction (tier : LeadTier) (optIn : Bool) : SuggestedAction :=
  if optIn then actionByTier tier else .noOutreach

structure ScoreBreakdownEntry where
  rule : ScoreRule
  points : ℕ
  deriving DecidableEq

/-! ## Dates

Dates are texts, as they come from `Date`; a text is `none` where the source throws a `RangeError`. -/

open Calendar

/-- The last day that a `Date` can hold. -/
def maxDay : ℕ := 100000000

/-- `Date.UTC` of a year from 1970 on, as a day. -/
def utc (year month date : ℕ) : Option ℕ :=
  if makeDay year month date ≤ maxDay then some (makeDay year month date) else none

def sixDigits (n : ℕ) : List Char := twoDigits (n / 10000) ++ fourDigits (n % 10000)

/-- `toISOString`: years that have no four digits are written with a sign and six. -/
def isoString (time : ℕ) : List Char :=
  if yearFromDay (day time) < 10000 then toISOString time
  else '+' :: sixDigits (yearFromDay (day time)) ++ (toISOString time).drop 4

def toUtcDate (time : ℕ) : List Char := (isoString time).take 10

/-- `Number` of a text of digits. -/
def decimal (digits : List Char) : Option ℕ :=
  if digits ≠ [] ∧ digits.all Char.isDigit then
    some (digits.foldl (fun n c ↦ 10 * n + (c.toNat - 48)) 0)
  else none

/-- `date.split('-').map(Number)`. -/
def dateParts (date : List Char) : Option (ℕ × ℕ × ℕ) :=
  match date.splitOn '-' with
  | y :: m :: d :: _ => do return (← decimal y, ← decimal m, ← decimal d)
  | _ => none

/-- Adds calendar months, clamping to the last day of a shorter month. -/
def addCalendarMonths (date : List Char) (months : ℕ) : Option (List Char) := do
  let (y, m, d) ← dateParts date
  let target ← utc y (m - 1 + months) 1
  let lastDay := dateFromDay (← utc (yearFromDay target) (monthFromDay target + 1) 0)
  let target ← utc (yearFromDay target) (monthFromDay target) (min d lastDay)
  return toUtcDate (target * msPerDay)

/-! ## Scores -/

structure LeadScoreFacts where
  persona : Option Persona
  dueDate : Option (List Char)
  workTools : Option (List WorkTool)
  hasActiveConnector : Bool
  hasPaywallSignal : Bool

structure LeadScoreResult where
  score : ℕ
  tier : LeadTier
  breakdown : List ScoreBreakdownEntry
  deriving DecidableEq

/-- The rule that a due date meets; texts are compared by their code units. -/
def dueEntries (dueDate : Option (List Char)) (today : List Char) : Option (List ScoreBreakdownEntry) :=
  match dueDate with
  | none => some []
  | some dueDate =>
    if dueDate ≠ [] ∧ ¬dueDate < today then do
      if dueDate < (← addCalendarMonths today 3) then return [⟨.dueWithin3Months, 3⟩]
      else if ¬(← addCalendarMonths today 6) < dueDate then return [⟨.dueWithin3To6Months, 2⟩]
      else return []
    else some []

/-- The rules other than those about the due date. -/
def otherEntries (facts : LeadScoreFacts) : List ScoreBreakdownEntry :=
  (if facts.persona = some .apprentice then [⟨.personaApprentice, 2⟩] else []) ++
    (if facts.persona = some .intern then [⟨.personaIntern, 1⟩] else []) ++
    (if .trello ∈ facts.workTools.getD [] then [⟨.citedTrello, 2⟩] else []) ++
    (if facts.hasActiveConnector then [⟨.connectedTool, 3⟩] else []) ++
    (if facts.hasPaywallSignal then [⟨.exportPaywallHit, 3⟩] else [])

def totalPoints (breakdown : List ScoreBreakdownEntry) : ℕ := (breakdown.map (·.points)).sum

def computeLeadScore (facts : LeadScoreFacts) (now : ℕ) : Option LeadScoreResult := do
  let breakdown := (← dueEntries facts.dueDate (toUtcDate now)) ++ otherEntries facts
  let score := totalPoints breakdown
  return ⟨score, tierForScore score, breakdown⟩

end MemoFlowApi.Leads
