import MemoFlowApi.Concurrency.Sessions
import MemoFlowApi.Leads.Consent
import MemoFlowApi.Leads.Score

/-!
# Recalculating a Lead Score

Whatever changes a fact about a lead recalculates its score afterwards.  A recalculation reads the
clock first and the facts then, one query at a time, and its result replaces a stored one unless that
is newer.
-/

namespace MemoFlowApi.Leads

open Concurrency

/-- A row of `lead_signals`. -/
structure LeadSignal where
  type : LeadSignalType
  firstSeenAt : ℕ
  lastSeenAt : ℕ
  occurrences : ℕ

/-- A row of `lead_scores`. -/
structure StoredScore where
  result : LeadScoreResult
  computedAt : ℕ
  deriving DecidableEq

/-- What is stored of one lead, and the clock in milliseconds. -/
structure LeadFile where
  clock : ℕ
  profile : Option (OnboardingProfile ℕ)
  /-- The connectors that are active. -/
  connectors : List ℕ
  signals : List LeadSignal
  score : Option StoredScore

inductive RecalculationOp where
  | upsert (data : SubmitOnboardingData) (now : ℕ)
  | record (type : LeadSignalType) (now : ℕ)
  | changeConnectors (active : List ℕ)
  | now
  | findProfile
  | findActiveConnectors
  | findSignals
  | saveIfNewer (result : LeadScoreResult) (computedAt : ℕ)

namespace RecalculationOp

abbrev Ans : RecalculationOp → Type
  | now => ℕ
  | findProfile => Option (OnboardingProfile ℕ)
  | findActiveConnectors => List ℕ
  | findSignals => List LeadSignal
  | _ => Unit

/-- The call changes a fact. -/
def changes : RecalculationOp → Bool
  | upsert _ _ | record _ _ | changeConnectors _ => true
  | _ => false

end RecalculationOp

/-- `INSERT … ON CONFLICT (user_id, type) DO UPDATE`. -/
def recordSignal (type : LeadSignalType) (now : ℕ) (signals : List LeadSignal) : List LeadSignal :=
  if signals.any (·.type = type) then
    signals.map fun signal ↦
      if signal.type = type then
        { signal with
          occurrences := signal.occurrences + 1
          lastSeenAt := max signal.lastSeenAt now }
      else signal
  else signals ++ [⟨type, now, now, 1⟩]

namespace LeadFile

def upsert (data : SubmitOnboardingData) (now : ℕ) (file : LeadFile) : LeadFile :=
  { file with
    profile := match file.profile with
      | none => some (data.toRow now)
      | some row => some (row.replace (data.toRow now)) }

/-- The conflict branch of `saveIfNewer` writes. -/
def Admits (file : LeadFile) (computedAt : ℕ) : Prop :=
  ∀ row, file.score = some row → row.computedAt ≤ computedAt

instance (file : LeadFile) (computedAt : ℕ) : Decidable (file.Admits computedAt) :=
  match h : file.score with
  | none => isTrue fun row hrow ↦ by rw [h] at hrow; cases hrow
  | some row => decidable_of_iff (row.computedAt ≤ computedAt)
      ⟨fun hle row' hrow' ↦ by rw [h] at hrow'; cases hrow'; exact hle, fun hadmits ↦ hadmits row h⟩

/-- `INSERT … ON CONFLICT … DO UPDATE … WHERE lead_scores.computed_at <= EXCLUDED.computed_at`. -/
def saveIfNewer (result : LeadScoreResult) (computedAt : ℕ) (file : LeadFile) : LeadFile :=
  if file.Admits computedAt then { file with score := some ⟨result, computedAt⟩ } else file

/-- The facts that a score is computed from. -/
def facts (file : LeadFile) : LeadScoreFacts where
  persona := file.profile.map (·.persona)
  dueDate := file.profile.map (·.dueDate)
  workTools := file.profile.map (·.workTools)
  hasActiveConnector := !file.connectors.isEmpty
  hasPaywallSignal := file.signals.any (·.type = .exportPaywallHit)

/-- The answer to a call; the reply says how far the clock has moved on. -/
def answer (elapsed : ℕ) : (op : RecalculationOp) → LeadFile → Option (op.Ans × LeadFile)
  | .upsert data now, file => some ((), file.upsert data now)
  | .record type now, file => some ((), { file with signals := recordSignal type now file.signals })
  | .changeConnectors active, file => some ((), { file with connectors := active })
  | .now, file => some (file.clock + elapsed, { file with clock := file.clock + elapsed })
  | .findProfile, file => some (file.profile, file)
  | .findActiveConnectors, file => some (file.connectors, file)
  | .findSignals, file => some (file.signals, file)
  | .saveIfNewer result computedAt, file => some ((), file.saveIfNewer result computedAt)

/-- Queries may fail. -/
def mayFail : RecalculationOp → Bool
  | .now => false
  | _ => true

end LeadFile

/-- The file of a lead, each statement by itself. -/
abbrev leadFile : Machine LeadFile ℕ RecalculationOp.Ans := ⟨LeadFile.answer, LeadFile.mayFail⟩

/-! ## The use case -/

inductive RecalculationError where
  /-- A query failed. -/
  | queryFailed
  /-- A date is out of range. -/
  | rangeError
  deriving DecidableEq

namespace Recalculation

abbrev Async (α : Type) := Program RecalculationOp.Ans RecalculationError α

/-- Await a call. -/
abbrev await (op : RecalculationOp) : Async op.Ans := Program.perform op

/-- The three queries of a recalculation. -/
inductive Query where
  | profile
  | connectors
  | signals
  deriving DecidableEq

/-- What the queries have answered. -/
structure Reads where
  profile : Option (OnboardingProfile ℕ) := none
  connectors : List ℕ := []
  signals : List LeadSignal := []

def Reads.facts (reads : Reads) : LeadScoreFacts where
  persona := reads.profile.map (·.persona)
  dueDate := reads.profile.map (·.dueDate)
  workTools := reads.profile.map (·.workTools)
  hasActiveConnector := !reads.connectors.isEmpty
  hasPaywallSignal := reads.signals.any (·.type = .exportPaywallHit)

def read (query : Query) (reads : Reads) : Async Reads := do
  match query with
  | .profile =>
    let profile ← await .findProfile
    return { reads with profile := profile }
  | .connectors =>
    let connectors ← await .findActiveConnectors
    return { reads with connectors := connectors }
  | .signals =>
    let signals ← await .findSignals
    return { reads with signals := signals }

/-- `Promise.all` of the queries, which are answered in some order. -/
def readAll : List Query → Reads → Async Reads
  | [], reads => return reads
  | query :: queries, reads => do
    let reads ← read query reads
    readAll queries reads

def execute (order : List Query) : Async Unit := do
  let computedAt ← await .now
  let reads ← readAll order {}
  match computeLeadScore reads.facts computedAt with
  | none => .throw .rangeError
  | some result => await (.saveIfNewer result computedAt)

/-- A change of a fact, and the order of the answers in the recalculation after it. -/
structure Request where
  change : RecalculationOp
  changes : change.changes = true
  order : List Query
  perm : order.Perm [.profile, .connectors, .signals]

def Request.program (request : Request) : Async Unit := do
  let _ ← await request.change
  execute request.order

end Recalculation

end MemoFlowApi.Leads
