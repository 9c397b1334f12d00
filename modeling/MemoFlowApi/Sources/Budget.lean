import MemoFlowApi.Prompts.Guards

/-!
# Planning Sources

The sources that a planning prompt shows: each candidate is prepared, cut to what is left of a budget
and written as a numbered block.  Lengths are counted in code units, and the budget is any number.
-/

namespace MemoFlowApi.Sources

open Js Js.Regex Prompts

/-- Longest excerpt of any one source. -/
def maxExcerptChars : ℕ := 4000

/-- Longest title shown for a source. -/
def maxSourceTitleChars : ℕ := 200

/-- Text is cut to this before redaction. -/
def maxPrepareChars : ℕ := 50000

/-- A source is dropped rather than shown with less room than this. -/
def minExcerptChars : ℕ := 100

def ellipsis : Text := Text.of "…"

inductive PlanningSourceType where
  | section
  | connector
  deriving DecidableEq

def PlanningSourceType.text : PlanningSourceType → Text
  | .section => Text.of "section"
  | .connector => Text.of "connector"

/-- A source before budgeting: raw strings, in the words of the user. -/
structure SourceCandidate where
  type : PlanningSourceType
  /-- Section id or provider. -/
  ref : Text
  rawTitle : Text
  rawText : Text
  deriving DecidableEq

structure BudgetedSource where
  id : Text
  type : PlanningSourceType
  title : Text
  ref : Text
  truncated : Bool
  /-- Prepared (redacted, fence-safe) and cut. -/
  excerpt : Text
  rawTitle : Text
  rawText : Text
  deriving DecidableEq

structure BudgetResult where
  sources : List BudgetedSource
  /-- Candidates left out because the budget ran out. -/
  dropped : ℕ
  /-- Rendered blocks. -/
  text : Text

/-! ## Cutting -/

/-- The ends of the last paragraph, line, sentence and word of a text. -/
def boundaries (head : Text) : List ℤ :=
  [lastIndexOf (Text.of "\n\n") head, lastIndexOf (Text.of "\n") head,
    max (max (lastIndexOf (Text.of ". ") head) (lastIndexOf (Text.of "? ") head))
      (lastIndexOf (Text.of "! ") head) + 1,
    lastIndexOf (Text.of " ") head]

/-- Cuts at a paragraph, line, sentence or word boundary when one is in the last half of the allowance,
else hard. -/
def cutAtBoundary (text : Text) (max : Number) : Text :=
  if Number.le text.length max then text
  else
    let room := (max.sub ellipsis.length).max (.finite 0)
    let head := sliceTo text room
    let floor := room.half.floor
    let kept :=
      match (boundaries head).find? fun index ↦ floor.lt (.finite index) with
      | none => head
      | some index => sliceTo head (.finite index)
    trimEnd kept ++ ellipsis

def singleLine (text : Text) : Text :=
  trim (replaceAll (plus (unit isSpace)) (fun _ _ ↦ [unitOf ' ']) text)

/-! ## Budgeting -/

variable (isLetter : CodePoint → Bool)

/-- The text of a candidate, prepared before any cut that decides what is shown. -/
def prepared (candidate : SourceCandidate) : Text :=
  trim (prepareUntrustedText isLetter (candidate.rawText.take maxPrepareChars))

def shownTitle (candidate : SourceCandidate) : Text :=
  cutAtBoundary (singleLine (prepareUntrustedText isLetter candidate.rawTitle)) maxSourceTitleChars

def sourceId (number : ℕ) : Text := unitOf 'S' :: decimal number

def header (id : Text) (type : PlanningSourceType) (title : Text) : Text :=
  Text.of "[" ++ id ++ Text.of "] " ++ type.text ++ Text.of ": " ++ title ++ Text.of "\n"

/-- The sources so far and what is left of the budget. -/
structure Budgeting where
  sources : List BudgetedSource
  blocks : List Text
  remaining : Number
  dropped : ℕ

namespace Budgeting

def start (maxChars : Number) : Budgeting := ⟨[], [], maxChars, 0⟩

def separator (state : Budgeting) : ℕ := if state.blocks = [] then 0 else 2

/-- The header of a candidate that is shown next. -/
def nextHeader (state : Budgeting) (candidate : SourceCandidate) : Text :=
  header (sourceId (state.sources.length + 1)) candidate.type (shownTitle isLetter candidate)

/-- What is left for the excerpt of a candidate. -/
def room (state : Budgeting) (candidate : SourceCandidate) : Number :=
  (state.remaining.sub state.separator).sub (state.nextHeader isLetter candidate).length

/-- There is no useful room for a candidate. -/
def drops (state : Budgeting) (candidate : SourceCandidate) : Bool :=
  (state.room isLetter candidate).lt
    ((min minExcerptChars (prepared isLetter candidate).length : ℕ) : Number)

def excerpt (state : Budgeting) (candidate : SourceCandidate) : Text :=
  cutAtBoundary (prepared isLetter candidate)
    (Number.min (maxExcerptChars : ℕ) (state.room isLetter candidate))

/-- The source that a candidate is shown as next. -/
def shown (state : Budgeting) (candidate : SourceCandidate) : BudgetedSource where
  id := sourceId (state.sources.length + 1)
  type := candidate.type
  title := shownTitle isLetter candidate
  ref := candidate.ref
  truncated := state.excerpt isLetter candidate ≠ prepared isLetter candidate ||
    maxPrepareChars < candidate.rawText.length
  excerpt := state.excerpt isLetter candidate
  rawTitle := candidate.rawTitle
  rawText := candidate.rawText

@[simp]
theorem shown_id (state : Budgeting) (candidate : SourceCandidate) :
    (state.shown isLetter candidate).id = sourceId (state.sources.length + 1) := by
  simp only [shown]

@[simp]
theorem shown_title (state : Budgeting) (candidate : SourceCandidate) :
    (state.shown isLetter candidate).title = shownTitle isLetter candidate := by
  simp only [shown]

@[simp]
theorem shown_excerpt (state : Budgeting) (candidate : SourceCandidate) :
    (state.shown isLetter candidate).excerpt = state.excerpt isLetter candidate := by
  simp only [shown]

def block (state : Budgeting) (candidate : SourceCandidate) : Text :=
  state.nextHeader isLetter candidate ++ state.excerpt isLetter candidate

def use (state : Budgeting) (candidate : SourceCandidate) : Budgeting where
  sources := state.sources ++ [state.shown isLetter candidate]
  blocks := state.blocks ++ [state.block isLetter candidate]
  remaining := state.remaining.sub
    (state.separator + (state.block isLetter candidate).length : ℕ)
  dropped := state.dropped

@[simp]
theorem use_sources (state : Budgeting) (candidate : SourceCandidate) :
    (state.use isLetter candidate).sources =
      state.sources ++ [state.shown isLetter candidate] := rfl

@[simp]
theorem use_blocks (state : Budgeting) (candidate : SourceCandidate) :
    (state.use isLetter candidate).blocks = state.blocks ++ [state.block isLetter candidate] := rfl

@[simp]
theorem use_remaining (state : Budgeting) (candidate : SourceCandidate) :
    (state.use isLetter candidate).remaining = state.remaining.sub
      (state.separator + (state.block isLetter candidate).length : ℕ) := rfl

@[simp]
theorem use_dropped (state : Budgeting) (candidate : SourceCandidate) :
    (state.use isLetter candidate).dropped = state.dropped := rfl

/-- One round of the loop over the candidates. -/
def next (state : Budgeting) (candidate : SourceCandidate) : Budgeting :=
  if prepared isLetter candidate = [] then state
  else if state.drops isLetter candidate then { state with dropped := state.dropped + 1 }
  else state.use isLetter candidate

def run (state : Budgeting) (candidates : List SourceCandidate) : Budgeting :=
  candidates.foldl (next isLetter) state

@[simp]
theorem run_nil (state : Budgeting) : state.run isLetter [] = state := rfl

theorem run_cons (state : Budgeting) (candidate : SourceCandidate)
    (candidates : List SourceCandidate) :
    state.run isLetter (candidate :: candidates) =
      (state.next isLetter candidate).run isLetter candidates := by
  simp only [run, List.foldl_cons]

end Budgeting

def budgetSources (candidates : List SourceCandidate) (maxChars : Number) : BudgetResult :=
  let state := (Budgeting.start maxChars).run isLetter candidates
  ⟨state.sources, state.dropped, join (Text.of "\n\n") state.blocks⟩

end MemoFlowApi.Sources
