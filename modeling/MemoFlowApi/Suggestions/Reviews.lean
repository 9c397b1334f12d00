import MemoFlowApi.Concurrency.Calls
import MemoFlowApi.Concurrency.Replay
import MemoFlowApi.Suggestions.Ports

/-!
# Reviewing a Suggestion

A stored suggestion is accepted or rejected by the owner of its section.  The status that a review
reads first may be out of date when it writes, so its `UPDATE` asks for a pending row once more.
Sections, documents and suggestions come and go in the meantime.
-/

namespace MemoFlowApi.Suggestions.Reviews

open Concurrency Js Prompts

inductive SuggestionStatus where
  | pending
  | accepted
  | rejected
  deriving DecidableEq

/-- A row of `ai_suggestions`. -/
structure SuggestionRow extends CreateAiSuggestionData where
  status : SuggestionStatus
  createdAt : ℕ
  updatedAt : ℕ
  deriving DecidableEq

structure AiSuggestion extends SuggestionRow where
  id : Text
  deriving DecidableEq

def toDomain (id : Text) (row : SuggestionRow) : AiSuggestion := ⟨row, id⟩

/-- The payload of `suggestion.reviewed`. -/
structure SuggestionReviewed where
  userId : Text
  suggestionId : Text
  decision : SuggestionStatus
  deriving DecidableEq

inductive Op where
  | findSuggestion (id : Text)
  | findSection (id : Text)
  | findDocument (id : Text)
  | markReviewed (id : Text) (status : SuggestionStatus)
  | emit (event : SuggestionReviewed)
  | createSuggestion (data : CreateAiSuggestionData)
  | createSection (documentId content : Text)
  | updateSection (id content : Text)
  | deleteSection (id : Text)
  | createDocument (document : Document)
  | updateDocument (id title : Text)
  | deleteDocument (id : Text)

abbrev Ans : Op → Type
  | .findSuggestion _ => Option AiSuggestion
  | .findSection _ => Option Section
  | .findDocument _ => Option Document
  | .markReviewed _ _ => Option AiSuggestion
  | .emit _ => Unit
  | .createSuggestion _ => Text
  | .createSection _ _ => Text
  | .updateSection _ _ => Unit
  | .deleteSection _ => Unit
  | .createDocument _ => Text
  | .updateDocument _ _ => Unit
  | .deleteDocument _ => Unit

/-- An `async` function on stored suggestions. -/
abbrev Async (α : Type) := Program Ans Thrown α

/-- Await a statement.  One that fails rejects with the error of the database. -/
def await (op : Op) : Async (Ans op) := do
  match ← (Program.perform op : Async (Ans op)).attempt with
  | .ok answer => return answer
  | .error _ => .throw .queryFailed

/-! ## The tables -/

structure SectionRow where
  documentId : Text
  content : Text

structure Store where
  /-- The ids that were generated. -/
  ids : List Text
  suggestions : Text → Option SuggestionRow
  sections : Text → Option SectionRow
  documents : Text → Option Document

/-- The user who owns a section. -/
def Store.owner (s : Store) (sectionId : Text) : Option Text :=
  (s.sections sectionId).bind fun found ↦ (s.documents found.documentId).map (·.userId)

/-- What the tables do not determine: the clock and generated ids. -/
structure Reply where
  now : ℕ := 0
  id : Text := []

/-- The row after a review. -/
def SuggestionRow.reviewed (row : SuggestionRow) (status : SuggestionStatus) (now : ℕ) :
    SuggestionRow :=
  { row with status := status, updatedAt := now }

/-- `UPDATE … SET status, updated_at = now() WHERE id = … AND status = 'pending' RETURNING *`. -/
def markReviewed (now : ℕ) (id : Text) (status : SuggestionStatus) (s : Store) :
    Option AiSuggestion × Store :=
  match (s.suggestions id).filter (·.status = .pending) with
  | none => (none, s)
  | some row =>
    (some (toDomain id (row.reviewed status now)),
      { s with suggestions := Function.update s.suggestions id (some (row.reviewed status now)) })

/-- A section that is deleted takes its suggestions with it. -/
def deleteSection (id : Text) (s : Store) : Store :=
  { s with
    sections := Function.update s.sections id none
    suggestions := fun key ↦ (s.suggestions key).filter (·.sectionId ≠ id) }

/-- A document that is deleted takes its sections and their suggestions with it. -/
def deleteDocument (id : Text) (s : Store) : Store :=
  { s with
    documents := Function.update s.documents id none
    sections := fun key ↦ (s.sections key).filter (·.documentId ≠ id)
    suggestions := fun key ↦ (s.suggestions key).filter fun row ↦
      (s.sections row.sectionId).all (·.documentId ≠ id) }

/-- Use a fresh id. -/
def insert (id : Text) (s : Store) (change : Store → Store) : Option (Text × Store) :=
  if id ∈ s.ids then none else some (id, change { s with ids := id :: s.ids })

def createSuggestion (reply : Reply) (data : CreateAiSuggestionData) (s : Store) :
    Option (Text × Store) :=
  if s.sections data.sectionId = none then none
  else insert reply.id s fun s' ↦ { s' with
    suggestions := Function.update s'.suggestions reply.id
      (some ⟨data, .pending, reply.now, reply.now⟩) }

def createSection (id documentId content : Text) (s : Store) : Option (Text × Store) :=
  if s.documents documentId = none then none
  else insert id s fun s' ↦ { s' with
    sections := Function.update s'.sections id (some ⟨documentId, content⟩) }

def createDocument (id : Text) (document : Document) (s : Store) : Option (Text × Store) :=
  insert id s fun s' ↦ { s' with documents := Function.update s'.documents id (some document) }

def updateSection (id content : Text) (s : Store) : Store :=
  { s with
    sections := Function.update s.sections id
      ((s.sections id).map fun row ↦ { row with content := content }) }

def updateDocument (id title : Text) (s : Store) : Store :=
  { s with
    documents := Function.update s.documents id
      ((s.documents id).map fun document ↦ { document with title := title }) }

/-- The answer to a statement.  One that breaks a foreign key has none. -/
def answer (reply : Reply) : (op : Op) → Store → Option (Ans op × Store)
  | .findSuggestion id, s => some ((s.suggestions id).map (toDomain id), s)
  | .findSection id, s =>
      some ((s.sections id).map fun row ↦ ⟨id, row.documentId, row.content⟩, s)
  | .findDocument id, s => some (s.documents id, s)
  | .markReviewed id status, s => some (markReviewed reply.now id status s)
  | .emit _, s => some ((), s)
  | .createSuggestion data, s => createSuggestion reply data s
  | .createSection documentId content, s => createSection reply.id documentId content s
  | .updateSection id content, s => some ((), updateSection id content s)
  | .deleteSection id, s => some ((), deleteSection id s)
  | .createDocument document, s => createDocument reply.id document s
  | .updateDocument id title, s => some ((), updateDocument id title s)
  | .deleteDocument id, s => some ((), deleteDocument id s)

/-- Statements may fail; an event has no listener that throws at once. -/
def mayFail : Op → Bool
  | .emit _ => false
  | _ => true

/-- The tables, each statement by itself. -/
abbrev machine : Machine Store Reply Ans := ⟨answer, mayFail⟩

/-! ## The use case -/

/-- The decisions of a review. -/
inductive Decision where
  | accepted
  | rejected
  deriving DecidableEq

def Decision.status : Decision → SuggestionStatus
  | accepted => .accepted
  | rejected => .rejected

structure ReviewSuggestionInput where
  userId : Text
  suggestionId : Text
  status : Decision

def suggestionNotFound (id : Text) : Text := Text.of "Suggestion " ++ id ++ Text.of " not found"

def alreadyReviewed (id : Text) : Text :=
  Text.of "Suggestion " ++ id ++ Text.of " has already been reviewed"

def execute (input : ReviewSuggestionInput) : Async AiSuggestion := do
  match ← await (.findSuggestion input.suggestionId) with
  | none => fail .notFound (suggestionNotFound input.suggestionId)
  | some suggestion =>
    let _ ← assertSectionOwnedByUser (fun id ↦ await (.findSection id))
      (fun id ↦ await (.findDocument id)) input.userId suggestion.sectionId
    if suggestion.status ≠ .pending then fail .conflict (alreadyReviewed input.suggestionId)
    else
      match ← await (.markReviewed input.suggestionId input.status.status) with
      | none => fail .conflict (alreadyReviewed input.suggestionId)
      | some reviewed =>
        await (.emit ⟨input.userId, reviewed.id, reviewed.status⟩)
        return reviewed

/-- The calls of all other requests. -/
def Elsewhere : Op → Prop
  | .markReviewed _ _ => False
  | .emit _ => False
  | _ => True

/-- A review, or any other work on the tables. -/
inductive Request where
  | review (input : ReviewSuggestionInput)
  | other (work : Async AiSuggestion) (elsewhere : work.Only Elsewhere)

def Request.program : Request → Async AiSuggestion
  | review input => execute input
  | other work _ => work

end MemoFlowApi.Suggestions.Reviews
