import MemoFlowApi.Concurrency.Sessions
import MemoFlowApi.Sql.Tables
import MemoFlowApi.Sql.Transactions
import MemoFlowApi.Templates.Template

/-!
# Calls on Templates

The statements on `templates` and `template_sections`, each within the transaction of its caller or
by itself, and what they do.  The row lock of a template is all that keeps two updates of it apart.
-/

namespace MemoFlowApi.Templates

open Concurrency Sql

/-- A row of `templates`. -/
structure TemplateRow where
  title : String
  docType : String
  scope : String
  createdBy : Option UserId
  styleConfig : Option JsonObject
  isPublished : Bool

/-- A row of `template_sections`. -/
structure TemplateSectionRow where
  templateId : TemplateId
  data : TemplateSectionData

inductive Key where
  | template (id : TemplateId)
  | templateSection (id : ℕ)
  deriving DecidableEq

abbrev Row : Key → Type
  | .template _ => TemplateRow
  | .templateSection _ => TemplateSectionRow

abbrev Store (ι : Type) := Tables ι Key Row

structure CreateTemplateData where
  title : String
  docType : String
  scope : String
  createdBy : Option UserId
  styleConfig : Option JsonObject
  isPublished : Bool
  sections : List TemplateSectionData

structure UpdateTemplateData where
  title : Option String := none
  docType : Option String := none
  scope : Option String := none
  styleConfig : Option JsonObject := none
  isPublished : Option Bool := none
  /-- When present, these replace all of the template's sections. -/
  sections : Option (List TemplateSectionData) := none

inductive TemplateEvent where
  | created (userId : UserId) (templateId : TemplateId)
  | updated (userId : UserId) (templateId : TemplateId) (changedFields : List String)
  | published (userId : UserId) (templateId : TemplateId)
  | unpublished (userId : UserId) (templateId : TemplateId)

/-- What a use case on templates may throw. -/
inductive TemplateError where
  | http (error : HttpError)
  /-- `TemplatePublishedError`. -/
  | templatePublished
  /-- A statement failed. -/
  | queryFailed
  deriving DecidableEq

inductive Op where
  | startTransaction
  | commitTransaction
  | rollbackTransaction
  | findTemplate (id : TemplateId)
  | findSections (templateId : TemplateId)
  /-- `SELECT … FOR UPDATE`. -/
  | lockTemplate (id : TemplateId)
  | insertTemplate (row : TemplateRow)
  | updateTemplate (id : TemplateId) (row : TemplateRow)
  | deleteSections (templateId : TemplateId)
  | insertSections (templateId : TemplateId) (sections : List TemplateSectionData)
  | emit (event : TemplateEvent)

abbrev Ans : Op → Type
  | .startTransaction => Unit
  | .commitTransaction => Unit
  | .rollbackTransaction => Unit
  | .findTemplate _ => Option TemplateRow
  | .findSections _ => List TemplateSectionData
  | .lockTemplate _ => Option TemplateRow
  | .insertTemplate _ => TemplateId
  | .updateTemplate _ _ => Unit
  | .deleteSections _ => Unit
  | .insertSections _ _ => List TemplateSectionData
  | .emit _ => Unit

/-- The ends of a transaction. -/
abbrev boundary : Boundary Op := ⟨.startTransaction, .commitTransaction, .rollbackTransaction⟩

/-- An `async` function on templates. -/
abbrev Async (α : Type) := Program Ans TemplateError α

/-- Await a call. -/
abbrev await (op : Op) : Async (Ans op) := Program.perform op

/-- The part of an answer that the tables do not determine: generated ids. -/
structure Reply where
  templateId : TemplateId := ⟨"template", by decide⟩
  sectionIds : List ℕ := []

section Answers

variable {ι : Type} [DecidableEq ι]

/-- A section of a template. -/
def ofTemplate (templateId : TemplateId) : (key : Key) → Row key → Bool
  | .template _, _ => false
  | .templateSection _, row => row.templateId = templateId

/-- The data of the sections under given keys. -/
def sectionData (s : Store ι) (i : ι) (keys : List Key) : List TemplateSectionData :=
  keys.filterMap fun
    | .template _ => none
    | .templateSection id => (s.view i (.templateSection id)).map (·.data)

/-- Insert sections under fresh ids. -/
def insertSections (i : ι) (templateId : TemplateId) :
    List ℕ → List TemplateSectionData → Store ι → Option (Store ι)
  | _, [], s => some s
  | [], _ :: _, _ => none
  | id :: ids, data :: sections, s =>
      if .templateSection id ∈ s.keys then none
      else (s.put i (.templateSection id) .update LockMode.writes_update
        (some ⟨templateId, data⟩)).bind fun s' ↦ insertSections i templateId ids sections s'

/-- Lock the row of a template, if there is one, and read it. -/
def lockTemplate (i : ι) (id : TemplateId) (s : Store ι) : Option (Option TemplateRow × Store ι) :=
  if s.view i (.template id) = none then some (none, s)
  else if grants : s.Grants i (.template id) .update then
    some (s.view i (.template id), s.lock i (.template id) .update grants)
  else none

/-- Insert a template under a fresh id. -/
def insertTemplate (i : ι) (id : TemplateId) (row : TemplateRow) (s : Store ι) : Option (Store ι) :=
  if .template id ∈ s.keys then none
  else s.put i (.template id) .update LockMode.writes_update (some row)

/-- The answer to a call and the state it leaves.  A call that waits for a lock has none. -/
def answer (i : ι) (reply : Reply) : (op : Op) → Store ι → Option (Ans op × Store ι)
  | .startTransaction, s => some ((), s)
  | .commitTransaction, s => some ((), s.commit i)
  | .rollbackTransaction, s => some ((), s.rollback i)
  | .findTemplate id, s => some (s.view i (.template id), s)
  | .findSections templateId, s =>
      some ((sectionData s i (s.scan i (ofTemplate templateId))).mergeSort fun a b ↦
        a.order ≤ b.order, s)
  | .lockTemplate id, s => lockTemplate i id s
  | .insertTemplate row, s =>
      (insertTemplate i reply.templateId row s).map fun s' ↦ (reply.templateId, s')
  | .updateTemplate id row, s =>
      (s.put i (.template id) .noKeyUpdate LockMode.writes_noKeyUpdate (some row)).map
        fun s' ↦ ((), s')
  | .deleteSections templateId, s =>
      (s.deleteAll i (s.scan i (ofTemplate templateId))).map fun s' ↦ ((), s')
  | .insertSections templateId sections, s =>
      (insertSections i templateId reply.sectionIds sections s).map fun s' ↦ (sections, s')
  | .emit _, s => some ((), s)

/-- Statements may fail; what became of the end of a transaction is known. -/
def mayFail : Op → Bool
  | .commitTransaction | .rollbackTransaction | .emit _ => false
  | _ => true

/-- The tables as sessions. -/
abbrev sessions (ι : Type) [DecidableEq ι] : Sessions ι (Store ι) Reply Ans := ⟨answer, mayFail⟩

/-- The world of a system of requests. -/
abbrev world (ι : Type) [DecidableEq ι] : World ι (Store ι) Ans := (sessions ι).world

end Answers

end MemoFlowApi.Templates
