import MemoFlowApi.Concurrency.Replay
import MemoFlowApi.Documents.Version
import MemoFlowApi.Templates.Template

/-!
# Calls on Documents

The queries and transactions on sections, the queries on the collection of versions and what they
do.  A transaction is one call.  The documents and templates that requests refer to are given.
-/

namespace MemoFlowApi.Documents

open Concurrency Templates

structure Document where
  id : DocumentId
  userId : UserId
  docType : String

/-- A section that a template application appends. -/
structure ApplyTemplateSectionData where
  title : String
  content : String
  status : String
  wordCount : ℕ

structure ApplyToDocumentData where
  documentId : DocumentId
  templateId : TemplateId
  appliedAt : ℕ
  sections : List ApplyTemplateSectionData

/-- A row of `document_templates`. -/
structure DocumentTemplate where
  id : ℕ
  documentId : DocumentId
  templateId : TemplateId
  appliedAt : ℕ
  customised : Bool

structure ApplyToDocumentResult where
  documentTemplate : DocumentTemplate
  sectionsCreated : ℕ

/-- What became of an insert into the collection of versions. -/
inductive InsertResult where
  | stored (version : DocumentVersion)
  | duplicateKey
  | invalid
  | failed

inductive DocumentEvent where
  | sectionCreated (userId : UserId) (documentId : DocumentId) (sectionId : ℕ)
  | sectionUpdated (userId : UserId) (documentId : DocumentId) (sectionId : ℕ) (wordCount : ℕ)

inductive Op where
  | findDocument (id : DocumentId)
  | createSection (documentId : DocumentId) (data : SectionData)
  | findSection (id : ℕ)
  | findByDocument (documentId : DocumentId)
  | updateSection (id : ℕ) (patch : UpdateSectionData)
  | deleteSection (id : ℕ)
  | maxOrder (documentId : DocumentId)
  | reorder (documentId : DocumentId) (orderedIds : List ℕ)
  | replaceAll (documentId : DocumentId) (sections : List SectionData)
  | findTemplate (id : TemplateId)
  | applyToDocument (data : ApplyToDocumentData)
  | findVersion (id : ℕ)
  | maxVersion (documentId : DocumentId)
  | insertVersion (data : NewVersion)
  | now
  | emit (event : DocumentEvent)

abbrev Ans : Op → Type
  | .findDocument _ => Option Document
  | .createSection _ _ => Section
  | .findSection _ => Option Section
  | .findByDocument _ => List Section
  | .updateSection _ _ => Unit
  | .deleteSection _ => Unit
  | .maxOrder _ => Option ℤ
  | .reorder _ _ => Unit
  | .replaceAll _ _ => ℕ
  | .findTemplate _ => Option Template
  | .applyToDocument _ => ApplyToDocumentResult
  | .findVersion _ => Option DocumentVersion
  | .maxVersion _ => Option ℕ
  | .insertVersion _ => InsertResult
  | .now => ℕ
  | .emit _ => Unit

/-- An `async` function on documents. -/
abbrev Async (α : Type) := Program Ans HttpError α

/-- Await a call. -/
abbrev await (op : Op) : Async (Ans op) := Program.perform op

structure Store where
  documents : DocumentId → Option Document
  templates : TemplateId → Option Template
  sections : SectionTable
  applied : List DocumentTemplate
  versions : VersionCollection
  clock : ℕ

/-- A database with one document and neither sections nor versions. -/
def Store.ofDocument (document : Document) : Store where
  documents id := if id = document.id then some document else none
  templates _ := none
  sections := ⟨[], 0, by simp, List.nodup_nil⟩
  applied := []
  versions := ⟨[], List.nodup_nil, rfl⟩
  clock := 0

def ada : UserId := ⟨"ada", by decide⟩

def memo : Document := ⟨⟨"memo", by decide⟩, ada, "note"⟩

/-- The part of an answer that the state does not determine. -/
structure Reply where
  /-- The time since the last reading of the clock. -/
  elapsed : ℕ := 0
  /-- MongoDB refuses an insert for a reason of its own. -/
  refused : Bool := false

/-- The rows of a template application, from the first free order on. -/
def placeFrom (nextOrder : ℤ) : List ApplyTemplateSectionData → List SectionData
  | [] => []
  | first :: rest =>
      ⟨first.title, first.content, nextOrder, first.status, first.wordCount⟩ ::
        placeFrom (nextOrder + 1) rest

/-- The transaction of `applyToDocument`. -/
def Store.applyToDocument (s : Store) (data : ApplyToDocumentData) : ApplyToDocumentResult × Store :=
  let nextOrder := (s.sections.maxOrder data.documentId).getD (-1) + 1
  let sectionEntities := placeFrom nextOrder data.sections
  let documentTemplate : DocumentTemplate :=
    { id := s.applied.length
      documentId := data.documentId
      templateId := data.templateId
      appliedAt := data.appliedAt
      customised := false }
  (⟨documentTemplate, sectionEntities.length⟩,
    { s with
      sections := s.sections.insert data.documentId sectionEntities s.clock
      applied := documentTemplate :: s.applied })

/-- Validators run before the insert; the unique index decides it. -/
def Store.insertVersion (s : Store) (refused : Bool) (data : NewVersion) : InsertResult × Store :=
  if data.Valid = false then
    (.invalid, s)
  else if refused then
    (.failed, s)
  else if fresh : data.key ∉ s.versions.docs.map (·.key) then
    (.stored { data with id := s.versions.docs.length },
      { s with versions := s.versions.insert data fresh })
  else
    (.duplicateKey, s)

/-- The answer to a call and the state it leaves. -/
def answer (reply : Reply) : (op : Op) → Store → Ans op × Store
  | .findDocument id, s => (s.documents id, s)
  | .createSection documentId data, s =>
      (data.create documentId s.sections.generated s.clock,
        { s with sections := s.sections.insert documentId [data] s.clock })
  | .findSection id, s => (s.sections.findById id, s)
  | .findByDocument documentId, s => (s.sections.findByDocument documentId, s)
  | .updateSection id patch, s =>
      ((), { s with sections := s.sections.update (·.id = id) patch s.clock })
  | .deleteSection id, s => ((), { s with sections := s.sections.delete (·.id = id) })
  | .maxOrder documentId, s => (s.sections.maxOrder documentId, s)
  | .reorder documentId orderedIds, s =>
      ((), { s with sections := s.sections.reorder documentId orderedIds s.clock })
  | .replaceAll documentId sections, s =>
      (sections.length, { s with sections := s.sections.replaceAll documentId sections s.clock })
  | .findTemplate id, s => (s.templates id, s)
  | .applyToDocument data, s => s.applyToDocument data
  | .findVersion id, s => (s.versions.findById id, s)
  | .maxVersion documentId, s => (s.versions.maxVersion documentId, s)
  | .insertVersion data, s => s.insertVersion reply.refused data
  | .now, s => (s.clock + reply.elapsed, { s with clock := s.clock + reply.elapsed })
  | .emit _, s => ((), s)

/-- Calls that leave the process may throw.  How an insert of a version fails is part of its
answer. -/
def mayFail : Op → Bool
  | .insertVersion _ | .now | .emit _ => false
  | _ => true

/-- The documents as a machine. -/
abbrev machine : Machine Store Reply Ans := ⟨fun reply op s ↦ some (answer reply op s), mayFail⟩

/-- The world of a system of requests. -/
abbrev world (ι : Type) : World ι Store Ans := machine.world

end MemoFlowApi.Documents
