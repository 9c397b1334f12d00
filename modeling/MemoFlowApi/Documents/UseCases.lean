import MemoFlowApi.Concurrency.Sequential
import MemoFlowApi.Documents.Ports

/-!
# Document Use Cases

Writing the sections of a document, applying a template to it, and saving and restoring versions.
-/

namespace MemoFlowApi.Documents

open Concurrency Templates

/-! ## Sections -/

def documentNotFound (documentId : DocumentId) : HttpError where
  kind := .notFound
  message := s!"Document {documentId} not found"

def sectionNotFound (sectionId : ℕ) : HttpError where
  kind := .notFound
  message := s!"Section {sectionId} not found"

def getDocument (userId : UserId) (documentId : DocumentId) : Async Document := do
  match ← await (.findDocument documentId) with
  | none => .throw (documentNotFound documentId)
  | some document =>
    if document.userId ≠ userId then
      .throw (documentNotFound documentId)
    else
      return document

def getSection (userId : UserId) (documentId : DocumentId) (sectionId : ℕ) : Async Section := do
  let _ ← getDocument userId documentId
  match ← await (.findSection sectionId) with
  | none => .throw (sectionNotFound sectionId)
  | some row =>
    if row.documentId ≠ documentId then
      .throw (sectionNotFound sectionId)
    else
      return row

structure CreateSectionInput where
  userId : UserId
  documentId : DocumentId
  title : String
  content : String
  status : Option String

def createSection (input : CreateSectionInput) : Async Section := do
  let _ ← getDocument input.userId input.documentId
  let maxOrder ← await (.maxOrder input.documentId)
  let order := maxOrder.getD (-1) + 1
  let row ← await (.createSection input.documentId {
    title := input.title
    content := input.content
    order := order
    status := input.status.getD "draft"
    wordCount := wordCount input.content })
  await (.emit (.sectionCreated input.userId input.documentId row.id))
  return row

structure UpdateSectionInput where
  userId : UserId
  documentId : DocumentId
  sectionId : ℕ
  title : Option String
  content : Option String
  status : Option String

/-- The patch of an update: new content brings its word count. -/
def UpdateSectionInput.patch (input : UpdateSectionInput) : UpdateSectionData where
  title := input.title
  content := input.content
  status := input.status
  wordCount := input.content.map wordCount

def updateSection (input : UpdateSectionInput) : Async Section := do
  let _ ← getSection input.userId input.documentId input.sectionId
  await (.updateSection input.sectionId input.patch)
  match ← await (.findSection input.sectionId) with
  | none => .throw (sectionNotFound input.sectionId)
  | some row =>
    await (.emit (.sectionUpdated input.userId input.documentId row.id row.wordCount))
    return row

def deleteSection (userId : UserId) (documentId : DocumentId) (sectionId : ℕ) : Async Unit := do
  let _ ← getSection userId documentId sectionId
  await (.deleteSection sectionId)

def sectionIdsMismatch : HttpError where
  kind := .badRequest
  message := "sectionIds must be exactly the set of this document’s section ids"

/-- The requested ids are a permutation of the existing ones. -/
def mismatched (existing requested : List ℕ) : Bool :=
  existing.dedup.length ≠ requested.dedup.length || requested.length ≠ existing.length ||
    !existing.all (· ∈ requested)

def reorderSections (userId : UserId) (documentId : DocumentId) (sectionIds : List ℕ) :
    Async (List Section) := do
  let _ ← getDocument userId documentId
  let sections ← await (.findByDocument documentId)
  if mismatched (sections.map (·.id)) sectionIds then
    .throw sectionIdsMismatch
  else
    await (.reorder documentId sectionIds)
    await (.findByDocument documentId)

/-! ## Templates -/

def docTypeMismatch (template document : String) : HttpError where
  kind := .badRequest
  message :=
    s!"Template doc type '{template}' does not match document doc type '{document}'"

/-- Continue with a checked value, or throw. -/
def liftExcept {α : Type} : Except HttpError α → Async α
  | .ok value => return value
  | .error error => .throw error

/-- What an application of a template appends. -/
def Template.appliedSections (template : Template) : List ApplyTemplateSectionData :=
  (template.sections.mergeSort fun a b ↦ a.order ≤ b.order).map fun templateSection ↦
    { title := templateSection.title
      content := ""
      status := "draft"
      wordCount := 0 }

def applyTemplate (userId : UserId) (templateId : TemplateId) (documentId : DocumentId) :
    Async ApplyToDocumentResult := do
  let template ← liftExcept (assertTemplateVisible (← await (.findTemplate templateId)) userId
    templateId)
  match ← await (.findDocument documentId) with
  | none => .throw (documentNotFound documentId)
  | some document =>
    if document.userId ≠ userId then
      .throw (documentNotFound documentId)
    else if template.docType ≠ document.docType then
      .throw (docTypeMismatch template.docType document.docType)
    else
      let appliedAt ← await .now
      await (.applyToDocument ⟨documentId, templateId, appliedAt, Template.appliedSections template⟩)

/-! ## Versions -/

def duplicateKeyError : HttpError where
  kind := .other
  message := "E11000 duplicate key error collection: document_versions"

def validationError : HttpError where
  kind := .other
  message := "DocumentVersionOdmEntity validation failed"

def insertError : HttpError where
  kind := .other
  message := "MongoServerError"

structure CreateDocumentVersionData where
  documentId : DocumentId
  userId : UserId
  label : Option String
  sectionsSnapshot : List SectionData

/-- Insert the next version; `onDuplicate` is what a duplicate key leads to. -/
def createNext (data : CreateDocumentVersionData) (onDuplicate : Async DocumentVersion) :
    Async DocumentVersion := do
  let currentMax ← await (.maxVersion data.documentId)
  let nextVersion := currentMax.getD 0 + 1
  let savedAt ← await .now
  match ← await (.insertVersion {
    documentId := data.documentId
    userId := data.userId
    version := nextVersion
    label := data.label
    sectionsSnapshot := data.sectionsSnapshot
    savedAt := savedAt }) with
  | .stored version => return version
  | .duplicateKey => onDuplicate
  | .invalid => .throw validationError
  | .failed => .throw insertError

/-- A duplicate key is retried once. -/
def createWithRetry (data : CreateDocumentVersionData) : Bool → Async DocumentVersion
  | true => createNext data (.throw duplicateKeyError)
  | false => createNext data (createNext data (.throw duplicateKeyError))

def saveVersion (userId : UserId) (documentId : DocumentId) (label : Option String) :
    Async DocumentVersion := do
  match ← await (.findDocument documentId) with
  | none => .throw (documentNotFound documentId)
  | some document =>
    if document.userId ≠ userId then
      .throw (documentNotFound documentId)
    else
      let sections ← await (.findByDocument documentId)
      createWithRetry ⟨documentId, userId, label, sections.map (·.data)⟩ false

def versionNotFound (versionId : ℕ) : HttpError where
  kind := .notFound
  message := s!"Version {versionId} not found"

def getVersion (userId : UserId) (documentId : DocumentId) (versionId : ℕ) :
    Async DocumentVersion := do
  match ← await (.findDocument documentId) with
  | none => .throw (documentNotFound documentId)
  | some document =>
    if document.userId ≠ userId then
      .throw (documentNotFound documentId)
    else
      match ← await (.findVersion versionId) with
      | none => .throw (versionNotFound versionId)
      | some version =>
        if version.documentId ≠ documentId then
          .throw (versionNotFound versionId)
        else
          return version

/-- The version that was restored and how many sections it has. -/
def restoreVersion (userId : UserId) (documentId : DocumentId) (versionId : ℕ) :
    Async (DocumentVersion × ℕ) := do
  let version ← getVersion userId documentId versionId
  let sectionsRestored ← await (.replaceAll documentId version.sectionsSnapshot)
  return (version, sectionsRestored)

/-! ## Requests -/

inductive Request where
  | create (input : CreateSectionInput)
  | update (input : UpdateSectionInput)
  | delete (userId : UserId) (documentId : DocumentId) (sectionId : ℕ)
  | reorder (userId : UserId) (documentId : DocumentId) (sectionIds : List ℕ)
  | applyTemplate (userId : UserId) (templateId : TemplateId) (documentId : DocumentId)
  | saveVersion (userId : UserId) (documentId : DocumentId) (label : Option String)
  | restoreVersion (userId : UserId) (documentId : DocumentId) (versionId : ℕ)

/-- What a request runs. -/
def Request.program : Request → Async Unit
  | create input => do
    let _ ← createSection input
  | update input => do
    let _ ← updateSection input
  | delete userId documentId sectionId => deleteSection userId documentId sectionId
  | reorder userId documentId sectionIds => do
    let _ ← reorderSections userId documentId sectionIds
  | applyTemplate userId templateId documentId => do
    let _ ← Documents.applyTemplate userId templateId documentId
  | saveVersion userId documentId label => do
    let _ ← Documents.saveVersion userId documentId label
  | restoreVersion userId documentId versionId => do
    let _ ← Documents.restoreVersion userId documentId versionId

end MemoFlowApi.Documents
