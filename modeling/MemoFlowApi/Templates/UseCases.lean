import MemoFlowApi.Templates.Ports

/-!
# Template Use Cases

Creating and updating templates.
-/

namespace MemoFlowApi.Templates

open Concurrency

/-! ## The repository -/

def toDomain (id : TemplateId) (row : TemplateRow) (sections : List TemplateSectionData) :
    Template where
  id := id
  title := row.title
  docType := row.docType
  scope := row.scope
  createdBy := row.createdBy
  styleConfig := row.styleConfig
  isPublished := row.isPublished
  sections := sections.mergeSort fun a b ↦ a.order ≤ b.order

def CreateTemplateData.row (data : CreateTemplateData) : TemplateRow where
  title := data.title
  docType := data.docType
  scope := data.scope
  createdBy := data.createdBy
  styleConfig := data.styleConfig
  isPublished := data.isPublished

/-- Insert the sections of a template; an empty list needs no statement. -/
def saveSections (id : TemplateId) (sections : List TemplateSectionData) :
    Async (List TemplateSectionData) :=
  if sections = [] then return [] else await (.insertSections id sections)

def createInTransaction (data : CreateTemplateData) : Async Template := do
  let id ← await (.insertTemplate data.row)
  let sections ← saveSections id data.sections
  return toDomain id data.row sections

def create (data : CreateTemplateData) : Async Template :=
  boundary.transaction fun _ ↦ createInTransaction data

def findById (id : TemplateId) : Async (Option Template) := do
  match ← await (.findTemplate id) with
  | none => return none
  | some row =>
    let sections ← await (.findSections id)
    return some (toDomain id row sections)

/-- A row with the given fields of a patch. -/
def TemplateRow.merge (row : TemplateRow) (patch : UpdateTemplateData) : TemplateRow where
  title := patch.title.getD row.title
  docType := patch.docType.getD row.docType
  scope := patch.scope.getD row.scope
  createdBy := row.createdBy
  styleConfig := patch.styleConfig <|> row.styleConfig
  isPublished := patch.isPublished.getD row.isPublished

/-- Replace the sections of a template if there are new ones. -/
def replaceSections (id : TemplateId) : Option (List TemplateSectionData) →
    Async (List TemplateSectionData)
  | none => await (.findSections id)
  | some sections => do
    await (.deleteSections id)
    saveSections id sections

def updateInTransaction (id : TemplateId) (patch : UpdateTemplateData) (onlyIfUnpublished : Bool) :
    Async Template := do
  match ← await (.lockTemplate id) with
  | none => .throw (.http (templateNotFound id))
  | some locked =>
    if onlyIfUnpublished && locked.isPublished then
      .throw .templatePublished
    else
      match ← await (.findTemplate id) with
      | none => .throw (.http (templateNotFound id))
      | some entity =>
        let row := entity.merge patch
        await (.updateTemplate id row)
        let sections ← replaceSections id patch.sections
        return toDomain id row sections

def update (id : TemplateId) (patch : UpdateTemplateData) (onlyIfUnpublished : Bool) :
    Async Template :=
  boundary.transaction fun _ ↦ updateInTransaction id patch onlyIfUnpublished

/-! ## The use cases -/

/-- A section of a request. -/
structure TemplateSectionInput where
  title : String
  order : ℤ
  wordCountMin : ℤ
  wordCountMax : ℤ
  isRequired : Option Bool := none
  keyPoints : Option (List String) := none
  guidance : Option String := none

def toTemplateSectionData (input : TemplateSectionInput) : TemplateSectionData where
  title := input.title
  order := input.order
  wordCountMin := input.wordCountMin
  wordCountMax := input.wordCountMax
  isRequired := input.isRequired.getD false
  keyPoints := input.keyPoints
  guidance := input.guidance

def onlyAdminPublishes : HttpError where
  kind := .forbidden
  message := "Only an admin can publish a template"

def onlyAdminModifiesPublished : HttpError where
  kind := .forbidden
  message := "Only an admin can modify a published template"

structure CreateTemplateInput where
  userId : UserId
  role : UserRole
  title : String
  docType : String
  scope : String
  styleConfig : Option JsonObject
  isPublished : Option Bool
  sections : List TemplateSectionInput

def CreateTemplateInput.data (input : CreateTemplateInput) : CreateTemplateData where
  title := input.title
  docType := input.docType
  scope := input.scope
  createdBy := some input.userId
  styleConfig := input.styleConfig
  isPublished := input.isPublished.getD false
  sections := input.sections.map toTemplateSectionData

def createTemplate (input : CreateTemplateInput) : Async Template := do
  if input.isPublished = some true ∧ input.role ≠ .admin then
    .throw (.http onlyAdminPublishes)
  else
    let template ← create input.data
    await (.emit (.created input.userId template.id))
    if template.isPublished then
      await (.emit (.published input.userId template.id))
    return template

structure UpdateTemplatePatch where
  title : Option String := none
  docType : Option String := none
  scope : Option String := none
  styleConfig : Option JsonObject := none
  isPublished : Option Bool := none
  sections : Option (List TemplateSectionInput) := none

def UpdateTemplatePatch.data (patch : UpdateTemplatePatch) : UpdateTemplateData where
  title := patch.title
  docType := patch.docType
  scope := patch.scope
  styleConfig := patch.styleConfig
  isPublished := patch.isPublished
  sections := patch.sections.map (·.map toTemplateSectionData)

/-- The fields that a patch gives. -/
def UpdateTemplatePatch.changedFields (patch : UpdateTemplatePatch) : List String :=
  [("title", patch.title.isSome), ("docType", patch.docType.isSome),
    ("scope", patch.scope.isSome), ("styleConfig", patch.styleConfig.isSome),
    ("isPublished", patch.isPublished.isSome), ("sections", patch.sections.isSome)].filterMap
      fun entry ↦ if entry.2 then some entry.1 else none

structure UpdateTemplateInput where
  userId : UserId
  role : UserRole
  templateId : TemplateId
  patch : UpdateTemplatePatch

/-- Continue with a checked value, or throw. -/
def liftExcept {α : Type} : Except HttpError α → Async α
  | .ok value => return value
  | .error error => .throw (.http error)

def updateTemplate (input : UpdateTemplateInput) : Async Template := do
  let template ← findById input.templateId
  let editable ← liftExcept
    (assertTemplateEditable template input.userId input.templateId input.role)
  if input.role ≠ .admin ∧ editable.isPublished then
    .throw (.http onlyAdminModifiesPublished)
  else if input.role ≠ .admin ∧ input.patch.isPublished = some true then
    .throw (.http onlyAdminPublishes)
  else
    match ← (update input.templateId input.patch.data (input.role ≠ .admin)).attempt with
    | .error .templatePublished => .throw (.http onlyAdminModifiesPublished)
    | .error error => .throw error
    | .ok updated =>
      await (.emit (.updated input.userId updated.id input.patch.changedFields))
      if updated.isPublished ≠ editable.isPublished then
        await (.emit (if updated.isPublished then .published input.userId updated.id
          else .unpublished input.userId updated.id))
      return updated

/-! ## Requests -/

inductive Request where
  | create (input : CreateTemplateInput)
  | update (input : UpdateTemplateInput)

/-- The role of the user who makes a request. -/
def Request.role : Request → UserRole
  | create input => input.role
  | update input => input.role

def Request.program : Request → Async Template
  | create input => createTemplate input
  | update input => updateTemplate input

end MemoFlowApi.Templates
