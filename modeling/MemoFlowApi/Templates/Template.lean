import Mathlib.Data.Int.Notation
import MemoFlowApi.HttpError
import MemoFlowApi.Json
import MemoFlowApi.Uuid

/-!
# Templates

A template with its sections, and who may see and edit one.
-/

namespace MemoFlowApi.Templates

abbrev TemplateId := Uuid

abbrev UserId := Uuid

inductive UserRole where
  | user
  | admin
  deriving DecidableEq, Repr

/-- A section of a template as it is written. -/
structure TemplateSectionData where
  title : String
  order : ℤ
  wordCountMin : ℤ
  wordCountMax : ℤ
  isRequired : Bool
  keyPoints : Option (List String)
  guidance : Option String
  deriving DecidableEq

/-- A template.  `createdBy` is `none` for a system template. -/
structure Template where
  id : TemplateId
  title : String
  docType : String
  scope : String
  createdBy : Option UserId
  styleConfig : Option JsonObject
  isPublished : Bool
  sections : List TemplateSectionData

def templateNotFound (templateId : TemplateId) : HttpError where
  kind := .notFound
  message := s!"Template {templateId} not found"

/-- Published templates are visible to everyone, unpublished ones to their creator. -/
def assertTemplateVisible (template : Option Template) (userId : UserId) (templateId : TemplateId) :
    Except HttpError Template :=
  match template with
  | none => .error (templateNotFound templateId)
  | some template =>
    if template.isPublished = false ∧ template.createdBy ≠ some userId then
      .error (templateNotFound templateId)
    else
      .ok template

/-- The creator may edit a template, an admin any template. -/
def assertTemplateEditable (template : Option Template) (userId : UserId) (templateId : TemplateId)
    (role : UserRole) : Except HttpError Template :=
  match template with
  | none => .error (templateNotFound templateId)
  | some template =>
    if role = .admin then
      .ok template
    else if template.createdBy = none ∨ template.createdBy ≠ some userId then
      .error (templateNotFound templateId)
    else
      .ok template

end MemoFlowApi.Templates
