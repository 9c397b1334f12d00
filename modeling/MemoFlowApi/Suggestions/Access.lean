import MemoFlowApi.Concurrency.Program
import MemoFlowApi.Prompts.Admission
import Mathlib.Data.Rat.Init

/-!
# Access to a Section

The suggestions of a section are for the user who owns its document.  Everybody else is told that
there is no such section.
-/

namespace MemoFlowApi.Suggestions

open Concurrency Js Prompts

structure Section where
  id : Text
  documentId : Text
  content : Text

structure Document where
  userId : Text
  title : Text

/-- What is thrown: the errors of the generator, of the quota and of the database, and the HTTP
exceptions. -/
inductive Thrown where
  | http (failure : Failure)
  /-- `AiQuotaThrottledException`. -/
  | throttled (message : Text) (retryAfterSeconds : ℕ)
  | quotaExceeded (message : Text) (retryAfterSeconds : ℕ)
  | quotaUnavailable (message : Text)
  | unavailable (message : Text)
  | refused (message : Text)
  | truncated (message : Text)
  | rateLimited (message : Text) (retryAfterSeconds : Option ℚ)
  | provider (message : Text)
  /-- A statement failed. -/
  | queryFailed
  | other
  deriving DecidableEq

section

variable {Op : Type} {Ans : Op → Type} {α : Type}

def fail (kind : FailureKind) (message : Text) : Program Ans Thrown α := .throw (.http ⟨kind, message⟩)

def sectionNotFound (sectionId : Text) : Text := Text.of "Section " ++ sectionId ++ Text.of " not found"

/-- A section is only usable by the user who owns its document. -/
def assertSectionOwnedByUser (findSection : Text → Program Ans Thrown (Option Section))
    (findDocument : Text → Program Ans Thrown (Option Document)) (userId sectionId : Text) :
    Program Ans Thrown Section := do
  match ← findSection sectionId with
  | none => fail .notFound (sectionNotFound sectionId)
  | some found =>
    match ← findDocument found.documentId with
    | none => fail .notFound (sectionNotFound sectionId)
    | some document =>
      if document.userId ≠ userId then fail .notFound (sectionNotFound sectionId) else return found

end

end MemoFlowApi.Suggestions
