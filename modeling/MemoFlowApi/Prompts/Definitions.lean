import MemoFlowApi.Js.Text

/-!
# Prompt Definitions

The feature types that have a prompt, and the placeholders that their templates may use.
-/

namespace MemoFlowApi.Prompts

open Js

structure PromptDefinition where
  featureType : Text
  /-- A client may run the prompt via the suggestions route. -/
  userInvocable : Bool
  /-- Placeholders that the user template may use. -/
  allowedPlaceholders : List Text
  /-- Placeholder that the user template must contain. -/
  requiredUserPlaceholder : Text
  deriving DecidableEq

/-- The system message may only carry the nonce of the request. -/
def systemTemplatePlaceholders : List Text := [Text.of "nonce"]

def invocablePlaceholders : List Text := [Text.of "content", Text.of "context", Text.of "nonce"]

def planningPlaceholders : List Text := [Text.of "prompt", Text.of "context", Text.of "nonce"]

def invocableDefinition (featureType : Text) : PromptDefinition :=
  ⟨featureType, true, invocablePlaceholders, Text.of "content"⟩

/-- Feature type of the planning prompt. -/
def planningFeatureType : Text := Text.of "planning"

def promptDefinitions : List PromptDefinition :=
  [invocableDefinition (Text.of "suggestion"), invocableDefinition (Text.of "rewrite"),
    invocableDefinition (Text.of "summarize"), invocableDefinition (Text.of "expand"),
    ⟨planningFeatureType, false, planningPlaceholders, Text.of "prompt"⟩]

def promptFeatureTypes : List Text := promptDefinitions.map (·.featureType)

def getPromptDefinition (featureType : Text) : Option PromptDefinition :=
  promptDefinitions.find? (·.featureType = featureType)

/-- The HTTP exceptions of the routes that use prompts. -/
inductive FailureKind where
  | badRequest
  | notFound
  | conflict
  | unprocessableEntity
  | tooManyRequests
  | badGateway
  | serviceUnavailable
  /-- An error that is no HTTP exception. -/
  | other
  deriving DecidableEq

/-- An exception with the code units of its message. -/
structure Failure where
  kind : FailureKind
  message : Text
  deriving DecidableEq

/-- A prompt is run by users or by planning, and its template uses what that run substitutes. -/
theorem promptDefinitions_cases : ∀ definition ∈ promptDefinitions,
    definition.requiredUserPlaceholder ∈ definition.allowedPlaceholders ∧
      definition.allowedPlaceholders =
        (if definition.userInvocable then invocablePlaceholders else planningPlaceholders) ∧
      (definition.userInvocable = true ↔ definition.featureType ≠ planningFeatureType) := by
  decide

theorem mem_of_getPromptDefinition {featureType : Text} {definition : PromptDefinition}
    (h : getPromptDefinition featureType = some definition) :
    definition ∈ promptDefinitions ∧ definition.featureType = featureType :=
  ⟨List.mem_of_find?_eq_some h, by simpa using List.find?_some h⟩

end MemoFlowApi.Prompts
