import MemoFlowApi.Concurrency.Program
import MemoFlowApi.Js.JsonText
import MemoFlowApi.Js.Scan

/-!
# Calls of the OpenRouter Gateway

A completion asks the provider, reads the clock and waits.  How numbers and dates are read from a text
is left to the settings.
-/

namespace MemoFlowApi.OpenRouter

open Concurrency Js

/-- The configuration, read lazily. -/
structure Settings where
  apiKey : Option Text
  baseUrl : Option Text
  model : Option Text
  /-- Comma-separated. -/
  fallbackModels : Option Text
  maxTokens : Option ℤ
  timeoutMs : Option ℤ
  /-- A whole number, as the validation of the environment demands. -/
  maxRetries : Option ℤ
  /-- `Number`. -/
  toNumber : Text → Number
  /-- `Date.parse`, in milliseconds. -/
  parseDate : Text → Number

structure LlmJsonSchema where
  name : Text
  schema : JsonValue

/-- A request; its hook is a call of its own. -/
structure LlmCompletionRequest where
  system : Text
  user : Text
  jsonSchema : LlmJsonSchema
  maxTokens : Option ℤ

inductive Role where
  | system
  | user
  | assistant
  deriving DecidableEq

structure ChatMessage where
  role : Role
  content : Text
  deriving DecidableEq

/-- What is posted to the provider. -/
structure ChatRequest where
  url : Text
  apiKey : Option Text
  model : Text
  /-- The `models` of the body; empty if there is none. -/
  models : List Text
  messages : List ChatMessage
  maxTokens : ℤ
  jsonSchema : LlmJsonSchema
  /-- The delay of the abort signal. -/
  timeoutMs : ℤ

structure Response where
  status : ℕ
  /-- The header `retry-after`. -/
  retryAfter : Option Text

def Response.ok (response : Response) : Bool := 200 ≤ response.status && response.status ≤ 299

structure LlmUsage where
  promptTokens : Option ℚ
  completionTokens : Option ℚ
  totalTokens : Option ℚ
  deriving DecidableEq

structure RawCompletion where
  content : Text
  model : Text
  finishReason : Text
  usage : Option LlmUsage

structure LlmCompletion where
  json : JsonValue
  model : Text
  finishReason : Text
  usage : Option LlmUsage

/-- The typed errors of the provider, with their messages. -/
inductive DomainError where
  | unavailable (message : Text)
  | refused (message : Text)
  | truncated (message : Text)
  | rateLimited (message : Text) (retryAfterSeconds : Option ℚ)
  | provider (message : Text)

inductive Retry where
  | rateLimit
  | transient
  | none
  deriving DecidableEq

/-- A failed provider attempt: the typed error to surface, and how it may be retried. -/
structure AttemptFailure where
  domainError : DomainError
  retry : Retry
  retryAfterSeconds : Option ℚ

inductive Thrown where
  | domain (error : DomainError)
  /-- Internal to the gateway. -/
  | attemptFailure (failure : AttemptFailure)
  /-- Any other error: its name, if it is an `Error`, and its message. -/
  | foreign (name : Option Text) (message : Text)

/-- `err instanceof Error ? err.name : 'unknown'`. -/
def Thrown.name : Thrown → Text
  | .domain (.unavailable _) => Text.of "SuggestionGeneratorUnavailableError"
  | .domain (.refused _) => Text.of "SuggestionGenerationRefusedError"
  | .domain (.truncated _) => Text.of "SuggestionGenerationTruncatedError"
  | .domain (.rateLimited _ _) => Text.of "SuggestionGeneratorRateLimitedError"
  | .domain (.provider _) => Text.of "SuggestionGenerationProviderError"
  | .attemptFailure _ => Text.of "AttemptFailure"
  | .foreign name _ => name.getD (Text.of "unknown")

inductive Op where
  /-- The hook of the request. -/
  | beforeAttempt
  /-- `Date.now()`. -/
  | now
  /-- `Math.random()`. -/
  | random
  | sleep (ms : ℚ)
  | fetch (request : ChatRequest)
  /-- `response.text()`. -/
  | readText
  /-- `signal.aborted`. -/
  | aborted

abbrev Ans : Op → Type
  | .beforeAttempt => Unit
  | .now => ℤ
  | .random => ℚ
  | .sleep _ => Unit
  | .fetch _ => Response
  | .readText => Text
  | .aborted => Bool

/-- An `async` function of the gateway. -/
abbrev Async (α : Type) := Program Ans Thrown α

/-- Await a call. -/
abbrev await (op : Op) : Async (Ans op) := Program.perform op

end MemoFlowApi.OpenRouter
