import MemoFlowApi.Planning.Job

/-!
# Planning Failures

The errors a planning job meets, and what is recorded about them.  An error is known by its class
and its message; the classes that the code tells apart by `instanceof` are enumerated and all
others are `other`.
-/

namespace MemoFlowApi.Planning

inductive ErrorKind where
  | planningOutputInvalid
  | planningOutputRejected
  | jobUserInactive
  | jobConsentRequired
  | aiQuotaExceeded
  | aiQuotaUnavailable
  | suggestionGenerationProvider
  | suggestionGenerationRefused
  | suggestionGenerationTruncated
  | suggestionGeneratorRateLimited
  | suggestionGeneratorUnavailable
  | notFound
  | badRequest
  | serviceUnavailable
  | aiQuotaThrottled
  | other
  deriving DecidableEq, Repr

/-- A thrown `Error`. -/
structure AppError where
  kind : ErrorKind
  message : String
  deriving DecidableEq, Repr

def planningFailedMessage : String := "Planning job processing failed"

def userInactiveErrorCode : String := "USER_INACTIVE"

def aiConsentRequiredCode : String := "AI_CONSENT_REQUIRED"

def processingFailedCode : String := "PROCESSING_FAILED"

def planningOutputRejectedError : AppError where
  kind := .planningOutputRejected
  message := "The AI planner returned a result that was rejected"

def jobUserInactiveError : AppError where
  kind := .jobUserInactive
  message := "The account that submitted this job is not active"

def jobConsentRequiredError : AppError where
  kind := .jobConsentRequired
  message := "AI consent is required. Accept the current AI notice to use AI features."

def jobNotFoundError (id : JobId) : AppError where
  kind := .notFound
  message := s!"Planning job {id} not found"

/-- The classes whose messages are fixed and may be shown to clients. -/
def ErrorKind.Typed : ErrorKind → Bool
  | planningOutputInvalid | planningOutputRejected | jobUserInactive | jobConsentRequired
  | aiQuotaExceeded | aiQuotaUnavailable | suggestionGenerationProvider
  | suggestionGenerationRefused | suggestionGenerationTruncated
  | suggestionGeneratorRateLimited | suggestionGeneratorUnavailable => true
  | notFound | badRequest | serviceUnavailable | aiQuotaThrottled | other => false

/-- The message recorded on a failed job. -/
def safeFailureMessage (error : AppError) : String :=
  if error.kind.Typed then error.message else planningFailedMessage

/-- The code recorded on a failed job. -/
def failureErrorCode (error : AppError) : String :=
  match error.kind with
  | .aiQuotaExceeded => "AI_QUOTA_EXCEEDED"
  | .aiQuotaUnavailable => "AI_QUOTA_UNAVAILABLE"
  | .jobUserInactive => userInactiveErrorCode
  | .jobConsentRequired => aiConsentRequiredCode
  | _ => processingFailedCode

/-- Failures that are expected outcomes and are not reported as incidents. -/
def isExpectedFailureCode (code : Option String) : Bool :=
  code = some "AI_QUOTA_EXCEEDED" || code = some userInactiveErrorCode ||
    code = some aiConsentRequiredCode

/-- The HTTP error for a quota failure. -/
def quotaHttpException (error : AppError) : Option AppError :=
  match error.kind with
  | .aiQuotaExceeded => some ⟨.aiQuotaThrottled, error.message⟩
  | .aiQuotaUnavailable => some ⟨.serviceUnavailable, error.message⟩
  | _ => none

end MemoFlowApi.Planning
