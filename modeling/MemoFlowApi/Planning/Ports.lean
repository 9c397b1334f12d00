import MemoFlowApi.Concurrency.Program
import MemoFlowApi.Planning.Failures
import MemoFlowApi.Retrieval.SectionRetriever

/-!
# Ports of the Planning Subsystem

The calls made by the planning use cases and by the queue and broker adapters around them, with
the type of the answer to each.  `Async` is the type of their `async` functions.

Repository methods that issue one query are one call.  `appendResultChunk` issues two and is a
program over them.  Reading the clock, drawing random bytes and emitting an event are calls too,
so every effect of a handler appears in the trace of a run.
-/

namespace MemoFlowApi.Planning

open Concurrency Js Retrieval

def aiNoticeVersion : String := "2026-11-06"

/-- The fields of a user that a worker reads. -/
structure User where
  disabledAt : Option Time
  aiConsentAt : Option Time
  aiConsentVersion : Option String

def User.isDisabled (user : User) : Bool := user.disabledAt.isSome

/-- True only while consent is recorded for the current notice version. -/
def User.hasCurrentAiConsent (user : User) : Bool :=
  user.aiConsentAt.isSome && user.aiConsentVersion = some aiNoticeVersion

/-- An enabled user with current consent. -/
def User.consenting : User where
  disabledAt := none
  aiConsentAt := some 0
  aiConsentVersion := some aiNoticeVersion

structure PromptTexts where
  systemTemplate : String
  userTemplate : String

/-- An active prompt row. -/
structure ActivePrompt where
  version : String
  systemTemplate : String
  template : String

/-- An active connector connection, as far as planning reads it. -/
structure ActiveConnection where
  provider : String
  composioAccountId : Option String

structure ConnectorMcpReference where
  provider : String
  mcpUrl : Option String
  composioAccountId : String

/-- Input of `publishGatherRequest`. -/
structure GatherRequestInput where
  jobId : JobId
  userId : UserId
  prompt : String
  connectors : List ConnectorMcpReference
  requestedAt : Time

structure SectionSearchInput where
  userId : UserId
  documentId : Option String
  sectionId : Option String
  query : String
  limit : ℕ

/-- Input of the planner. -/
structure PlanInput where
  userId : UserId
  prompt : String
  context : JsonObject
  system : Text
  user : Text

/-- Output of the planner. -/
structure PlanningResult where
  suggestions : List String
  outline : Option Json
  sources : List Json
  model : Option String

/-- The `planning.*` events relayed to clients. -/
inductive PlanningEvent where
  | status (jobId : JobId) (userId : UserId) (status : JobStatus)
  | chunk (chunk : ContextResultChunk)
  | completed (jobId : JobId) (userId : UserId) (status : JobStatus)
      (result : Option ResultFields)
  | failed (jobId : JobId) (userId : UserId) (status : JobStatus)
      (errorCode errorMessage : Option String)

/-- A task of the consumer's per-job promise chains. -/
abbrev TaskId := ℕ

/-- The calls of the planning subsystem. -/
inductive Op where
  | create (data : CreatePlanningJobData)
  | findById (id : JobId)
  | updateStatus (id : JobId) (patch : UpdatePlanningJobStatusData)
  | claimForProcessing (id : JobId)
  | claimForGathering (id : JobId)
  | pushResultChunk (id : JobId) (chunk : AppendResultChunkData)
  | claimForPlanning (id : JobId) (contextUsed : JsonObject)
  | failIfStillGathering (id : JobId) (errorCode errorMessage : String)
  | findUserById (id : UserId)
  /-- What the user endpoints do meanwhile. -/
  | storeUser (id : UserId) (user : Option User)
  | findActiveByFeatureType
  | findActiveByUser (userId : UserId)
  | findSectionById (id : String)
  | findDocumentById (id : String)
  | enqueue (jobId : JobId) (userId : UserId)
  | publishGatherRequest (input : GatherRequestInput)
  | scheduleTimeout (jobId : JobId) (delayMs : ℕ)
  | gather (userId : UserId) (connectors : List String) (prompt : String)
  | search (input : SectionSearchInput)
  | plan (input : PlanInput)
  | isAvailable
  | check (userId : UserId)
  | randomBytes
  | now
  | emit (event : PlanningEvent)
  | captureException (message : String) (errorCode : Option String)
  | chain (jobId : JobId)
  | awaitTask (task : Option TaskId)
  | settleTask (jobId : JobId) (task : TaskId)
  | ack
  | nack (requeue : Bool)

/-- The answer to a call.  `chain` appends a task to a job's chain and answers with the task
before it, if the chain was not empty, and the new one. -/
abbrev Ans : Op → Type
  | .create _ => PlanningJob
  | .findById _ | .updateStatus _ _ | .claimForProcessing _ | .claimForGathering _
  | .pushResultChunk _ _ | .claimForPlanning _ _ | .failIfStillGathering _ _ _ =>
      Option PlanningJob
  | .findUserById _ => Option User
  | .findActiveByFeatureType => Option ActivePrompt
  | .findActiveByUser _ => List ActiveConnection
  | .findSectionById _ => Option String
  | .findDocumentById _ => Option UserId
  | .gather _ _ _ => JsonObject
  | .search _ => List RetrievedSection
  | .plan _ => PlanningResult
  | .isAvailable => Bool
  | .randomBytes => String
  | .now => Time
  | .chain _ => Option TaskId × TaskId
  | _ => Unit

/-- An `async` function of the planning subsystem. -/
abbrev Async (α : Type) := Program Ans AppError α

/-- Await a call. -/
abbrev await (op : Op) : Async (Ans op) := Program.perform op

/-- The two queries of `appendResultChunk`: the guarded push, and a read when it did not match. -/
def appendResultChunk (id : JobId) (chunk : AppendResultChunkData) :
    Async AppendResultChunkOutcome := do
  match ← await (.pushResultChunk id chunk) with
  | some job => return { applied := true, job := some job }
  | none =>
    let existing ← await (.findById id)
    return { applied := false, job := existing }

end MemoFlowApi.Planning
