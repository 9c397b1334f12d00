import MemoFlowApi.Planning.Store
import MemoFlowApi.Planning.UseCases

/-!
# Queue and Broker Adapters

The handlers that run the use cases: the BullMQ processors with their attempts, the consumer of
`ctx.gather.results` with its per-job promise chains, the submit endpoint, and the user endpoints
as far as they change what a worker reads about a user.  A system is a family of handlers over an
arbitrary index type, so it covers every number and timing of requests, deliveries, redeliveries
and stalled retries.
-/

namespace MemoFlowApi.Planning

open Concurrency

variable (texts : PlanningTexts)

/-! ## PlanningProcessor -/

/-- The payload of a job in the `planning` queue. -/
structure QueueJob where
  jobId : JobId
  userId : UserId

/-- The outcome event of a finished job, after reporting a failure that is an incident. -/
def announceOutcome (jobId : JobId) (userId : UserId) (job : PlanningJob) : Async Unit := do
  if job.status = .completed then
    await (.emit (.completed jobId userId job.status job.result))
  else if job.status = .failed then
    if ¬ isExpectedFailureCode job.errorCode then
      await (.captureException (job.errorMessage.getD "Planning job failed") job.errorCode)
    await (.emit (.failed jobId userId job.status job.errorCode job.errorMessage))

/-- Announce what an attempt did; a no-op announces nothing. -/
def announceProcessed (job : QueueJob) (result : ProcessPlanningJobResult) : Async Unit := do
  if result.processed then
    await (.emit (.status job.jobId job.userId
      (if result.job.status = .gathering then .gathering else .running)))
    announceOutcome job.jobId job.userId result.job

/-- The announcement of the `catch` block: the attempt threw. -/
def processingFailed (job : QueueJob) : PlanningEvent :=
  .failed job.jobId job.userId .failed (some processingFailedCode) (some planningFailedMessage)

/-- One attempt of the worker at a queued job. -/
def planningProcessor (config : WorkerConfig) (job : QueueJob) : Async Unit := do
  let attempted ← Program.attempt do
    let result ← processPlanningJob texts config job.jobId
    announceProcessed job result
  match attempted with
  | .ok () => return ()
  | .error error =>
    await (.emit (processingFailed job))
    .throw error

/-- A queued job is attempted until an attempt succeeds or none is left. -/
def bullmqAttempts : ℕ → Async Unit → Async Unit
  | 0, _ => return ()
  | attempts + 1, process => do
    match ← process.attempt with
    | .ok () => return ()
    | .error _ => bullmqAttempts attempts process

/-- The `attempts` option of the `planning` queue. -/
def planningAttempts : ℕ := 3

/-! ## GatherTimeoutProcessor -/

def gatherTimeoutProcessor (jobId : JobId) : Async Unit := do
  let result ← handleGatherTimeout jobId
  match result.timedOut, result.job with
  | true, some job =>
    await (.captureException (job.errorMessage.getD "Planning job timed out") job.errorCode)
    await (.emit (.failed job.id job.userId job.status job.errorCode job.errorMessage))
  | _, _ => return ()

/-- The `attempts` option of the gather timeout queue. -/
def gatherTimeoutAttempts : ℕ := 5

/-! ## ContextResultsConsumer -/

/-- Report a job this call failed, unless its code is an expected outcome. -/
def reportFailed (result : HandleContextResultChunkResult) : Async Unit := do
  match result.job with
  | none => return ()
  | some job =>
    if result.terminal ∧ job.status = .failed ∧ ¬ isExpectedFailureCode job.errorCode then
      await (.captureException (job.errorMessage.getD "Context result chunk failed")
        job.errorCode)

/-- Relay an applied chunk to clients. -/
def relay (chunk : ContextResultChunk) (result : HandleContextResultChunkResult) : Async Unit := do
  match result.job with
  | none => return ()
  | some job =>
    if ¬ result.terminal then
      await (.emit (.chunk chunk))
    else
      match chunk.body with
      | .status status =>
        if status.phase = .completed then
          await (.emit (.status job.id job.userId .planning))
      | .data _ => pure ()
      if job.status = .completed then
        await (.emit (.completed job.id job.userId job.status job.result))
      else if job.status = .failed then
        await (.emit (.failed job.id job.userId job.status job.errorCode job.errorMessage))

/-- Settle a message whose chunk was handled. -/
def settleMessage (chunk : ContextResultChunk) (result : HandleContextResultChunkResult) :
    Async Unit := do
  reportFailed result
  if result.outcome = .unknownJob ∨ result.outcome = .ownershipMismatch then
    await (.nack false)
  else
    if result.outcome = .applied then
      relay chunk result
    await .ack

/-- Handle one chunk; an exception requeues its message. -/
def handleParsedChunk (chunk : ContextResultChunk) : Async Unit := do
  let handled ← Program.attempt do
    let result ← handleContextResultChunk texts chunk
    settleMessage chunk result
  match handled with
  | .ok () => return ()
  | .error _ => await (.nack true)

/-- Run `work` after every task queued before it for the job.  Never rejects. -/
def runInJobOrder (jobId : JobId) (work : Async Unit) : Async Unit := do
  let (previous, task) ← await (.chain jobId)
  await (.awaitTask previous)
  let _ ← work.attempt
  await (.settleTask jobId task)

/-- Handle one delivery.  A message that is not a valid chunk is dead-lettered. -/
def onMessage : Option ContextResultChunk → Async Unit
  | none => await (.nack false)
  | some chunk => runInJobOrder chunk.jobId (handleParsedChunk texts chunk)

/-! ## Systems -/

/-- One activity of a system. -/
inductive Handler where
  | submit (input : SubmitPlanningJobInput)
  | worker (config : WorkerConfig) (job : QueueJob)
  | message (chunk : Option ContextResultChunk)
  | gatherTimeout (jobId : JobId)
  | storeUser (id : UserId) (user : Option User)

/-- What a handler runs. -/
def Handler.program : Handler → Async Unit
  | submit input => do
    let _ ← submitPlanningJob input
  | worker config job => bullmqAttempts planningAttempts (planningProcessor texts config job)
  | message chunk => onMessage texts chunk
  | gatherTimeout jobId => bullmqAttempts gatherTimeoutAttempts (gatherTimeoutProcessor jobId)
  | storeUser id user => await (.storeUser id user)

/-- The job a handler works on, if it works on a stored one. -/
def Handler.jobId? : Handler → Option JobId
  | worker _ job => some job.jobId
  | message (some chunk) => some chunk.jobId
  | gatherTimeout jobId => some jobId
  | _ => none

/-- The calls of a system, by its handlers, on the planning store. -/
abbrev Call (ι : Type) := Event ι PlanningState Ans AppError

/-- The configurations of a system. -/
abbrev System (ι : Type) := Config ι PlanningState Ans AppError Unit

/-- A system before its first call. -/
def System.start {ι : Type} (state : PlanningState) (handlers : ι → Handler) : System ι :=
  Config.initial state fun i ↦ (handlers i).program texts

/-- The world of a system. -/
abbrev world (ι : Type) : World ι PlanningState Ans := machine.world

/-- The configurations a system can reach from its start. -/
def System.Reaches {ι : Type} [DecidableEq ι] (state : PlanningState) (handlers : ι → Handler)
    (config : System ι) : Prop :=
  (world ι).Reachable (System.start texts state handlers) config

/-! ## A system of one worker -/

/-- The job of a queued worker. -/
def queuedDocument : PlanningJobDocument :=
  CreatePlanningJobData.toDocument ⟨"user", "outline", [], none, none⟩ 0

/-- One queued job and the worker that takes it. -/
def queuedJob : PlanningState :=
  .withJobs (Function.update (fun _ ↦ none) "job" (some queuedDocument)) fun _ ↦ some .consenting

def oneWorker : Unit → Handler
  | () => .worker ⟨false, true, true, none⟩ ⟨"job", "user"⟩

/-! ## A gathering job -/

/-- A gathering job of a consenting user. -/
def gatheringJob : PlanningState :=
  queuedJob.store "job" (queuedDocument.update { status := .gathering })

/-- Its `completed` chunk. -/
def completedChunk (sequence : ℕ) : ContextResultChunk where
  jobId := "job"
  userId := "user"
  sequence := sequence
  body := .status ⟨.completed, none, none⟩

end MemoFlowApi.Planning
