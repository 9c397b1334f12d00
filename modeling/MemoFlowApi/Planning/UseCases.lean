import MemoFlowApi.Planning.Pipeline

/-!
# Planning Use Cases

Submitting a job, processing it over either transport, and handling what the context engine sends
back.  A `try` block is a segment run by `attempt`; where the source sets a variable inside its
`try` and reads it in the `catch`, the block is cut after that assignment.
-/

namespace MemoFlowApi.Planning

open Concurrency

variable (texts : PlanningTexts)

/-! ## The planning phase -/

/-- The final write of a job whose planning threw. -/
def recordFailure (claimed : PlanningJob) (promptVersion : Option String)
    (contextUsed : Option JsonObject) (error : AppError) : Async PlanningJob := do
  let errorMessage := safeFailureMessage error
  let errorCode := failureErrorCode error
  let finishedAt ← await .now
  let failed ← await (.updateStatus claimed.id {
    status := .failed
    errorCode := some (some errorCode)
    errorMessage := some (some errorMessage)
    finishedAt := some (some finishedAt)
    promptVersion := some promptVersion
    contextUsed := some contextUsed })
  return failed.getD { claimed with
    status := .failed
    errorCode := some errorCode
    errorMessage := some errorMessage
    promptVersion := promptVersion
    contextUsed := contextUsed }

/-- The final write of a job that was planned. -/
def recordResult (claimed : PlanningJob) (promptVersion : Option String)
    (contextUsed : JsonObject) (result : ValidatedPlanningResult) : Async PlanningJob := do
  let finishedAt ← await .now
  let completed ← await (.updateStatus claimed.id {
    status := .completed
    result := some (some result.resultFields)
    finishedAt := some (some finishedAt)
    promptVersion := some promptVersion
    model := some result.model
    contextUsed := some (some contextUsed) })
  return completed.getD { claimed with
    status := .completed
    result := some result.resultFields
    promptVersion := promptVersion
    model := result.model
    contextUsed := some contextUsed }

/-- The planning phase of a job already claimed into `planning`. -/
def runClaimedPlanning (claimed : PlanningJob) (connectorContext : JsonObject) :
    Async PlanningJob := do
  match ← (resolvePlanningPrompt texts).attempt with
  | .error error => recordFailure claimed none (some connectorContext) error
  | .ok resolvedPrompt =>
    let promptVersion := resolvedPrompt.promptVersion
    let prepared ← Program.attempt do
      assertJobUserActive claimed.userId
      prepare texts claimed connectorContext
    match prepared with
    | .error error => recordFailure claimed promptVersion (some connectorContext) error
    | .ok prepared =>
      let planned ← Program.attempt do
        assertJobUserActive claimed.userId
        plan texts resolvedPrompt.toPromptTexts claimed prepared
      match planned with
      | .error error => recordFailure claimed promptVersion (some prepared.contextUsed) error
      | .ok result => recordResult claimed promptVersion prepared.contextUsed result

/-! ## ProcessPlanningJobUseCase -/

structure ProcessPlanningJobResult where
  /-- False when the call was a no-op. -/
  processed : Bool
  job : PlanningJob

/-- How the worker is wired: the ports bound in its module, and the timeout setting. -/
structure WorkerConfig where
  /-- `CONTEXT_REQUEST_PUBLISHER` is bound: the transport switch. -/
  publisher : Bool
  connectorRepository : Bool
  timeoutScheduler : Bool
  gatherTimeoutMs : Option ℕ

def defaultGatherTimeoutMs : ℕ := 120000

/-- What both branches do with a job they could not claim. -/
def notClaimed (jobId : JobId) : Async ProcessPlanningJobResult := do
  match ← await (.findById jobId) with
  | none => .throw (jobNotFoundError jobId)
  | some existing => return { processed := false, job := existing }

/-- The gather-then-plan branch that runs in one call. -/
def executeLegacy (jobId : JobId) : Async ProcessPlanningJobResult := do
  match ← await (.claimForProcessing jobId) with
  | none => notClaimed jobId
  | some claimed =>
    let resolvedPrompt ← resolvePlanningPrompt texts
    let promptVersion := resolvedPrompt.promptVersion
    let prepared ← Program.attempt do
      assertJobUserActive claimed.userId
      let gathered ← await (.gather claimed.userId claimed.connectors claimed.prompt)
      prepare texts claimed gathered
    match prepared with
    | .error error =>
      let job ← recordFailure claimed promptVersion none error
      return { processed := true, job := job }
    | .ok prepared =>
      let planned ← Program.attempt do
        assertJobUserActive claimed.userId
        plan texts resolvedPrompt.toPromptTexts claimed prepared
      match planned with
      | .error error =>
        let job ← recordFailure claimed promptVersion (some prepared.contextUsed) error
        return { processed := true, job := job }
      | .ok result =>
        let job ← recordResult claimed promptVersion prepared.contextUsed result
        return { processed := true, job := job }

/-- Active connections matching the requested connectors that carry an account id. -/
def connectorReferences (active : List ActiveConnection) (requested : List String) :
    List ConnectorMcpReference :=
  requested.filterMap fun connector ↦ do
    let row ← active.find? (·.provider = connector)
    let account ← row.composioAccountId
    if account = "" then none else some ⟨row.provider, none, account⟩

def resolveActiveConnectorReferences (userId : UserId) (requested : List String) :
    Async (List ConnectorMcpReference) := do
  let active ← await (.findActiveByUser userId)
  return connectorReferences active requested

/-- The failure write of the transport branch before planning: it records no prompt version. -/
def recordUnstarted (claimed : PlanningJob) (errorCode errorMessage : String) :
    Async ProcessPlanningJobResult := do
  let finishedAt ← await .now
  let failed ← await (.updateStatus claimed.id {
    status := .failed
    errorCode := some (some errorCode)
    errorMessage := some (some errorMessage)
    finishedAt := some (some finishedAt) })
  let job := failed.getD { claimed with
    status := .failed
    errorCode := some errorCode
    errorMessage := some errorMessage }
  return { processed := true, job := job }

/-- Plan a job with nothing to gather. -/
def planWithoutGathering (claimed : PlanningJob) : Async ProcessPlanningJobResult := do
  match ← await (.claimForPlanning claimed.id []) with
  | none =>
    let existing ← await (.findById claimed.id)
    return { processed := false, job := existing.getD claimed }
  | some planning =>
    let finished ← runClaimedPlanning texts planning []
    return { processed := true, job := finished }

/-- Publish the gather request and schedule its timeout. -/
def requestGather (config : WorkerConfig) (claimed : PlanningJob)
    (connectors : List ConnectorMcpReference) : Async ProcessPlanningJobResult := do
  let requestedAt ← await .now
  let published ← (await (.publishGatherRequest {
    jobId := claimed.id
    userId := claimed.userId
    prompt := claimed.prompt
    connectors := connectors
    requestedAt := requestedAt })).attempt
  match published with
  | .error _ =>
    recordUnstarted claimed "CONTEXT_ENGINE_PUBLISH_FAILED"
      "Failed to publish context gather request"
  | .ok () =>
    if config.timeoutScheduler then
      await (.scheduleTimeout claimed.id (config.gatherTimeoutMs.getD defaultGatherTimeoutMs))
    return { processed := true, job := claimed }

/-- The branch that hands the job to the context engine. -/
def executeViaTransport (config : WorkerConfig) (jobId : JobId) :
    Async ProcessPlanningJobResult := do
  match ← await (.claimForGathering jobId) with
  | none => notClaimed jobId
  | some claimed =>
    match ← (assertJobUserActive claimed.userId).attempt with
    | .error error =>
      recordUnstarted claimed (failureErrorCode error) (safeFailureMessage error)
    | .ok () =>
      let connectors ← if config.connectorRepository then
          resolveActiveConnectorReferences claimed.userId claimed.connectors
        else
          pure []
      if connectors.isEmpty then
        planWithoutGathering texts claimed
      else
        requestGather config claimed connectors

def processPlanningJob (config : WorkerConfig) (jobId : JobId) :
    Async ProcessPlanningJobResult :=
  if config.publisher then executeViaTransport texts config jobId else executeLegacy texts jobId

/-! ## HandleContextResultChunkUseCase -/

inductive ChunkOutcome where
  | applied
  | duplicate
  | unknownJob
  | ownershipMismatch
  deriving DecidableEq, Repr

structure HandleContextResultChunkResult where
  outcome : ChunkOutcome
  job : Option PlanningJob
  /-- True only when this call finalized the job. -/
  terminal : Bool

def contextEngineFailedMessage : String := "Context gather failed"

def defaultContextEngineErrorCode : String := "CONTEXT_ENGINE_FAILED"

def contextEngineTimeoutCode : String := "CONTEXT_ENGINE_TIMEOUT"

/-- Failure codes accepted from a `failed` chunk. -/
def contextEngineErrorCodes : List String :=
  [defaultContextEngineErrorCode, contextEngineTimeoutCode]

/-- The code recorded for a `failed` chunk. -/
def gatherErrorCode (reported : Option String) : String :=
  match reported with
  | some code => if code ∈ contextEngineErrorCodes then code else defaultContextEngineErrorCode
  | none => defaultContextEngineErrorCode

/-- What a chunk appends to its job. -/
def ContextResultChunk.appendData (chunk : ContextResultChunk) : AppendResultChunkData where
  sequence := chunk.sequence
  data := match chunk.body with
    | .data data => some data
    | .status _ => none

def finalizeCompleted (job : PlanningJob) : Async (Option PlanningJob) := do
  let assembled := assembleContext job.dataChunks
  match ← await (.claimForPlanning job.id assembled) with
  | none => return none
  | some claimed =>
    let finished ← runClaimedPlanning texts claimed assembled
    return some finished

def finalizeFailed (job : PlanningJob) (status : ChunkStatus) : Async (Option PlanningJob) :=
  await (.failIfStillGathering job.id (gatherErrorCode status.errorCode)
    contextEngineFailedMessage)

/-- What follows a recorded chunk. -/
def finishChunk (current : PlanningJob) : ChunkBody → Async HandleContextResultChunkResult
  | .data _ => return { outcome := .applied, job := some current, terminal := false }
  | .status status => do
    if ¬ isTerminalPhase status.phase then
      return { outcome := .applied, job := some current, terminal := false }
    let finalized ← if status.phase = .completed then
        finalizeCompleted texts current
      else
        finalizeFailed current status
    match finalized with
    | none => return { outcome := .duplicate, job := some current, terminal := false }
    | some finished => return { outcome := .applied, job := some finished, terminal := true }

/-- Handle one chunk: check its job, record it, and finalize the job on a terminal chunk. -/
def handleContextResultChunk (chunk : ContextResultChunk) :
    Async HandleContextResultChunkResult := do
  match ← await (.findById chunk.jobId) with
  | none => return { outcome := .unknownJob, job := none, terminal := false }
  | some job =>
    if job.userId ≠ chunk.userId then
      return { outcome := .ownershipMismatch, job := some job, terminal := false }
    if job.status = .completed ∨ job.status = .failed then
      return { outcome := .duplicate, job := some job, terminal := false }
    let appended ← appendResultChunk job.id chunk.appendData
    let current := appended.job.getD job
    if ¬ appended.applied then
      return { outcome := .duplicate, job := some current, terminal := false }
    finishChunk texts current chunk.body

/-! ## HandleGatherTimeoutUseCase -/

structure HandleGatherTimeoutResult where
  /-- True only when this call failed the job. -/
  timedOut : Bool
  job : Option PlanningJob

def handleGatherTimeout (jobId : JobId) : Async HandleGatherTimeoutResult := do
  let failed ← await (.failIfStillGathering jobId contextEngineTimeoutCode
    "No terminal context-gather result was received within the configured timeout")
  match failed with
  | some job => return { timedOut := true, job := some job }
  | none =>
    let current ← await (.findById jobId)
    return { timedOut := false, job := current }

/-! ## SubmitPlanningJobUseCase -/

structure SubmitPlanningJobInput where
  userId : UserId
  prompt : String
  connectors : Option (List String)
  documentId : Option String
  sectionId : Option String

/-- A string that counts as `true` in a condition. -/
def truthy (value : Option String) : Option String :=
  value.filter (· ≠ "")

/-- A given section fixes the document; the document must be the user's. -/
def resolveAndValidateBinding (input : SubmitPlanningJobInput) :
    Async (Option String × Option String) := do
  let documentId ← match truthy input.sectionId with
    | none => pure input.documentId
    | some sectionId => do
      let notFound : AppError := ⟨.notFound, s!"Section {sectionId} not found"⟩
      match ← await (.findSectionById sectionId) with
      | none => .throw notFound
      | some sectionDocument =>
        match truthy input.documentId with
        | none => pure (some sectionDocument)
        | some documentId =>
          if sectionDocument = documentId then
            pure (some sectionDocument)
          else
            .throw notFound
  match truthy documentId with
  | none => return (documentId, input.sectionId)
  | some checked =>
    let owner ← await (.findDocumentById checked)
    if owner = some input.userId then
      return (documentId, input.sectionId)
    else
      .throw ⟨.notFound, s!"Document {checked} not found"⟩

def assertConnectorsActive (userId : UserId) (connectors : List String) : Async Unit := do
  if ¬ connectors.isEmpty then
    let active ← await (.findActiveByUser userId)
    if ¬ connectors.all (fun connector ↦ active.any (·.provider = connector)) then
      .throw ⟨.badRequest, "Connectors must be among your active connections"⟩

/-- With a real provider, a user over a cap hears it now. -/
def assertWithinQuota (userId : UserId) : Async Unit := do
  let available ← await .isAvailable
  if available then
    match ← (await (.check userId)).attempt with
    | .ok () => return ()
    | .error error => .throw ((quotaHttpException error).getD error)

/-- Mark a job that could not be enqueued as failed; a failing write is only logged. -/
def recordEnqueueFailure (created : PlanningJob) : Async Unit := do
  let finishedAt ← await .now
  let _ ← (await (.updateStatus created.id {
    status := .failed
    errorCode := some (some "ENQUEUE_FAILED")
    errorMessage := some (some "Failed to enqueue job")
    finishedAt := some (some finishedAt) })).attempt

def submitPlanningJob (input : SubmitPlanningJobInput) : Async PlanningJob := do
  let (documentId, sectionId) ← resolveAndValidateBinding input
  assertConnectorsActive input.userId (input.connectors.getD [])
  assertWithinQuota input.userId
  let created ← await (.create {
    userId := input.userId
    prompt := input.prompt
    connectors := input.connectors.getD []
    documentId := documentId
    sectionId := sectionId })
  match ← (await (.enqueue created.id created.userId)).attempt with
  | .ok () => return created
  | .error _ =>
    recordEnqueueFailure created
    .throw ⟨.serviceUnavailable, "Failed to submit planning job for processing"⟩

end MemoFlowApi.Planning
