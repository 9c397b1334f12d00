import MemoFlowApi.Concurrency.Replay
import MemoFlowApi.Planning.Ports

/-!
# The Planning Store

What the calls of the planning subsystem do.  The shared state holds the `planning_jobs`
collection, the users, the messages and delayed jobs that were handed to the queues, and the
consumer's promise chains.  Every query on one job is a `findOneAndUpdate`: one atomic step
that rewrites the document if it matches a filter and answers with what it stored.

Answers that do not come from this state (a clock reading, a model's reply, another collection's
rows) are taken from a `Reply`, which runs choose freely.
-/

namespace MemoFlowApi.Planning

open Concurrency Retrieval

structure PlanningState where
  jobs : JobId → Option PlanningJobDocument
  users : UserId → Option User
  /-- Jobs in the `planning` queue, newest first. -/
  queue : List JobId
  /-- Jobs whose gather request was published, newest first. -/
  requests : List JobId
  /-- Jobs with a scheduled gather timeout, newest first. -/
  timeouts : List JobId
  /-- The tails of the consumer's promise chains. -/
  chains : JobId → Option TaskId
  /-- The tasks whose promise has settled. -/
  settled : List TaskId
  nextTask : TaskId

/-- The part of an answer that the state does not determine. -/
structure Reply where
  time : Time := 0
  id : JobId := ""
  activePrompt : Option ActivePrompt := none
  connections : List ActiveConnection := []
  sectionDocument : Option String := none
  documentOwner : Option UserId := none
  gathered : JsonObject := []
  sections : List RetrievedSection := []
  planned : PlanningResult := ⟨[], none, [], none⟩
  available : Bool := false
  nonce : String := ""

namespace PlanningState

/-- A state with the given jobs and users, nothing handed to a queue and no chain. -/
def withJobs (jobs : JobId → Option PlanningJobDocument) (users : UserId → Option User) :
    PlanningState where
  jobs := jobs
  users := users
  queue := []
  requests := []
  timeouts := []
  chains _ := none
  settled := []
  nextTask := 0

/-- The stored status of a job. -/
def status (s : PlanningState) (id : JobId) : Option JobStatus := (s.jobs id).map (·.status)

/-- The documents of a state with one of them replaced. -/
def store (s : PlanningState) (id : JobId) (doc : PlanningJobDocument) : PlanningState :=
  { s with jobs := Function.update s.jobs id (some doc) }

/-- Rewrite a job that matches a filter, and answer with what was stored. -/
def findOneAndUpdate (s : PlanningState) (id : JobId) (filter : PlanningJobDocument → Bool)
    (update : PlanningJobDocument → PlanningJobDocument) : Option PlanningJob × PlanningState :=
  match s.jobs id with
  | none => (none, s)
  | some doc =>
      if filter doc then (some ((update doc).toDomain id), s.store id (update doc)) else (none, s)

/-- Append a task to a job's chain. -/
def chain (s : PlanningState) (jobId : JobId) : (Option TaskId × TaskId) × PlanningState :=
  ((s.chains jobId, s.nextTask),
    { s with
      chains := Function.update s.chains jobId (some s.nextTask)
      nextTask := s.nextTask + 1 })

/-- Settle a task, and drop its chain if nothing follows it. -/
def settle (s : PlanningState) (jobId : JobId) (task : TaskId) : PlanningState :=
  { s with
    settled := task :: s.settled
    chains := if s.chains jobId = some task then Function.update s.chains jobId none
      else s.chains }

end PlanningState

/-- The fields `failIfStillGathering` sets. -/
def gatherFailure (errorCode errorMessage : String) (time : Time) :
    UpdatePlanningJobStatusData where
  status := .failed
  errorCode := some (some errorCode)
  errorMessage := some (some errorMessage)
  finishedAt := some (some time)

/-- The answer to a call and the state it leaves.  A new job takes an unused id; a task is awaited
until it has settled. -/
def answer (reply : Reply) : (op : Op) → PlanningState → Option (Ans op × PlanningState)
  | .create data, s =>
      let doc := data.toDocument reply.time
      if (s.jobs reply.id).isNone then some (doc.toDomain reply.id, s.store reply.id doc) else none
  | .findById id, s => some ((s.jobs id).map (·.toDomain id), s)
  | .updateStatus id patch, s => some (s.findOneAndUpdate id (fun _ ↦ true) (·.update patch))
  | .claimForProcessing id, s =>
      some (s.findOneAndUpdate id (·.status = .pending)
        (·.update { status := .running, startedAt := some (some reply.time) }))
  | .claimForGathering id, s =>
      some (s.findOneAndUpdate id (·.status = .pending)
        (·.update { status := .gathering, startedAt := some (some reply.time) }))
  | .pushResultChunk id chunk, s =>
      some (s.findOneAndUpdate id (chunk.sequence ∉ ·.chunkSequences) (·.push chunk))
  | .claimForPlanning id contextUsed, s =>
      some (s.findOneAndUpdate id (·.status = .gathering)
        (·.update { status := .planning, contextUsed := some (some contextUsed) }))
  | .failIfStillGathering id errorCode errorMessage, s =>
      some (s.findOneAndUpdate id (·.status = .gathering)
        (·.update (gatherFailure errorCode errorMessage reply.time)))
  | .findUserById id, s => some (s.users id, s)
  | .storeUser id user, s => some ((), { s with users := Function.update s.users id user })
  | .findActiveByFeatureType, s => some (reply.activePrompt, s)
  | .findActiveByUser _, s => some (reply.connections, s)
  | .findSectionById _, s => some (reply.sectionDocument, s)
  | .findDocumentById _, s => some (reply.documentOwner, s)
  | .enqueue jobId _, s => some ((), { s with queue := jobId :: s.queue })
  | .publishGatherRequest input, s => some ((), { s with requests := input.jobId :: s.requests })
  | .scheduleTimeout jobId _, s => some ((), { s with timeouts := jobId :: s.timeouts })
  | .gather _ _ _, s => some (reply.gathered, s)
  | .search _, s => some (reply.sections, s)
  | .plan _, s => some (reply.planned, s)
  | .isAvailable, s => some (reply.available, s)
  | .check _, s => some ((), s)
  | .randomBytes, s => some (reply.nonce, s)
  | .now, s => some (reply.time, s)
  | .emit _, s => some ((), s)
  | .captureException _ _, s => some ((), s)
  | .chain jobId, s => some (s.chain jobId)
  | .awaitTask task, s => if ∀ t ∈ task, t ∈ s.settled then some ((), s) else none
  | .settleTask jobId task, s => some ((), s.settle jobId task)
  | .ack, s => some ((), s)
  | .nack _, s => some ((), s)

/-- Calls that leave the process may throw. -/
def mayFail : Op → Bool
  | .isAvailable | .randomBytes | .now | .emit _ | .captureException _ _ | .chain _
  | .awaitTask _ | .settleTask _ _ | .ack | .nack _ => false
  | _ => true

/-- The planning store as a machine. -/
abbrev machine : Machine PlanningState Reply Ans := ⟨answer, mayFail⟩

end MemoFlowApi.Planning
