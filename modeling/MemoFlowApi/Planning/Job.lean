import Mathlib.Data.List.Sort
import MemoFlowApi.Js.Unicode
import MemoFlowApi.Json
import MemoFlowApi.Sources.Citations

/-!
# Planning Jobs

The domain entity of `planning_jobs`, its stored document, the result chunks of the context engine
and the data exchanged with the repository.  Optional fields of an update distinguish, as the
source does, a field that is `undefined` (left alone) from one set to `null`.
-/

namespace MemoFlowApi.Planning

abbrev JobId := String
abbrev UserId := String
/-- Milliseconds since the epoch. -/
abbrev Time := ℕ

inductive JobStatus where
  | pending
  | running
  | gathering
  | planning
  | completed
  | failed
  deriving DecidableEq, Repr

/-- `completed` or `failed`. -/
def JobStatus.Terminal (status : JobStatus) : Prop :=
  status = .completed ∨ status = .failed

instance : DecidablePred JobStatus.Terminal :=
  fun status ↦ inferInstanceAs (Decidable (status = .completed ∨ status = .failed))

theorem JobStatus.Terminal.ne_gathering {status : JobStatus} (h : status.Terminal) :
    status ≠ .gathering := by
  rcases h with rfl | rfl <;> nofun

theorem JobStatus.Terminal.ne_planning {status : JobStatus} (h : status.Terminal) :
    status ≠ .planning := by
  rcases h with rfl | rfl <;> nofun

/-- One accumulated `data` chunk. -/
structure AccumulatedDataChunk where
  sequence : ℕ
  provider : String
  content : String
  tokenEstimate : Option ℚ
  deriving DecidableEq

/-- A planning result without its model, as stored under `result`. -/
structure ResultFields where
  suggestions : List String
  outline : Option Json
  sources : List Sources.CitedSource

structure PlanningJob where
  id : JobId
  userId : UserId
  documentId : Option String
  sectionId : Option String
  status : JobStatus
  prompt : String
  connectors : List String
  promptVersion : Option String
  model : Option String
  contextUsed : Option JsonObject
  result : Option ResultFields
  errorCode : Option String
  errorMessage : Option String
  createdAt : Time
  startedAt : Option Time
  finishedAt : Option Time
  dataChunks : List AccumulatedDataChunk

/-- The stored document of a job; its `_id` is the key it is stored under. -/
structure PlanningJobDocument where
  userId : UserId
  documentId : Option String
  sectionId : Option String
  status : JobStatus
  prompt : String
  connectors : List String
  promptVersion : Option String
  model : Option String
  contextUsed : Option JsonObject
  result : Option ResultFields
  errorCode : Option String
  errorMessage : Option String
  createdAt : Time
  startedAt : Option Time
  finishedAt : Option Time
  chunkSequences : List ℕ
  dataChunks : List AccumulatedDataChunk

/-- The mapping `toDomain` of the repository. -/
def PlanningJobDocument.toDomain (id : JobId) (doc : PlanningJobDocument) : PlanningJob where
  id := id
  userId := doc.userId
  documentId := doc.documentId
  sectionId := doc.sectionId
  status := doc.status
  prompt := doc.prompt
  connectors := doc.connectors
  promptVersion := doc.promptVersion
  model := doc.model
  contextUsed := doc.contextUsed
  result := doc.result
  errorCode := doc.errorCode
  errorMessage := doc.errorMessage
  createdAt := doc.createdAt
  startedAt := doc.startedAt
  finishedAt := doc.finishedAt
  dataChunks := doc.dataChunks

/-- Input of `create`. -/
structure CreatePlanningJobData where
  userId : UserId
  prompt : String
  connectors : List String
  documentId : Option String
  sectionId : Option String

/-- The document `create` stores, with the defaults of the schema. -/
def CreatePlanningJobData.toDocument (data : CreatePlanningJobData) (createdAt : Time) :
    PlanningJobDocument where
  userId := data.userId
  documentId := data.documentId
  sectionId := data.sectionId
  status := .pending
  prompt := data.prompt
  connectors := data.connectors
  promptVersion := none
  model := none
  contextUsed := none
  result := none
  errorCode := none
  errorMessage := none
  createdAt := createdAt
  startedAt := none
  finishedAt := none
  chunkSequences := []
  dataChunks := []

/-- A field of an update: `none` is `undefined`, `some none` is `null`. -/
abbrev Patch (α : Type) := Option (Option α)

/-- Input of `updateStatus`. -/
structure UpdatePlanningJobStatusData where
  status : JobStatus
  result : Patch ResultFields := none
  errorCode : Patch String := none
  errorMessage : Patch String := none
  startedAt : Patch Time := none
  finishedAt : Patch Time := none
  promptVersion : Patch String := none
  model : Patch String := none
  contextUsed : Patch JsonObject := none

/-- Apply the update document `toUpdateDoc` builds: undefined fields are left out of it. -/
def PlanningJobDocument.update (doc : PlanningJobDocument) (patch : UpdatePlanningJobStatusData) :
    PlanningJobDocument :=
  { doc with
    status := patch.status
    result := patch.result.getD doc.result
    errorCode := patch.errorCode.getD doc.errorCode
    errorMessage := patch.errorMessage.getD doc.errorMessage
    startedAt := patch.startedAt.getD doc.startedAt
    finishedAt := patch.finishedAt.getD doc.finishedAt
    promptVersion := patch.promptVersion.getD doc.promptVersion
    model := patch.model.getD doc.model
    contextUsed := patch.contextUsed.getD doc.contextUsed }

/-! ## Result chunks -/

inductive ChunkPhase where
  | started
  | gathering
  | completed
  | failed
  deriving DecidableEq, Repr

/-- `completed` and `failed` are terminal: no chunk of the job follows them. -/
def isTerminalPhase : ChunkPhase → Bool
  | .completed | .failed => true
  | .started | .gathering => false

/-- The body of a `data` chunk. -/
structure ChunkData where
  provider : String
  content : String
  tokenEstimate : Option ℚ
  deriving DecidableEq

/-- The body of a `status` chunk. -/
structure ChunkStatus where
  phase : ChunkPhase
  message : Option String
  errorCode : Option String
  deriving DecidableEq

inductive ChunkBody where
  | data (data : ChunkData)
  | status (status : ChunkStatus)
  deriving DecidableEq

/-- One chunk of `ctx.gather.results`. -/
structure ContextResultChunk where
  jobId : JobId
  userId : UserId
  sequence : ℕ
  body : ChunkBody
  deriving DecidableEq

/-- A status chunk with a terminal phase. -/
def ContextResultChunk.Terminal (chunk : ContextResultChunk) : Prop :=
  ∃ status, chunk.body = .status status ∧ isTerminalPhase status.phase = true

/-- Input of `appendResultChunk`; `data` is absent for a `status` chunk. -/
structure AppendResultChunkData where
  sequence : ℕ
  data : Option ChunkData

/-- Output of `appendResultChunk`. -/
structure AppendResultChunkOutcome where
  applied : Bool
  job : Option PlanningJob

/-- What the atomic `$push` of `appendResultChunk` does to a matching document. -/
def PlanningJobDocument.push (doc : PlanningJobDocument) (chunk : AppendResultChunkData) :
    PlanningJobDocument :=
  { doc with
    chunkSequences := doc.chunkSequences ++ [chunk.sequence]
    dataChunks := doc.dataChunks ++ (chunk.data.map fun data ↦
      ⟨chunk.sequence, data.provider, data.content, data.tokenEstimate⟩).toList }

/-- A nullable value as JSON. -/
def jsonOrNull {α : Type} (encode : α → Json) : Option α → Json
  | some value => encode value
  | none => .null

/-- The body of an accumulated chunk, as it is recorded in the assembled context. -/
def chunkEntry (chunk : AccumulatedDataChunk) : Json :=
  .obj [("provider", .str chunk.provider), ("content", .str chunk.content),
    ("tokenEstimate", jsonOrNull .num chunk.tokenEstimate)]

/-- The context handed to planning: the accumulated chunks sorted by sequence (stably, as
`Array.prototype.sort` does). -/
def assembleContext (dataChunks : List AccumulatedDataChunk) : JsonObject :=
  let sorted := dataChunks.mergeSort fun a b ↦ a.sequence ≤ b.sequence
  [("chunks", .arr (sorted.map chunkEntry))]

end MemoFlowApi.Planning
