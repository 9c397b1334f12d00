import MemoFlowApi.Concurrency.Sequential
import MemoFlowApi.Planning.Effects
import MemoFlowApi.Planning.Texts

/-!
# Agreement of the Transports

The legacy branch gathers and plans in one call; over the transport, a job arrives at
`runClaimedPlanning` with its context assembled.  Both are run here under the same circumstances: the
same active prompt, connector context, retrieval, second reading of the user and planner.  They
record the same outcome on the job (`transports_agree`).
-/

namespace MemoFlowApi.Planning

open Concurrency Retrieval

/-- What a job meets while it is planned: the outcome of every call that its two branches make
besides those on the job itself. -/
structure Circumstances where
  time : Time
  activePrompt : Option ActivePrompt
  /-- The first reading of the user, after gathering. -/
  user : User
  /-- The second reading, after retrieval. -/
  recheck : Except AppError (Option User)
  gathered : JsonObject
  sections : SectionSearchInput → Except AppError (List RetrievedSection)
  nonce : String
  planned : PlanInput → Except AppError PlanningResult

namespace Circumstances

def reply (circumstances : Circumstances) : Reply where
  time := circumstances.time
  activePrompt := circumstances.activePrompt
  gathered := circumstances.gathered
  nonce := circumstances.nonce

/-- The responses to calls that are not about the job, by the number of readings of the user. -/
def external (circumstances : Circumstances) : (op : Op) → ℕ → Except AppError (Ans op) × ℕ
  | .findUserById _, 0 => (.ok (some circumstances.user), 1)
  | .findUserById _, readings => (circumstances.recheck, readings + 1)
  | .search input, readings => (circumstances.sections input, readings)
  | .plan input, readings => (circumstances.planned input, readings)
  | .randomBytes, readings => (.ok circumstances.nonce, readings)
  | .gather _ _ _, readings => (.ok circumstances.gathered, readings)
  | .findActiveByFeatureType, readings => (.ok circumstances.activePrompt, readings)
  | _, readings => (.error ⟨.other, "not external"⟩, readings)

/-- The calls answered by `external`. -/
def External : Op → Bool
  | .findUserById _ | .search _ | .plan _ | .randomBytes | .gather _ _ _
  | .findActiveByFeatureType => true
  | _ => false

/-- The responses to all calls: those on the job are made on the store. -/
def respond (circumstances : Circumstances) (op : Op) :
    PlanningState × ℕ → Except AppError (Ans op) × PlanningState × ℕ
  | (s, readings) =>
      if External op then
        ((circumstances.external op readings).1, s, (circumstances.external op readings).2)
      else
        match answer circumstances.reply op s with
        | some (a, s') => (.ok a, s', readings)
        | none => (.error ⟨.other, "blocked"⟩, s, readings)

end Circumstances

/-- The fields of a job that record its outcome. -/
structure RecordedOutcome where
  status : JobStatus
  result : Option ResultFields
  errorCode : Option String
  errorMessage : Option String
  promptVersion : Option String
  model : Option String
  contextUsed : Option JsonObject

def PlanningJobDocument.recorded (doc : PlanningJobDocument) : RecordedOutcome where
  status := doc.status
  result := doc.result
  errorCode := doc.errorCode
  errorMessage := doc.errorMessage
  promptVersion := doc.promptVersion
  model := doc.model
  contextUsed := doc.contextUsed

/-- What a run recorded on a job. -/
def recordedBy {α : Type} (id : JobId) (ran : Except AppError α × PlanningState × ℕ) :
    Option RecordedOutcome :=
  (ran.2.1.jobs id).map (·.recorded)

/-- The document of a pending job once it was claimed for gathering, its chunks were recorded and it
was claimed for planning with an assembled context. -/
def PlanningJobDocument.gathered (doc : PlanningJobDocument) (startedAt : Time)
    (chunks : List AppendResultChunkData) (contextUsed : JsonObject) : PlanningJobDocument :=
  (chunks.foldl PlanningJobDocument.push
    (doc.update { status := .gathering, startedAt := some (some startedAt) })).update
      { status := .planning, contextUsed := some (some contextUsed) }

/-- The fields of a job that retrieval and the planner are given. -/
def PlanningJob.request (job : PlanningJob) : UserId × Option String × Option String × String :=
  (job.userId, job.documentId, job.sectionId, job.prompt)

/-- Two documents of one job that differ at most in what claims and chunks change. -/
structure PlanningJobDocument.SameRequest (doc doc' : PlanningJobDocument) : Prop where
  userId : doc'.userId = doc.userId
  documentId : doc'.documentId = doc.documentId
  sectionId : doc'.sectionId = doc.sectionId
  prompt : doc'.prompt = doc.prompt
  result : doc'.result = doc.result
  errorCode : doc'.errorCode = doc.errorCode
  errorMessage : doc'.errorMessage = doc.errorMessage
  model : doc'.model = doc.model

theorem PlanningJobDocument.SameRequest.foldl_push {doc doc' : PlanningJobDocument}
    (h : doc.SameRequest doc') (chunks : List AppendResultChunkData) :
    doc.SameRequest (chunks.foldl PlanningJobDocument.push doc') := by
  induction chunks generalizing doc' with
  | nil => exact h
  | cons chunk chunks ih =>
    refine ih ?_
    cases h
    constructor <;> assumption

/-- Gathering leaves the request of a job. -/
theorem PlanningJobDocument.sameRequest_gathered (doc : PlanningJobDocument) (startedAt : Time)
    (chunks : List AppendResultChunkData) (contextUsed : JsonObject) :
    doc.SameRequest (doc.gathered startedAt chunks contextUsed) := by
  have hclaimed : doc.SameRequest
      (doc.update { status := .gathering, startedAt := some (some startedAt) }) := by
    constructor <;> rfl
  have hpushed := hclaimed.foldl_push chunks
  unfold gathered
  cases hpushed
  constructor <;> assumption

theorem PlanningJobDocument.SameRequest.request {doc doc' : PlanningJobDocument}
    (h : doc.SameRequest doc') (id : JobId) :
    (doc.toDomain id).request = (doc'.toDomain id).request := by
  simp only [PlanningJob.request, toDomain, h.userId, h.documentId, h.sectionId, h.prompt]

section Blocks

variable {texts : PlanningTexts} {circumstances : Circumstances} {s : PlanningState}
  {readings : ℕ} {connectorContext : JsonObject}

/-- A block of external calls leaves the store alone. -/
theorem run_external {α : Type} {program : Async α}
    (only : program.Only fun op ↦ Circumstances.External op = true) :
    program.run circumstances.respond (s, readings) =
      ((program.run circumstances.external readings).1, s,
        (program.run circumstances.external readings).2) := by
  refine Program.run_of_only only fun op hop s readings ↦ ?_
  simp [Circumstances.respond, hop]

/-- The prompt that is resolved. -/
def Circumstances.resolved (circumstances : Circumstances) (texts : PlanningTexts) :
    ResolvedPlanningPrompt :=
  match circumstances.activePrompt with
  | some active => {
      promptVersion := some active.version
      systemTemplate := active.systemTemplate
      userTemplate := active.template }
  | none => { texts.builtInPrompt with promptVersion := none }

theorem run_resolvePlanningPrompt :
    (resolvePlanningPrompt texts).run circumstances.external readings =
      (.ok (circumstances.resolved texts), readings) := by
  unfold resolvePlanningPrompt
  rw [Program.run_bind_ok (Program.run_perform _)]
  unfold Circumstances.resolved
  cases circumstances.activePrompt with
  | none => rfl
  | some active => rfl

/-- The first check of the user passes. -/
theorem run_assertJobUserActive (enabled : circumstances.user.isDisabled = false)
    (consent : circumstances.user.hasCurrentAiConsent = true) (userId : UserId) :
    (assertJobUserActive userId).run circumstances.external 0 = (.ok (), 1) := by
  unfold assertJobUserActive
  rw [Program.run_bind_ok (Program.run_perform _)]
  simp [enabled, consent]

/-- Preparation does not throw. -/
theorem run_prepare (job : PlanningJob) (connectorContext : JsonObject) :
    ∃ prepared, (prepare texts job connectorContext).run circumstances.external readings =
      (.ok prepared, readings) := by
  unfold prepare
  have hsearch : ∀ input, circumstances.external (.search input) readings =
      (circumstances.sections input, readings) := fun input ↦ rfl
  rw [Program.run_bind_ok (Program.run_attempt _), Program.run_perform, hsearch]
  cases circumstances.sections _ with
  | ok sections => exact ⟨_, rfl⟩
  | error error => exact ⟨_, rfl⟩

/-! ## Writes -/

/-- The write that records the outcome of planning. -/
def finalPatch (finishedAt : Time) (promptVersion : Option String) (contextUsed : JsonObject) :
    Except AppError ValidatedPlanningResult → UpdatePlanningJobStatusData
  | .error error => {
      status := .failed
      errorCode := some (some (failureErrorCode error))
      errorMessage := some (some (safeFailureMessage error))
      finishedAt := some (some finishedAt)
      promptVersion := some promptVersion
      contextUsed := some (some contextUsed) }
  | .ok result => {
      status := .completed
      result := some (some result.resultFields)
      finishedAt := some (some finishedAt)
      promptVersion := some promptVersion
      model := some result.model
      contextUsed := some (some contextUsed) }

theorem respond_updateStatus {id : JobId} {doc : PlanningJobDocument}
    (found : s.jobs id = some doc) (patch : UpdatePlanningJobStatusData) :
    circumstances.respond (.updateStatus id patch) (s, readings) =
      (.ok (some ((doc.update patch).toDomain id)), s.store id (doc.update patch), readings) := by
  simp [Circumstances.respond, Circumstances.External, answer, PlanningState.findOneAndUpdate, found]

/-- The document of a job claimed by the legacy branch. -/
def PlanningJobDocument.claimedAt (doc : PlanningJobDocument) (startedAt : Time) :
    PlanningJobDocument :=
  doc.update { status := .running, startedAt := some (some startedAt) }

theorem respond_claimForProcessing {id : JobId} {doc : PlanningJobDocument}
    (found : s.jobs id = some doc) (pending : doc.status = .pending) :
    circumstances.respond (.claimForProcessing id) (s, readings) =
      (.ok (some ((doc.claimedAt circumstances.time).toDomain id)),
        s.store id (doc.claimedAt circumstances.time), readings) := by
  simp [Circumstances.respond, Circumstances.External, answer, PlanningState.findOneAndUpdate, found,
    pending, Circumstances.reply, PlanningJobDocument.claimedAt]

theorem respond_now :
    circumstances.respond .now (s, readings) = (.ok circumstances.time, s, readings) := rfl

theorem run_recordFailure {claimed : PlanningJob} {doc : PlanningJobDocument}
    (found : s.jobs claimed.id = some doc) (promptVersion : Option String)
    (contextUsed : JsonObject) (error : AppError) :
    (recordFailure claimed promptVersion (some contextUsed) error).run circumstances.respond
        (s, readings) =
      let doc' := doc.update (finalPatch circumstances.time promptVersion contextUsed (.error error))
      (.ok (doc'.toDomain claimed.id), s.store claimed.id doc', readings) := by
  unfold recordFailure
  dsimp only
  rw [Program.run_bind_ok ((Program.run_perform _).trans respond_now),
    Program.run_bind_ok ((Program.run_perform _).trans (respond_updateStatus found _))]
  rfl

theorem run_recordResult {claimed : PlanningJob} {doc : PlanningJobDocument}
    (found : s.jobs claimed.id = some doc) (promptVersion : Option String)
    (contextUsed : JsonObject) (result : ValidatedPlanningResult) :
    (recordResult claimed promptVersion contextUsed result).run circumstances.respond
        (s, readings) =
      let doc' := doc.update (finalPatch circumstances.time promptVersion contextUsed (.ok result))
      (.ok (doc'.toDomain claimed.id), s.store claimed.id doc', readings) := by
  unfold recordResult
  rw [Program.run_bind_ok ((Program.run_perform _).trans respond_now),
    Program.run_bind_ok ((Program.run_perform _).trans (respond_updateStatus found _))]
  rfl

/-! ## The branches -/

/-- The first `try` of a job after its context is there. -/
def checkAndPrepare (texts : PlanningTexts) (job : PlanningJob) (connectorContext : JsonObject) :
    Async PreparedPlanningContext := do
  assertJobUserActive job.userId
  prepare texts job connectorContext

/-- The second `try`. -/
def checkAndPlan (texts : PlanningTexts) (resolved : PromptTexts) (job : PlanningJob)
    (prepared : PreparedPlanningContext) : Async ValidatedPlanningResult := do
  assertJobUserActive job.userId
  plan texts resolved job prepared

theorem checkAndPrepare_congr {job job' : PlanningJob} (h : job.request = job'.request)
    (connectorContext : JsonObject) :
    checkAndPrepare texts job connectorContext = checkAndPrepare texts job' connectorContext := by
  cases job
  cases job'
  simp only [PlanningJob.request, Prod.mk.injEq] at h
  obtain ⟨rfl, rfl, rfl, rfl⟩ := h
  unfold checkAndPrepare prepare
  refine congrArg _ (funext fun _ ↦ congrArg _ (funext fun found ↦ ?_))
  cases found <;> rfl

theorem checkAndPlan_congr {job job' : PlanningJob} (h : job.request = job'.request)
    (resolved : PromptTexts) (prepared : PreparedPlanningContext) :
    checkAndPlan texts resolved job prepared = checkAndPlan texts resolved job' prepared := by
  cases job
  cases job'
  simp only [PlanningJob.request, Prod.mk.injEq] at h
  obtain ⟨rfl, rfl, rfl, rfl⟩ := h
  rfl

/-- What planning comes to, for a job with the given request. -/
def Circumstances.outcome (circumstances : Circumstances) (texts : PlanningTexts)
    (job : PlanningJob) (prepared : PreparedPlanningContext) :
    Except AppError ValidatedPlanningResult :=
  ((checkAndPlan texts (circumstances.resolved texts).toPromptTexts job prepared).run
    circumstances.external 1).1

theorem run_checkAndPrepare (texts : PlanningTexts)
    (enabled : circumstances.user.isDisabled = false)
    (consent : circumstances.user.hasCurrentAiConsent = true) (job : PlanningJob)
    (connectorContext : JsonObject) :
    ∃ prepared, (checkAndPrepare texts job connectorContext).run circumstances.external 0 =
      (.ok prepared, 1) := by
  unfold checkAndPrepare
  rw [Program.run_bind_ok (run_assertJobUserActive enabled consent _)]
  exact run_prepare job connectorContext

/-- The state a branch leaves: the outcome of planning is written over the claimed document. -/
def Circumstances.recordOutcome (circumstances : Circumstances) (texts : PlanningTexts) (id : JobId)
    (job : PlanningJob) (doc : PlanningJobDocument) (prepared : PreparedPlanningContext)
    (s : PlanningState) : PlanningState :=
  s.store id (doc.update (finalPatch circumstances.time (circumstances.resolved texts).promptVersion
    prepared.contextUsed (circumstances.outcome texts job prepared)))

variable {id : JobId} {job : PlanningJob} {doc : PlanningJobDocument}
  {prepared : PreparedPlanningContext}

theorem checkAndPrepare_only (texts : PlanningTexts) (job : PlanningJob)
    (connectorContext : JsonObject) :
    (checkAndPrepare texts job connectorContext).Only fun op ↦ Circumstances.External op = true :=
  Program.Only.bind (assertJobUserActive_only _ rfl) fun _ ↦ prepare_only _ _ _ fun _ ↦ rfl

theorem checkAndPlan_only (texts : PlanningTexts) (resolved : PromptTexts) (job : PlanningJob)
    (prepared : PreparedPlanningContext) :
    (checkAndPlan texts resolved job prepared).Only fun op ↦ Circumstances.External op = true :=
  Program.Only.bind (assertJobUserActive_only _ rfl) fun _ ↦ plan_only _ _ _ _ rfl fun _ ↦ rfl

theorem respond_resolvePlanningPrompt :
    (resolvePlanningPrompt texts).run circumstances.respond (s, readings) =
      (.ok (circumstances.resolved texts), s, readings) := by
  rw [run_external (resolvePlanningPrompt_only texts rfl), run_resolvePlanningPrompt]

theorem respond_checkAndPrepare
    (hprepared : (checkAndPrepare texts job connectorContext).run circumstances.external 0 =
      (.ok prepared, 1)) :
    (checkAndPrepare texts job connectorContext).run circumstances.respond (s, 0) =
      (.ok prepared, s, 1) := by
  rw [run_external (checkAndPrepare_only texts job connectorContext), hprepared]

theorem respond_checkAndPlan (texts : PlanningTexts) (circumstances : Circumstances)
    (s : PlanningState) (job : PlanningJob) (prepared : PreparedPlanningContext) :
    ∃ readings, (checkAndPlan texts (circumstances.resolved texts).toPromptTexts job prepared).run
      circumstances.respond (s, 1) = (circumstances.outcome texts job prepared, s, readings) :=
  ⟨_, run_external (checkAndPlan_only texts _ job prepared)⟩

/-- The run of `runClaimedPlanning` on a stored job. -/
theorem run_runClaimedPlanning (found : s.jobs job.id = some doc)
    (hprepared : (checkAndPrepare texts job connectorContext).run circumstances.external 0 =
      (.ok prepared, 1)) :
    ((runClaimedPlanning texts job connectorContext).run circumstances.respond (s, 0)).2.1 =
      circumstances.recordOutcome texts job.id job doc prepared s := by
  have hprepare := respond_checkAndPrepare (s := s) hprepared
  obtain ⟨readings, hplan⟩ := respond_checkAndPlan texts circumstances s job prepared
  unfold checkAndPrepare at hprepare
  unfold checkAndPlan at hplan
  unfold runClaimedPlanning
  rw [Program.run_bind, Program.run_attempt, respond_resolvePlanningPrompt]
  dsimp only
  rw [Program.run_bind, Program.run_attempt, hprepare]
  dsimp only
  rw [Program.run_bind, Program.run_attempt, hplan]
  dsimp only
  unfold Circumstances.recordOutcome
  cases circumstances.outcome texts job prepared with
  | error error =>
    dsimp only
    rw [run_recordFailure found]
  | ok result =>
    dsimp only
    rw [run_recordResult found]

/-- The legacy branch gathers between the check and the retrieval of its first `try`. -/
theorem respond_gatherAndPrepare (enabled : circumstances.user.isDisabled = false)
    (consent : circumstances.user.hasCurrentAiConsent = true)
    (hprepared : (checkAndPrepare texts job circumstances.gathered).run circumstances.external 0 =
      (.ok prepared, 1)) :
    Program.run circumstances.respond (do
      assertJobUserActive job.userId
      let gathered ← await (.gather job.userId job.connectors job.prompt)
      prepare texts job gathered) (s, 0) = (.ok prepared, s, 1) := by
  have hcheck : (assertJobUserActive job.userId).run circumstances.respond (s, 0) =
      (.ok (), s, 1) := by
    rw [run_external (assertJobUserActive_only _ rfl), run_assertJobUserActive enabled consent]
  have hgather : circumstances.respond (.gather job.userId job.connectors job.prompt) (s, 1) =
      (.ok circumstances.gathered, s, 1) := rfl
  have hprepare := respond_checkAndPrepare (s := s) hprepared
  unfold checkAndPrepare at hprepare
  rw [Program.run_bind_ok hcheck] at hprepare
  rw [Program.run_bind_ok hcheck, Program.run_bind_ok ((Program.run_perform _).trans hgather),
    hprepare]

/-- The run of `executeLegacy` on a pending job. -/
theorem run_executeLegacy {id : JobId} (enabled : circumstances.user.isDisabled = false)
    (consent : circumstances.user.hasCurrentAiConsent = true) (found : s.jobs id = some doc)
    (pending : doc.status = .pending)
    (hprepared : (checkAndPrepare texts ((doc.claimedAt circumstances.time).toDomain id)
      circumstances.gathered).run circumstances.external 0 = (.ok prepared, 1)) :
    ((executeLegacy texts id).run circumstances.respond (s, 0)).2.1 =
      circumstances.recordOutcome texts id ((doc.claimedAt circumstances.time).toDomain id)
        (doc.claimedAt circumstances.time) prepared (s.store id (doc.claimedAt circumstances.time))
          := by
  have hfound := s.store_jobs_self id (doc.claimedAt circumstances.time)
  have hprepare := respond_gatherAndPrepare
    (s := s.store id (doc.claimedAt circumstances.time)) enabled consent hprepared
  obtain ⟨readings, hplan⟩ := respond_checkAndPlan texts circumstances
    (s.store id (doc.claimedAt circumstances.time))
    ((doc.claimedAt circumstances.time).toDomain id) prepared
  unfold checkAndPlan at hplan
  unfold executeLegacy
  rw [Program.run_bind_ok ((Program.run_perform _).trans (respond_claimForProcessing found pending))]
  dsimp only
  rw [Program.run_bind, respond_resolvePlanningPrompt]
  dsimp only
  rw [Program.run_bind, Program.run_attempt, hprepare]
  dsimp only
  rw [Program.run_bind, Program.run_attempt, hplan]
  dsimp only
  unfold Circumstances.recordOutcome
  cases circumstances.outcome texts _ prepared with
  | error error =>
    dsimp only
    rw [Program.run_bind, run_recordFailure hfound]
    rfl
  | ok result =>
    dsimp only
    rw [Program.run_bind, run_recordResult hfound]
    rfl

end Blocks

/-- What the final write records does not depend on the claim it ends. -/
theorem recorded_finalPatch {doc doc' : PlanningJobDocument} (h : doc.SameRequest doc')
    (finishedAt : Time) (promptVersion : Option String) (contextUsed : JsonObject)
    (outcome : Except AppError ValidatedPlanningResult) :
    (doc'.update (finalPatch finishedAt promptVersion contextUsed outcome)).recorded =
      (doc.update (finalPatch finishedAt promptVersion contextUsed outcome)).recorded := by
  unfold PlanningJobDocument.recorded PlanningJobDocument.update
  cases outcome with
  | error error => simp [finalPatch, h.result, h.model]
  | ok result => simp [finalPatch, h.errorCode, h.errorMessage]

theorem terminal_finalPatch (finishedAt : Time) (promptVersion : Option String)
    (contextUsed : JsonObject) (outcome : Except AppError ValidatedPlanningResult) :
    (finalPatch finishedAt promptVersion contextUsed outcome).status.Terminal := by
  cases outcome with
  | error error => exact .inr rfl
  | ok result => exact .inl rfl

/-- The two transports agree: on a pending job, the legacy branch with a gatherer that returns a
context records what `runClaimedPlanning` records when it is called with that context on the same
job, claimed for planning. -/
theorem transports_agree {texts : PlanningTexts} {circumstances : Circumstances} {id : JobId}
    {doc : PlanningJobDocument} {legacy transport : PlanningState} {startedAt : Time}
    {chunks : List AppendResultChunkData}
    (enabled : circumstances.user.isDisabled = false)
    (consent : circumstances.user.hasCurrentAiConsent = true) (pending : doc.status = .pending)
    (atLegacy : legacy.jobs id = some doc)
    (atTransport : transport.jobs id =
      some (doc.gathered startedAt chunks circumstances.gathered)) :
    ∃ outcome, outcome.status.Terminal ∧
      recordedBy id ((executeLegacy texts id).run circumstances.respond (legacy, 0)) =
        some outcome ∧
      recordedBy id ((runClaimedPlanning texts
        ((doc.gathered startedAt chunks circumstances.gathered).toDomain id)
        circumstances.gathered).run circumstances.respond (transport, 0)) = some outcome := by
  have hsame : (doc.claimedAt circumstances.time).SameRequest
      (doc.gathered startedAt chunks circumstances.gathered) := by
    cases doc.sameRequest_gathered startedAt chunks circumstances.gathered
    constructor <;> assumption
  have hrequest := hsame.request id
  obtain ⟨prepared, hlegacy⟩ := run_checkAndPrepare texts enabled consent
    ((doc.claimedAt circumstances.time).toDomain id) circumstances.gathered
  have htransport := hlegacy
  rw [checkAndPrepare_congr hrequest] at htransport
  refine ⟨((doc.claimedAt circumstances.time).update (finalPatch circumstances.time
    (circumstances.resolved texts).promptVersion prepared.contextUsed (circumstances.outcome texts
      ((doc.claimedAt circumstances.time).toDomain id) prepared))).recorded,
    terminal_finalPatch _ _ _ _, ?_, ?_⟩
  · unfold recordedBy
    rw [run_executeLegacy enabled consent atLegacy pending hlegacy]
    unfold Circumstances.recordOutcome
    rw [PlanningState.store_jobs_self, Option.map_some]
  · have hid : ((doc.gathered startedAt chunks circumstances.gathered).toDomain id).id = id := rfl
    unfold recordedBy
    rw [run_runClaimedPlanning (hid ▸ atTransport) htransport, hid]
    unfold Circumstances.recordOutcome Circumstances.outcome
    rw [PlanningState.store_jobs_self, Option.map_some, recorded_finalPatch hsame,
      checkAndPlan_congr hrequest]

/-- Settings for texts in ASCII. -/
def asciiTexts : TextSettings where
  isLetter := Prompts.isAsciiLetter
  lower := List.map Prompts.lowerUnit
  numberText value := Js.decimal value.num.toNat
  maxInputChars := 40000

/-- A consenting user's job, for which a section is found and cited in one suggestion. -/
def plannedCircumstances : Circumstances where
  time := 1
  activePrompt := some ⟨"v2", "system", "user"⟩
  user := .consenting
  recheck := .ok (some .consenting)
  gathered := [("chunks", .arr [])]
  sections _ := .ok [⟨⟨"s1", by decide⟩, ⟨"d1", by decide⟩, "Thesis", "Aims", "Two aims.", true, true⟩]
  nonce := "nonce"
  planned _ := .ok ⟨["Write the aims [S1]"], none, [.str "S1", .str "S2"], some "model"⟩

theorem transports_agree_planned :
    ∃ outcome, outcome.status.Terminal ∧
      recordedBy "job" ((executeLegacy (pipelineTexts asciiTexts) "job").run plannedCircumstances.respond
        (queuedJob, 0)) = some outcome ∧
      recordedBy "job" ((runClaimedPlanning (pipelineTexts asciiTexts)
        ((queuedDocument.gathered 0 [⟨1, none⟩] plannedCircumstances.gathered).toDomain "job")
        plannedCircumstances.gathered).run plannedCircumstances.respond
        (queuedJob.store "job"
          (queuedDocument.gathered 0 [⟨1, none⟩] plannedCircumstances.gathered), 0)) =
        some outcome :=
  transports_agree rfl rfl rfl (by simp [queuedJob, PlanningState.withJobs])
    (PlanningState.store_jobs_self _ _ _)

end MemoFlowApi.Planning
