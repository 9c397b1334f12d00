import MemoFlowApi.Planning.Roles

/-!
# Handlers Follow Their Roles

Every handler's program follows the typestate of its roles, from its first call and through all
attempts of its queue.  Each use case has one rule, in the form of its weakest precondition, and
the rules of the adapters are assembled from them.
-/

namespace MemoFlowApi.Planning

open Concurrency

section Possible

variable {ι : Type} {i : ι}

/-- A query that can answer with a job rewrites one. -/
theorem rewrites_of_possible {op : Op} {a : Ans op}
    (h : (world ι).Possible AppError i op (.returned a)) (hmatched : op.Matched a) :
    ∃ id doc doc', op.Rewrites a id doc doc' := by
  obtain ⟨s, s', hanswers⟩ := h
  obtain ⟨id, doc, doc', -, hrewrites, -⟩ := rewrites_of_returned hanswers hmatched
  exact ⟨id, doc, doc', hrewrites⟩

theorem mayFail_of_possible {op : Op} {o : Outcome AppError (Ans op)}
    (h : (world ι).Possible AppError i op o) (ho : o.Failed) : mayFail op = true := by
  obtain ⟨s, s', hanswers⟩ := h
  exact hanswers.mayFail_of_failed ho

theorem updated_of_updateStatus {id : JobId} {patch : UpdatePlanningJobStatusData}
    {job : PlanningJob}
    (h : (world ι).Possible AppError i (.updateStatus id patch) (.returned (some job))) :
    job.id = id ∧ job.status = patch.status := by
  obtain ⟨_, _, _, hrewrites⟩ := rewrites_of_possible h rfl
  cases hrewrites
  exact ⟨rfl, rfl⟩

theorem id_of_claimForProcessing {id : JobId} {job : PlanningJob}
    (h : (world ι).Possible AppError i (.claimForProcessing id) (.returned (some job))) :
    job.id = id := by
  obtain ⟨_, _, _, hrewrites⟩ := rewrites_of_possible h rfl
  cases hrewrites
  rfl

theorem claimed_of_claimForGathering {id : JobId} {job : PlanningJob}
    (h : (world ι).Possible AppError i (.claimForGathering id) (.returned (some job))) :
    job.id = id ∧ job.status = .gathering := by
  obtain ⟨_, _, _, hrewrites⟩ := rewrites_of_possible h rfl
  cases hrewrites with
  | claimForGathering time pending claimed => exact ⟨rfl, claimed ▸ rfl⟩

theorem id_of_claimForPlanning {id : JobId} {contextUsed : JsonObject} {job : PlanningJob}
    (h : (world ι).Possible AppError i (.claimForPlanning id contextUsed)
      (.returned (some job))) : job.id = id := by
  obtain ⟨_, _, _, hrewrites⟩ := rewrites_of_possible h rfl
  cases hrewrites
  rfl

theorem failed_of_failIfStillGathering {id : JobId} {errorCode errorMessage : String}
    {job : PlanningJob}
    (h : (world ι).Possible AppError i (.failIfStillGathering id errorCode errorMessage)
      (.returned (some job))) : job.id = id ∧ job.status = .failed := by
  obtain ⟨_, _, _, hrewrites⟩ := rewrites_of_possible h rfl
  cases hrewrites with
  | failIfStillGathering _ _ time gathering failed => exact ⟨rfl, failed ▸ rfl⟩

theorem id_of_pushResultChunk {id : JobId} {chunk : AppendResultChunkData} {job : PlanningJob}
    (h : (world ι).Possible AppError i (.pushResultChunk id chunk) (.returned (some job))) :
    job.id = id := by
  obtain ⟨_, _, _, hrewrites⟩ := rewrites_of_possible h rfl
  cases hrewrites
  rfl

theorem id_of_findById {id : JobId} {job : PlanningJob}
    (h : (world ι).Possible AppError i (.findById id) (.returned (some job))) : job.id = id := by
  obtain ⟨s, s', hanswers⟩ := h
  cases hanswers with
  | returned effect =>
    obtain ⟨reply, heffect⟩ := effect
    have hfound : (s.jobs id).map (·.toDomain id) = some job :=
      congrArg Prod.fst (Option.some.inj heffect)
    obtain ⟨doc, -, rfl⟩ := Option.map_eq_some_iff.mp hfound
    rfl

end Possible

variable {ι : Type} {i : ι} {handler : Handler} {φ : Phase}

/-- Following the roles of a handler. -/
abbrev roleSpec (i : ι) (handler : Handler) : CallSpec Ans AppError Phase :=
  (roles handler).spec ((world ι).Possible AppError i)

/-- What a use case leaves when it throws: no refusal waits to be recorded, and a worker knows
that its attempt failed. -/
def Handler.Leaves (handler : Handler) (φ : Phase) : Prop :=
  φ.gate ≠ .refused ∧ (handler.isWorker = true → φ.thrown = true)

/-! ## Single calls -/

theorem wp_neutral {op : Op} {Q : Ans op → Phase → Prop} {E : AppError → Phase → Prop}
    (neutral : ∀ o, op.Neutral o)
    (hQ : ∀ a, (world ι).Possible AppError i op (.returned a) → Q a φ)
    (hE : ∀ e, mayFail op = true → E e φ) : (await op).wp (roleSpec i handler) Q E φ := by
  refine Typestate.wp_perform (fun a h ↦ ⟨φ, .neutral (neutral _), hQ a h⟩)
    (fun e h ↦ ⟨φ, .neutral (neutral _), hE e ?_⟩) (fun e h ↦ ⟨φ, .neutral (neutral _), hE e ?_⟩)
  · exact mayFail_of_possible h trivial
  · exact mayFail_of_possible h trivial

/-- A call that cannot throw. -/
theorem wp_sure {op : Op} {Q : Ans op → Phase → Prop} {E : AppError → Phase → Prop}
    (neutral : ∀ o, op.Neutral o) (sure : mayFail op = false) (hQ : ∀ a, Q a φ) :
    (await op).wp (roleSpec i handler) Q E φ :=
  wp_neutral neutral (fun a _ ↦ hQ a) fun e hfail ↦ by simp [sure] at hfail

/-- After a call that threw out of an attempt, a worker knows it. -/
theorem moves_uncaught {op : Op} {o : Outcome AppError (Ans op)} (neutral : op.Neutral o)
    (failed : o.Failed)
    (uncaught : ∀ config job, handler = .worker config job → op.uncaught config.publisher = true) :
    Moves handler φ op o { φ with thrown := φ.thrown || handler.isWorker } := by
  cases handler with
  | worker config job =>
    have hthrows : (Handler.worker config job).ThrowsOut op o :=
      .inl ⟨uncaught config job rfl, failed⟩
    simpa [Handler.isWorker] using Moves.thrown neutral hthrows
  | submit input => simpa [Handler.isWorker] using Moves.neutral neutral
  | message chunk => simpa [Handler.isWorker] using Moves.neutral neutral
  | gatherTimeout jobId => simpa [Handler.isWorker] using Moves.neutral neutral
  | storeUser id user => simpa [Handler.isWorker] using Moves.neutral neutral

theorem leaves_uncaught (hgate : φ.gate ≠ .refused) :
    handler.Leaves { φ with thrown := φ.thrown || handler.isWorker } :=
  ⟨hgate, fun hworker ↦ by simp [hworker]⟩

/-- A query whose exception is not caught by the worker's use case. -/
theorem wp_uncaught {op : Op} {Q : Ans op → Phase → Prop} {E : AppError → Phase → Prop}
    (neutral : ∀ o : Outcome AppError (Ans op), o.Failed → op.Neutral o)
    (uncaught : ∀ config job, handler = .worker config job → op.uncaught config.publisher = true)
    (hgate : φ.gate ≠ .refused)
    (hQ : ∀ a, (world ι).Possible AppError i op (.returned a) →
      ∃ φ', Moves handler φ op (.returned a) φ' ∧ Q a φ')
    (hE : ∀ e φ', handler.Leaves φ' → E e φ') : (await op).wp (roleSpec i handler) Q E φ := by
  refine Typestate.wp_perform hQ (fun e _ ↦ ?_) (fun e _ ↦ ?_)
  · exact ⟨_, moves_uncaught (neutral _ trivial) trivial uncaught, hE e _ (leaves_uncaught hgate)⟩
  · exact ⟨_, moves_uncaught (neutral _ trivial) trivial uncaught, hE e _ (leaves_uncaught hgate)⟩

/-! ## The planning phase -/

section Planning

variable {texts : PlanningTexts} {id : JobId} {userId : UserId}

theorem resolvePlanningPrompt_wp {Q : ResolvedPlanningPrompt → Phase → Prop}
    {E : AppError → Phase → Prop} (hQ : ∀ resolved, Q resolved φ) (hE : ∀ e, E e φ) :
    (resolvePlanningPrompt texts).wp (roleSpec i handler) Q E φ := by
  rw [resolvePlanningPrompt, Program.wp_bind]
  refine wp_neutral (fun _ ↦ trivial) (fun active _ ↦ ?_) fun e _ ↦ hE e
  cases active with
  | none => exact hQ _
  | some active => exact hQ _

/-- An owner's reading of the user. -/
theorem assertJobUserActive_wp {Q : Unit → Phase → Prop} {E : AppError → Phase → Prop}
    (role : φ.role = .owner id userId) (gate : φ.gate ≠ .called)
    (hQ : Q () { φ with gate := .passed })
    (hE : ∀ e g, g = .unread ∨ g = .refused ∧ failureErrorCode e ∈ refusalCodes →
      E e { φ with gate := g }) :
    (assertJobUserActive userId).wp (roleSpec i handler) Q E φ := by
  rw [assertJobUserActive, Program.wp_bind]
  refine Typestate.wp_perform (fun found _ ↦ ⟨_, .findUser role gate, ?_⟩)
    (fun e _ ↦ ⟨_, .findUser role gate, hE e _ (.inl rfl)⟩)
    (fun e _ ↦ ⟨_, .findUser role gate, hE e _ (.inl rfl)⟩)
  cases found with
  | none => exact hE _ _ (.inr ⟨rfl, by decide⟩)
  | some user =>
    by_cases hdisabled : user.isDisabled = true
    · have hgate : readGate (.returned (some user)) = .refused := by
        simp [readGate, User.mayUseAi, hdisabled]
      simpa [hdisabled] using hE _ _ (.inr ⟨hgate, by decide⟩)
    · by_cases hconsent : user.hasCurrentAiConsent = true
      · have hgate : readGate (.returned (some user)) = .passed := by
          simp [readGate, User.mayUseAi, hdisabled, hconsent]
        simpa [hdisabled, hconsent, hgate] using hQ
      · have hgate : readGate (.returned (some user)) = .refused := by
          simp [readGate, User.mayUseAi, hconsent]
        simpa [hdisabled, hconsent] using hE _ _ (.inr ⟨hgate, by decide⟩)

/-- Retrieval never throws. -/
theorem prepare_wp {Q : PreparedPlanningContext → Phase → Prop} {E : AppError → Phase → Prop}
    {job : PlanningJob} {context : JsonObject} (role : φ.role = .owner id userId)
    (gate : φ.gate = .unread ∨ φ.gate = .passed)
    (hQ : ∀ prepared, Q prepared { φ with gate := .unread }) :
    (prepare texts job context).wp (roleSpec i handler) Q E φ := by
  rw [prepare, Program.wp_bind, Program.wp_attempt]
  exact Typestate.wp_perform (fun _ _ ↦ ⟨_, .search role gate, hQ _⟩)
    (fun _ _ ↦ ⟨_, .search role gate, hQ _⟩) (fun _ _ ↦ ⟨_, .search role gate, hQ _⟩)

theorem plan_wp {Q : ValidatedPlanningResult → Phase → Prop} {E : AppError → Phase → Prop}
    {resolved : PromptTexts} {job : PlanningJob} {prepared : PreparedPlanningContext}
    (role : φ.role = .owner id userId) (gate : φ.gate = .passed)
    (hQ : ∀ result, Q result { φ with gate := .called })
    (hE : ∀ e g, g = .passed ∨ g = .called → E e { φ with gate := g }) :
    (plan texts resolved job prepared).wp (roleSpec i handler) Q E φ := by
  rw [plan, planWithGuards, Program.wp_bind, Program.wp_bind]
  refine wp_sure (fun _ ↦ trivial) rfl fun nonce ↦ ?_
  cases texts.renderPrompts resolved job.prompt prepared.renderedContext nonce with
  | error error => exact hE error φ.gate (.inl gate)
  | ok rendered =>
    rw [Program.wp_bind]
    refine Typestate.wp_perform (fun result _ ↦ ⟨_, .plan role gate, ?_⟩)
      (fun e _ ↦ ⟨_, .plan role gate, hE e _ (.inr rfl)⟩)
      (fun e _ ↦ ⟨_, .plan role gate, hE e _ (.inr rfl)⟩)
    dsimp only
    split
    · exact hE _ _ (.inr rfl)
    · exact hQ _

/-- The handler has ended the job and holds it as its final write left it. -/
def Ended (id : JobId) (job : PlanningJob) (φ : Phase) : Prop :=
  job.id = id ∧ job.status.Terminal ∧ φ.role = .settled id job.status ∧ φ.gate ≠ .refused

/-- The final write of a failed job; a refusal is recorded under its own code. -/
theorem recordFailure_wp {Q : PlanningJob → Phase → Prop} {E : AppError → Phase → Prop}
    {claimed : PlanningJob} {promptVersion : Option String} {contextUsed : Option JsonObject}
    {error : AppError} (role : φ.role = .owner claimed.id userId)
    (gate : φ.gate = .refused → failureErrorCode error ∈ refusalCodes)
    (hQ : ∀ job φ', Ended claimed.id job φ' → Q job φ')
    (hE : ∀ e φ', handler.Leaves φ' → E e φ') :
    (recordFailure claimed promptVersion contextUsed error).wp (roleSpec i handler) Q E φ := by
  rw [recordFailure, Program.wp_bind]
  refine wp_sure (fun _ ↦ trivial) rfl fun finishedAt ↦ ?_
  rw [Program.wp_bind]
  have hmoves : ∀ o : Outcome AppError (Option PlanningJob), ∃ φ',
      Moves handler φ (.updateStatus claimed.id {
        status := .failed
        errorCode := some (some (failureErrorCode error))
        errorMessage := some (some (safeFailureMessage error))
        finishedAt := some (some finishedAt)
        promptVersion := some promptVersion
        contextUsed := some contextUsed }) o φ' ∧
      φ'.role = roleAfter claimed.id .failed o ∧ φ'.gate ≠ .refused ∧
      φ'.thrown = φ.thrownAfter handler o := by
    intro o
    by_cases hrefused : φ.gate = .refused
    · exact ⟨_, .refuse role hrefused (by simp [UpdatePlanningJobStatusData.Unguarded]) rfl rfl
        (gate hrefused), rfl, by simp, rfl⟩
    · exact ⟨_, .finish role hrefused (by simp [UpdatePlanningJobStatusData.Unguarded])
        (.inr rfl), rfl, hrefused, rfl⟩
  refine Typestate.wp_perform (fun found hpossible ↦ ?_) (fun e _ ↦ ?_) (fun e _ ↦ ?_)
  · obtain ⟨φ', hmove, hrole, hgate, -⟩ := hmoves (.returned found)
    refine ⟨φ', hmove, hQ _ φ' ?_⟩
    cases found with
    | none => exact ⟨rfl, .inr rfl, hrole, hgate⟩
    | some job =>
      obtain ⟨hid, hstatus⟩ := updated_of_updateStatus hpossible
      exact ⟨hid, .inr hstatus, hrole.trans (by rw [Option.getD_some, hstatus]; rfl), hgate⟩
  · obtain ⟨φ', hmove, -, hgate, hthrown⟩ := hmoves (.lost e)
    exact ⟨φ', hmove, hE e φ' ⟨hgate, fun hworker ↦ by simp [hthrown, Phase.thrownAfter, hworker]⟩⟩
  · obtain ⟨φ', hmove, -, hgate, hthrown⟩ := hmoves (.applied e)
    exact ⟨φ', hmove, hE e φ' ⟨hgate, fun hworker ↦ by simp [hthrown, Phase.thrownAfter, hworker]⟩⟩

/-- The final write of a planned job. -/
theorem recordResult_wp {Q : PlanningJob → Phase → Prop} {E : AppError → Phase → Prop}
    {claimed : PlanningJob} {promptVersion : Option String} {contextUsed : JsonObject}
    {result : ValidatedPlanningResult} (role : φ.role = .owner claimed.id userId)
    (gate : φ.gate ≠ .refused) (hQ : ∀ job φ', Ended claimed.id job φ' → Q job φ')
    (hE : ∀ e φ', handler.Leaves φ' → E e φ') :
    (recordResult claimed promptVersion contextUsed result).wp (roleSpec i handler) Q E φ := by
  rw [recordResult, Program.wp_bind]
  refine wp_sure (fun _ ↦ trivial) rfl fun finishedAt ↦ ?_
  rw [Program.wp_bind]
  have hguarded : ∀ patch : UpdatePlanningJobStatusData, patch.promptVersion = some promptVersion →
      ¬ patch.Unguarded := by
    intro patch hpatch
    simp [UpdatePlanningJobStatusData.Unguarded, hpatch]
  refine Typestate.wp_perform (fun found hpossible ↦ ?_) (fun e _ ↦ ?_) (fun e _ ↦ ?_)
  · refine ⟨_, .finish role gate (hguarded _ rfl) (.inl rfl), hQ _ _ ?_⟩
    cases found with
    | none => exact ⟨rfl, .inl rfl, rfl, gate⟩
    | some job =>
      obtain ⟨hid, hstatus⟩ := updated_of_updateStatus hpossible
      exact ⟨hid, .inl hstatus, by rw [Option.getD_some, hstatus]; rfl, gate⟩
  · exact ⟨_, .finish role gate (hguarded _ rfl) (.inl rfl), hE e _
      ⟨gate, fun hworker ↦ by simp [Phase.thrownAfter, hworker]⟩⟩
  · exact ⟨_, .finish role gate (hguarded _ rfl) (.inl rfl), hE e _
      ⟨gate, fun hworker ↦ by simp [Phase.thrownAfter, hworker]⟩⟩

/-- From the second reading of the user on: the part of the planning phase that may call the
planner, with the final write. -/
theorem planAndRecord_wp {α : Type} {Q : α → Phase → Prop} {E : AppError → Phase → Prop}
    {claimed : PlanningJob} {resolved : PromptTexts} {prepared : PreparedPlanningContext}
    {rest : Except AppError ValidatedPlanningResult → Async α}
    (role : φ.role = .owner claimed.id claimed.userId) (gate : φ.gate = .unread)
    (hresult : ∀ result φ', φ'.role = .owner claimed.id claimed.userId → φ'.gate ≠ .refused →
      (rest (.ok result)).wp (roleSpec i handler) Q E φ')
    (herror : ∀ error φ', φ'.role = .owner claimed.id claimed.userId →
      (φ'.gate = .refused → failureErrorCode error ∈ refusalCodes) →
      (rest (.error error)).wp (roleSpec i handler) Q E φ') :
    (Program.attempt (do
      assertJobUserActive claimed.userId
      plan texts resolved claimed prepared) >>= rest).wp (roleSpec i handler) Q E φ := by
  rw [Program.wp_bind, Program.wp_attempt, Program.wp_bind]
  refine assertJobUserActive_wp role (by simp [gate]) ?_ fun e g hg ↦ ?_
  · refine plan_wp role rfl (fun result ↦ hresult result _ role (by simp)) fun e g hg ↦ ?_
    refine herror e _ role fun hrefused ↦ ?_
    obtain rfl | rfl := hg <;> cases hrefused
  · refine herror e _ role fun hrefused ↦ ?_
    obtain rfl | ⟨-, hcode⟩ := hg
    · cases hrefused
    · exact hcode

theorem runClaimedPlanning_wp {Q : PlanningJob → Phase → Prop} {E : AppError → Phase → Prop}
    {claimed : PlanningJob} {context : JsonObject}
    (role : φ.role = .owner claimed.id claimed.userId) (gate : φ.gate = .unread)
    (hQ : ∀ job φ', Ended claimed.id job φ' → Q job φ')
    (hE : ∀ e φ', handler.Leaves φ' → E e φ') :
    (runClaimedPlanning texts claimed context).wp (roleSpec i handler) Q E φ := by
  rw [runClaimedPlanning, Program.wp_bind, Program.wp_attempt]
  refine resolvePlanningPrompt_wp (fun resolved ↦ ?_) fun e ↦ ?_
  · rw [Program.wp_bind, Program.wp_attempt, Program.wp_bind]
    refine assertJobUserActive_wp role (by simp [gate]) ?_ fun e g hg ↦ ?_
    · refine prepare_wp role (.inr rfl) fun prepared ↦ ?_
      exact planAndRecord_wp role rfl (fun result φ' hrole hgate ↦ recordResult_wp hrole hgate hQ hE)
        fun error φ' hrole hgate ↦ recordFailure_wp hrole hgate hQ hE
    · have hreason : g = .refused → failureErrorCode e ∈ refusalCodes := by
        rintro rfl
        exact hg.elim nofun And.right
      exact recordFailure_wp role hreason hQ hE
  · exact recordFailure_wp role (fun hrefused ↦ by simp [gate] at hrefused) hQ hE

end Planning

/-! ## ProcessPlanningJobUseCase -/

section Worker

variable {texts : PlanningTexts} {config : WorkerConfig} {queued : QueueJob}

/-- What an attempt that returned leaves: if it ended its job, it may announce that outcome. -/
def Announceable (jobId : JobId) (result : ProcessPlanningJobResult) (φ : Phase) : Prop :=
  φ.gate ≠ .refused ∧ (result.processed = true → result.job.status.Terminal →
    φ.role = .settled jobId result.job.status)

theorem notClaimed_wp {Q : ProcessPlanningJobResult → Phase → Prop}
    {E : AppError → Phase → Prop} (gate : φ.gate ≠ .refused)
    (hQ : ∀ result, Announceable queued.jobId result φ → Q result φ)
    (hE : ∀ e φ', (Handler.worker config queued).Leaves φ' → E e φ') :
    (notClaimed queued.jobId).wp (roleSpec i (.worker config queued)) Q E φ := by
  rw [notClaimed, Program.wp_bind]
  refine wp_uncaught (fun _ _ ↦ trivial) (fun _ _ _ ↦ rfl) gate (fun found _ ↦ ?_) hE
  cases found with
  | none =>
    exact ⟨_, .thrown trivial (.inr rfl), hE _ _ ⟨gate, fun _ ↦ rfl⟩⟩
  | some existing => exact ⟨φ, .neutral trivial, hQ _ ⟨gate, by simp⟩⟩

/-- The three outcomes of a claim made by a worker. -/
theorem wp_claim {op : Op} {Q : Ans op → Phase → Prop} {E : AppError → Phase → Prop}
    (neutral : ∀ o : Outcome AppError (Ans op), o.Failed → op.Neutral o)
    (uncaught : op.uncaught config.publisher = true) (gate : φ.gate ≠ .refused)
    (hQ : ∀ a, (world ι).Possible AppError i op (.returned a) →
      ∃ φ', Moves (.worker config queued) φ op (.returned a) φ' ∧ Q a φ')
    (hE : ∀ e φ', (Handler.worker config queued).Leaves φ' → E e φ') :
    (await op).wp (roleSpec i (.worker config queued)) Q E φ :=
  wp_uncaught neutral (fun _ _ heq ↦ (Handler.worker.inj heq).1 ▸ uncaught) gate hQ hE

/-- The prompt lookup of the legacy branch, outside its `try`. -/
theorem resolvePlanningPrompt_legacy_wp {Q : ResolvedPlanningPrompt → Phase → Prop}
    {E : AppError → Phase → Prop} (legacy : config.publisher = false) (gate : φ.gate ≠ .refused)
    (hQ : ∀ resolved, Q resolved φ)
    (hE : ∀ e φ', (Handler.worker config queued).Leaves φ' → E e φ') :
    (resolvePlanningPrompt texts).wp (roleSpec i (.worker config queued)) Q E φ := by
  rw [resolvePlanningPrompt, Program.wp_bind]
  refine wp_claim (fun _ _ ↦ trivial) (by simp [Op.uncaught, legacy]) gate (fun active _ ↦ ?_) hE
  refine ⟨φ, .neutral trivial, ?_⟩
  cases active with
  | none => exact hQ _
  | some active => exact hQ _

theorem executeLegacy_wp {Q : ProcessPlanningJobResult → Phase → Prop}
    {E : AppError → Phase → Prop} (legacy : config.publisher = false) (gate : φ.gate ≠ .refused)
    (hQ : ∀ result φ', Announceable queued.jobId result φ' → Q result φ')
    (hE : ∀ e φ', (Handler.worker config queued).Leaves φ' → E e φ') :
    (executeLegacy texts queued.jobId).wp (roleSpec i (.worker config queued)) Q E φ := by
  rw [executeLegacy, Program.wp_bind]
  refine wp_claim (fun _ hfailed job heq ↦ by simp [heq] at hfailed) rfl gate
    (fun found hpossible ↦ ?_) hE
  cases found with
  | none =>
    exact ⟨φ, .neutral (by rintro job ⟨⟩), notClaimed_wp gate (fun result ↦ hQ result φ) hE⟩
  | some claimed =>
    have hid : claimed.id = queued.jobId := id_of_claimForProcessing hpossible
    have hended : ∀ (job : PlanningJob) (φ' : Phase), Ended claimed.id job φ' →
        Q { processed := true, job := job } φ' :=
      fun job φ' ⟨_, _, hrole, hgate⟩ ↦ hQ _ φ' ⟨hgate, fun _ _ ↦ hid ▸ hrole⟩
    have hfailure : ∀ (context : Option JsonObject) (promptVersion : Option String)
        (error : AppError) (φ' : Phase), φ'.role = .owner claimed.id claimed.userId →
        (φ'.gate = .refused → failureErrorCode error ∈ refusalCodes) →
        (recordFailure claimed promptVersion context error >>= fun job ↦
          Pure.pure ({ processed := true, job := job } : ProcessPlanningJobResult)).wp
          (roleSpec i (.worker config queued)) Q E φ' := by
      intro context promptVersion error φ' hrole hgate
      rw [Program.wp_bind]
      exact recordFailure_wp hrole hgate hended hE
    refine ⟨_, Moves.claimForProcessing rfl, ?_⟩
    rw [Program.wp_bind]
    refine resolvePlanningPrompt_legacy_wp legacy (by simp) (fun resolved ↦ ?_) hE
    have hrole : Role.owner queued.jobId claimed.userId = .owner claimed.id claimed.userId := by
      rw [hid]
    rw [Program.wp_bind, Program.wp_attempt, Program.wp_bind]
    refine assertJobUserActive_wp hrole (by simp) ?_ fun e g hg ↦ ?_
    · rw [Program.wp_bind]
      refine Typestate.wp_perform (fun gathered _ ↦ ⟨_, .gather hrole (.inr rfl), ?_⟩)
        (fun e _ ↦ ⟨_, .gather hrole (.inr rfl), ?_⟩) (fun e _ ↦ ⟨_, .gather hrole (.inr rfl), ?_⟩)
      · refine prepare_wp hrole (.inl rfl) fun prepared ↦ ?_
        refine planAndRecord_wp hrole rfl (fun result φ' howner hgate ↦ ?_) (hfailure _ _)
        rw [Program.wp_bind]
        exact recordResult_wp howner hgate hended hE
      · exact hfailure _ _ _ _ hrole fun hrefused ↦ nomatch hrefused
      · exact hfailure _ _ _ _ hrole fun hrefused ↦ nomatch hrefused
    · refine hfailure _ _ _ _ (by rw [hid]) fun hrefused ↦ ?_
      obtain rfl | ⟨-, hcode⟩ := hg
      · cases hrefused
      · exact hcode

/-! ### The transport branch -/

/-- The failure write before planning. -/
theorem recordUnstarted_wp {Q : ProcessPlanningJobResult → Phase → Prop}
    {E : AppError → Phase → Prop} {claimed : PlanningJob} {errorCode errorMessage : String}
    (role : φ.role = .gathering claimed.id) (gate : φ.gate ≠ .refused)
    (own : claimed.id = queued.jobId)
    (reason : φ.disturbed = true ∨ errorCode ∈ refusalCodes)
    (hQ : ∀ result φ', Announceable queued.jobId result φ' → Q result φ')
    (hE : ∀ e φ', (Handler.worker config queued).Leaves φ' → E e φ') :
    (recordUnstarted claimed errorCode errorMessage).wp
      (roleSpec i (.worker config queued)) Q E φ := by
  rw [recordUnstarted, Program.wp_bind]
  refine wp_sure (fun _ ↦ trivial) rfl fun finishedAt ↦ ?_
  rw [Program.wp_bind]
  have hreason := reason.imp id fun hcode ↦
    (⟨errorCode, hcode, rfl⟩ : ∃ code ∈ refusalCodes, some (some errorCode) = some (some code))
  refine Typestate.wp_perform (fun found hpossible ↦ ⟨_, .giveUp role rfl rfl hreason, ?_⟩)
    (fun e _ ↦ ⟨_, .giveUp role rfl rfl hreason, ?_⟩)
    (fun e _ ↦ ⟨_, .giveUp role rfl rfl hreason, ?_⟩)
  · refine hQ _ _ ⟨gate, fun _ _ ↦ ?_⟩
    cases found with
    | none => exact own ▸ rfl
    | some job => rw [← own, Option.getD_some, (updated_of_updateStatus hpossible).2]; rfl
  · exact hE e _ ⟨gate, fun _ ↦ by simp [Phase.thrownAfter, Handler.isWorker]⟩
  · exact hE e _ ⟨gate, fun _ ↦ by simp [Phase.thrownAfter, Handler.isWorker]⟩

/-- The reading of the user before the gather request leaves. -/
theorem assertJobUserActive_early_wp {Q : Unit → Phase → Prop} {E : AppError → Phase → Prop}
    {id : JobId} {userId : UserId} (role : φ.role = .gathering id)
    (hQ : Q () { φ with gate := .unread })
    (hE : ∀ e φ', φ'.role = .gathering id → φ'.gate = .unread →
      φ'.disturbed = true ∨ failureErrorCode e ∈ refusalCodes → E e φ') :
    (assertJobUserActive userId).wp (roleSpec i handler) Q E φ := by
  rw [assertJobUserActive, Program.wp_bind]
  refine Typestate.wp_perform (fun found _ ↦ ⟨_, .findUserEarly role, ?_⟩)
    (fun e _ ↦ ⟨_, .findUserFailed role trivial, hE e _ role rfl (.inl rfl)⟩)
    (fun e _ ↦ ⟨_, .findUserFailed role trivial, hE e _ role rfl (.inl rfl)⟩)
  cases found with
  | none => exact hE _ _ role rfl (.inr (by decide))
  | some user =>
    dsimp only
    split
    · exact hE _ _ role rfl (.inr (by decide))
    · split
      · exact hE _ _ role rfl (.inr (by decide))
      · exact hQ

theorem planWithoutGathering_wp {Q : ProcessPlanningJobResult → Phase → Prop}
    {E : AppError → Phase → Prop} {claimed : PlanningJob} (gate : φ.gate ≠ .refused)
    (own : claimed.id = queued.jobId)
    (hQ : ∀ result φ', Announceable queued.jobId result φ' → Q result φ')
    (hE : ∀ e φ', (Handler.worker config queued).Leaves φ' → E e φ') :
    (planWithoutGathering texts claimed).wp (roleSpec i (.worker config queued)) Q E φ := by
  rw [planWithoutGathering, Program.wp_bind]
  refine wp_claim (fun _ hfailed job heq ↦ by simp [heq] at hfailed) rfl gate
    (fun found hpossible ↦ ?_) hE
  cases found with
  | none =>
    refine ⟨φ, .neutral (by rintro job ⟨⟩), ?_⟩
    rw [Program.wp_bind]
    exact wp_claim (fun _ _ ↦ trivial) rfl gate
      (fun existing _ ↦ ⟨φ, .neutral trivial, hQ _ _ ⟨gate, by simp⟩⟩) hE
  | some planning =>
    have hid : planning.id = claimed.id := id_of_claimForPlanning hpossible
    refine ⟨_, Moves.claimForPlanning (congrArg some own.symm), ?_⟩
    rw [Program.wp_bind]
    refine runClaimedPlanning_wp (by rw [hid]) rfl (fun job φ' ⟨_, _, hrole, hgate⟩ ↦ ?_) hE
    exact hQ _ φ' ⟨hgate, fun _ _ ↦ own ▸ hid ▸ hrole⟩

theorem requestGather_wp {Q : ProcessPlanningJobResult → Phase → Prop}
    {E : AppError → Phase → Prop} {claimed : PlanningJob}
    {connectors : List ConnectorMcpReference} (role : φ.role = .gathering claimed.id)
    (gate : φ.gate ≠ .refused) (own : claimed.id = queued.jobId)
    (gathering : claimed.status = .gathering)
    (hQ : ∀ result φ', Announceable queued.jobId result φ' → Q result φ')
    (hE : ∀ e φ', (Handler.worker config queued).Leaves φ' → E e φ') :
    (requestGather config claimed connectors).wp (roleSpec i (.worker config queued)) Q E φ := by
  have hreturned : Q { processed := true, job := claimed } φ := by
    refine hQ _ φ ⟨gate, fun _ hterminal ↦ ?_⟩
    simp [JobStatus.Terminal, gathering] at hterminal
  rw [requestGather, Program.wp_bind]
  refine wp_sure (fun _ ↦ trivial) rfl fun requestedAt ↦ ?_
  rw [Program.wp_bind, Program.wp_attempt]
  refine Typestate.wp_perform (fun published _ ↦ ⟨φ, .neutral trivial, ?_⟩)
    (fun e _ ↦ ⟨_, .disturb trivial rfl trivial, ?_⟩)
    (fun e _ ↦ ⟨_, .disturb trivial rfl trivial, ?_⟩)
  · dsimp only
    split
    · rw [Program.wp_bind]
      exact wp_claim (fun _ _ ↦ trivial) rfl gate
        (fun scheduled _ ↦ ⟨φ, .neutral trivial, hreturned⟩) hE
    · exact hreturned
  · exact recordUnstarted_wp role gate own (.inl rfl) hQ hE
  · exact recordUnstarted_wp role gate own (.inl rfl) hQ hE

theorem executeViaTransport_wp {Q : ProcessPlanningJobResult → Phase → Prop}
    {E : AppError → Phase → Prop} (gate : φ.gate ≠ .refused)
    (hQ : ∀ result φ', Announceable queued.jobId result φ' → Q result φ')
    (hE : ∀ e φ', (Handler.worker config queued).Leaves φ' → E e φ') :
    (executeViaTransport texts config queued.jobId).wp (roleSpec i (.worker config queued)) Q E
      φ := by
  rw [executeViaTransport, Program.wp_bind]
  refine wp_claim (fun _ hfailed job heq ↦ by simp [heq] at hfailed) rfl gate
    (fun found hpossible ↦ ?_) hE
  cases found with
  | none =>
    exact ⟨φ, .neutral (by rintro job ⟨⟩), notClaimed_wp gate (fun result ↦ hQ result φ) hE⟩
  | some claimed =>
    obtain ⟨hid, hgathering⟩ := claimed_of_claimForGathering hpossible
    refine ⟨_, Moves.claimForGathering rfl, ?_⟩
    have hrole : Role.gathering queued.jobId = .gathering claimed.id := by rw [hid]
    rw [Program.wp_bind, Program.wp_attempt]
    refine assertJobUserActive_early_wp hrole ?_ fun e φ' hrole' hgate' hreason ↦ ?_
    · have hrest : ∀ connectors : List ConnectorMcpReference,
          (if connectors.isEmpty = true then planWithoutGathering texts claimed
            else requestGather config claimed connectors).wp
            (roleSpec i (.worker config queued)) Q E
            { φ with role := .gathering queued.jobId, gate := .unread } := by
        intro connectors
        split
        · exact planWithoutGathering_wp (by simp) hid hQ hE
        · exact requestGather_wp hrole (by simp) hid hgathering hQ hE
      dsimp only
      split
      · rw [Program.wp_bind, resolveActiveConnectorReferences, Program.wp_bind]
        exact wp_claim (fun _ _ ↦ trivial) rfl (by simp)
          (fun active _ ↦ ⟨_, .neutral trivial, hrest _⟩) hE
      · exact hrest []
    · exact recordUnstarted_wp hrole' (by simp [hgate']) hid hreason hQ hE

/-! ### The processor -/

theorem announceProcessed_wp {Q : Unit → Phase → Prop} {E : AppError → Phase → Prop}
    {result : ProcessPlanningJobResult} (h : Announceable queued.jobId result φ)
    (hQ : ∀ φ', φ'.gate ≠ .refused → Q () φ') :
    (announceProcessed queued result).wp (roleSpec i (.worker config queued)) Q E φ := by
  obtain ⟨hgate, hsettled⟩ := h
  rw [announceProcessed]
  split
  · next hprocessed =>
    rw [Program.wp_bind]
    refine wp_sure (fun _ ↦ rfl) rfl fun _ ↦ ?_
    rw [announceOutcome]
    split
    · next hcompleted =>
      have hrole := hsettled hprocessed (.inl hcompleted)
      refine Typestate.wp_perform (fun _ _ ↦ ⟨_, .announce hrole ?_, hQ _ hgate⟩)
        (fun e h ↦ nomatch mayFail_of_possible h trivial)
        (fun e h ↦ nomatch mayFail_of_possible h trivial)
      rw [hcompleted]; rfl
    · split
      · next hfailed =>
        have hrole := hsettled hprocessed (.inr hfailed)
        have hemit : (await (.emit (.failed queued.jobId queued.userId result.job.status
            result.job.errorCode result.job.errorMessage))).wp
            (roleSpec i (.worker config queued)) Q E φ := by
          refine Typestate.wp_perform (fun _ _ ↦ ⟨_, .announce hrole ?_, hQ _ hgate⟩)
            (fun e h ↦ nomatch mayFail_of_possible h trivial)
            (fun e h ↦ nomatch mayFail_of_possible h trivial)
          rw [hfailed]; rfl
        dsimp only
        split
        · rw [Program.wp_bind]
          exact wp_sure (fun _ ↦ trivial) rfl fun _ ↦ hemit
        · exact hemit
      · exact hQ φ hgate
  · exact hQ φ hgate

/-- One attempt starts and ends with no refusal waiting, whether it returns or throws. -/
theorem planningProcessor_wp {Q : Unit → Phase → Prop} {E : AppError → Phase → Prop}
    (gate : φ.gate ≠ .refused) (hQ : ∀ φ', φ'.gate ≠ .refused → Q () φ')
    (hE : ∀ e φ', φ'.gate ≠ .refused → E e φ') :
    (planningProcessor texts config queued).wp (roleSpec i (.worker config queued)) Q E φ := by
  have halarm : ∀ (error : AppError) (φ' : Phase), (Handler.worker config queued).Leaves φ' →
      (await (.emit (processingFailed queued)) >>= fun _ ↦ Program.throw error).wp
        (roleSpec i (.worker config queued)) Q E φ' := by
    rintro error φ' ⟨hgate, hthrown⟩
    rw [Program.wp_bind]
    exact Typestate.wp_perform (fun _ _ ↦ ⟨φ', .alarm (hthrown rfl) rfl rfl, hE error φ' hgate⟩)
      (fun e h ↦ nomatch mayFail_of_possible h trivial)
      (fun e h ↦ nomatch mayFail_of_possible h trivial)
  rw [planningProcessor, Program.wp_bind, Program.wp_attempt, Program.wp_bind, processPlanningJob]
  split
  · exact executeViaTransport_wp gate (fun result φ' h ↦ announceProcessed_wp h hQ) halarm
  · next hlegacy =>
    exact executeLegacy_wp (by simpa using hlegacy) gate
      (fun result φ' h ↦ announceProcessed_wp h hQ) halarm

end Worker

/-! ## The other handlers -/

/-- What an attempt keeps, all attempts keep. -/
theorem bullmqAttempts_wp {spec : CallSpec Ans AppError Phase} {I : Phase → Prop}
    {process : Async Unit} {E : AppError → Phase → Prop}
    (hprocess : ∀ φ, I φ → process.wp spec (fun _ ↦ I) (fun _ ↦ I) φ) (attempts : ℕ)
    (hI : I φ) : (bullmqAttempts attempts process).wp spec (fun _ ↦ I) E φ := by
  induction attempts generalizing φ with
  | zero => exact hI
  | succ attempts ih =>
    rw [bullmqAttempts, Program.wp_bind, Program.wp_attempt]
    exact Program.wp_mono (fun _ _ h ↦ h) (fun _ _ h ↦ ih h) (hprocess φ hI)

theorem gatherTimeoutProcessor_wp {Q : Unit → Phase → Prop} {E : AppError → Phase → Prop}
    {jobId : JobId} (gate : φ.gate ≠ .refused) (hQ : ∀ φ', φ'.gate ≠ .refused → Q () φ')
    (hE : ∀ e φ', φ'.gate ≠ .refused → E e φ') :
    (gatherTimeoutProcessor jobId).wp (roleSpec i handler) Q E φ := by
  rw [gatherTimeoutProcessor, handleGatherTimeout, Program.wp_bind, Program.wp_bind]
  refine Typestate.wp_perform (fun found hpossible ↦ ?_)
    (fun e _ ↦ ⟨φ, .neutral (by rintro job ⟨⟩), hE e φ gate⟩)
    (fun e _ ↦ ⟨φ, .neutral (by rintro job ⟨⟩), hE e φ gate⟩)
  cases found with
  | none =>
    refine ⟨φ, .neutral (by rintro job ⟨⟩), ?_⟩
    rw [Program.wp_bind]
    exact wp_neutral (fun _ ↦ trivial) (fun current _ ↦ hQ φ gate) fun e _ ↦ hE e φ gate
  | some job =>
    obtain ⟨hid, hstatus⟩ := failed_of_failIfStillGathering hpossible
    refine ⟨_, .failIfStillGathering gate, ?_⟩
    rw [Program.wp_pure', Program.wp_bind]
    refine wp_sure (fun _ ↦ trivial) rfl fun _ ↦ ?_
    refine Typestate.wp_perform (fun _ _ ↦ ⟨_, .announce rfl ?_, hQ _ gate⟩)
      (fun e h ↦ nomatch mayFail_of_possible h trivial)
      (fun e h ↦ nomatch mayFail_of_possible h trivial)
    rw [hid]; rfl

section Message

variable {texts : PlanningTexts} {chunk : ContextResultChunk}

/-- What handling a chunk leaves: a terminal result may be announced. -/
def Relayable (result : HandleContextResultChunkResult) (φ : Phase) : Prop :=
  φ.gate ≠ .refused ∧ ∀ job ∈ result.job, result.terminal = true → job.status.Terminal →
    φ.role = .settled job.id job.status

theorem finalizeCompleted_wp {Q : Option PlanningJob → Phase → Prop}
    {E : AppError → Phase → Prop} {job : PlanningJob} (own : job.id = chunk.jobId)
    (gate : φ.gate ≠ .refused) (hnone : Q none φ)
    (hsome : ∀ finished φ', Ended job.id finished φ' → Q (some finished) φ')
    (hE : ∀ e φ', φ'.gate ≠ .refused → E e φ') :
    (finalizeCompleted texts job).wp (roleSpec i (.message (some chunk))) Q E φ := by
  rw [finalizeCompleted, Program.wp_bind]
  refine Typestate.wp_perform (fun found hpossible ↦ ?_)
    (fun e _ ↦ ⟨φ, .neutral (by rintro job ⟨⟩), hE e φ gate⟩)
    (fun e _ ↦ ⟨φ, .neutral (by rintro job ⟨⟩), hE e φ gate⟩)
  cases found with
  | none => exact ⟨φ, .neutral (by rintro job ⟨⟩), hnone⟩
  | some claimed =>
    have hid : claimed.id = job.id := id_of_claimForPlanning hpossible
    refine ⟨_, Moves.claimForPlanning (congrArg some own.symm), ?_⟩
    rw [Program.wp_bind]
    exact runClaimedPlanning_wp (by rw [hid]) rfl (fun finished φ' h ↦ hsome finished φ' (hid ▸ h))
      fun e φ' h ↦ hE e φ' h.1

theorem finalizeFailed_wp {Q : Option PlanningJob → Phase → Prop} {E : AppError → Phase → Prop}
    {job : PlanningJob} {status : ChunkStatus} (gate : φ.gate ≠ .refused) (hnone : Q none φ)
    (hsome : ∀ finished φ', Ended job.id finished φ' → Q (some finished) φ')
    (hE : ∀ e φ', φ'.gate ≠ .refused → E e φ') :
    (finalizeFailed job status).wp (roleSpec i handler) Q E φ := by
  refine Typestate.wp_perform (fun found hpossible ↦ ?_)
    (fun e _ ↦ ⟨φ, .neutral (by rintro job ⟨⟩), hE e φ gate⟩)
    (fun e _ ↦ ⟨φ, .neutral (by rintro job ⟨⟩), hE e φ gate⟩)
  cases found with
  | none => exact ⟨φ, .neutral (by rintro job ⟨⟩), hnone⟩
  | some finished =>
    obtain ⟨hid, hstatus⟩ := failed_of_failIfStillGathering hpossible
    exact ⟨_, .failIfStillGathering gate, hsome _ _ ⟨hid, .inr hstatus, by rw [hstatus], gate⟩⟩

theorem finishChunk_wp {Q : HandleContextResultChunkResult → Phase → Prop}
    {E : AppError → Phase → Prop} {current : PlanningJob} {body : ChunkBody}
    (own : current.id = chunk.jobId) (gate : φ.gate ≠ .refused)
    (hQ : ∀ result φ', Relayable result φ' → Q result φ')
    (hE : ∀ e φ', φ'.gate ≠ .refused → E e φ') :
    (finishChunk texts current body).wp (roleSpec i (.message (some chunk))) Q E φ := by
  have hkept : ∀ outcome, Q { outcome := outcome, job := some current, terminal := false } φ :=
    fun outcome ↦ hQ _ φ ⟨gate, by simp⟩
  have hended : ∀ finished φ', Ended current.id finished φ' →
      Q { outcome := .applied, job := some finished, terminal := true } φ' := by
    rintro finished φ' ⟨hid, -, hrole, hgate⟩
    refine hQ _ φ' ⟨hgate, fun job hjob _ _ ↦ ?_⟩
    obtain rfl : finished = job := Option.some.inj hjob
    exact hid ▸ hrole
  cases body with
  | data data => exact hkept .applied
  | status status =>
    rw [finishChunk]
    split
    · exact hkept .applied
    · dsimp only
      split
      · rw [Program.wp_bind]
        exact finalizeCompleted_wp own gate (hkept .duplicate) hended hE
      · rw [Program.wp_bind]
        exact finalizeFailed_wp gate (hkept .duplicate) hended hE

theorem handleContextResultChunk_wp {Q : HandleContextResultChunkResult → Phase → Prop}
    {E : AppError → Phase → Prop} (gate : φ.gate ≠ .refused)
    (hQ : ∀ result φ', Relayable result φ' → Q result φ')
    (hE : ∀ e φ', φ'.gate ≠ .refused → E e φ') :
    (handleContextResultChunk texts chunk).wp (roleSpec i (.message (some chunk))) Q E φ := by
  rw [handleContextResultChunk, Program.wp_bind]
  refine wp_neutral (fun _ ↦ trivial) (fun found hfound ↦ ?_) fun e _ ↦ hE e φ gate
  cases found with
  | none => exact hQ _ φ ⟨gate, by simp⟩
  | some job =>
    have hid : job.id = chunk.jobId := id_of_findById hfound
    dsimp only
    split
    · exact hQ _ φ ⟨gate, by simp⟩
    · split
      · exact hQ _ φ ⟨gate, by simp⟩
      · rw [Program.wp_bind, appendResultChunk, Program.wp_bind]
        refine wp_neutral (fun _ ↦ trivial) (fun pushed hpushed ↦ ?_) fun e _ ↦ hE e φ gate
        cases pushed with
        | some updated => exact finishChunk_wp ((id_of_pushResultChunk hpushed).trans hid) gate hQ hE
        | none =>
          rw [Program.wp_bind]
          exact wp_neutral (fun _ ↦ trivial) (fun existing _ ↦ hQ _ φ ⟨gate, by simp⟩)
            fun e _ ↦ hE e φ gate

theorem relay_wp {Q : Unit → Phase → Prop} {E : AppError → Phase → Prop}
    {result : HandleContextResultChunkResult} (h : Relayable result φ)
    (hQ : ∀ φ', φ'.gate ≠ .refused → Q () φ') :
    (relay chunk result).wp (roleSpec i handler) Q E φ := by
  obtain ⟨hgate, hsettled⟩ := h
  rw [relay]
  split
  · exact hQ φ hgate
  · next job hjob =>
    split
    · exact wp_sure (fun _ ↦ rfl) rfl fun _ ↦ hQ φ hgate
    · next hterminal =>
      have houtcome : (if job.status = .completed then
            await (.emit (.completed job.id job.userId job.status job.result))
          else if job.status = .failed then
            await (.emit (.failed job.id job.userId job.status job.errorCode job.errorMessage))
          else pure ()).wp (roleSpec i handler) Q E φ := by
        have hrole := hsettled job hjob (by simpa using hterminal)
        split
        · next hcompleted =>
          refine Typestate.wp_perform
            (fun _ _ ↦ ⟨_, .announce (hrole (.inl hcompleted)) ?_, hQ _ hgate⟩)
            (fun e h ↦ nomatch mayFail_of_possible h trivial)
            (fun e h ↦ nomatch mayFail_of_possible h trivial)
          rw [hcompleted]; rfl
        · split
          · next hfailed =>
            refine Typestate.wp_perform
              (fun _ _ ↦ ⟨_, .announce (hrole (.inr hfailed)) ?_, hQ _ hgate⟩)
              (fun e h ↦ nomatch mayFail_of_possible h trivial)
              (fun e h ↦ nomatch mayFail_of_possible h trivial)
            rw [hfailed]; rfl
          · exact hQ φ hgate
      dsimp only
      split
      · split
        · rw [Program.wp_bind]
          exact wp_sure (fun _ ↦ rfl) rfl fun _ ↦ houtcome
        · exact houtcome
      · exact houtcome

theorem settleMessage_wp {Q : Unit → Phase → Prop} {E : AppError → Phase → Prop}
    {result : HandleContextResultChunkResult} (h : Relayable result φ)
    (hQ : ∀ φ', φ'.gate ≠ .refused → Q () φ') :
    (settleMessage chunk result).wp (roleSpec i handler) Q E φ := by
  have hrest : (if result.outcome = .unknownJob ∨ result.outcome = .ownershipMismatch then
        await (.nack false)
      else do
        if result.outcome = .applied then
          relay chunk result
        await .ack).wp (roleSpec i handler) Q E φ := by
    split
    · exact wp_sure (fun _ ↦ trivial) rfl fun _ ↦ hQ φ h.1
    · dsimp only
      split
      · rw [Program.wp_bind]
        exact relay_wp h fun φ' hgate ↦ wp_sure (fun _ ↦ trivial) rfl fun _ ↦ hQ φ' hgate
      · exact wp_sure (fun _ ↦ trivial) rfl fun _ ↦ hQ φ h.1
  rw [settleMessage, Program.wp_bind, reportFailed]
  split
  · exact hrest
  · split
    · exact wp_sure (fun _ ↦ trivial) rfl fun _ ↦ hrest
    · exact hrest

theorem handleParsedChunk_wp {Q : Unit → Phase → Prop} {E : AppError → Phase → Prop}
    (gate : φ.gate ≠ .refused) (hQ : ∀ φ', φ'.gate ≠ .refused → Q () φ') :
    (handleParsedChunk texts chunk).wp (roleSpec i (.message (some chunk))) Q E φ := by
  rw [handleParsedChunk, Program.wp_bind, Program.wp_attempt, Program.wp_bind]
  exact handleContextResultChunk_wp gate (fun result φ' h ↦ settleMessage_wp h hQ)
    fun e φ' hgate ↦ wp_sure (fun _ ↦ trivial) rfl fun _ ↦ hQ φ' hgate

theorem onMessage_wp {Q : Unit → Phase → Prop} {E : AppError → Phase → Prop}
    (message : Option ContextResultChunk) (gate : φ.gate ≠ .refused)
    (hQ : ∀ φ', φ'.gate ≠ .refused → Q () φ') :
    (onMessage texts message).wp (roleSpec i (.message message)) Q E φ := by
  cases message with
  | none => exact wp_sure (fun _ ↦ trivial) rfl fun _ ↦ hQ φ gate
  | some chunk =>
    rw [onMessage, runInJobOrder, Program.wp_bind]
    refine wp_sure (fun _ ↦ trivial) rfl fun ⟨previous, task⟩ ↦ ?_
    rw [Program.wp_bind]
    refine wp_sure (fun _ ↦ trivial) rfl fun _ ↦ ?_
    rw [Program.wp_bind, Program.wp_attempt]
    exact handleParsedChunk_wp gate fun φ' hgate ↦
      wp_sure (fun _ ↦ trivial) rfl fun _ ↦ hQ φ' hgate

end Message

section Submit

variable {input : SubmitPlanningJobInput}

/-- A validation of the submit endpoint: its calls change no role. -/
theorem resolveAndValidateBinding_wp {Q : Option String × Option String → Phase → Prop}
    {E : AppError → Phase → Prop} (hQ : ∀ binding, Q binding φ) (hE : ∀ e, E e φ) :
    (resolveAndValidateBinding input).wp (roleSpec i handler) Q E φ := by
  have howned : ∀ (checked : String) (binding : Option String × Option String), (do
      let owner ← await (.findDocumentById checked)
      if owner = some input.userId then
        return binding
      else
        .throw ⟨.notFound, s!"Document {checked} not found"⟩ :
      Async (Option String × Option String)).wp (roleSpec i handler) Q E φ := by
    intro checked binding
    rw [Program.wp_bind]
    refine wp_neutral (fun _ ↦ trivial) (fun owner _ ↦ ?_) fun e _ ↦ hE e
    split
    · exact hQ _
    · exact hE _
  rw [resolveAndValidateBinding]
  split
  · rw [Program.wp_bind, Program.wp_pure']
    dsimp only
    split
    · exact hQ _
    · exact howned _ _
  · dsimp only
    rw [Program.wp_bind]
    refine wp_neutral (fun _ ↦ trivial) (fun sectionDocument _ ↦ ?_) fun e _ ↦ hE e
    cases sectionDocument with
    | none => exact hE _
    | some sectionDocument =>
      dsimp only
      split
      · rw [Program.wp_bind, Program.wp_pure']
        split
        · exact hQ _
        · exact howned _ _
      · split
        · rw [Program.wp_bind, Program.wp_pure']
          split
          · exact hQ _
          · exact howned _ _
        · exact hE _

theorem assertConnectorsActive_wp {Q : Unit → Phase → Prop} {E : AppError → Phase → Prop}
    {userId : UserId} {connectors : List String} (hQ : Q () φ) (hE : ∀ e, E e φ) :
    (assertConnectorsActive userId connectors).wp (roleSpec i handler) Q E φ := by
  rw [assertConnectorsActive]
  split
  · rw [Program.wp_bind]
    refine wp_neutral (fun _ ↦ trivial) (fun active _ ↦ ?_) fun e _ ↦ hE e
    split
    · exact hE _
    · exact hQ
  · exact hQ

theorem assertWithinQuota_wp {Q : Unit → Phase → Prop} {E : AppError → Phase → Prop}
    {userId : UserId} (hQ : Q () φ) (hE : ∀ e, E e φ) :
    (assertWithinQuota userId).wp (roleSpec i handler) Q E φ := by
  rw [assertWithinQuota, Program.wp_bind]
  refine wp_sure (fun _ ↦ trivial) rfl fun available ↦ ?_
  split
  · rw [Program.wp_bind, Program.wp_attempt]
    exact wp_neutral (fun _ ↦ trivial) (fun _ _ ↦ hQ) fun e _ ↦ hE _
  · exact hQ

theorem submitPlanningJob_wp {Q : PlanningJob → Phase → Prop} {E : AppError → Phase → Prop}
    (gate : φ.gate ≠ .refused) (hQ : ∀ job φ', φ'.gate ≠ .refused → Q job φ')
    (hE : ∀ e φ', φ'.gate ≠ .refused → E e φ') :
    (submitPlanningJob input).wp (roleSpec i (.submit input)) Q E φ := by
  rw [submitPlanningJob, Program.wp_bind]
  refine resolveAndValidateBinding_wp (fun binding ↦ ?_) fun e ↦ hE e φ gate
  rw [Program.wp_bind]
  refine assertConnectorsActive_wp ?_ fun e ↦ hE e φ gate
  rw [Program.wp_bind]
  refine assertWithinQuota_wp ?_ fun e ↦ hE e φ gate
  rw [Program.wp_bind]
  refine wp_neutral (fun _ ↦ trivial) (fun created _ ↦ ?_) fun e _ ↦ hE e φ gate
  have hwithdraw : ∀ φ' : Phase, φ'.disturbed = true → φ'.gate ≠ .refused →
      (recordEnqueueFailure created >>= fun _ ↦
        (Program.throw ⟨.serviceUnavailable, "Failed to submit planning job for processing"⟩ :
          Async PlanningJob)).wp (roleSpec i (.submit input)) Q E φ' := by
    intro φ' hdisturbed hgate
    rw [Program.wp_bind, recordEnqueueFailure, Program.wp_bind]
    refine wp_sure (fun _ ↦ trivial) rfl fun finishedAt ↦ ?_
    rw [Program.wp_bind, Program.wp_attempt]
    exact Typestate.wp_perform
      (fun _ _ ↦ ⟨φ', .withdraw rfl rfl rfl hdisturbed, hE _ φ' hgate⟩)
      (fun _ _ ↦ ⟨φ', .withdraw rfl rfl rfl hdisturbed, hE _ φ' hgate⟩)
      (fun _ _ ↦ ⟨φ', .withdraw rfl rfl rfl hdisturbed, hE _ φ' hgate⟩)
  rw [Program.wp_bind, Program.wp_attempt]
  exact Typestate.wp_perform (fun _ _ ↦ ⟨φ, .neutral trivial, hQ created φ gate⟩)
    (fun _ _ ↦ ⟨_, .disturb trivial rfl trivial, hwithdraw _ rfl gate⟩)
    (fun _ _ ↦ ⟨_, .disturb trivial rfl trivial, hwithdraw _ rfl gate⟩)

end Submit

/-- Every handler follows its roles, and ends with no refusal waiting to be recorded. -/
theorem program_wp (texts : PlanningTexts) (i : ι) (handler : Handler) :
    (handler.program texts).wp (roleSpec i handler) (fun _ φ ↦ φ.gate ≠ .refused)
      (fun _ φ ↦ φ.gate ≠ .refused) {} := by
  have hidle : ({} : Phase).gate ≠ .refused := by simp
  cases handler with
  | submit input =>
    rw [Handler.program, Program.wp_bind]
    exact submitPlanningJob_wp hidle (fun _ _ hgate ↦ hgate) fun _ _ hgate ↦ hgate
  | worker config job =>
    exact bullmqAttempts_wp (fun φ hgate ↦ planningProcessor_wp hgate (fun _ h ↦ h) fun _ _ h ↦ h)
      planningAttempts hidle
  | message chunk => exact onMessage_wp chunk hidle fun _ hgate ↦ hgate
  | gatherTimeout jobId =>
    exact bullmqAttempts_wp
      (fun φ hgate ↦ gatherTimeoutProcessor_wp hgate (fun _ h ↦ h) fun _ _ h ↦ h)
      gatherTimeoutAttempts hidle
  | storeUser id user => exact wp_neutral (fun _ ↦ trivial) (fun _ _ ↦ hidle) fun _ _ ↦ hidle

end MemoFlowApi.Planning
