import MemoFlowApi.Planning.Ownership

/-!
# The Gate before the Planner

The planner is called at most once for a job, by the handler that won the job's claim, and only
right after that handler read the user as existing, enabled and consenting.  These hold in every
run, whatever fails.  A handler that read otherwise records the refusal, and it stays the outcome of
the job in runs in which the calls that lead to unguarded writes do not fail.
-/

namespace MemoFlowApi.Planning

open Concurrency

variable {ι : Type}

def Op.isPlan : Op → Bool
  | .plan _ => true
  | _ => false

def Op.readsUser : Op → Bool
  | .findUserById _ => true
  | _ => false

/-- Calls after which an earlier reading of the user no longer counts. -/
def Op.renewsGate : Op → Bool
  | .findUserById _ | .gather _ _ _ | .search _ => true
  | _ => false

/-- The calls of the planner for a job. -/
def plannerCalls (handlers : ι → Handler) (id : JobId) (trace : List (Call ι)) : List (Call ι) :=
  trace.filter fun call ↦ call.op.isPlan && (handlers call.caller).jobId? = some id

/-- The handler's last reading of the user, made after it last gathered or retrieved, found a user
on whose behalf AI may be used. -/
def PassedReading (trace : List (Call ι)) (k : ι) (userId : UserId) : Prop :=
  ∃ newer older s user, trace = newer ++ ⟨s, k, .findUserById userId, .returned (some user)⟩ :: older ∧
    user.mayUseAi = true ∧ ∀ call ∈ newer, call.caller = k → call.op.renewsGate = false

/-- The handler won the job, and its last reading of the user since found none on whose behalf AI
may be used. -/
def RefusedReading (trace : List (Call ι)) (k : ι) (id : JobId) : Prop :=
  ∃ newer older s userId found,
    trace = newer ++ ⟨s, k, .findUserById userId, .returned found⟩ :: older ∧
    (∀ user ∈ found, user.mayUseAi = false) ∧
    (∀ call ∈ newer, call.caller = k → call.op.readsUser = false) ∧ ∃ job, Claimed older k id job

/-- No write of a status failed, nor a call whose failure is recorded by an unguarded write. -/
def Undisturbed (call : Call ι) : Prop :=
  call.outcome.Failed → call.op.disturbing = false ∧ ∀ id patch, call.op ≠ .updateStatus id patch

/-! ## Single moves -/

section Moves

variable {handler : Handler} {φ φ' : Phase} {op : Op} {o : Outcome AppError (Ans op)}

/-- Where a passed gate comes from. -/
theorem Moves.passed_cases {id : JobId} {userId : UserId} (h : Moves handler φ op o φ')
    (role : φ'.role = .owner id userId) (gate : φ'.gate = .passed) :
    φ.role = .owner id userId ∧ φ.gate = .passed ∧ op.renewsGate = false ∨
      ∃ user : User, user.mayUseAi = true ∧ ∀ (s : PlanningState) (k : ι),
        (⟨s, k, op, o⟩ : Call ι) = ⟨s, k, .findUserById userId, .returned (some user)⟩ := by
  cases h with
  | neutral neutral =>
    refine .inl ⟨role, gate, ?_⟩
    cases op <;> first | rfl | exact neutral.elim
  | thrown neutral =>
    refine .inl ⟨role, gate, ?_⟩
    cases op <;> first | rfl | exact neutral.elim
  | disturb neutral =>
    refine .inl ⟨role, gate, ?_⟩
    cases op <;> first | rfl | exact neutral.elim
  | @findUser _ _ o hrole =>
    obtain ⟨rfl, rfl⟩ := Role.owner.inj (hrole.symm.trans role)
    cases o with
    | lost error => cases gate
    | applied error => cases gate
    | returned found =>
      cases found with
      | none => cases gate
      | some user =>
        refine .inr ⟨user, ?_, fun s k ↦ rfl⟩
        by_contra hno
        simp [readGate, hno] at gate
  | claimForProcessing | claimForPlanning | claimForGathering => cases gate
  | findUserEarly | findUserFailed | gather | search | plan => cases gate
  | failIfStillGathering => cases role
  | finish | refuse | giveUp => exact (roleAfter_ne_owner role).elim
  | withdraw => exact .inl ⟨role, gate, rfl⟩
  | announce => cases role
  | alarm => exact .inl ⟨role, gate, rfl⟩

/-- A handler claims its own job, before anyone has won its planning. -/
def ClaimsUnwon (handler : Handler) (op : Op) (o : Outcome AppError (Ans op)) : Prop :=
  ∃ id, handler.jobId? = some id ∧ ∀ (s s' : PlanningState) (i : ι),
    (world ι).Answers AppError i op s o s' → ¬ Past s id

/-- After its call of the planner a handler does nothing more about the user. -/
theorem Moves.called_cases (h : Moves handler φ op o φ') (gate : φ.gate = .called) :
    φ'.gate = .called ∨ ClaimsUnwon (ι := ι) handler op o ∨ ∃ id, φ.role = .gathering id := by
  cases h with
  | claimForProcessing own =>
    exact .inr (.inl ⟨_, own, fun s s' i h ↦ (past_of_wonPlanning h (.processing s)).1⟩)
  | claimForPlanning own =>
    exact .inr (.inl ⟨_, own, fun s s' i h ↦ (past_of_wonPlanning h (.planning s _)).1⟩)
  | claimForGathering own =>
    exact .inr (.inl ⟨_, own, fun s s' i h ↦ (claimable_of_claimForGathering h).1⟩)
  | findUser _ hcalled => exact (hcalled gate).elim
  | findUserEarly role => exact .inr (.inr ⟨_, role⟩)
  | findUserFailed role => exact .inr (.inr ⟨_, role⟩)
  | gather _ hgate => simp [gate] at hgate
  | search _ hgate => simp [gate] at hgate
  | plan _ hgate => simp [gate] at hgate
  | refuse _ hgate => simp [gate] at hgate
  | _ => exact .inl gate

/-- A refusal waits until its handler records it. -/
theorem Moves.refused_cases {id : JobId} {userId : UserId} (h : Moves handler φ op o φ')
    (role : φ.role = .owner id userId) (gate : φ.gate = .refused)
    (reads : op.readsUser = false) :
    φ'.role = .owner id userId ∧ φ'.gate = .refused ∨
      (φ'.gate = .recorded id ∧ ∀ id' userId', φ'.role ≠ .owner id' userId') ∨
      ClaimsUnwon (ι := ι) handler op o := by
  cases h with
  | claimForProcessing own =>
    exact .inr (.inr ⟨_, own, fun s s' i h ↦ (past_of_wonPlanning h (.processing s)).1⟩)
  | claimForPlanning own =>
    exact .inr (.inr ⟨_, own, fun s s' i h ↦ (past_of_wonPlanning h (.planning s _)).1⟩)
  | claimForGathering own =>
    exact .inr (.inr ⟨_, own, fun s s' i h ↦ (claimable_of_claimForGathering h).1⟩)
  | findUser | findUserEarly | findUserFailed => cases reads
  | gather _ hgate => simp [gate] at hgate
  | search _ hgate => simp [gate] at hgate
  | plan _ hgate => simp [gate] at hgate
  | finish _ hgate => exact (hgate gate).elim
  | refuse hrole =>
    obtain ⟨rfl, -⟩ := Role.owner.inj (hrole.symm.trans role)
    exact .inr (.inl ⟨rfl, fun _ _ ↦ roleAfter_ne_owner⟩)
  | giveUp hrole => cases hrole.symm.trans role
  | announce hrole => cases hrole.symm.trans role
  | failIfStillGathering hgate => exact (hgate gate).elim
  | _ => exact .inl ⟨role, gate⟩

/-- A recorded refusal stays. -/
theorem Moves.recorded_cases {id : JobId} (h : Moves handler φ op o φ')
    (idle : ∀ id' userId, φ.role ≠ .owner id' userId) (gate : φ.gate = .recorded id)
    (reads : op.readsUser = false) :
    φ'.gate = .recorded id ∧ (∀ id' userId, φ'.role ≠ .owner id' userId) ∨
      ClaimsUnwon (ι := ι) handler op o := by
  cases h with
  | claimForProcessing own =>
    exact .inr ⟨_, own, fun s s' i h ↦ (past_of_wonPlanning h (.processing s)).1⟩
  | claimForPlanning own =>
    exact .inr ⟨_, own, fun s s' i h ↦ (past_of_wonPlanning h (.planning s _)).1⟩
  | claimForGathering own =>
    exact .inr ⟨_, own, fun s s' i h ↦ (claimable_of_claimForGathering h).1⟩
  | findUser | findUserEarly | findUserFailed => cases reads
  | gather hrole => exact (idle _ _ hrole).elim
  | search hrole => exact (idle _ _ hrole).elim
  | plan hrole => exact (idle _ _ hrole).elim
  | finish hrole => exact (idle _ _ hrole).elim
  | refuse hrole => exact (idle _ _ hrole).elim
  | giveUp => exact .inl ⟨gate, fun _ _ ↦ roleAfter_ne_owner⟩
  | announce => exact .inl ⟨gate, by rintro _ _ ⟨⟩⟩
  | failIfStillGathering => exact .inl ⟨gate, by rintro _ _ ⟨⟩⟩
  | _ => exact .inl ⟨gate, idle⟩

/-- The planner is called by an owner whose gate has passed. -/
theorem Moves.plan_cases (h : Moves handler φ op o φ') (plan : op.isPlan = true) :
    (∃ id userId, φ.role = .owner id userId) ∧ φ.gate = .passed ∧ φ'.gate = .called := by
  cases h with
  | plan role gate => exact ⟨⟨_, _, role⟩, gate, rfl⟩
  | neutral neutral | thrown neutral | disturb neutral =>
    cases op with
    | plan input => exact neutral.elim
    | _ => cases plan
  | _ => cases plan

/-- Where a recorded refusal comes from. -/
theorem Moves.recorded_from {id : JobId} (h : Moves handler φ op o φ')
    (gate : φ'.gate = .recorded id) :
    φ.gate = .recorded id ∧ ((∀ id' userId, φ.role ≠ .owner id' userId) →
        (∀ id' userId, φ'.role ≠ .owner id' userId) ∨ ClaimsUnwon (ι := ι) handler op o) ∨
      (∃ patch userId code, op = .updateStatus id patch ∧ φ.role = .owner id userId ∧
        patch.status = .failed ∧ patch.errorCode = some (some code) ∧ code ∈ refusalCodes) ∧
        ∀ id' userId, φ'.role ≠ .owner id' userId := by
  cases h with
  | claimForProcessing | claimForPlanning | claimForGathering => cases gate
  | findUserEarly | findUserFailed | gather | search | plan => cases gate
  | @findUser _ _ o => cases o with
    | returned found => cases found with
      | none => cases gate
      | some user => simp only [readGate] at gate; split at gate <;> cases gate
    | lost error => cases gate
    | applied error => cases gate
  | refuse role _ _ status errorCode refusal =>
    obtain rfl := Gate.recorded.inj gate
    exact .inr ⟨⟨_, _, _, rfl, role, status, errorCode, refusal⟩, fun _ _ ↦ roleAfter_ne_owner⟩
  | finish | giveUp => exact .inl ⟨gate, fun _ ↦ .inl fun _ _ ↦ roleAfter_ne_owner⟩
  | announce | failIfStillGathering => exact .inl ⟨gate, fun _ ↦ .inl (by rintro _ _ ⟨⟩)⟩
  | _ => exact .inl ⟨gate, .inl⟩

/-- What disturbs a handler. -/
theorem Moves.disturbed_cases (h : Moves handler φ op o φ') (disturbed : φ'.disturbed = true) :
    φ.disturbed = true ∨ op.disturbing = true ∧ o.Failed := by
  cases h with
  | disturb _ disturbing failed => exact .inr ⟨disturbing, failed⟩
  | findUserFailed _ failed => exact .inr ⟨rfl, failed⟩
  | _ => exact .inl disturbed

end Moves

/-! ## Runs -/

section Run

variable {handlers : ι → Handler} {state s s' : PlanningState} {φ : ι → Phase}
  {trace : List (Call ι)} {i : ι} {op : Op} {o : Outcome AppError (Ans op)} {φ' : Phase}

theorem Claimed.cons {call : Call ι} {k : ι} {id : JobId} {job : PlanningJob}
    (h : Claimed trace k id job) : Claimed (call :: trace) k id job :=
  claimed_cons.mpr (.inr h)

theorem PassedReading.cons {call : Call ι} {k : ι} {userId : UserId}
    (h : PassedReading trace k userId)
    (keeps : call.caller = k → call.op.renewsGate = false) :
    PassedReading (call :: trace) k userId := by
  obtain ⟨newer, older, s, user, rfl, hpassed, hquiet⟩ := h
  refine ⟨call :: newer, older, s, user, rfl, hpassed, fun call' hcall' ↦ ?_⟩
  obtain rfl | hold := List.mem_cons.mp hcall'
  · exact keeps
  · exact hquiet call' hold

theorem RefusedReading.claimed {k : ι} {id : JobId} (h : RefusedReading trace k id) :
    ∃ job, Claimed trace k id job := by
  obtain ⟨newer, older, s, userId, found, rfl, -, -, job, call, hcall, hwon⟩ := h
  exact ⟨job, call, by simp [hcall], hwon⟩

/-- A refusal seen in a longer trace is the newest call or was seen before. -/
theorem refusedReading_cons {k : ι} {id : JobId}
    (h : RefusedReading (⟨s, i, op, o⟩ :: trace) k id) :
    (k = i ∧ (∃ userId found, (⟨s, i, op, o⟩ : Call ι) =
        ⟨s, i, .findUserById userId, .returned found⟩ ∧ ∀ user ∈ found, user.mayUseAi = false) ∧
      ∃ job, Claimed trace k id job) ∨
    (RefusedReading trace k id ∧ (i = k → op.readsUser = false)) := by
  obtain ⟨newer, older, s₁, userId, found, htrace, hrefused, hquiet, hclaimed⟩ := h
  cases newer with
  | nil =>
    obtain ⟨hcall, rfl⟩ := List.cons.inj htrace
    obtain ⟨rfl, rfl, -⟩ := Event.mk.inj hcall
    exact .inl ⟨rfl, ⟨userId, found, hcall, hrefused⟩, hclaimed⟩
  | cons call newer =>
    obtain ⟨rfl, rfl⟩ := List.cons.inj htrace
    exact .inr ⟨⟨newer, older, s₁, userId, found, rfl, hrefused,
      fun call hcall ↦ hquiet call (List.mem_cons_of_mem _ hcall), hclaimed⟩,
      hquiet _ List.mem_cons_self⟩

/-- A handler that won a job's planning wins no claim after it. -/
theorem Ownership.not_claimsUnwon (ownership : Ownership handlers s φ trace) {id : JobId}
    {job : PlanningJob} (claimed : Claimed trace i id job)
    (answers : (world ι).Answers AppError i op s o s') :
    ¬ ClaimsUnwon (ι := ι) (handlers i) op o := by
  rintro ⟨id', hown, hunwon⟩
  obtain rfl := Option.some.inj (hown.symm.trans (ownership.own claimed))
  exact hunwon s s' i answers (ownership.past claimed)

/-- What the gate theorem carries along a run. -/
structure Gated (handlers : ι → Handler) (s : PlanningState) (φ : ι → Phase)
    (trace : List (Call ι)) : Prop where
  ownership : Ownership handlers s φ trace
  passed : ∀ k id userId, (φ k).role = .owner id userId → (φ k).gate = .passed →
    PassedReading trace k userId
  called : ∀ call ∈ trace, call.op.isPlan = true →
    (φ call.caller).gate = .called ∧ ∃ id job, Claimed trace call.caller id job
  once : ∀ id, (plannerCalls handlers id trace).length ≤ 1
  gated : ∀ call older, call :: older <:+ trace → call.op.isPlan = true →
    ∃ id job, (handlers call.caller).jobId? = some id ∧ Claimed older call.caller id job ∧
      PassedReading older call.caller job.userId
  refused : ∀ k id, RefusedReading trace k id →
    (∃ userId, (φ k).role = .owner id userId ∧ (φ k).gate = .refused) ∨
      (φ k).gate = .recorded id ∧ ∀ id' userId, (φ k).role ≠ .owner id' userId

/-- When the planner is called for a job, it was not called for it before. -/
theorem Gated.plannerCalls_eq_nil (h : Gated handlers s φ trace)
    (moves : Moves (handlers i) (φ i) op o φ') (plan : op.isPlan = true) {id : JobId}
    (own : (handlers i).jobId? = some id) : plannerCalls handlers id trace = [] := by
  refine List.filter_eq_nil_iff.mpr fun call hcall hplanned ↦ ?_
  obtain ⟨hplan, hown⟩ := Bool.and_eq_true_iff.mp hplanned
  obtain ⟨hcalled, id₁, job₁, hclaimed₁⟩ := h.called call hcall hplan
  obtain rfl := Option.some.inj ((h.ownership.own hclaimed₁).symm.trans (of_decide_eq_true hown))
  obtain ⟨⟨id₂, userId, hrole⟩, hpassed, -⟩ := moves.plan_cases plan
  obtain ⟨job₂, -, hclaimed₂⟩ := h.ownership.owner hrole
  obtain rfl := Option.some.inj ((h.ownership.own hclaimed₂).symm.trans own)
  obtain ⟨hsame, -⟩ := h.ownership.unique hclaimed₁ hclaimed₂
  rw [hsame, hpassed] at hcalled
  cases hcalled

/-- The job failed for its user's sake. -/
def FailedForUser (s : PlanningState) (id : JobId) : Prop :=
  ∃ doc, s.jobs id = some doc ∧ doc.status = .failed ∧ ∃ code ∈ refusalCodes,
    doc.errorCode = some code

/-- A failure for the user's sake stays one while nobody owns the job. -/
theorem FailedForUser.step {id : JobId} (h : FailedForUser s id)
    (unowned : ∀ userId, (φ i).role ≠ .owner id userId) (calm : (φ i).disturbed = false)
    (answers : (world ι).Answers AppError i op s o s')
    (moves : Moves (handlers i) (φ i) op o φ') : FailedForUser s' id := by
  obtain ⟨doc, hdoc, hfailed, code, hcode, herror⟩ := h
  obtain hsame | ⟨answer, doc', hdoc', hrewrites, -⟩ := job_after answers hdoc
  · exact ⟨doc, hsame, hfailed, code, hcode, herror⟩
  · cases hrewrites with
    | claimForProcessing time pending => cases pending.symm.trans hfailed
    | claimForGathering time pending => cases pending.symm.trans hfailed
    | pushResultChunk chunk => exact ⟨_, hdoc', hfailed, code, hcode, herror⟩
    | claimForPlanning contextUsed gathering => cases gathering.symm.trans hfailed
    | failIfStillGathering _ _ time gathering => cases gathering.symm.trans hfailed
    | updateStatus patch =>
      cases moves with
      | neutral neutral => exact neutral.elim
      | thrown neutral => exact neutral.elim
      | disturb neutral => exact neutral.elim
      | finish role => exact (unowned _ role).elim
      | refuse role => exact (unowned _ role).elim
      | giveUp _ _ status reason =>
        obtain hdisturbed | ⟨code', hcode', herror'⟩ := reason
        · cases calm.symm.trans hdisturbed
        · exact ⟨_, hdoc', status, code', hcode', by simp [PlanningJobDocument.update, herror']⟩
      | withdraw _ _ _ reason => cases calm.symm.trans reason

/-- Recording a refusal fails the job for its user's sake. -/
theorem failedForUser_of_updateStatus {id : JobId} {patch : UpdatePlanningJobStatusData}
    {o : Outcome AppError (Ans (.updateStatus id patch))} {code : String} (past : Past s id)
    (answers : (world ι).Answers AppError i (.updateStatus id patch) s o s')
    (returned : ¬ o.Failed) (status : patch.status = .failed)
    (errorCode : patch.errorCode = some (some code)) (refusal : code ∈ refusalCodes) :
    FailedForUser s' id := by
  obtain ⟨doc, hdoc, -⟩ := past
  cases answers with
  | lost => exact (returned trivial).elim
  | applied => exact (returned trivial).elim
  | returned effect =>
    obtain ⟨reply, heffect⟩ := effect
    have hquery := congrArg Prod.snd (Option.some.inj heffect)
    have hstored : s' = s.store id (doc.update patch) := by
      simpa [PlanningState.findOneAndUpdate, hdoc] using hquery.symm
    exact ⟨doc.update patch, by simp [hstored], status, code, refusal,
      by simp [PlanningJobDocument.update, errorCode]⟩

variable [DecidableEq ι]

theorem Gated.passed_step (h : Gated handlers s φ trace)
    (moves : Moves (handlers i) (φ i) op o φ') {k : ι} {id : JobId} {userId : UserId}
    (role : (Function.update φ i φ' k).role = .owner id userId)
    (gate : (Function.update φ i φ' k).gate = .passed) :
    PassedReading (⟨s, i, op, o⟩ :: trace) k userId := by
  by_cases hk : k = i
  · subst hk
    rw [Function.update_self] at role gate
    obtain ⟨hrole, hgate, hkeeps⟩ | ⟨user, hpassed, hread⟩ := moves.passed_cases role gate
    · exact (h.passed k id userId hrole hgate).cons fun _ ↦ hkeeps
    · rw [hread s k]
      exact ⟨[], trace, s, user, rfl, hpassed, by simp⟩
  · rw [Function.update_of_ne hk] at role gate
    exact (h.passed k id userId role gate).cons fun heq ↦ (hk heq.symm).elim

theorem Gated.called_step (h : Gated handlers s φ trace)
    (answers : (world ι).Answers AppError i op s o s')
    (moves : Moves (handlers i) (φ i) op o φ') {call : Call ι} (hcall : call ∈ trace)
    (plan : call.op.isPlan = true) :
    (Function.update φ i φ' call.caller).gate = .called ∧
      ∃ id job, Claimed (⟨s, i, op, o⟩ :: trace) call.caller id job := by
  obtain ⟨hcalled, id, job, hclaimed⟩ := h.called call hcall plan
  refine ⟨?_, id, job, hclaimed.cons⟩
  by_cases hk : call.caller = i
  · subst hk
    rw [Function.update_self]
    obtain hkept | hunwon | ⟨id', hgathering⟩ := moves.called_cases (ι := ι) hcalled
    · exact hkept
    · exact (h.ownership.not_claimsUnwon hclaimed answers hunwon).elim
    · obtain ⟨hown, hunclaimed⟩ := h.ownership.gathering hgathering
      obtain rfl := Option.some.inj (hown.symm.trans (h.ownership.own hclaimed))
      exact (hunclaimed job hclaimed).elim
  · rw [Function.update_of_ne hk]
    exact hcalled

theorem Gated.refused_step (h : Gated handlers s φ trace)
    (answers : (world ι).Answers AppError i op s o s')
    (moves : Moves (handlers i) (φ i) op o φ') {k : ι} {id : JobId}
    (reading : RefusedReading (⟨s, i, op, o⟩ :: trace) k id) :
    (∃ userId, (Function.update φ i φ' k).role = .owner id userId ∧
      (Function.update φ i φ' k).gate = .refused) ∨
      (Function.update φ i φ' k).gate = .recorded id ∧
        ∀ id' userId, (Function.update φ i φ' k).role ≠ .owner id' userId := by
  obtain ⟨rfl, ⟨userId, found, hcall, hrefused⟩, job, hclaimed⟩ | ⟨hold, hquiet⟩ :=
    refusedReading_cons reading
  · rw [Function.update_self]
    cases hcall
    cases moves with
    | neutral neutral => exact neutral.elim
    | thrown neutral => exact neutral.elim
    | disturb neutral => exact neutral.elim
    | @findUser id' _ _ hrole =>
      obtain ⟨job', -, hclaimed'⟩ := h.ownership.owner hrole
      obtain rfl := Option.some.inj ((h.ownership.own hclaimed').symm.trans (h.ownership.own hclaimed))
      refine .inl ⟨userId, hrole, ?_⟩
      cases found with
      | none => rfl
      | some user => simp [readGate, hrefused user rfl]
    | findUserEarly hrole =>
      obtain ⟨hown, hunclaimed⟩ := h.ownership.gathering hrole
      obtain rfl := Option.some.inj (hown.symm.trans (h.ownership.own hclaimed))
      exact (hunclaimed job hclaimed).elim
    | findUserFailed _ hfailed => exact hfailed.elim
  · by_cases hk : k = i
    · subst hk
      rw [Function.update_self]
      obtain ⟨job, hclaimed⟩ := hold.claimed
      have hunwon := h.ownership.not_claimsUnwon hclaimed answers
      obtain ⟨userId, hrole, hgate⟩ | ⟨hgate, hidle⟩ := h.refused k id hold
      · obtain ⟨hrole', hgate'⟩ | hrecorded | hclaims :=
          moves.refused_cases (ι := ι) hrole hgate (hquiet rfl)
        · exact .inl ⟨userId, hrole', hgate'⟩
        · exact .inr hrecorded
        · exact (hunwon hclaims).elim
      · obtain hrecorded | hclaims := moves.recorded_cases (ι := ι) hidle hgate (hquiet rfl)
        · exact .inr hrecorded
        · exact (hunwon hclaims).elim
    · rw [Function.update_of_ne hk]
      exact h.refused k id hold

theorem Gated.step (h : Gated handlers s φ trace)
    (answers : (world ι).Answers AppError i op s o s')
    (moves : Moves (handlers i) (φ i) op o φ') :
    Gated handlers s' (Function.update φ i φ') (⟨s, i, op, o⟩ :: trace) where
  ownership := h.ownership.step answers moves
  passed k id userId role gate := h.passed_step moves role gate
  called := by
    intro call hcall plan
    obtain rfl | hold := List.mem_cons.mp hcall
    · obtain ⟨⟨id, userId, hrole⟩, -, hcalled⟩ := moves.plan_cases plan
      obtain ⟨job, -, hclaimed⟩ := h.ownership.owner hrole
      exact ⟨by simpa using hcalled, id, job, hclaimed.cons⟩
    · exact h.called_step answers moves hold plan
  once := by
    intro id
    rw [plannerCalls, List.filter_cons]
    split
    · next hnew =>
      obtain ⟨hplan, hown⟩ := Bool.and_eq_true_iff.mp hnew
      have hnone := h.plannerCalls_eq_nil moves hplan (of_decide_eq_true hown)
      rw [plannerCalls] at hnone
      simp [hnone]
    · exact h.once id
  gated := by
    intro call older hsuffix plan
    obtain heq | hold := List.suffix_cons_iff.mp hsuffix
    · obtain ⟨rfl, rfl⟩ := List.cons.inj heq
      obtain ⟨⟨id, userId, hrole⟩, hpassed, -⟩ := moves.plan_cases plan
      obtain ⟨job, rfl, hclaimed⟩ := h.ownership.owner hrole
      exact ⟨id, job, h.ownership.own hclaimed, hclaimed, h.passed i id _ hrole hpassed⟩
    · exact h.gated call older hold plan
  refused k id reading := h.refused_step answers moves reading

theorem Run.gated (h : Run handlers state s φ trace) : Gated handlers s φ trace := by
  refine h.invariant (Gated handlers) (fun _ ↦ True) ?_
    (fun hinv _ answers moves ↦ hinv.step answers moves) fun _ _ ↦ trivial
  exact ⟨by constructor <;> simp [Claimed], by simp, by simp, by simp [plannerCalls], by simp,
    by simp [RefusedReading]⟩

/-- What happens to a recorded refusal in a run without disturbance. -/
structure Refusals (handlers : ι → Handler) (s : PlanningState) (φ : ι → Phase)
    (trace : List (Call ι)) : Prop where
  ownership : Ownership handlers s φ trace
  calm : ∀ k, (φ k).disturbed = false
  recorded : ∀ k id, (φ k).gate = .recorded id → (∃ job, Claimed trace k id job) ∧
    (∀ id' userId, (φ k).role ≠ .owner id' userId) ∧ FailedForUser s id

theorem Refusals.step (h : Refusals handlers s φ trace)
    (undisturbed : Undisturbed (⟨s, i, op, o⟩ : Call ι))
    (answers : (world ι).Answers AppError i op s o s')
    (moves : Moves (handlers i) (φ i) op o φ') :
    Refusals handlers s' (Function.update φ i φ') (⟨s, i, op, o⟩ :: trace) := by
  have hkept : ∀ k id job, Claimed trace k id job → (∀ id' userId, (φ k).role ≠ .owner id' userId) →
      FailedForUser s id → FailedForUser s' id := by
    intro k id job hclaimed hidle hfailed
    refine hfailed.step (fun userId hrole ↦ ?_) (h.calm i) answers moves
    obtain ⟨job', -, hclaimed'⟩ := h.ownership.owner hrole
    obtain ⟨rfl, -⟩ := h.ownership.unique hclaimed hclaimed'
    exact hidle _ _ hrole
  refine ⟨h.ownership.step answers moves, fun k ↦ ?_, fun k id hgate ↦ ?_⟩
  · by_cases hk : k = i
    · subst hk
      rw [Function.update_self]
      by_contra hdisturbed
      obtain hbefore | ⟨hop, hfailed⟩ := moves.disturbed_cases (Bool.not_eq_false _ ▸ hdisturbed)
      · cases (h.calm k).symm.trans hbefore
      · cases (undisturbed hfailed).1.symm.trans hop
    · rw [Function.update_of_ne hk]
      exact h.calm k
  · by_cases hk : k = i
    · subst hk
      rw [Function.update_self] at hgate ⊢
      obtain ⟨hbefore, hidle'⟩ | ⟨⟨patch, userId, code, rfl, hrole, hstatus, herror, hcode⟩, hidle'⟩ :=
        moves.recorded_from (ι := ι) hgate
      · obtain ⟨⟨job, hclaimed⟩, hidle, hfailed⟩ := h.recorded k id hbefore
        refine ⟨⟨job, hclaimed.cons⟩, ?_, hkept k id job hclaimed hidle hfailed⟩
        exact (hidle' hidle).resolve_right (h.ownership.not_claimsUnwon hclaimed answers)
      · obtain ⟨job, -, hclaimed⟩ := h.ownership.owner hrole
        refine ⟨⟨job, hclaimed.cons⟩, hidle', ?_⟩
        exact failedForUser_of_updateStatus (h.ownership.past hclaimed) answers
          (fun hfailed ↦ (undisturbed hfailed).2 id patch rfl) hstatus herror hcode
    · rw [Function.update_of_ne hk] at hgate ⊢
      obtain ⟨⟨job, hclaimed⟩, hidle, hfailed⟩ := h.recorded k id hgate
      exact ⟨⟨job, hclaimed.cons⟩, hidle, hkept k id job hclaimed hidle hfailed⟩

theorem Run.refusals (h : Run handlers state s φ trace)
    (undisturbed : ∀ call ∈ trace, Undisturbed call) : Refusals handlers s φ trace := by
  refine h.invariant (Refusals handlers) Undisturbed ?_
    (fun hinv hcall answers moves ↦ hinv.step hcall answers moves) undisturbed
  exact ⟨by constructor <;> simp [Claimed], by simp, by simp⟩

/-- The planner is called at most once for each job, by the handler that won its claim and after a
reading that passed.  After a reading that did not pass it is not called, and once that handler has
finished the job has failed for its user's sake, unless a failing call disturbed the run. -/
structure PlannerGated (handlers : ι → Handler) (config : System ι) : Prop where
  once : ∀ id, (plannerCalls handlers id config.trace).length ≤ 1
  gated : ∀ call older, call :: older <:+ config.trace → call.op.isPlan = true →
    ∃ id job, (handlers call.caller).jobId? = some id ∧ Claimed older call.caller id job ∧
      PassedReading older call.caller job.userId
  refused : ∀ k id, RefusedReading config.trace k id → plannerCalls handlers id config.trace = [] ∧
    ((config.threads k).Finished → (∀ call ∈ config.trace, Undisturbed call) →
      FailedForUser config.shared id)

theorem planner_gated {texts : PlanningTexts} {config : System ι}
    (h : System.Reaches texts state handlers config) : PlannerGated handlers config := by
  obtain ⟨φ, hrun, hfinished⟩ := h.exists_run
  have hgated := hrun.gated
  refine ⟨hgated.once, hgated.gated, fun k id hreading ↦ ⟨?_, fun hend hundisturbed ↦ ?_⟩⟩
  · refine List.filter_eq_nil_iff.mpr fun call hcall hplanned ↦ ?_
    obtain ⟨hplan, hown⟩ := Bool.and_eq_true_iff.mp hplanned
    obtain ⟨hcalled, id', job', hclaimed'⟩ := hgated.called call hcall hplan
    obtain ⟨job, hclaimed⟩ := hreading.claimed
    obtain rfl := Option.some.inj
      ((hgated.ownership.own hclaimed').symm.trans (of_decide_eq_true hown))
    obtain ⟨rfl, -⟩ := hgated.ownership.unique hclaimed hclaimed'
    obtain ⟨_, -, hgate⟩ | ⟨hgate, -⟩ := hgated.refused _ _ hreading <;>
      cases hgate.symm.trans hcalled
  · obtain ⟨userId, -, hgate⟩ | ⟨hgate, -⟩ := hgated.refused k id hreading
    · exact (hfinished k hend hgate).elim
    · exact ((hrun.refusals hundisturbed).recorded k id hgate).2.2

end Run

theorem planner_gated_worker :
    ∃ config, System.Reaches .withoutSources queuedJob oneWorker config ∧
      (plannerCalls oneWorker "job" config.trace).length = 1 ∧ PlannerGated oneWorker config := by
  have hreplay : (machine.replay (System.start .withoutSources queuedJob oneWorker)
      (List.replicate 12 ⟨(), {}, .returned ()⟩)).map (fun config ↦
        (plannerCalls oneWorker "job" config.trace).length) = some 1 := by decide
  obtain ⟨config, hreach, hcalls⟩ := machine.exists_reachable hreplay
  exact ⟨config, hreach, hcalls, planner_gated hreach⟩

end MemoFlowApi.Planning
