import MemoFlowApi.Planning.Conformance

/-!
# Ownership of Planning Jobs

In every run, whatever fails, at most one handler wins the claim that lets it plan a job.  The two
claims are compare-and-swaps on different states, so exclusiveness rests on a fact about all
writes: a job that was claimed for processing or planning never becomes pending or gathering again.
-/

namespace MemoFlowApi.Planning

open Concurrency

variable {ι : Type}

/-- A call that won the planning of a job. -/
inductive WonPlanning (k : ι) (id : JobId) (job : PlanningJob) : Call ι → Prop
  | processing (s : PlanningState) :
      WonPlanning k id job ⟨s, k, .claimForProcessing id, .returned (some job)⟩
  | planning (s : PlanningState) (contextUsed : JsonObject) :
      WonPlanning k id job ⟨s, k, .claimForPlanning id contextUsed, .returned (some job)⟩

/-- Handler `k` won the planning of a job in the course of a trace. -/
def Claimed (trace : List (Call ι)) (k : ι) (id : JobId) (job : PlanningJob) : Prop :=
  ∃ call ∈ trace, WonPlanning k id job call

/-- The job has left the states from which planning can be claimed. -/
def Past (s : PlanningState) (id : JobId) : Prop :=
  ∃ doc, s.jobs id = some doc ∧ doc.status ≠ .pending ∧ doc.status ≠ .gathering

section Moves

variable {handler : Handler} {φ φ' : Phase} {op : Op} {o : Outcome AppError (Ans op)}

/-- Every status write of a handler is terminal. -/
theorem Moves.terminal {id : JobId} {patch : UpdatePlanningJobStatusData}
    {o : Outcome AppError (Ans (.updateStatus id patch))}
    (h : Moves handler φ (.updateStatus id patch) o φ') : patch.status.Terminal := by
  cases h with
  | neutral neutral => exact neutral.elim
  | thrown neutral => exact neutral.elim
  | disturb neutral => exact neutral.elim
  | finish _ _ _ terminal => exact terminal
  | refuse _ _ _ status => exact .inr status
  | giveUp _ _ status => exact .inr status
  | withdraw _ _ status => exact .inr status

/-- A final write leaves its handler without claim. -/
theorem roleAfter_ne_owner {α : Type} {id id' : JobId} {userId : UserId} {status : JobStatus}
    {o : Outcome AppError α} : roleAfter id status o ≠ .owner id' userId := by
  obtain ⟨-, hrole⟩ | hrole := roleAfter_cases id status o <;> simp [hrole]

theorem roleAfter_ne_gathering {α : Type} {id id' : JobId} {status : JobStatus}
    {o : Outcome AppError α} : roleAfter id status o ≠ .gathering id' := by
  obtain ⟨-, hrole⟩ | hrole := roleAfter_cases id status o <;> simp [hrole]

/-- A handler owns what it owned before, or has just won. -/
theorem Moves.owner_cases {id : JobId} {userId : UserId} (h : Moves handler φ op o φ')
    (role : φ'.role = .owner id userId) :
    φ.role = .owner id userId ∨ handler.jobId? = some id ∧
      ∀ (s : PlanningState) (k : ι), ∃ job, job.userId = userId ∧
        WonPlanning k id job ⟨s, k, op, o⟩ := by
  cases h with
  | claimForProcessing own =>
    obtain ⟨rfl, rfl⟩ := Role.owner.inj role
    exact .inr ⟨own, fun s k ↦ ⟨_, rfl, .processing s⟩⟩
  | claimForPlanning own =>
    obtain ⟨rfl, rfl⟩ := Role.owner.inj role
    exact .inr ⟨own, fun s k ↦ ⟨_, rfl, .planning s _⟩⟩
  | claimForGathering => cases role
  | failIfStillGathering => cases role
  | finish | refuse | giveUp => exact (roleAfter_ne_owner role).elim
  | announce => cases role
  | _ => exact .inl role

/-- A job that is being claimed for gathering is stored and not past the claims. -/
theorem claimable_of_claimForGathering {s s' : PlanningState} {i : ι} {id : JobId}
    {job : PlanningJob} (answers : (world ι).Answers AppError i (.claimForGathering id) s
      (.returned (some job)) s') : ¬ Past s id ∧ (s'.jobs id).isSome = true := by
  obtain ⟨_, doc, doc', hdoc, hrewrites, rfl⟩ := rewrites_of_returned answers rfl
  cases hrewrites with
  | claimForGathering time pending claimed =>
    refine ⟨?_, by simp⟩
    rintro ⟨doc₁, hdoc₁, hne, -⟩
    obtain rfl := Option.some.inj (hdoc.symm.trans hdoc₁)
    exact hne pending

/-- A handler gathers what it gathered before, or has just claimed. -/
theorem Moves.gathering_cases {id : JobId} (h : Moves handler φ op o φ')
    (role : φ'.role = .gathering id) :
    φ.role = .gathering id ∨ handler.jobId? = some id ∧
      ∀ (s s' : PlanningState) (i : ι), (world ι).Answers AppError i op s o s' →
        ¬ Past s id ∧ (s'.jobs id).isSome = true := by
  cases h with
  | claimForGathering own =>
    obtain rfl := Role.gathering.inj role
    exact .inr ⟨own, fun s s' i answers ↦ claimable_of_claimForGathering answers⟩
  | claimForProcessing | claimForPlanning => cases role
  | failIfStillGathering => cases role
  | finish | refuse | giveUp => exact (roleAfter_ne_gathering role).elim
  | announce => cases role
  | _ => exact .inl role

/-- The handler that wins the planning of a job works on that job, and becomes its owner. -/
theorem Moves.wonPlanning {s : PlanningState} {k k' : ι} {id : JobId} {job : PlanningJob}
    (h : Moves handler φ op o φ') (won : WonPlanning k id job ⟨s, k', op, o⟩) :
    k' = k ∧ handler.jobId? = some id ∧ φ'.role = .owner id job.userId := by
  cases won with
  | processing =>
    cases h with
    | neutral neutral => exact (neutral _ rfl).elim
    | thrown neutral => exact (neutral _ rfl).elim
    | disturb neutral => exact (neutral _ rfl).elim
    | claimForProcessing own => exact ⟨rfl, own, rfl⟩
  | planning =>
    cases h with
    | neutral neutral => exact (neutral _ rfl).elim
    | thrown neutral => exact (neutral _ rfl).elim
    | disturb neutral => exact (neutral _ rfl).elim
    | claimForPlanning own => exact ⟨rfl, own, rfl⟩

end Moves

/-! ## Claims of a run -/

section Step

variable {s s' : PlanningState} {i : ι} {handler : Handler} {φ φ' : Phase} {op : Op}
  {o : Outcome AppError (Ans op)} {id : JobId}

/-- A handler never makes a job that has left `pending` and `gathering` claimable again. -/
theorem Past.step (h : Past s id) (answers : (world ι).Answers AppError i op s o s')
    (moves : Moves handler φ op o φ') : Past s' id := by
  obtain ⟨doc, hdoc, hpending, hgathering⟩ := h
  obtain hsame | ⟨answer, doc', hdoc', hrewrites, -⟩ := job_after answers hdoc
  · exact ⟨doc, hsame, hpending, hgathering⟩
  · cases hrewrites with
    | updateStatus patch =>
      have hstatus : (doc.update patch).status = patch.status := rfl
      obtain hcompleted | hfailed := moves.terminal
      · exact ⟨_, hdoc', by simp [hstatus, hcompleted], by simp [hstatus, hcompleted]⟩
      · exact ⟨_, hdoc', by simp [hstatus, hfailed], by simp [hstatus, hfailed]⟩
    | claimForProcessing time pending => exact (hpending pending).elim
    | claimForGathering time pending => exact (hpending pending).elim
    | pushResultChunk chunk fresh => exact ⟨_, hdoc', hpending, hgathering⟩
    | claimForPlanning contextUsed gathering => exact (hgathering gathering).elim
    | failIfStillGathering _ _ time gathering => exact (hgathering gathering).elim

/-- Winning the planning of a job takes it past the claims; before, it was not. -/
theorem past_of_wonPlanning {job : PlanningJob}
    (answers : (world ι).Answers AppError i op s o s')
    (won : WonPlanning i id job ⟨s, i, op, o⟩) : ¬ Past s id ∧ Past s' id := by
  have hclaim : ∃ doc doc', s.jobs id = some doc ∧ s' = s.store id doc' ∧
      (doc.status = .pending ∨ doc.status = .gathering) ∧
      doc'.status ≠ .pending ∧ doc'.status ≠ .gathering := by
    cases won with
    | processing =>
      obtain ⟨_, doc, doc', hdoc, hrewrites, rfl⟩ := rewrites_of_returned answers rfl
      cases hrewrites with
      | claimForProcessing time pending claimed =>
        exact ⟨doc, doc', hdoc, rfl, .inl pending, claimed ▸ ⟨nofun, nofun⟩⟩
    | planning =>
      obtain ⟨_, doc, doc', hdoc, hrewrites, rfl⟩ := rewrites_of_returned answers rfl
      cases hrewrites with
      | claimForPlanning contextUsed gathering claimed =>
        exact ⟨doc, doc', hdoc, rfl, .inr gathering, claimed ▸ ⟨nofun, nofun⟩⟩
  obtain ⟨doc, doc', hdoc, rfl, hbefore, hafter⟩ := hclaim
  refine ⟨fun ⟨doc₁, hdoc₁, hpending, hgathering⟩ ↦ ?_, doc', s.store_jobs_self id doc', hafter⟩
  obtain rfl := Option.some.inj (hdoc.symm.trans hdoc₁)
  exact hbefore.elim hpending hgathering

end Step

theorem claimed_cons {call : Call ι} {trace : List (Call ι)} {k : ι} {id : JobId}
    {job : PlanningJob} :
    Claimed (call :: trace) k id job ↔ WonPlanning k id job call ∨ Claimed trace k id job := by
  simp [Claimed]

theorem WonPlanning.unique {call : Call ι} {k k' : ι} {id : JobId} {job job' : PlanningJob}
    (h : WonPlanning k id job call) (h' : WonPlanning k' id job' call) : k = k' ∧ job = job' := by
  cases h <;> cases h' <;> exact ⟨rfl, rfl⟩

/-- Who holds which job in a run. -/
structure Ownership (handlers : ι → Handler) (s : PlanningState) (φ : ι → Phase)
    (trace : List (Call ι)) : Prop where
  past : ∀ {k id job}, Claimed trace k id job → Past s id
  unique : ∀ {k k' id job job'}, Claimed trace k id job → Claimed trace k' id job' →
    k = k' ∧ job = job'
  own : ∀ {k id job}, Claimed trace k id job → (handlers k).jobId? = some id
  owner : ∀ {k id userId}, (φ k).role = .owner id userId →
    ∃ job, job.userId = userId ∧ Claimed trace k id job
  gathering : ∀ {k id}, (φ k).role = .gathering id →
    (handlers k).jobId? = some id ∧ ∀ job, ¬ Claimed trace k id job

section Run

variable [DecidableEq ι] {handlers : ι → Handler} {state s s' : PlanningState} {φ : ι → Phase}
  {trace : List (Call ι)}

/-- Runs of a system in which every handler is known by its phase only. -/
abbrev Run (handlers : ι → Handler) (state : PlanningState) :
    PlanningState → (ι → Phase) → List (Call ι) → Prop :=
  (world ι).Tracked (fun i ↦ roles (handlers i)) state fun _ ↦ {}

theorem Ownership.step {i : ι} {op : Op} {o : Outcome AppError (Ans op)} {φ' : Phase}
    (h : Ownership handlers s φ trace) (answers : (world ι).Answers AppError i op s o s')
    (moves : Moves (handlers i) (φ i) op o φ') :
    Ownership handlers s' (Function.update φ i φ') (⟨s, i, op, o⟩ :: trace) where
  past := by
    intro k id job hclaimed
    obtain hnew | hold := claimed_cons.mp hclaimed
    · obtain ⟨rfl, -⟩ := moves.wonPlanning hnew
      exact (past_of_wonPlanning answers hnew).2
    · exact (h.past hold).step answers moves
  unique := by
    intro k k' id job job' hclaimed hclaimed'
    obtain hnew | hold := claimed_cons.mp hclaimed <;>
      obtain hnew' | hold' := claimed_cons.mp hclaimed'
    · exact hnew.unique hnew'
    · obtain ⟨rfl, -⟩ := moves.wonPlanning hnew
      exact ((past_of_wonPlanning answers hnew).1 (h.past hold')).elim
    · obtain ⟨rfl, -⟩ := moves.wonPlanning hnew'
      exact ((past_of_wonPlanning answers hnew').1 (h.past hold)).elim
    · exact h.unique hold hold'
  own := by
    intro k id job hclaimed
    obtain hnew | hold := claimed_cons.mp hclaimed
    · obtain ⟨rfl, hown, -⟩ := moves.wonPlanning hnew
      exact hown
    · exact h.own hold
  owner := by
    intro k id userId hrole
    by_cases hk : k = i
    · subst hk
      rw [Function.update_self] at hrole
      obtain hbefore | ⟨-, hwon⟩ := moves.owner_cases hrole
      · obtain ⟨job, huser, hclaimed⟩ := h.owner hbefore
        exact ⟨job, huser, claimed_cons.mpr (.inr hclaimed)⟩
      · obtain ⟨job, huser, hwon⟩ := hwon s k
        exact ⟨job, huser, claimed_cons.mpr (.inl hwon)⟩
    · rw [Function.update_of_ne hk] at hrole
      obtain ⟨job, huser, hclaimed⟩ := h.owner hrole
      exact ⟨job, huser, claimed_cons.mpr (.inr hclaimed)⟩
  gathering := by
    intro k id hrole
    by_cases hk : k = i
    · subst hk
      rw [Function.update_self] at hrole
      have hnotnew : ∀ job, ¬ WonPlanning k id job ⟨s, k, op, o⟩ := by
        intro job hwon
        have howner := (moves.wonPlanning hwon).2.2
        rw [hrole] at howner
        cases howner
      obtain hbefore | ⟨hown, hclaimable⟩ := moves.gathering_cases hrole
      · obtain ⟨hown, hunclaimed⟩ := h.gathering hbefore
        exact ⟨hown, fun job hclaimed ↦
          (claimed_cons.mp hclaimed).elim (hnotnew job) (hunclaimed job)⟩
      · exact ⟨hown, fun job hclaimed ↦ (claimed_cons.mp hclaimed).elim (hnotnew job)
          fun hold ↦ (hclaimable s s' k answers).1 (h.past hold)⟩
    · rw [Function.update_of_ne hk] at hrole
      obtain ⟨hown, hunclaimed⟩ := h.gathering hrole
      refine ⟨hown, fun job hclaimed ↦ (claimed_cons.mp hclaimed).elim (fun hnew ↦ ?_)
        (hunclaimed job)⟩
      exact hk (moves.wonPlanning hnew).1.symm

/-- Every run of a system is a run of its handlers' roles, and a handler that has finished has
recorded every refusal it met as an owner. -/
theorem System.Reaches.exists_run {texts : PlanningTexts} {config : System ι}
    (h : System.Reaches texts state handlers config) :
    ∃ φ, Run handlers state config.shared φ config.trace ∧
      ∀ i, (config.threads i).Finished → (φ i).gate ≠ .refused := by
  obtain ⟨φ, hrun, hconform⟩ :=
    World.exists_tracked rfl (fun i ↦ program_wp texts i (handlers i)) h
  refine ⟨φ, hrun, fun i hfinished ↦ ?_⟩
  have hprogram := hconform i
  cases hthread : config.threads i with
  | pure value => simpa [hthread] using hprogram
  | throw error => simpa [hthread] using hprogram
  | call op next => simp [hthread] at hfinished

end Run

end MemoFlowApi.Planning
