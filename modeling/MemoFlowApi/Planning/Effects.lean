import MemoFlowApi.Planning.Handlers

/-!
# Effects on Jobs

What a call can do to the stored jobs, stated once: it creates a job under an unused id, rewrites
one stored job in one of six ways, or leaves all jobs as they are.  Every invariant of the planning
subsystem is proved from this case analysis.
-/

namespace MemoFlowApi.Planning

open Concurrency

/-- The ways a call rewrites a job, with the answer each gives. -/
inductive Op.Rewrites : (op : Op) → Ans op → JobId → PlanningJobDocument →
    PlanningJobDocument → Prop
  | updateStatus {id doc} (patch : UpdatePlanningJobStatusData) :
      Rewrites (.updateStatus id patch) (some ((doc.update patch).toDomain id)) id doc
        (doc.update patch)
  | claimForProcessing {id doc doc'} (time : Time) (pending : doc.status = .pending)
      (claimed : doc' = doc.update { status := .running, startedAt := some (some time) }) :
      Rewrites (.claimForProcessing id) (some (doc'.toDomain id)) id doc doc'
  | claimForGathering {id doc doc'} (time : Time) (pending : doc.status = .pending)
      (claimed : doc' = doc.update { status := .gathering, startedAt := some (some time) }) :
      Rewrites (.claimForGathering id) (some (doc'.toDomain id)) id doc doc'
  | pushResultChunk {id doc} (chunk : AppendResultChunkData)
      (fresh : chunk.sequence ∉ doc.chunkSequences) :
      Rewrites (.pushResultChunk id chunk) (some ((doc.push chunk).toDomain id)) id doc
        (doc.push chunk)
  | claimForPlanning {id doc doc'} (contextUsed : JsonObject) (gathering : doc.status = .gathering)
      (claimed : doc' = doc.update { status := .planning, contextUsed := some (some contextUsed) }) :
      Rewrites (.claimForPlanning id contextUsed) (some (doc'.toDomain id)) id doc doc'
  | failIfStillGathering {id doc doc'} (errorCode errorMessage : String) (time : Time)
      (gathering : doc.status = .gathering)
      (failed : doc' = doc.update (gatherFailure errorCode errorMessage time)) :
      Rewrites (.failIfStillGathering id errorCode errorMessage) (some (doc'.toDomain id)) id
        doc doc'

/-- A query on one job that found a match. -/
def Op.Matched : (op : Op) → Ans op → Prop
  | .updateStatus _ _, job | .claimForProcessing _, job | .claimForGathering _, job
  | .pushResultChunk _ _, job | .claimForPlanning _ _, job
  | .failIfStillGathering _ _ _, job => job.isSome
  | _, _ => False

/-- What a call does to the jobs. -/
inductive JobEffect : (op : Op) → PlanningState → Ans op → PlanningState → Prop
  | created {s id} (data : CreatePlanningJobData) (time : Time) (unused : s.jobs id = none) :
      JobEffect (.create data) s ((data.toDocument time).toDomain id)
        (s.store id (data.toDocument time))
  | rewritten {op s answer id doc doc'} (found : s.jobs id = some doc)
      (rewrites : op.Rewrites answer id doc doc') : JobEffect op s answer (s.store id doc')
  | kept {op s answer s'} (jobs : s'.jobs = s.jobs) (unmatched : ¬ op.Matched answer) :
      JobEffect op s answer s'

namespace PlanningState

@[simp]
theorem store_jobs_self (s : PlanningState) (id : JobId) (doc : PlanningJobDocument) :
    (s.store id doc).jobs id = some doc := by
  simp [store]

theorem store_jobs_of_ne (s : PlanningState) {id id' : JobId} (doc : PlanningJobDocument)
    (h : id' ≠ id) : (s.store id doc).jobs id' = s.jobs id' := by
  simp [store, Function.update_of_ne h]

/-- A query on one job stores a match and answers with it, or does nothing and answers `null`. -/
theorem findOneAndUpdate_cases {s s' : PlanningState} {id : JobId}
    {filter : PlanningJobDocument → Bool} {update : PlanningJobDocument → PlanningJobDocument}
    {found : Option PlanningJob} (h : s.findOneAndUpdate id filter update = (found, s')) :
    (∃ doc, s.jobs id = some doc ∧ filter doc = true ∧ found = some ((update doc).toDomain id) ∧
      s' = s.store id (update doc)) ∨
    (found = none ∧ s' = s ∧ ∀ doc, s.jobs id = some doc → filter doc = false) := by
  unfold findOneAndUpdate at h
  split at h
  · next hnone =>
    obtain ⟨rfl, rfl⟩ := Prod.mk.inj h
    exact .inr ⟨rfl, rfl, by simp [hnone]⟩
  · next doc hdoc =>
    split at h
    · next hfilter =>
      obtain ⟨rfl, rfl⟩ := Prod.mk.inj h
      exact .inl ⟨doc, hdoc, hfilter, rfl, rfl⟩
    · next hfilter =>
      obtain ⟨rfl, rfl⟩ := Prod.mk.inj h
      refine .inr ⟨rfl, rfl, fun doc' hdoc' ↦ ?_⟩
      rw [hdoc, Option.some.injEq] at hdoc'
      exact hdoc' ▸ Bool.eq_false_iff.mpr hfilter

end PlanningState

section Effect

variable {ι : Type} {i : ι} {s s' : PlanningState}

/-- Each query on one job rewrites a match as its `Rewrites` rule says. -/
theorem jobEffect_of_findOneAndUpdate {op : Op} {answer : Ans op} {found : Option PlanningJob}
    {id : JobId} {filter : PlanningJobDocument → Bool}
    {update : PlanningJobDocument → PlanningJobDocument}
    (h : s.findOneAndUpdate id filter update = (found, s'))
    (hrewrites : ∀ doc, filter doc = true → found = some ((update doc).toDomain id) →
      op.Rewrites answer id doc (update doc))
    (hmatched : found = none → ¬ op.Matched answer) : JobEffect op s answer s' := by
  obtain ⟨doc, hdoc, hfilter, hfound, rfl⟩ | ⟨hfound, rfl, -⟩ :=
    PlanningState.findOneAndUpdate_cases h
  · exact .rewritten hdoc (hrewrites doc hfilter hfound)
  · exact .kept rfl (hmatched hfound)

theorem jobEffect_of_effect {op : Op} {a : Ans op} (h : (world ι).effect i op s a s') :
    JobEffect op s a s' := by
  obtain ⟨reply, h⟩ := h
  cases op
  case create data =>
    simp only [answer, Option.ite_none_right_eq_some, Option.isNone_iff_eq_none,
      Option.some.injEq, Prod.mk.injEq] at h
    obtain ⟨hunused, rfl, rfl⟩ := h
    exact .created data reply.time hunused
  case updateStatus id patch =>
    refine jobEffect_of_findOneAndUpdate (Option.some.inj h) (fun doc _ hfound ↦ ?_) ?_
    · exact hfound ▸ .updateStatus patch
    · rintro rfl
      exact Bool.false_ne_true
  case claimForProcessing id =>
    refine jobEffect_of_findOneAndUpdate (Option.some.inj h) (fun doc hfilter hfound ↦ ?_) ?_
    · exact hfound ▸ .claimForProcessing reply.time (of_decide_eq_true hfilter) rfl
    · rintro rfl
      exact Bool.false_ne_true
  case claimForGathering id =>
    refine jobEffect_of_findOneAndUpdate (Option.some.inj h) (fun doc hfilter hfound ↦ ?_) ?_
    · exact hfound ▸ .claimForGathering reply.time (of_decide_eq_true hfilter) rfl
    · rintro rfl
      exact Bool.false_ne_true
  case pushResultChunk id chunk =>
    refine jobEffect_of_findOneAndUpdate (Option.some.inj h) (fun doc hfilter hfound ↦ ?_) ?_
    · exact hfound ▸ .pushResultChunk chunk (of_decide_eq_true hfilter)
    · rintro rfl
      exact Bool.false_ne_true
  case claimForPlanning id contextUsed =>
    refine jobEffect_of_findOneAndUpdate (Option.some.inj h) (fun doc hfilter hfound ↦ ?_) ?_
    · exact hfound ▸ .claimForPlanning contextUsed (of_decide_eq_true hfilter) rfl
    · rintro rfl
      exact Bool.false_ne_true
  case failIfStillGathering id errorCode errorMessage =>
    refine jobEffect_of_findOneAndUpdate (Option.some.inj h) (fun doc hfilter hfound ↦ ?_) ?_
    · exact hfound ▸ .failIfStillGathering errorCode errorMessage reply.time
        (of_decide_eq_true hfilter) rfl
    · rintro rfl
      exact Bool.false_ne_true
  case awaitTask task =>
    simp only [answer, Option.ite_none_right_eq_some, Option.some.injEq, Prod.mk.injEq] at h
    exact .kept (congrArg PlanningState.jobs h.2.2.symm) id
  all_goals
    have hjobs : some s.jobs = some s'.jobs :=
      congrArg (Option.map fun answered : _ × PlanningState ↦ answered.2.jobs) h
    exact .kept (Option.some.inj hjobs).symm id

/-- Whatever became of a call, the jobs are as they were or as its effect makes them. -/
theorem jobEffect_of_answers {op : Op} {o : Outcome AppError (Ans op)}
    (h : (world ι).Answers AppError i op s o s') :
    s' = s ∧ o.Failed ∨ ∃ a, JobEffect op s a s' ∧ (∀ b, o = .returned b → a = b) ∧
      o.TookEffect := by
  cases h with
  | returned effect =>
    exact .inr ⟨_, jobEffect_of_effect effect, fun b hb ↦ Outcome.returned.inj hb, trivial⟩
  | lost error mayFail => exact .inl ⟨rfl, trivial⟩
  | applied error mayFail effect =>
    exact .inr ⟨_, jobEffect_of_effect effect, fun b hb ↦ (nomatch hb), trivial⟩

/-- A guarded transition found its job in the state it asks for, or did nothing. -/
theorem PlanningState.transition_cases {id : JobId} {before after : JobStatus}
    {filter : PlanningJobDocument → Bool} {update : PlanningJobDocument → PlanningJobDocument}
    {found : Option PlanningJob}
    (h : s.findOneAndUpdate id filter update = (found, s'))
    (hfilter : ∀ doc, filter doc = true ↔ doc.status = before)
    (hupdate : ∀ doc, (update doc).status = after) :
    (∃ job, found = some job ∧ job.id = id ∧ s.status id = some before ∧
      s'.status id = some after ∧ s'.timeouts = s.timeouts ∧ s'.requests = s.requests) ∨
    (found = none ∧ s' = s ∧ s.status id ≠ some before) := by
  rcases PlanningState.findOneAndUpdate_cases h with ⟨doc, hdoc, hmatch, rfl, rfl⟩ | ⟨rfl, rfl, hnone⟩
  · refine .inl ⟨_, rfl, rfl, ?_, ?_, rfl, rfl⟩
    · simp [PlanningState.status, hdoc, (hfilter doc).mp hmatch]
    · simp [PlanningState.status, hupdate]
  · refine .inr ⟨rfl, rfl, fun hstatus ↦ ?_⟩
    obtain ⟨doc, hdoc, hbefore⟩ := Option.map_eq_some_iff.mp hstatus
    have hunmatched := hnone doc hdoc
    rw [(hfilter doc).mpr hbefore] at hunmatched
    cases hunmatched

/-! ## Answers of single queries -/

theorem found_of_findById {id : JobId} {job : PlanningJob}
    (answers : (world ι).Answers AppError i (.findById id) s (.returned (some job)) s') :
    ∃ doc, s.jobs id = some doc ∧ job = doc.toDomain id ∧ s' = s := by
  cases answers with
  | returned effect =>
    obtain ⟨reply, heffect⟩ := effect
    obtain ⟨hfound, rfl⟩ := Prod.mk.inj (Option.some.inj heffect)
    obtain ⟨doc, hdoc, rfl⟩ := Option.map_eq_some_iff.mp hfound
    exact ⟨doc, hdoc, rfl, rfl⟩

theorem missing_of_findById {id : JobId}
    (answers : (world ι).Answers AppError i (.findById id) s (.returned none) s') :
    s.jobs id = none := by
  cases answers with
  | returned effect =>
    obtain ⟨reply, heffect⟩ := effect
    exact Option.map_eq_none_iff.mp (Prod.mk.inj (Option.some.inj heffect)).1

/-- After the claim of a gathering job it is not gathering, whoever won. -/
theorem not_gathering_of_claimForPlanning {id : JobId} {contextUsed : JsonObject}
    {found : Option PlanningJob}
    (answers : (world ι).Answers AppError i (.claimForPlanning id contextUsed) s
      (.returned found) s') : s'.status id ≠ some .gathering := by
  cases answers with
  | returned effect =>
    obtain ⟨reply, heffect⟩ := effect
    rcases PlanningState.transition_cases (Option.some.inj heffect) (fun doc ↦ decide_eq_true_iff)
      (fun _ ↦ rfl) with ⟨_, -, -, -, hafter, -, -⟩ | ⟨-, rfl, hbefore⟩
    · simp [hafter]
    · exact hbefore

theorem not_gathering_of_failIfStillGathering {id : JobId} {errorCode errorMessage : String}
    {found : Option PlanningJob}
    (answers : (world ι).Answers AppError i (.failIfStillGathering id errorCode errorMessage) s
      (.returned found) s') : s'.status id ≠ some .gathering := by
  cases answers with
  | returned effect =>
    obtain ⟨reply, heffect⟩ := effect
    rcases PlanningState.transition_cases (Option.some.inj heffect) (fun doc ↦ decide_eq_true_iff)
      (fun _ ↦ rfl) with ⟨_, -, -, -, hafter, -, -⟩ | ⟨-, rfl, hbefore⟩
    · simp [hafter]
    · exact hbefore

theorem status_of_updateStatus {id : JobId} {patch : UpdatePlanningJobStatusData}
    {found : Option PlanningJob} {status : JobStatus}
    (answers : (world ι).Answers AppError i (.updateStatus id patch) s (.returned found) s')
    (after : s'.status id = some status) : status = patch.status := by
  cases answers with
  | returned effect =>
    obtain ⟨reply, heffect⟩ := effect
    rcases PlanningState.findOneAndUpdate_cases (Option.some.inj heffect) with
      ⟨doc, -, -, -, rfl⟩ | ⟨-, rfl, hnone⟩
    · simpa [PlanningState.status, PlanningJobDocument.update, eq_comm] using after
    · obtain ⟨doc, hdoc, -⟩ := Option.map_eq_some_iff.mp after
      cases hnone doc hdoc

/-- A push appends its chunk, or finds the sequence recorded. -/
theorem pushed_of_pushResultChunk {id : JobId} {chunk : AppendResultChunkData}
    {found : Option PlanningJob} {doc : PlanningJobDocument}
    (answers : (world ι).Answers AppError i (.pushResultChunk id chunk) s (.returned found) s')
    (hdoc : s.jobs id = some doc) :
    chunk.sequence ∉ doc.chunkSequences ∧ s'.jobs id = some (doc.push chunk) ∨
      chunk.sequence ∈ doc.chunkSequences ∧ s'.jobs id = some doc := by
  cases answers with
  | returned effect =>
    obtain ⟨reply, heffect⟩ := effect
    rcases PlanningState.findOneAndUpdate_cases (Option.some.inj heffect) with
      ⟨doc', hdoc', hfresh, -, rfl⟩ | ⟨-, rfl, hnone⟩
    · obtain rfl : doc = doc' := Option.some.inj (hdoc.symm.trans hdoc')
      exact .inl ⟨of_decide_eq_true hfresh, PlanningState.store_jobs_self _ _ _⟩
    · exact .inr ⟨by simpa using hnone doc hdoc, hdoc⟩

/-- A push that does not match finds its sequence recorded. -/
theorem recorded_of_pushResultChunk {id : JobId} {chunk : AppendResultChunkData}
    {doc : PlanningJobDocument}
    (answers : (world ι).Answers AppError i (.pushResultChunk id chunk) s (.returned none) s')
    (found : s.jobs id = some doc) : chunk.sequence ∈ doc.chunkSequences := by
  cases answers with
  | returned effect =>
    obtain ⟨reply, heffect⟩ := effect
    rcases PlanningState.findOneAndUpdate_cases (Option.some.inj heffect) with
      ⟨_, -, -, hsome, -⟩ | ⟨-, -, hnone⟩
    · cases hsome
    · simpa using hnone doc found

/-- What a call does to a stored job: it stays stored, and only a rewrite changes it. -/
theorem job_after {op : Op} {o : Outcome AppError (Ans op)} {id : JobId}
    (answers : (world ι).Answers AppError i op s o s') {doc : PlanningJobDocument}
    (found : s.jobs id = some doc) :
    s'.jobs id = some doc ∨ ∃ answer doc', s'.jobs id = some doc' ∧
      op.Rewrites answer id doc doc' ∧ o.TookEffect ∧ ∀ b, o = .returned b → answer = b := by
  obtain ⟨rfl, -⟩ | ⟨answer, heffect, hanswer, heffective⟩ := jobEffect_of_answers answers
  · exact .inl found
  · cases heffect with
    | created data time unused =>
      left
      rw [PlanningState.store_jobs_of_ne _ _ fun heq ↦ ?_, found]
      rw [heq, unused] at found
      cases found
    | @rewritten _ _ _ id' doc₁ doc' found' rewrites =>
      by_cases hid : id = id'
      · subst hid
        obtain rfl : doc = doc₁ := Option.some.inj (found.symm.trans found')
        exact .inr ⟨answer, doc', PlanningState.store_jobs_self _ _ _, rewrites, heffective,
          hanswer⟩
      · exact .inl (by rw [PlanningState.store_jobs_of_ne _ _ hid, found])
    | kept jobs unmatched => exact .inl (by rw [jobs, found])

/-- A query that answered with a job has rewritten it. -/
theorem rewrites_of_returned {op : Op} {a : Ans op}
    (h : (world ι).Answers AppError i op s (.returned a) s') (matched : op.Matched a) :
    ∃ id doc doc', s.jobs id = some doc ∧ op.Rewrites a id doc doc' ∧ s' = s.store id doc' := by
  cases h with
  | returned effect =>
    cases jobEffect_of_effect effect with
    | created data time unused => exact matched.elim
    | rewritten found rewrites => exact ⟨_, _, _, found, rewrites, rfl⟩
    | kept jobs unmatched => exact (unmatched matched).elim

end Effect

end MemoFlowApi.Planning
