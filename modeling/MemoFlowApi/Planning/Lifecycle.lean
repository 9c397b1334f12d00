import MemoFlowApi.Planning.Ownership

/-!
# The Lifecycle of a Planning Job

Which status may follow which, for all runs in which the three unguarded failure writes (a failed
enqueue, a failed publish, and the refusal before the gather request) reach a job that is still
`pending` or `gathering`.  Without that condition the lifecycle fails: an enqueue that throws after
the job was delivered lets the submit endpoint overwrite the outcome of a finished job.
-/

namespace MemoFlowApi.Planning

open Concurrency

/-- The edges of the lifecycle. -/
inductive JobStatus.Edge : JobStatus → JobStatus → Prop
  | pending_running : Edge .pending .running
  | pending_gathering : Edge .pending .gathering
  | pending_failed : Edge .pending .failed
  | gathering_planning : Edge .gathering .planning
  | gathering_failed : Edge .gathering .failed
  | running_completed : Edge .running .completed
  | running_failed : Edge .running .failed
  | planning_completed : Edge .planning .completed
  | planning_failed : Edge .planning .failed

/-- Nothing follows `completed` or `failed`. -/
theorem JobStatus.Edge.not_terminal {status status' : JobStatus} (h : status.Edge status') :
    ¬ status.Terminal := by
  cases h <;> decide

/-- The fields clients read of a finished job. -/
def PlanningJobDocument.SameOutcome (doc doc' : PlanningJobDocument) : Prop :=
  doc'.status = doc.status ∧ doc'.result = doc.result ∧ doc'.errorCode = doc.errorCode ∧
    doc'.finishedAt = doc.finishedAt

/-- Every job finished in the earlier state is unchanged in the later one. -/
def Frozen (earlier later : PlanningState) : Prop :=
  ∀ id doc, earlier.jobs id = some doc → doc.status.Terminal →
    ∃ doc', later.jobs id = some doc' ∧ doc.SameOutcome doc'

theorem Frozen.trans {s₁ s₂ s₃ : PlanningState} (h : Frozen s₁ s₂) (h' : Frozen s₂ s₃) :
    Frozen s₁ s₃ := by
  intro id doc hdoc hterminal
  obtain ⟨doc', hdoc', hstatus, hresult, hcode, hfinished⟩ := h id doc hdoc hterminal
  obtain ⟨doc'', hdoc'', hstatus', hresult', hcode', hfinished'⟩ :=
    h' id doc' hdoc' (hstatus ▸ hterminal)
  exact ⟨doc'', hdoc'', hstatus'.trans hstatus, hresult'.trans hresult, hcode'.trans hcode,
    hfinished'.trans hfinished⟩

variable {ι : Type}

/-- The call sets the status of a stored job. -/
inductive StatusWrite (id : JobId) (doc doc' : PlanningJobDocument) : Call ι → Prop
  | mk {s : PlanningState} {k : ι} {op : Op} {o : Outcome AppError (Ans op)} {answer : Ans op}
      (found : s.jobs id = some doc) (rewrites : op.Rewrites answer id doc doc')
      (status : ∀ chunk, op ≠ .pushResultChunk id chunk) (effective : o.TookEffect) :
      StatusWrite id doc doc' ⟨s, k, op, o⟩

/-- Every status write of a run follows an edge, and the outcome of a finished job never changes
again. -/
def FollowsLifecycle (config : System ι) : Prop :=
  (∀ call ∈ config.trace, ∀ id doc doc', StatusWrite id doc doc' call →
    doc.status.Edge doc'.status) ∧
  config.history.Pairwise fun later earlier ↦ Frozen earlier later

/-- The job of an unguarded write. -/
def Op.unguardedJob? : Op → Option JobId
  | .updateStatus id patch => if patch.promptVersion = none then some id else none
  | _ => none

/-- An unguarded write that takes effect finds its job pending or gathering. -/
def UnguardedEarly (call : Call ι) : Prop :=
  ∀ id ∈ call.op.unguardedJob?, call.outcome.TookEffect →
    ∀ doc ∈ call.before.jobs id, doc.status = .pending ∨ doc.status = .gathering

instance : DecidablePred (UnguardedEarly (ι := ι)) := fun call ↦
  inferInstanceAs (Decidable (∀ id ∈ call.op.unguardedJob?, call.outcome.TookEffect →
    ∀ doc ∈ call.before.jobs id, doc.status = .pending ∨ doc.status = .gathering))

section Step

variable {handlers : ι → Handler} {state s s' : PlanningState} {φ : ι → Phase}
  {trace : List (Call ι)} {i : ι} {op : Op} {o : Outcome AppError (Ans op)} {φ' : Phase}

/-- An owned job is being worked on. -/
def Working (s : PlanningState) (φ : ι → Phase) : Prop :=
  ∀ k id userId, (φ k).role = .owner id userId →
    ∃ doc, s.jobs id = some doc ∧ (doc.status = .running ∨ doc.status = .planning)

/-- A status write of a handler that follows its role follows an edge. -/
theorem edge_of_rewrites {answer : Ans op} {id : JobId} {doc doc' : PlanningJobDocument}
    (working : Working s φ) (early : UnguardedEarly (⟨s, i, op, o⟩ : Call ι))
    (moves : Moves (handlers i) (φ i) op o φ') (effective : o.TookEffect)
    (found : s.jobs id = some doc) (rewrites : op.Rewrites answer id doc doc')
    (status : ∀ chunk, op ≠ .pushResultChunk id chunk) : doc.status.Edge doc'.status := by
  cases rewrites with
  | claimForProcessing time pending claimed => exact claimed ▸ pending ▸ .pending_running
  | claimForGathering time pending claimed => exact claimed ▸ pending ▸ .pending_gathering
  | pushResultChunk chunk => exact (status chunk rfl).elim
  | claimForPlanning contextUsed gathering claimed => exact claimed ▸ gathering ▸ .gathering_planning
  | failIfStillGathering _ _ time gathering failed => exact failed ▸ gathering ▸ .gathering_failed
  | updateStatus patch =>
    have hstatus : (doc.update patch).status = patch.status := rfl
    rw [hstatus]
    have howned : ∀ userId, (φ i).role = .owner id userId → patch.status.Terminal →
        doc.status.Edge patch.status := by
      intro userId hrole hterminal
      obtain ⟨doc₁, hdoc₁, hworking⟩ := working i id userId hrole
      obtain rfl := Option.some.inj (found.symm.trans hdoc₁)
      obtain hw | hw := hworking <;> obtain ht | ht := hterminal <;> rw [hw, ht] <;> constructor
    have hunguarded : patch.Unguarded → patch.status = .failed → doc.status.Edge patch.status := by
      intro hpatch hfailed
      have hid : id ∈ (Op.updateStatus id patch).unguardedJob? := by
        rw [UpdatePlanningJobStatusData.Unguarded] at hpatch
        simp [Op.unguardedJob?, hpatch]
      obtain hearly | hearly := early id hid effective doc found <;> rw [hearly, hfailed] <;>
        constructor
    cases moves with
    | neutral neutral => exact neutral.elim
    | thrown neutral => exact neutral.elim
    | disturb neutral => exact neutral.elim
    | finish role _ _ terminal => exact howned _ role terminal
    | refuse role _ _ status => exact howned _ role (.inr status)
    | giveUp _ unguarded status => exact hunguarded unguarded status
    | withdraw _ unguarded status => exact hunguarded unguarded status

/-- A finished job stays as it is. -/
theorem frozen_step (working : Working s φ) (early : UnguardedEarly (⟨s, i, op, o⟩ : Call ι))
    (answers : (world ι).Answers AppError i op s o s')
    (moves : Moves (handlers i) (φ i) op o φ') : Frozen s s' := by
  intro id doc hdoc hterminal
  obtain hsame | ⟨answer, doc', hdoc', hrewrites, heffective, -⟩ := job_after answers hdoc
  · exact ⟨doc, hsame, rfl, rfl, rfl, rfl⟩
  · by_cases hpush : ∃ chunk, op = .pushResultChunk id chunk
    · obtain ⟨chunk, rfl⟩ := hpush
      cases hrewrites
      exact ⟨_, hdoc', rfl, rfl, rfl, rfl⟩
    · have hedge := edge_of_rewrites working early moves heffective hdoc hrewrites
        fun chunk hop ↦ hpush ⟨chunk, hop⟩
      exact (hedge.not_terminal hterminal).elim

/-- Only its owner ends a job that is being worked on, and is then no longer its owner. -/
theorem owner_of_updateStatus {id : JobId} {patch : UpdatePlanningJobStatusData}
    {o : Outcome AppError (Ans (.updateStatus id patch))} {doc : PlanningJobDocument}
    (early : UnguardedEarly (⟨s, i, .updateStatus id patch, o⟩ : Call ι))
    (moves : Moves (handlers i) (φ i) (.updateStatus id patch) o φ') (effective : o.TookEffect)
    (found : s.jobs id = some doc) (working : doc.status = .running ∨ doc.status = .planning) :
    ∃ userId, (φ i).role = .owner id userId ∧ ∀ id' userId', φ'.role ≠ .owner id' userId' := by
  have hunguarded : ¬ patch.Unguarded := by
    intro hpatch
    have hid : id ∈ (Op.updateStatus id patch).unguardedJob? := by
      rw [UpdatePlanningJobStatusData.Unguarded] at hpatch
      simp [Op.unguardedJob?, hpatch]
    obtain hearly | hearly := early id hid effective doc found <;> simp [hearly] at working
  cases moves with
  | neutral neutral => exact neutral.elim
  | thrown neutral => exact neutral.elim
  | disturb neutral => exact neutral.elim
  | finish role => exact ⟨_, role, fun _ _ ↦ roleAfter_ne_owner⟩
  | refuse role => exact ⟨_, role, fun _ _ ↦ roleAfter_ne_owner⟩
  | giveUp _ unguarded => exact (hunguarded unguarded).elim
  | withdraw _ unguarded => exact (hunguarded unguarded).elim

theorem Working.step [DecidableEq ι] (working : Working s φ)
    (ownership : Ownership handlers s φ trace) (early : UnguardedEarly (⟨s, i, op, o⟩ : Call ι))
    (answers : (world ι).Answers AppError i op s o s')
    (moves : Moves (handlers i) (φ i) op o φ') : Working s' (Function.update φ i φ') := by
  have hkept : ∀ k id userId, (φ k).role = .owner id userId →
      (k = i → ∃ id' userId', φ'.role = .owner id' userId') →
      ∃ doc, s'.jobs id = some doc ∧ (doc.status = .running ∨ doc.status = .planning) := by
    intro k id userId hrole hstill
    obtain ⟨doc, hdoc, hworking⟩ := working k id userId hrole
    obtain hsame | ⟨answer, doc', hdoc', hrewrites, heffective, -⟩ := job_after answers hdoc
    · exact ⟨doc, hsame, hworking⟩
    · cases hrewrites with
      | updateStatus patch =>
        obtain ⟨userId', hrole', hended⟩ :=
          owner_of_updateStatus early moves heffective hdoc hworking
        obtain ⟨_, -, hclaimed⟩ := ownership.owner hrole
        obtain ⟨_, -, hclaimed'⟩ := ownership.owner hrole'
        obtain ⟨id', userId'', howner⟩ := hstill (ownership.unique hclaimed hclaimed').1
        exact (hended id' userId'' howner).elim
      | claimForProcessing time pending => simp [pending] at hworking
      | claimForGathering time pending => simp [pending] at hworking
      | pushResultChunk chunk => exact ⟨_, hdoc', hworking⟩
      | claimForPlanning contextUsed gathering => simp [gathering] at hworking
      | failIfStillGathering _ _ time gathering => simp [gathering] at hworking
  intro k id userId hrole
  by_cases hk : k = i
  · subst hk
    rw [Function.update_self] at hrole
    obtain hbefore | ⟨-, hwon⟩ := moves.owner_cases hrole
    · exact hkept k id userId hbefore fun _ ↦ ⟨id, userId, hrole⟩
    · obtain ⟨job, -, hwon⟩ := hwon s k
      cases hwon with
      | processing =>
        obtain ⟨_, doc, doc', -, hrewrites, rfl⟩ := rewrites_of_returned answers rfl
        cases hrewrites with
        | claimForProcessing time pending claimed =>
          exact ⟨doc', s.store_jobs_self _ _, .inl (claimed ▸ rfl)⟩
      | planning =>
        obtain ⟨_, doc, doc', -, hrewrites, rfl⟩ := rewrites_of_returned answers rfl
        cases hrewrites with
        | claimForPlanning contextUsed gathering claimed =>
          exact ⟨doc', s.store_jobs_self _ _, .inr (claimed ▸ rfl)⟩
  · rw [Function.update_of_ne hk] at hrole
    exact hkept k id userId hrole fun heq ↦ (hk heq).elim

end Step

section Run

variable [DecidableEq ι] {handlers : ι → Handler} {state s : PlanningState} {φ : ι → Phase}
  {trace : List (Call ι)}

/-- What the lifecycle theorem carries along a run. -/
structure Orderly (handlers : ι → Handler) (s : PlanningState) (φ : ι → Phase)
    (trace : List (Call ι)) : Prop where
  ownership : Ownership handlers s φ trace
  working : Working s φ
  edges : ∀ call ∈ trace, ∀ id doc doc', StatusWrite id doc doc' call →
    doc.status.Edge doc'.status
  frozen : (s :: trace.map Event.before).Pairwise fun later earlier ↦ Frozen earlier later

theorem Run.orderly (h : Run handlers state s φ trace)
    (early : ∀ call ∈ trace, UnguardedEarly call) : Orderly handlers s φ trace := by
  refine h.invariant (Orderly handlers) UnguardedEarly ?_ ?_ early
  · exact ⟨by constructor <;> simp [Claimed], by simp [Working], by simp, by simp⟩
  · intro s φ trace i op o s' φ' hinv hearly answers moves
    refine ⟨hinv.ownership.step answers moves,
      hinv.working.step hinv.ownership hearly answers moves, ?_, ?_⟩
    · intro call hcall id doc doc' hwrite
      obtain rfl | hold := List.mem_cons.mp hcall
      · obtain ⟨found, rewrites, status, effective⟩ := hwrite
        exact edge_of_rewrites hinv.working hearly moves effective found rewrites status
      · exact hinv.edges call hold id doc doc' hwrite
    · have hstep := frozen_step hinv.working hearly answers moves
      refine List.Pairwise.cons (fun earlier hearlier ↦ ?_) hinv.frozen
      obtain rfl | hbefore := List.mem_cons.mp hearlier
      · exact hstep
      · exact (List.rel_of_pairwise_cons hinv.frozen hbefore).trans hstep

/-- If every unguarded failure write finds its job pending or gathering, every status write
follows an edge and finished jobs never change. -/
theorem follows_lifecycle {texts : PlanningTexts} {config : System ι}
    (h : System.Reaches texts state handlers config)
    (early : ∀ call ∈ config.trace, UnguardedEarly call) : FollowsLifecycle config := by
  obtain ⟨φ, hrun, -⟩ := h.exists_run
  have horderly := hrun.orderly early
  exact ⟨horderly.edges, horderly.frozen⟩

end Run

/-! ## A submission whose enqueue fails -/

/-- A submission, and the worker that takes its job from the queue. -/
def submission : Fin 2 → Handler
  | 0 => .submit ⟨"user", "outline", none, none, none⟩
  | 1 => .worker ⟨false, true, true, none⟩ ⟨"job", "user"⟩

/-- Before the submission: no jobs, and users that consented. -/
def noJobs : PlanningState := .withJobs (fun _ ↦ none) fun _ ↦ some .consenting

/-- The submission makes a call that returns. -/
def submits (reply : Reply) : Move (Fin 2) Reply AppError := ⟨0, reply, .returned ()⟩

/-- The worker makes ten calls, the last of them its final write. -/
def worksToTheEnd : List (Move (Fin 2) Reply AppError) := List.replicate 10 ⟨1, {}, .returned ()⟩

/-- The job is delivered although `enqueue` throws, and the worker completes it before the
submission writes its failure. -/
def deliveredEnqueueFailure : List (Move (Fin 2) Reply AppError) :=
  [submits {}, submits { id := "job" }, ⟨0, {}, .applied ⟨.other, "timeout"⟩⟩] ++ worksToTheEnd ++
    [submits {}, submits {}]

/-- The job is not delivered, and the submission's failure is its outcome. -/
def undeliveredEnqueueFailure : List (Move (Fin 2) Reply AppError) :=
  [submits {}, submits { id := "job" }, ⟨0, {}, .lost ⟨.other, "refused"⟩⟩, submits {}, submits {}]

theorem follows_lifecycle_undelivered :
    ∃ config, System.Reaches .withoutSources noJobs submission config ∧
      config.shared.status "job" = some .failed ∧ FollowsLifecycle config := by
  have hreplay : (machine.replay (System.start .withoutSources noJobs submission)
      undeliveredEnqueueFailure).map (fun config ↦
        (decide (∀ call ∈ config.trace, UnguardedEarly call), config.shared.status "job")) =
      some (true, some .failed) := by decide
  obtain ⟨config, hreach, hview⟩ := machine.exists_reachable hreplay
  obtain ⟨hearly, hstatus⟩ := Prod.mk.inj hview
  exact ⟨config, hreach, hstatus, follows_lifecycle hreach (of_decide_eq_true hearly)⟩

/-- The submission overwrites the outcome of the completed job. -/
theorem not_follows_lifecycle_delivered :
    ∃ config, System.Reaches .withoutSources noJobs submission config ∧
      ¬ FollowsLifecycle config := by
  have hreplay : (machine.replay (System.start .withoutSources noJobs submission)
      deliveredEnqueueFailure).map (fun config ↦ (config.shared.status "job",
        (config.trace.map fun call ↦ call.before.status "job").head?)) =
      some (some .failed, some (some .completed)) := by decide
  obtain ⟨config, hreach, hview⟩ := machine.exists_reachable hreplay
  obtain ⟨hafter, hbefore⟩ := Prod.mk.inj hview
  refine ⟨config, hreach, fun ⟨_, hfrozen⟩ ↦ ?_⟩
  rw [List.head?_map, Option.map_eq_some_iff] at hbefore
  obtain ⟨call, hcall, hcompleted⟩ := hbefore
  have hlast : Frozen call.before config.shared :=
    List.rel_of_pairwise_cons hfrozen (List.mem_map_of_mem (List.mem_of_mem_head? hcall))
  obtain ⟨doc, hdoc, hstatus⟩ := Option.map_eq_some_iff.mp hcompleted
  obtain ⟨doc', hdoc', hsame, -⟩ := hlast "job" doc hdoc (.inl hstatus)
  rw [PlanningState.status, hdoc', Option.map_some, hsame, hstatus] at hafter
  cases hafter

end MemoFlowApi.Planning
