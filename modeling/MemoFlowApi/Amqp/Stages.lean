import Mathlib.Data.List.Nodup
import MemoFlowApi.Amqp.JobChains

/-!
# Stages of a Task's Chain

Whatever happened so far, the chain of each task is at one stage.  The stages of all tasks say which
jobs are queued and what is registered on each promise (`Hung`).  A job moves the chain of one task,
and the last one those of the tasks behind it.
-/

namespace MemoFlowApi.Amqp

open Js

variable {κ ε : Type}

/-- How far the chain of a task has come. -/
inductive Stage (ε : Type) where
  /-- Registered on the chain of the task before. -/
  | waiting (previous : ℕ)
  | ready (previous : Option ℕ)
  /-- `work` was called; the promise it returned is still to be adopted. -/
  | adopting
  | running
  | finished (settlement : Settlement ε)
  | worked (settlement : Settlement ε)
  | caught
  /-- The entry was looked at; `finally` hands on the settlement through a promise of its own. -/
  | cleaned
  | handed
  | adopted
  | passing
  | done
  deriving DecidableEq

namespace Stage

/-- The number of the stage; a job raises it. -/
def rank : Stage ε → ℕ
  | waiting _ => 0
  | ready _ => 1
  | adopting => 2
  | running => 3
  | finished _ => 4
  | worked _ => 5
  | caught => 6
  | cleaned => 7
  | handed => 8
  | adopted => 8
  | passing => 9
  | done => 10

/-- The jobs that are queued for a task at a stage. -/
def jobs (jobId : κ) (task : ℕ) : Stage ε → List (Job ε (Handler κ ε) Ref)
  | waiting _ => []
  | ready _ => [.react (.call (.work task)) .fulfilled]
  | adopting => [.adopt ⟨task, .result⟩ ⟨task, .worked⟩]
  | running => []
  | finished settlement => [.react (.resolve ⟨task, .worked⟩) settlement]
  | worked settlement => [.react (.call (.logFailure jobId task)) settlement]
  | caught => [.react (.call (.cleanup jobId task)) .fulfilled]
  | cleaned => [.react (.call (.handOn task .fulfilled)) .fulfilled,
      .adopt ⟨task, .waited⟩ ⟨task, .next⟩]
  | handed => [.adopt ⟨task, .waited⟩ ⟨task, .next⟩]
  | adopted => [.react (.call (.handOn task .fulfilled)) .fulfilled]
  | passing => [.react (.resolve ⟨task, .next⟩) .fulfilled]
  | done => []

/-- The promises of a task at a stage, but for the one at the end of its chain. -/
structure Fits (state : Ref → PromiseState ε (Handler κ ε) Ref) (jobId : κ) (task : ℕ)
    (stage : Stage ε) : Prop where
  result_before : stage.rank < 2 → state ⟨task, .result⟩ = .pending []
  result_adopting : stage = adopting →
    state ⟨task, .result⟩ = .pending [] ∨ ∃ settlement, state ⟨task, .result⟩ = .settled settlement
  result_running : stage = running → state ⟨task, .result⟩ = .pending [.resolve ⟨task, .worked⟩]
  result_settled : 4 ≤ stage.rank → ∃ settlement, state ⟨task, .result⟩ = .settled settlement
  worked : stage.rank < 5 → state ⟨task, .worked⟩ = .pending [.call (.logFailure jobId task)]
  caught : stage.rank < 6 → state ⟨task, .caught⟩ = .pending [.call (.cleanup jobId task)]
  waited : stage.rank < 8 → state ⟨task, .waited⟩ = .pending []
  waited_handed : stage = handed → state ⟨task, .waited⟩ = .settled .fulfilled
  waited_adopted : stage = adopted → state ⟨task, .waited⟩ = .pending [.resolve ⟨task, .next⟩]

/-- The task is neither behind another one nor at the end of its chain. -/
def Own (stage : Stage ε) : Prop := (∀ previous, stage ≠ waiting previous) ∧ stage ≠ done

variable {state state' : Ref → PromiseState ε (Handler κ ε) Ref} {jobId : κ} {task : ℕ}
  {stage : Stage ε}

theorem Fits.congr (h : stage.Fits state jobId task)
    (same : ∀ link, link ≠ .next → state' ⟨task, link⟩ = state ⟨task, link⟩) :
    stage.Fits state' jobId task := by
  constructor <;> rw [same _ (by simp)]
  · exact h.result_before
  · exact h.result_adopting
  · exact h.result_running
  · exact h.result_settled
  · exact h.worked
  · exact h.caught
  · exact h.waited
  · exact h.waited_handed
  · exact h.waited_adopted

end Stage

/-! ## The queue -/

/-- The task whose chain a job belongs to. -/
def jobTask : Job ε (Handler κ ε) Ref → ℕ
  | .react (.call (.work task)) _ => task
  | .react (.call (.logFailure _ task)) _ => task
  | .react (.call (.cleanup _ task)) _ => task
  | .react (.call (.handOn task _)) _ => task
  | .react (.resolve target) _ => target.task
  | .adopt _ target => target.task

theorem jobTask_of_mem {jobId : κ} {task : ℕ} {stage : Stage ε} {job : Job ε (Handler κ ε) Ref}
    (h : job ∈ stage.jobs jobId task) : jobTask job = task := by
  cases stage <;> simp only [Stage.jobs, List.mem_cons, List.not_mem_nil, or_false] at h
  case cleaned => rcases h with rfl | rfl <;> rfl
  all_goals
    subst h
    rfl

/-- The queue holds the jobs of all tasks' stages. -/
structure Queued (jobOf : ℕ → κ) (count : ℕ) (stage : ℕ → Stage ε)
    (queue : List (Job ε (Handler κ ε) Ref)) : Prop where
  mem_iff : ∀ job, job ∈ queue ↔ ∃ task < count, job ∈ (stage task).jobs (jobOf task) task
  nodup : queue.Nodup

variable {jobOf : ℕ → κ} {count n : ℕ} {stage : ℕ → Stage ε} {st : Stage ε}
  {queue before after added : List (Job ε (Handler κ ε) Ref)} {job : Job ε (Handler κ ε) Ref}

theorem Queued.mem_task (h : Queued jobOf count stage queue) :
    job ∈ queue ↔ jobTask job < count ∧
      job ∈ (stage (jobTask job)).jobs (jobOf (jobTask job)) (jobTask job) := by
  rw [h.mem_iff]
  constructor
  · rintro ⟨task, htask, hjob⟩
    obtain rfl := jobTask_of_mem hjob
    exact ⟨htask, hjob⟩
  · rintro ⟨htask, hjob⟩
    exact ⟨_, htask, hjob⟩

theorem Queued.mem_rest {other : Job ε (Handler κ ε) Ref} (h : Queued jobOf count stage queue)
    (hqueue : queue.Perm (job :: before)) : other ∈ before ↔ other ∈ queue ∧ other ≠ job := by
  have hnodup : (job :: before).Nodup := hqueue.nodup_iff.mp h.nodup
  rw [hqueue.mem_iff, List.mem_cons]
  constructor
  · intro hother
    exact ⟨.inr hother, fun heq ↦ (List.nodup_cons.mp hnodup).1 (heq ▸ hother)⟩
  · rintro ⟨rfl | hother, hne⟩
    · exact absurd rfl hne
    · exact hother

/-- A job is taken from the queue, and others of the same task are added. -/
theorem Queued.advance (h : Queued jobOf count stage queue) (hqueue : queue.Perm (job :: before))
    (hn : n < count) (jobs : ((stage n).jobs (jobOf n) n).Perm (job :: after))
    (jobs' : (st.jobs (jobOf n) n).Perm (after ++ added))
    (fresh : ∀ other ∈ added, other ∉ (stage n).jobs (jobOf n) n) (nodup : added.Nodup) :
    Queued jobOf count (Function.update stage n st) (before ++ added) := by
  have hnodup : (job :: before).Nodup := hqueue.nodup_iff.mp h.nodup
  have hbefore : ∀ other, other ∈ before ↔ other ∈ queue ∧ other ≠ job := fun _ ↦ h.mem_rest hqueue
  have hjob : job ∈ (stage n).jobs (jobOf n) n := jobs.mem_iff.mpr List.mem_cons_self
  have hown : ((stage n).jobs (jobOf n) n).Nodup := by
    cases stage n <;> simp [Stage.jobs]
  have hafter : job ∉ after := (List.nodup_cons.mp (jobs.nodup_iff.mp hown)).1
  refine ⟨fun other ↦ ?_, ?_⟩
  · rw [List.mem_append, hbefore]
    by_cases htask : jobTask other = n
    · have hstay : other ∈ queue ↔ other ∈ (stage n).jobs (jobOf n) n := by
        rw [h.mem_task, htask]
        exact and_iff_right hn
      have hgoes : (∃ task < count, other ∈ (Function.update stage n st task).jobs (jobOf task) task) ↔
          other ∈ st.jobs (jobOf n) n := by
        constructor
        · rintro ⟨task, -, hother⟩
          obtain rfl : n = task := htask.symm.trans (jobTask_of_mem hother)
          rwa [Function.update_self] at hother
        · intro hother
          exact ⟨n, hn, by rwa [Function.update_self]⟩
      rw [hgoes, hstay, jobs'.mem_iff, List.mem_append, jobs.mem_iff, List.mem_cons]
      constructor
      · rintro (⟨rfl | hold, hne⟩ | hnew)
        · exact absurd rfl hne
        · exact .inl hold
        · exact .inr hnew
      · rintro (hold | hnew)
        · exact .inl ⟨.inr hold, fun heq ↦ hafter (heq ▸ hold)⟩
        · exact .inr hnew
    · have hne : other ≠ job := by
        rintro rfl
        exact htask (jobTask_of_mem hjob)
      have hnot : other ∉ added := by
        intro hother
        exact htask (jobTask_of_mem (jobs'.mem_iff.mpr (List.mem_append_right _ hother)))
      rw [h.mem_iff]
      constructor
      · rintro (⟨⟨task, hlt, hother⟩, -⟩ | hother)
        · have htask' : task ≠ n := fun heq ↦ htask (heq ▸ jobTask_of_mem hother)
          exact ⟨task, hlt, by rwa [Function.update_of_ne htask']⟩
        · exact absurd hother hnot
      · rintro ⟨task, hlt, hother⟩
        have htask' : task ≠ n := fun heq ↦ htask (heq ▸ jobTask_of_mem hother)
        rw [Function.update_of_ne htask'] at hother
        exact .inl ⟨⟨task, hlt, hother⟩, hne⟩
  · refine List.Nodup.append (List.nodup_cons.mp hnodup).2 nodup fun other hold hnew ↦ ?_
    have hother : other ∈ st.jobs (jobOf n) n := jobs'.mem_iff.mpr (List.mem_append_right _ hnew)
    have hqueued := h.mem_task.mp ((hbefore other).mp hold).1
    rw [jobTask_of_mem hother] at hqueued
    exact fresh other hnew hqueued.2

/-- Jobs of a task at a new stage are added to the queue. -/
theorem Queued.extend (h : Queued jobOf count stage queue) (hn : n < count)
    (none : (stage n).jobs (jobOf n) n = []) :
    Queued jobOf count (Function.update stage n st) (queue ++ st.jobs (jobOf n) n) := by
  have hold : ∀ {other}, other ∈ queue → jobTask other ≠ n := by
    intro other hother heq
    have hjobs := (h.mem_task.mp hother).2
    rw [heq, none] at hjobs
    cases hjobs
  refine ⟨fun other ↦ ?_, ?_⟩
  · rw [List.mem_append]
    constructor
    · rintro (hother | hother)
      · obtain ⟨hlt, hjobs⟩ := h.mem_task.mp hother
        exact ⟨_, hlt, by rwa [Function.update_of_ne (hold hother)]⟩
      · exact ⟨n, hn, by rwa [Function.update_self]⟩
    · rintro ⟨task, hlt, hother⟩
      by_cases htask : task = n
      · subst htask
        rw [Function.update_self] at hother
        exact .inr hother
      · rw [Function.update_of_ne htask] at hother
        exact .inl ((h.mem_iff other).mpr ⟨task, hlt, hother⟩)
  · refine List.Nodup.append h.nodup (by cases st <;> simp [Stage.jobs]) fun other hother hnew ↦ ?_
    exact hold hother (jobTask_of_mem hnew)

/-! ## The promises -/

/-- The promises and the queue hold what the tasks' stages say. -/
structure Hung (jobOf : ℕ → κ) (count : ℕ) (stage : ℕ → Stage ε)
    (promises : Promises ε (Handler κ ε) Ref) : Prop where
  queued : Queued jobOf count stage promises.queue
  fits : ∀ n < count, (stage n).Fits promises.state (jobOf n) n
  fresh : ∀ n, count ≤ n → ∀ link, promises.state ⟨n, link⟩ = .pending []
  /-- The tasks behind a task are registered at the end of its chain. -/
  next : ∀ n < count, stage n ≠ .done → ∃ reactions,
    promises.state ⟨n, .next⟩ = .pending reactions ∧ reactions.Nodup ∧
      ∀ reaction, reaction ∈ reactions ↔
        ∃ m < count, stage m = .waiting n ∧ reaction = .call (.work m)
  waiting : ∀ n < count, ∀ previous, stage n = .waiting previous →
    previous < count ∧ stage previous ≠ .done

section Steps

variable {promises promises' : Promises ε (Handler κ ε) Ref} {settlement : Settlement ε}

/-- The chain of a task moves on its own promises. -/
theorem Hung.move (h : Hung jobOf count stage promises) (own : (stage n).Own) (own' : st.Own)
    (queued : Queued jobOf count (Function.update stage n st) promises'.queue)
    (fits : st.Fits promises'.state (jobOf n) n) (hn : n < count)
    (same : ∀ ref : Ref, ref.task ≠ n ∨ ref.link = .next →
      promises'.state ref = promises.state ref) :
    Hung jobOf count (Function.update stage n st) promises' := by
  have hwaiting : ∀ m previous, Function.update stage n st m = .waiting previous ↔
      stage m = .waiting previous := by
    intro m previous
    by_cases hm : m = n
    · subst hm
      rw [Function.update_self]
      exact iff_of_false (own'.1 previous) (own.1 previous)
    · rw [Function.update_of_ne hm]
  have hdone : ∀ m, Function.update stage n st m = .done ↔ stage m = .done := by
    intro m
    by_cases hm : m = n
    · subst hm
      rw [Function.update_self]
      exact iff_of_false own'.2 own.2
    · rw [Function.update_of_ne hm]
  constructor
  case queued => exact queued
  case fits =>
    intro m hm
    by_cases hmn : m = n
    · subst hmn
      rwa [Function.update_self]
    · rw [Function.update_of_ne hmn]
      exact (h.fits m hm).congr fun link _ ↦ same ⟨m, link⟩ (.inl hmn)
  case fresh =>
    intro m hm link
    rw [same ⟨m, link⟩ (.inl (Nat.ne_of_gt (Nat.lt_of_lt_of_le hn hm)))]
    exact h.fresh m hm link
  case next =>
    intro m hm hnot
    rw [ne_eq, hdone] at hnot
    rw [same ⟨m, .next⟩ (.inr rfl)]
    simp only [hwaiting]
    exact h.next m hm hnot
  case waiting =>
    intro m hm previous hm'
    rw [hwaiting] at hm'
    rw [ne_eq, hdone]
    exact h.waiting m hm previous hm'

/-- The chain of a task moves, and one of its promises changes. -/
theorem Hung.put (h : Hung jobOf count stage promises) (own : (stage n).Own) (own' : st.Own)
    {link : Link} {value : PromiseState ε (Handler κ ε) Ref}
    (queued : Queued jobOf count (Function.update stage n st) queue)
    (fits : st.Fits (Function.update promises.state ⟨n, link⟩ value) (jobOf n) n) (hn : n < count)
    (hlink : link ≠ .next) :
    Hung jobOf count (Function.update stage n st)
      ⟨Function.update promises.state ⟨n, link⟩ value, queue⟩ := by
  refine h.move own own' queued fits hn fun ref href ↦ Function.update_of_ne ?_ _ _
  rintro rfl
  rcases href with htask | hnext
  · exact htask rfl
  · exact hlink hnext

variable {rest : List (Job ε (Handler κ ε) Ref)}

theorem Hung.work (h : Hung jobOf count stage promises) {previous : Option ℕ} (hn : n < count)
    (hst : stage n = .ready previous)
    (hqueue : promises.queue.Perm (.react (.call (.work n)) .fulfilled :: rest)) :
    Hung jobOf count (Function.update stage n .adopting)
      ((promises.withQueue rest).enqueue (.adopt ⟨n, .result⟩ ⟨n, .worked⟩)) := by
  have hfits := h.fits n hn
  refine h.move (n := n) ?_ ?_ ?_ ?_ hn fun _ _ ↦ rfl
  · simp [hst, Stage.Own]
  · simp [Stage.Own]
  · apply h.queued.advance hqueue hn (by rw [hst]; rfl) (by rfl)
    · simp [hst, Stage.jobs]
    · simp
  · rw [hst] at hfits
    have hresult := hfits.result_before
    have hworked := hfits.worked
    have hcaught := hfits.caught
    have hwaited := hfits.waited
    constructor <;> simp_all [Stage.rank, Promises.enqueue, Promises.withQueue]

/-- The promise of the work is adopted: at once if the work is over. -/
theorem Hung.adoptResult (h : Hung jobOf count stage promises) (hn : n < count)
    (hst : stage n = .adopting)
    (hqueue : promises.queue.Perm (.adopt ⟨n, .result⟩ ⟨n, .worked⟩ :: rest)) :
    ∃ st : Stage ε, (st = .running ∨ ∃ settlement, st = .finished settlement) ∧
      Hung jobOf count (Function.update stage n st)
        ((promises.withQueue rest).subscribe ⟨n, .result⟩ (.resolve ⟨n, .worked⟩)) := by
  have hfits := h.fits n hn
  rw [hst] at hfits
  have hworked := hfits.worked
  have hcaught := hfits.caught
  have hwaited := hfits.waited
  rcases hfits.result_adopting rfl with hpending | ⟨settlement, hsettled⟩
  · refine ⟨.running, .inl rfl, ?_⟩
    rw [Promises.subscribe_of_pending (show (promises.withQueue rest).state _ = _ from hpending)]
    refine h.put ?_ ?_ ?_ ?_ hn (by simp)
    · simp [hst, Stage.Own]
    · simp [Stage.Own]
    · have hadvance : Queued jobOf count (Function.update stage n .running) (rest ++ []) :=
        h.queued.advance hqueue hn (by rw [hst]; rfl) (by rfl) (by simp) (by simp)
      rwa [List.append_nil] at hadvance
    · constructor <;> simp_all [Stage.rank]
  · refine ⟨.finished settlement, .inr ⟨settlement, rfl⟩, ?_⟩
    rw [Promises.subscribe_of_settled (show (promises.withQueue rest).state _ = _ from hsettled)]
    refine h.move (n := n) ?_ ?_ ?_ ?_ hn fun _ _ ↦ rfl
    · simp [hst, Stage.Own]
    · simp [Stage.Own]
    · apply h.queued.advance hqueue hn (by rw [hst]; rfl) (by rfl)
      · simp [hst, Stage.jobs]
      · simp
    · constructor <;> simp_all [Stage.rank, Promises.enqueue, Promises.withQueue]

/-- The work's settlement arrives at the chain. -/
theorem Hung.resolveWorked (h : Hung jobOf count stage promises) (hn : n < count)
    (hst : stage n = .finished settlement)
    (hqueue : promises.queue.Perm (.react (.resolve ⟨n, .worked⟩) settlement :: rest)) :
    Hung jobOf count (Function.update stage n (.worked settlement))
      ((promises.withQueue rest).settle ⟨n, .worked⟩ settlement) := by
  have hfits := h.fits n hn
  rw [hst] at hfits
  have hresult := hfits.result_settled
  have hworked := hfits.worked (by simp [Stage.rank])
  have hcaught := hfits.caught
  have hwaited := hfits.waited
  rw [Promises.settle_of_pending (show (promises.withQueue rest).state _ = _ from hworked)]
  refine h.put ?_ ?_ ?_ ?_ hn (by simp)
  · simp [hst, Stage.Own]
  · simp [Stage.Own]
  · apply h.queued.advance hqueue hn (by rw [hst]; rfl) (by rfl)
    · simp [hst, Stage.jobs]
    · simp
  · constructor <;> simp_all [Stage.rank]

/-- However the work ended, the chain goes on. -/
theorem Hung.logFailure (h : Hung jobOf count stage promises) (hn : n < count)
    (hst : stage n = .worked settlement)
    (hqueue : promises.queue.Perm
      (.react (.call (.logFailure (jobOf n) n)) settlement :: rest)) :
    Hung jobOf count (Function.update stage n .caught)
      ((promises.withQueue rest).settle ⟨n, .caught⟩ .fulfilled) := by
  have hfits := h.fits n hn
  rw [hst] at hfits
  have hresult := hfits.result_settled
  have hcaught := hfits.caught (by simp [Stage.rank])
  have hwaited := hfits.waited
  rw [Promises.settle_of_pending (show (promises.withQueue rest).state _ = _ from hcaught)]
  refine h.put ?_ ?_ ?_ ?_ hn (by simp)
  · simp [hst, Stage.Own]
  · simp [Stage.Own]
  · apply h.queued.advance hqueue hn (by rw [hst]; rfl) (by rfl)
    · simp [hst, Stage.jobs]
    · simp
  · constructor <;> simp_all [Stage.rank]

theorem Hung.cleanup (h : Hung jobOf count stage promises) (hn : n < count)
    (hst : stage n = .caught)
    (hqueue : promises.queue.Perm (.react (.call (.cleanup (jobOf n) n)) .fulfilled :: rest)) :
    Hung jobOf count (Function.update stage n .cleaned)
      (((promises.withQueue rest).enqueue (.react (.call (.handOn n .fulfilled)) .fulfilled)).enqueue
        (.adopt ⟨n, .waited⟩ ⟨n, .next⟩)) := by
  have hfits := h.fits n hn
  rw [hst] at hfits
  have hresult := hfits.result_settled
  have hwaited := hfits.waited
  refine h.move (n := n) ?_ ?_ ?_ ?_ hn fun _ _ ↦ rfl
  · simp [hst, Stage.Own]
  · simp [Stage.Own]
  · unfold Promises.enqueue Promises.withQueue
    rw [List.append_assoc]
    apply h.queued.advance hqueue hn (by rw [hst]; rfl) (by rfl)
    · simp [hst, Stage.jobs]
    · simp
  · constructor <;> simp_all [Stage.rank, Promises.enqueue, Promises.withQueue]

/-- `finally` hands on the settlement. -/
theorem Hung.handOn (h : Hung jobOf count stage promises) (hn : n < count)
    (hst : stage n = .cleaned ∨ stage n = .adopted)
    (hqueue : promises.queue.Perm (.react (.call (.handOn n .fulfilled)) .fulfilled :: rest)) :
    ∃ st : Stage ε, (stage n = .cleaned ∧ st = .handed ∨ stage n = .adopted ∧ st = .passing) ∧
      Hung jobOf count (Function.update stage n st)
        ((promises.withQueue rest).settle ⟨n, .waited⟩ .fulfilled) := by
  have hfits := h.fits n hn
  rcases hst with hst | hst <;> rw [hst] at hfits <;> have hresult := hfits.result_settled
  · have hwaited := hfits.waited (by simp [Stage.rank])
    refine ⟨.handed, .inl ⟨hst, rfl⟩, ?_⟩
    rw [Promises.settle_of_pending (show (promises.withQueue rest).state _ = _ from hwaited)]
    refine h.put ?_ ?_ ?_ ?_ hn (by simp)
    · simp [hst, Stage.Own]
    · simp [Stage.Own]
    · have hjobs : ((stage n).jobs (jobOf n) n).Perm (.react (.call (.handOn n .fulfilled)) .fulfilled ::
          [.adopt ⟨n, .waited⟩ ⟨n, .next⟩]) := by
        rw [hst]
        rfl
      exact h.queued.advance hqueue hn hjobs (by rfl) (by simp) (by simp)
    · constructor <;> simp_all [Stage.rank]
  · have hwaited := hfits.waited_adopted rfl
    refine ⟨.passing, .inr ⟨hst, rfl⟩, ?_⟩
    rw [Promises.settle_of_pending (show (promises.withQueue rest).state _ = _ from hwaited)]
    refine h.put ?_ ?_ ?_ ?_ hn (by simp)
    · simp [hst, Stage.Own]
    · simp [Stage.Own]
    · apply h.queued.advance hqueue hn (by rw [hst]; rfl) (by rfl)
      · simp [hst, Stage.jobs]
      · simp
    · constructor <;> simp_all [Stage.rank]

/-- The chain's end waits for what `finally` hands on. -/
theorem Hung.adoptWaited (h : Hung jobOf count stage promises) (hn : n < count)
    (hst : stage n = .cleaned ∨ stage n = .handed)
    (hqueue : promises.queue.Perm (.adopt ⟨n, .waited⟩ ⟨n, .next⟩ :: rest)) :
    ∃ st : Stage ε, (stage n = .cleaned ∧ st = .adopted ∨ stage n = .handed ∧ st = .passing) ∧
      Hung jobOf count (Function.update stage n st)
        ((promises.withQueue rest).subscribe ⟨n, .waited⟩ (.resolve ⟨n, .next⟩)) := by
  have hfits := h.fits n hn
  rcases hst with hst | hst <;> rw [hst] at hfits <;> have hresult := hfits.result_settled
  · have hwaited := hfits.waited (by simp [Stage.rank])
    refine ⟨.adopted, .inl ⟨hst, rfl⟩, ?_⟩
    rw [Promises.subscribe_of_pending (show (promises.withQueue rest).state _ = _ from hwaited)]
    refine h.put ?_ ?_ ?_ ?_ hn (by simp)
    · simp [hst, Stage.Own]
    · simp [Stage.Own]
    · have hadvance : Queued jobOf count (Function.update stage n .adopted) (rest ++ []) := by
        have hjobs : ((stage n).jobs (jobOf n) n).Perm (.adopt ⟨n, .waited⟩ ⟨n, .next⟩ ::
            [.react (.call (.handOn n .fulfilled)) .fulfilled]) := by
          rw [hst]
          exact .swap _ _ _
        exact h.queued.advance hqueue hn hjobs (by rfl) (by simp) (by simp)
      rwa [List.append_nil] at hadvance
    · constructor <;> simp_all [Stage.rank]
  · have hwaited := hfits.waited_handed rfl
    refine ⟨.passing, .inr ⟨hst, rfl⟩, ?_⟩
    rw [Promises.subscribe_of_settled (show (promises.withQueue rest).state _ = _ from hwaited)]
    refine h.move (n := n) ?_ ?_ ?_ ?_ hn fun _ _ ↦ rfl
    · simp [hst, Stage.Own]
    · simp [Stage.Own]
    · apply h.queued.advance hqueue hn (by rw [hst]; rfl) (by rfl)
      · simp [hst, Stage.jobs]
      · simp
    · constructor <;> simp_all [Stage.rank, Promises.enqueue, Promises.withQueue]

end Steps

/-! ## The end of a chain -/

/-- The stage of a task when the chain before it settles. -/
def Stage.released (settled : ℕ) : Stage ε → Stage ε
  | waiting previous => if previous = settled then ready (some previous) else waiting previous
  | stage => stage

/-- The stages when the chain of a task settles. -/
def release (stage : ℕ → Stage ε) (n : ℕ) : ℕ → Stage ε :=
  Function.update (fun m ↦ (stage m).released n) n .done

theorem Stage.released_of_ne {stage : Stage ε} {n : ℕ} (h : stage ≠ .waiting n) :
    stage.released n = stage := by
  cases stage with
  | waiting previous =>
    refine if_neg ?_
    rintro rfl
    exact h rfl
  | _ => rfl

theorem Stage.released_cases (stage : Stage ε) (n : ℕ) :
    stage.released n = stage ∨ stage = .waiting n ∧ stage.released n = .ready (some n) := by
  by_cases h : stage = .waiting n
  · subst h
    exact .inr ⟨rfl, if_pos rfl⟩
  · exact .inl (released_of_ne h)

theorem release_eq_waiting {m previous : ℕ} (hn : stage n ≠ .waiting previous) :
    release stage n m = .waiting previous ↔ stage m = .waiting previous ∧ previous ≠ n := by
  by_cases hm : m = n
  · subst hm
    simp [release, hn]
  · by_cases hst : stage m = .waiting n
    · simp [release, Function.update_of_ne hm, hst, Stage.released]
      exact fun h ↦ h.symm
    · simp only [release, Function.update_of_ne hm, Stage.released_of_ne hst]
      constructor
      · intro h
        refine ⟨h, ?_⟩
        rintro rfl
        exact hst h
      · exact And.left

section Release

variable {m previous : ℕ}

theorem release_self : release stage n n = .done :=
  Function.update_self _ _ _

theorem release_of_waiting (hst : stage n = .passing) (hm : stage m = .waiting n) :
    release stage n m = .ready (some n) := by
  have hmn : m ≠ n := by
    rintro rfl
    simp [hst] at hm
  simp [release, Function.update_of_ne hmn, hm, Stage.released]

theorem release_of_ne (hmn : m ≠ n) (hm : stage m ≠ .waiting n) : release stage n m = stage m := by
  rw [release, Function.update_of_ne hmn, Stage.released_of_ne hm]

theorem done_of_release (hst : stage n = .passing) (hmn : m ≠ n)
    (hdone : release stage n m = .done) : stage m = .done := by
  by_cases hm : stage m = .waiting n
  · rw [release_of_waiting hst hm] at hdone
    cases hdone
  · rwa [release_of_ne hmn hm] at hdone

/-- The jobs of a released task are its own, or the call of the work behind the settled chain. -/
theorem mem_jobs_release (hst : stage n = .passing) :
    job ∈ (release stage n m).jobs (jobOf m) m ↔
      (m ≠ n ∧ job ∈ (stage m).jobs (jobOf m) m) ∨
        (stage m = .waiting n ∧ job = .react (.call (.work m)) .fulfilled) := by
  by_cases hmn : m = n
  · subst hmn
    simp [release_self, Stage.jobs, hst]
  · by_cases hm : stage m = .waiting n
    · simp [release_of_waiting hst hm, Stage.jobs, hm]
    · simp [release_of_ne hmn hm, hmn, hm]

variable {rest : List (Job ε (Handler κ ε) Ref)} {reactions : List (Reaction (Handler κ ε) Ref)}

/-- The resolution of the chain leaves the queue, and the calls of the work behind it enter. -/
theorem Queued.release (h : Queued jobOf count stage queue) (hst : stage n = .passing)
    (hqueue : queue.Perm (.react (.resolve ⟨n, .next⟩) .fulfilled :: rest))
    (hnodup : reactions.Nodup)
    (hreactions : ∀ reaction, reaction ∈ reactions ↔
      ∃ m < count, stage m = .waiting n ∧ reaction = .call (.work m)) :
    Queued jobOf count (release stage n)
      (rest ++ reactions.map fun reaction ↦ .react reaction .fulfilled) := by
  have hmem : ∀ other, other ∈ rest ↔ ∃ m < count, m ≠ n ∧ other ∈ (stage m).jobs (jobOf m) m := by
    intro other
    rw [h.mem_rest hqueue, h.mem_iff]
    constructor
    · rintro ⟨⟨m, hm, hjobs⟩, hne⟩
      refine ⟨m, hm, ?_, hjobs⟩
      rintro rfl
      rw [hst] at hjobs
      exact hne (List.mem_singleton.mp hjobs)
    · rintro ⟨m, hm, hmn, hjobs⟩
      refine ⟨⟨m, hm, hjobs⟩, ?_⟩
      rintro rfl
      exact hmn (jobTask_of_mem hjobs).symm
  have hcalls : ∀ other : Job ε (Handler κ ε) Ref,
      (other ∈ reactions.map fun reaction ↦ .react reaction .fulfilled) ↔
        ∃ m < count, stage m = .waiting n ∧ other = .react (.call (.work m)) .fulfilled := by
    intro other
    rw [List.mem_map]
    constructor
    · rintro ⟨reaction, hreaction, rfl⟩
      obtain ⟨m, hm, hw, rfl⟩ := (hreactions reaction).mp hreaction
      exact ⟨m, hm, hw, rfl⟩
    · rintro ⟨m, hm, hw, rfl⟩
      exact ⟨_, (hreactions _).mpr ⟨m, hm, hw, rfl⟩, rfl⟩
  constructor
  case mem_iff =>
    intro other
    simp only [List.mem_append, hmem, hcalls, mem_jobs_release hst, and_or_left, exists_or]
  case nodup =>
    have hperm : List.Nodup (.react (.resolve ⟨n, .next⟩) .fulfilled :: rest) :=
      hqueue.nodup_iff.mp h.nodup
    refine List.Nodup.append (List.nodup_cons.mp hperm).2
      (hnodup.map fun _ _ heq ↦ by injection heq) fun other hold hnew ↦ ?_
    obtain ⟨m, hm, hw, rfl⟩ := (hcalls other).mp hnew
    have hjobs := (h.mem_task.mp ((h.mem_rest hqueue).mp hold).1).2
    change _ ∈ (stage m).jobs (jobOf m) m at hjobs
    rw [hw] at hjobs
    cases hjobs

variable {state : Ref → PromiseState ε (Handler κ ε) Ref} {jobId : κ}

/-- The settled task is done. -/
theorem Stage.Fits.settle (h : (Stage.passing : Stage ε).Fits state jobId n) :
    (Stage.done : Stage ε).Fits (Function.update state ⟨n, .next⟩ (.settled .fulfilled)) jobId n := by
  have hresult := h.result_settled
  have hworked := h.worked
  have hcaught := h.caught
  have hwaited := h.waited
  constructor <;> simp_all [Stage.rank]

/-- The task behind it is ready. -/
theorem Stage.Fits.ready (h : (Stage.waiting n : Stage ε).Fits state jobId m) :
    (Stage.ready (some n) : Stage ε).Fits state jobId m := by
  have hresult := h.result_before
  have hworked := h.worked
  have hcaught := h.caught
  have hwaited := h.waited
  constructor <;> simp_all [Stage.rank]

/-- The promises of every task fit its stage when a chain has settled. -/
theorem Stage.Fits.release {stage : ℕ → Stage ε} (h : (stage m).Fits state jobId m)
    (hst : stage n = .passing) :
    (release stage n m).Fits (Function.update state ⟨n, .next⟩ (.settled .fulfilled)) jobId m := by
  by_cases hmn : m = n
  · subst hmn
    rw [hst] at h
    rw [release_self]
    exact h.settle
  · have hfits : (stage m).Fits (Function.update state ⟨n, .next⟩ (.settled .fulfilled)) jobId m :=
      h.congr fun link _ ↦ Function.update_of_ne (by simp [hmn]) _ _
    by_cases hm : stage m = .waiting n
    · rw [hm] at hfits
      rw [release_of_waiting hst hm]
      exact hfits.ready
    · rwa [release_of_ne hmn hm]

end Release

/-- The chain of a task settles, and the task behind it is ready. -/
theorem Hung.resolveNext {promises : Promises ε (Handler κ ε) Ref}
    {rest : List (Job ε (Handler κ ε) Ref)} (h : Hung jobOf count stage promises) (hn : n < count)
    (hst : stage n = .passing)
    (hqueue : promises.queue.Perm (.react (.resolve ⟨n, .next⟩) .fulfilled :: rest)) :
    Hung jobOf count (release stage n) ((promises.withQueue rest).settle ⟨n, .next⟩ .fulfilled) := by
  obtain ⟨reactions, hnext, hnodup, hreactions⟩ := h.next n hn (by simp [hst])
  rw [Promises.settle_of_pending (show (promises.withQueue rest).state _ = _ from hnext)]
  have hwaiting : ∀ m previous, release stage n m = .waiting previous ↔
      stage m = .waiting previous ∧ previous ≠ n :=
    fun m previous ↦ release_eq_waiting (by simp [hst])
  have hstate : ∀ ref : Ref, ref ≠ ⟨n, .next⟩ →
      Function.update (promises.withQueue rest).state ⟨n, .next⟩
        (PromiseState.settled .fulfilled) ref = promises.state ref :=
    fun ref href ↦ Function.update_of_ne href _ _
  constructor
  case queued => exact h.queued.release hst hqueue hnodup hreactions
  case fits =>
    intro m hm
    exact (h.fits m hm).release hst
  case fresh =>
    intro m hm link
    have hne : (⟨m, link⟩ : Ref) ≠ ⟨n, .next⟩ := by
      rintro ⟨⟩
      exact absurd hn (Nat.not_lt.mpr hm)
    exact (hstate _ hne).trans (h.fresh m hm link)
  case next =>
    intro m hm hnot
    have hmn : m ≠ n := by
      rintro rfl
      exact hnot release_self
    have hnot' : stage m ≠ .done := by
      intro heq
      exact hnot ((release_of_ne hmn (by simp [heq])).trans heq)
    obtain ⟨behind, hpending, hfresh, hmem⟩ := h.next m hm hnot'
    refine ⟨behind, (hstate _ (by simp [hmn])).trans hpending, hfresh, fun reaction ↦ ?_⟩
    simp only [hwaiting, and_iff_left hmn]
    exact hmem reaction
  case waiting =>
    intro m hm previous hwaits
    obtain ⟨hw, hne⟩ := (hwaiting m previous).mp hwaits
    obtain ⟨hlt, hnot⟩ := h.waiting m hm previous hw
    exact ⟨hlt, fun heq ↦ hnot (done_of_release hst hne heq)⟩

/-! ## Work that ends, and a new task -/

section Outside

variable {promises : Promises ε (Handler κ ε) Ref} {settlement : Settlement ε}

/-- The work of a task ends, maybe before its promise is adopted. -/
theorem Hung.finish (h : Hung jobOf count stage promises) (hn : n < count)
    (started : 2 ≤ (stage n).rank) :
    ∃ st : Stage ε, (st = stage n ∨ stage n = .running ∧ st = .finished settlement) ∧
      Hung jobOf count (Function.update stage n st) (promises.settle ⟨n, .result⟩ settlement) ∧
      ∃ settlement', (promises.settle ⟨n, .result⟩ settlement).state ⟨n, .result⟩ =
        .settled settlement' := by
  have hfits := h.fits n hn
  have hsettled : ∀ settlement', promises.state ⟨n, .result⟩ = .settled settlement' →
      ∃ st : Stage ε, (st = stage n ∨ stage n = .running ∧ st = .finished settlement) ∧
        Hung jobOf count (Function.update stage n st) (promises.settle ⟨n, .result⟩ settlement) ∧
        ∃ settlement', (promises.settle ⟨n, .result⟩ settlement).state ⟨n, .result⟩ =
          .settled settlement' := by
    intro settlement' hresult
    rw [Promises.settle_of_settled hresult]
    refine ⟨stage n, .inl rfl, ?_, settlement', hresult⟩
    rwa [Function.update_eq_self]
  by_cases hrunning : stage n = .running
  · rw [hrunning] at hfits
    have hresult := hfits.result_running rfl
    have hworked := hfits.worked
    have hcaught := hfits.caught
    have hwaited := hfits.waited
    rw [Promises.settle_of_pending hresult]
    refine ⟨.finished settlement, .inr ⟨hrunning, rfl⟩, ?_, settlement, Function.update_self _ _ _⟩
    refine h.put ?_ ?_ ?_ ?_ hn (by simp)
    · simp [hrunning, Stage.Own]
    · simp [Stage.Own]
    · exact h.queued.extend hn (by rw [hrunning]; rfl)
    · constructor <;> simp_all [Stage.rank]
  · by_cases hadopting : stage n = .adopting
    · rcases hfits.result_adopting hadopting with hpending | ⟨settlement', hresult⟩
      · have hworked := hfits.worked
        have hcaught := hfits.caught
        have hwaited := hfits.waited
        rw [Promises.settle_of_pending hpending]
        refine ⟨stage n, .inl rfl, ?_, settlement, Function.update_self _ _ _⟩
        refine h.put ?_ ?_ ?_ ?_ hn (by simp)
        · simp [hadopting, Stage.Own]
        · simp [hadopting, Stage.Own]
        · rw [Function.update_eq_self, List.map_nil, List.append_nil]
          exact h.queued
        · rw [hadopting] at hworked hcaught hwaited ⊢
          constructor <;> simp_all [Stage.rank]
      · exact hsettled settlement' hresult
    · have hrank : 4 ≤ (stage n).rank := by
        cases hst : stage n <;> simp_all [Stage.rank]
      obtain ⟨settlement', hresult⟩ := hfits.result_settled hrank
      exact hsettled settlement' hresult

/-- What a call of `runInJobOrder` registers on the new promises. -/
def registered (promises : Promises ε (Handler κ ε) Ref) (jobId : κ) (task : ℕ) :
    Promises ε (Handler κ ε) Ref :=
  (promises.subscribe ⟨task, .worked⟩ (.call (.logFailure jobId task))).subscribe
    ⟨task, .caught⟩ (.call (.cleanup jobId task))

theorem registered_eq {jobId : κ} {task : ℕ}
    (fresh : ∀ link, promises.state ⟨task, link⟩ = .pending []) :
    registered promises jobId task =
      ⟨Function.update (Function.update promises.state ⟨task, .worked⟩
        (.pending [.call (.logFailure jobId task)])) ⟨task, .caught⟩
        (.pending [.call (.cleanup jobId task)]), promises.queue⟩ := by
  have hcaught : Function.update promises.state ⟨task, .worked⟩
      (.pending [.call (.logFailure jobId task)]) ⟨task, .caught⟩ = .pending [] := by
    rw [Function.update_of_ne (by simp), fresh]
  unfold registered
  rw [Promises.subscribe_of_pending (fresh .worked), List.nil_append,
    Promises.subscribe_of_pending hcaught, List.nil_append]

/-- A new task comes, and stands at a stage that leaves the others alone. -/
theorem Hung.arrive (h : Hung jobOf count stage promises)
    {promises' : Promises ε (Handler κ ε) Ref}
    (hst : (∃ previous, st = .waiting previous) ∨ ∃ previous, st = .ready previous)
    (queued : Queued jobOf (count + 1) (Function.update stage count st) promises'.queue)
    (same : ∀ ref : Ref, ref.link ≠ .next → promises'.state ref = promises.state ref)
    (fresh : ∀ n, count ≤ n → promises'.state ⟨n, .next⟩ = .pending [])
    (next : ∀ n < count, stage n ≠ .done → ∃ reactions,
      promises'.state ⟨n, .next⟩ = .pending reactions ∧ reactions.Nodup ∧
        ∀ reaction, reaction ∈ reactions ↔
          (∃ m < count, stage m = .waiting n ∧ reaction = .call (.work m)) ∨
            st = .waiting n ∧ reaction = .call (.work count))
    (behind : ∀ previous, st = .waiting previous → previous < count ∧ stage previous ≠ .done) :
    Hung jobOf (count + 1) (Function.update stage count st)
      (registered promises' (jobOf count) count) := by
  have hfresh : ∀ link, promises'.state ⟨count, link⟩ = .pending [] := by
    intro link
    by_cases hlink : link = .next
    · exact hlink ▸ fresh count (Nat.le_refl _)
    · exact (same ⟨count, link⟩ hlink).trans (h.fresh count (Nat.le_refl _) link)
  rw [registered_eq hfresh]
  have hself : Function.update stage count st count = st := Function.update_self _ _ _
  have hold : ∀ {m}, m < count → Function.update stage count st m = stage m :=
    fun hm ↦ Function.update_of_ne (Nat.ne_of_lt hm) _ _
  have hstate : ∀ {m}, m ≠ count → ∀ link, (Function.update (Function.update promises'.state
      ⟨count, .worked⟩ (PromiseState.pending [.call (.logFailure (jobOf count) count)]))
      ⟨count, .caught⟩ (.pending [.call (.cleanup (jobOf count) count)])) ⟨m, link⟩ =
        promises'.state ⟨m, link⟩ := by
    intro m hm link
    rw [Function.update_of_ne (by simp [hm]), Function.update_of_ne (by simp [hm])]
  have hnever : ∀ n, stage n = .waiting count → count ≤ n := by
    intro m hm
    by_contra hlt
    exact absurd (h.waiting m (Nat.not_le.mp hlt) count hm).1 (Nat.lt_irrefl _)
  constructor
  case queued => exact queued
  case fits =>
    intro m hm
    rcases Nat.lt_succ_iff_lt_or_eq.mp hm with hlt | rfl
    · rw [hold hlt]
      refine (h.fits m hlt).congr fun link hlink ↦ ?_
      exact (hstate (Nat.ne_of_lt hlt) link).trans (same ⟨m, link⟩ hlink)
    · rw [hself]
      rcases hst with ⟨previous, rfl⟩ | ⟨previous, rfl⟩ <;> constructor <;> simp_all [Stage.rank]
  case fresh =>
    intro m hm link
    have hne : m ≠ count := by omega
    refine (hstate hne link).trans ?_
    by_cases hlink : link = .next
    · exact hlink ▸ fresh m (by omega)
    · exact (same ⟨m, link⟩ hlink).trans (h.fresh m (by omega) link)
  case next =>
    intro m hm hnot
    rcases Nat.lt_succ_iff_lt_or_eq.mp hm with hlt | rfl
    · rw [hold hlt] at hnot
      obtain ⟨reactions, hpending, hnodup, hmem⟩ := next m hlt hnot
      refine ⟨reactions, (hstate (Nat.ne_of_lt hlt) .next).trans hpending, hnodup, fun reaction ↦ ?_⟩
      rw [hmem]
      constructor
      · rintro (⟨k, hk, hwaits, rfl⟩ | ⟨hwaits, rfl⟩)
        · exact ⟨k, Nat.lt_succ_of_lt hk, by rwa [hold hk], rfl⟩
        · exact ⟨count, Nat.lt_succ_self _, by rwa [hself], rfl⟩
      · rintro ⟨k, hk, hwaits, rfl⟩
        rcases Nat.lt_succ_iff_lt_or_eq.mp hk with hk | rfl
        · exact .inl ⟨k, hk, by rwa [hold hk] at hwaits, rfl⟩
        · exact .inr ⟨by rwa [hself] at hwaits, rfl⟩
    · refine ⟨[], ?_, List.nodup_nil, fun reaction ↦ ?_⟩
      · simp [hfresh]
      · refine iff_of_false List.not_mem_nil ?_
        rintro ⟨k, hk, hwaits, -⟩
        rcases Nat.lt_succ_iff_lt_or_eq.mp hk with hlt | rfl
        · rw [hold hlt] at hwaits
          exact absurd (hnever k hwaits) (Nat.not_le.mpr hlt)
        · rw [hself] at hwaits
          exact absurd (behind k hwaits).1 (Nat.lt_irrefl _)
  case waiting =>
    intro m hm previous hwaits
    have hplace : previous < count ∧ stage previous ≠ .done := by
      rcases Nat.lt_succ_iff_lt_or_eq.mp hm with hlt | rfl
      · rw [hold hlt] at hwaits
        exact h.waiting m hlt previous hwaits
      · rw [hself] at hwaits
        exact behind previous hwaits
    exact ⟨Nat.lt_succ_of_lt hplace.1, by rw [hold hplace.1]; exact hplace.2⟩

/-- The queue when a new task comes. -/
theorem Queued.arrive (h : Queued jobOf count stage queue) :
    Queued jobOf (count + 1) (Function.update stage count st)
      (queue ++ st.jobs (jobOf count) count) := by
  have hold : ∀ {m}, m < count → Function.update stage count st m = stage m :=
    fun hm ↦ Function.update_of_ne (Nat.ne_of_lt hm) _ _
  refine ⟨fun other ↦ ?_, ?_⟩
  · rw [List.mem_append, h.mem_iff]
    constructor
    · rintro (⟨m, hm, hjobs⟩ | hjobs)
      · exact ⟨m, Nat.lt_succ_of_lt hm, by rwa [hold hm]⟩
      · exact ⟨count, Nat.lt_succ_self _, by rwa [Function.update_self]⟩
    · rintro ⟨m, hm, hjobs⟩
      rcases Nat.lt_succ_iff_lt_or_eq.mp hm with hlt | rfl
      · exact .inl ⟨m, hlt, by rwa [hold hlt] at hjobs⟩
      · exact .inr (by rwa [Function.update_self] at hjobs)
  · refine List.Nodup.append h.nodup (by cases st <;> simp [Stage.jobs]) fun other hother hnew ↦ ?_
    have hlt := (h.mem_task.mp hother).1
    rw [jobTask_of_mem hnew] at hlt
    exact Nat.lt_irrefl _ hlt

/-- A message of a job without an entry starts a line. -/
theorem Hung.arrive_first (h : Hung jobOf count stage promises) :
    Hung jobOf (count + 1) (Function.update stage count (.ready none))
      (registered (promises.enqueue (.react (.call (.work count)) .fulfilled)) (jobOf count) count) := by
  refine h.arrive (.inr ⟨none, rfl⟩) h.queued.arrive (fun _ _ ↦ rfl)
    (fun m hm ↦ h.fresh m hm .next) (fun m hm hnot ↦ ?_) (by simp)
  obtain ⟨reactions, hpending, hnodup, hmem⟩ := h.next m hm hnot
  refine ⟨reactions, hpending, hnodup, fun reaction ↦ ?_⟩
  rw [hmem]
  simp

/-- A message of a job with an entry goes behind the task of the entry. -/
theorem Hung.arrive_behind (h : Hung jobOf count stage promises) (hn : n < count) (hnot : stage n ≠ .done) :
    Hung jobOf (count + 1) (Function.update stage count (.waiting n))
      (registered (promises.subscribe ⟨n, .next⟩ (.call (.work count))) (jobOf count) count) := by
  obtain ⟨reactions, hpending, hnodup, hmem⟩ := h.next n hn hnot
  rw [Promises.subscribe_of_pending hpending]
  refine h.arrive (.inl ⟨n, rfl⟩) ?_ (fun ref href ↦ ?_) (fun m hm ↦ ?_) (fun m hm hnot ↦ ?_) ?_
  · have harrive : Queued jobOf (count + 1) (Function.update stage count (.waiting n))
        (promises.queue ++ Stage.jobs (jobOf count) count (.waiting n)) := h.queued.arrive
    rwa [Stage.jobs, List.append_nil] at harrive
  · refine Function.update_of_ne ?_ _ _
    rintro rfl
    exact href rfl
  · refine (Function.update_of_ne ?_ _ _).trans (h.fresh m hm .next)
    rintro ⟨⟩
    exact absurd hn (Nat.not_lt.mpr hm)
  · by_cases hmn : m = n
    · subst hmn
      refine ⟨_, Function.update_self _ _ _, ?_, fun reaction ↦ ?_⟩
      · refine List.Nodup.append hnodup (List.nodup_singleton _) ?_
        intro reaction hold hnew
        obtain ⟨k, hk, -, rfl⟩ := (hmem reaction).mp hold
        rw [List.mem_singleton] at hnew
        cases hnew
        exact absurd hk (Nat.lt_irrefl _)
      · rw [List.mem_append, List.mem_singleton, hmem]
        simp
    · obtain ⟨others, hpending', hnodup', hmem'⟩ := h.next m hm hnot
      refine ⟨others, ?_, hnodup', fun reaction ↦ ?_⟩
      · refine (Function.update_of_ne ?_ _ _).trans hpending'
        rintro ⟨⟩
        exact hmn rfl
      · rw [hmem']
        simp [Ne.symm hmn]
  · rintro previous ⟨⟩
    exact ⟨hn, hnot⟩

end Outside

end MemoFlowApi.Amqp
