import Mathlib.Algebra.BigOperators.Group.Finset.Basic
import Mathlib.Algebra.Order.BigOperators.Group.Finset
import Mathlib.Data.List.Range
import MemoFlowApi.Amqp.Stages
import MemoFlowApi.Concurrency.Line

/-!
# Order of the Job Chains

The stages of the tasks' chains move the waiting lines of the jobs, so tasks of one job run one at a
time and in the order of their arrival.  A job that runs raises a stage, so the jobs come to an end;
then the entries are those of the jobs that have unfinished tasks.
-/

namespace MemoFlowApi.Amqp

open Concurrency Js

variable {κ ε : Type}

namespace Stage

/-- Where a task stands in the line of its job. -/
def place (task : ℕ) : Stage ε → Place
  | waiting previous => .queued (some previous) task
  | ready previous => .queued previous task
  | adopting | running | finished _ | worked _ | caught => .inside task
  | cleaned | handed | adopted | passing | done => .left

theorem two_le_rank_iff {stage : Stage ε} (task : ℕ) :
    2 ≤ stage.rank ↔ stage.place task = .inside task ∨ stage.place task = .left := by
  cases stage <;> simp [rank, place]

theorem seven_le_rank_iff {stage : Stage ε} (task : ℕ) :
    7 ≤ stage.rank ↔ stage.place task = .left := by
  cases stage <;> simp [rank, place]

end Stage

variable {jobOf : ℕ → κ} {s s' : Consumer κ ε} {stage stage' : ℕ → Stage ε} {settled : List ℕ} {n : ℕ}

theorem not_finished_of_running (hung : Hung jobOf s.count stage s.promises) (hn : n < s.count)
    (running : stage n = .running) : ¬s.Finished n := by
  rintro ⟨-, settlement, hsettled⟩
  have hresult := (hung.fits n hn).result_running running
  simp [hsettled] at hresult

/-- When no job is left, a chain stands still at one of three stages. -/
theorem quiet (hung : Hung jobOf s.count stage s.promises) (empty : s.promises.queue = []) (hn : n < s.count) :
    (∃ previous, stage n = .waiting previous) ∨ stage n = .running ∨ stage n = .done := by
  have hjobs : ∀ job, job ∉ (stage n).jobs (jobOf n) n := by
    intro job hjob
    have hmem := (hung.queued.mem_iff job).mpr ⟨n, hn, hjob⟩
    rw [empty] at hmem
    cases hmem
  cases hst : stage n with
  | waiting previous => exact .inl ⟨previous, rfl⟩
  | running => exact .inr (.inl rfl)
  | done => exact .inr (.inr rfl)
  | _ =>
    rw [hst] at hjobs
    exact absurd List.mem_cons_self (hjobs _)

variable [DecidableEq κ]

/-! ## What a job does -/

/-- What a job does to the stages and to the rest of the consumer. -/
inductive Moves (jobOf : ℕ → κ) (s : Consumer κ ε) (stage : ℕ → Stage ε) (s' : Consumer κ ε) :
    (ℕ → Stage ε) → Prop
  | start {n : ℕ} {previous : Option ℕ} (arrived : n < s.count) (ready : stage n = .ready previous)
      (started : s'.started = s.started ++ [n]) (chains : s'.jobChains = s.jobChains) :
      Moves jobOf s stage s' (Function.update stage n .adopting)
  | clean {n : ℕ} (arrived : n < s.count) (caught : stage n = .caught) (started : s'.started = s.started)
      (chains : s'.jobChains = if s.jobChains (jobOf n) = some ⟨n, .next⟩ then
        Function.update s.jobChains (jobOf n) none else s.jobChains) :
      Moves jobOf s stage s' (Function.update stage n .cleaned)
  | keep {next : ℕ → Stage ε} (started : s'.started = s.started) (chains : s'.jobChains = s.jobChains)
      (place : ∀ m, (next m).place m = (stage m).place m)
      (ready : ∀ m previous, next m = .ready (some previous) →
        stage m = .ready (some previous) ∨ previous < s.count ∧ stage previous = .passing) :
      Moves jobOf s stage s' next

/-- No stage falls, and one rises. -/
def Advances (count : ℕ) (stage stage' : ℕ → Stage ε) : Prop :=
  (∀ m, (stage m).rank ≤ (stage' m).rank) ∧ ∃ n < count, (stage n).rank < (stage' n).rank

theorem advances_update {count : ℕ} {st : Stage ε} (hn : n < count)
    (h : (stage n).rank < st.rank) : Advances count stage (Function.update stage n st) := by
  refine ⟨fun m ↦ ?_, n, hn, by rwa [Function.update_self]⟩
  by_cases hm : m = n
  · subst hm
    rw [Function.update_self]
    exact h.le
  · rw [Function.update_of_ne hm]

theorem advances_release {count : ℕ} (hn : n < count) (h : stage n = .passing) :
    Advances count stage (release stage n) := by
  refine ⟨fun m ↦ ?_, n, hn, by simp [h, release, Stage.rank]⟩
  by_cases hm : m = n
  · subst hm
    simp [h, release, Stage.rank]
  · rw [release, Function.update_of_ne hm]
    rcases (stage m).released_cases n with hm | ⟨hw, hm⟩ <;> rw [hm]
    rw [hw]
    exact Nat.zero_le _

/-- A stage that changes neither the place nor the readiness of its task. -/
theorem Moves.of_update {st : Stage ε} (started : s'.started = s.started)
    (chains : s'.jobChains = s.jobChains) (place : st.place n = (stage n).place n)
    (notReady : ∀ previous, st ≠ .ready previous) :
    Moves jobOf s stage s' (Function.update stage n st) := by
  refine .keep started chains (fun m ↦ ?_) fun m previous hm ↦ ?_
  · by_cases hmn : m = n
    · subst hmn
      rwa [Function.update_self]
    · rw [Function.update_of_ne hmn]
  · by_cases hmn : m = n
    · subst hmn
      rw [Function.update_self] at hm
      exact absurd hm (notReady _)
    · rw [Function.update_of_ne hmn] at hm
      exact .inl hm

theorem Moves.of_release (started : s'.started = s.started) (chains : s'.jobChains = s.jobChains)
    (hn : n < s.count) (h : stage n = .passing) : Moves jobOf s stage s' (release stage n) := by
  refine .keep started chains (fun m ↦ ?_) fun m previous hm ↦ ?_
  · by_cases hmn : m = n
    · subst hmn
      simp [release, h, Stage.place]
    · rw [release, Function.update_of_ne hmn]
      rcases (stage m).released_cases n with hm | ⟨hw, hm⟩ <;> rw [hm]
      rw [hw]
      rfl
  · by_cases hmn : m = n
    · subst hmn
      simp [release] at hm
    · rw [release, Function.update_of_ne hmn] at hm
      rcases (stage m).released_cases n with hsame | ⟨-, hready⟩
      · exact .inl (hsame.symm.trans hm)
      · obtain rfl : n = previous := by simpa using hready.symm.trans hm
        exact .inr ⟨hn, h⟩

/-- A job keeps the promises as the stages say, and raises a stage. -/
theorem Hung.step (h : Hung jobOf s.count stage s.promises) (step : Consumer.JobStep s s') :
    ∃ stage', Hung jobOf s'.count stage' s'.promises ∧ s'.count = s.count ∧
      Moves jobOf s stage s' stage' ∧ Advances s.count stage stage' := by
  cases step with
  | @run before after job hqueue =>
    have hperm : s.promises.queue.Perm (job :: (before ++ after)) := by
      rw [hqueue]
      exact List.perm_middle
    obtain ⟨n, hn, hjob⟩ := (h.queued.mem_iff job).mp (hperm.mem_iff.mpr List.mem_cons_self)
    cases hst : stage n with
    | waiting previous => simp [hst, Stage.jobs] at hjob
    | running => simp [hst, Stage.jobs] at hjob
    | done => simp [hst, Stage.jobs] at hjob
    | ready previous =>
      rw [hst] at hjob
      obtain rfl := List.mem_singleton.mp hjob
      exact ⟨_, h.work hn hst hperm, rfl, .start hn hst rfl rfl,
        advances_update hn (by simp [hst, Stage.rank])⟩
    | adopting =>
      rw [hst] at hjob
      obtain rfl := List.mem_singleton.mp hjob
      obtain ⟨st, hcases, hung⟩ := h.adoptResult hn hst hperm
      refine ⟨_, hung, rfl, ?_, ?_⟩
      · rcases hcases with rfl | ⟨settlement, rfl⟩ <;>
          exact .of_update rfl rfl (by rw [hst]; rfl) (by simp)
      · rcases hcases with rfl | ⟨settlement, rfl⟩ <;>
          exact advances_update hn (by simp [hst, Stage.rank])
    | finished settlement =>
      rw [hst] at hjob
      obtain rfl := List.mem_singleton.mp hjob
      exact ⟨_, h.resolveWorked hn hst hperm, rfl, .of_update rfl rfl (by rw [hst]; rfl) (by simp),
        advances_update hn (by simp [hst, Stage.rank])⟩
    | worked settlement =>
      rw [hst] at hjob
      obtain rfl := List.mem_singleton.mp hjob
      have hung := h.logFailure hn hst hperm
      cases settlement with
      | fulfilled =>
        exact ⟨_, hung, rfl, .of_update rfl rfl (by rw [hst]; rfl) (by simp),
          advances_update hn (by simp [hst, Stage.rank])⟩
      | rejected reason =>
        exact ⟨_, hung, rfl, .of_update rfl rfl (by rw [hst]; rfl) (by simp),
          advances_update hn (by simp [hst, Stage.rank])⟩
    | caught =>
      rw [hst] at hjob
      obtain rfl := List.mem_singleton.mp hjob
      exact ⟨_, h.cleanup hn hst hperm, rfl, .clean hn hst rfl rfl,
        advances_update hn (by simp [hst, Stage.rank])⟩
    | passing =>
      rw [hst] at hjob
      obtain rfl := List.mem_singleton.mp hjob
      exact ⟨_, h.resolveNext hn hst hperm, rfl, .of_release rfl rfl hn hst, advances_release hn hst⟩
    | cleaned =>
      rw [hst] at hjob
      rcases List.mem_pair.mp hjob with rfl | rfl
      · obtain ⟨st, hcases, hung⟩ := h.handOn hn (.inl hst) hperm
        rcases hcases with ⟨-, rfl⟩ | ⟨hcontra, -⟩
        · exact ⟨_, hung, rfl, .of_update rfl rfl (by rw [hst]; rfl) (by simp),
            advances_update hn (by simp [hst, Stage.rank])⟩
        · simp [hst] at hcontra
      · obtain ⟨st, hcases, hung⟩ := h.adoptWaited hn (.inl hst) hperm
        rcases hcases with ⟨-, rfl⟩ | ⟨hcontra, -⟩
        · exact ⟨_, hung, rfl, .of_update rfl rfl (by rw [hst]; rfl) (by simp),
            advances_update hn (by simp [hst, Stage.rank])⟩
        · simp [hst] at hcontra
    | handed =>
      rw [hst] at hjob
      obtain rfl := List.mem_singleton.mp hjob
      obtain ⟨st, hcases, hung⟩ := h.adoptWaited hn (.inr hst) hperm
      rcases hcases with ⟨hcontra, -⟩ | ⟨-, rfl⟩
      · simp [hst] at hcontra
      · exact ⟨_, hung, rfl, .of_update rfl rfl (by rw [hst]; rfl) (by simp),
          advances_update hn (by simp [hst, Stage.rank])⟩
    | adopted =>
      rw [hst] at hjob
      obtain rfl := List.mem_singleton.mp hjob
      obtain ⟨st, hcases, hung⟩ := h.handOn hn (.inr hst) hperm
      rcases hcases with ⟨hcontra, -⟩ | ⟨-, rfl⟩
      · simp [hst] at hcontra
      · exact ⟨_, hung, rfl, .of_update rfl rfl (by rw [hst]; rfl) (by simp),
          advances_update hn (by simp [hst, Stage.rank])⟩

/-! ## The lines of the jobs -/

theorem Consumer.mem_arrivals {k : κ} : n ∈ s.arrivals jobOf k ↔ n < s.count ∧ jobOf n = k := by
  simp [Consumer.arrivals]

theorem Consumer.pairwise_arrivals (jobOf : ℕ → κ) (s : Consumer κ ε) (k : κ) :
    (s.arrivals jobOf k).Pairwise (· < ·) :=
  List.pairwise_lt_range.filter _

/-- The lines that the stages stand for. -/
def lines (jobOf : ℕ → κ) (s : Consumer κ ε) (stage : ℕ → Stage ε) (settled : List ℕ) :
    Lines κ ℕ where
  tail k := (s.jobChains k).map (·.task)
  settled := settled
  next := s.count
  arrivals k := s.arrivals jobOf k
  place n := if n < s.count then (stage n).place n else .waiting

/-- The lines are in order, and the consumer's records agree with the stages. -/
structure Ordered (jobOf : ℕ → κ) (s : Consumer κ ε) (stage : ℕ → Stage ε) (settled : List ℕ) :
    Prop where
  inOrder : (lines jobOf s stage settled).InOrder jobOf
  left : ∀ n < s.count, (stage n).place n = .left → n ∈ settled
  ready : ∀ n < s.count, ∀ previous, stage n = .ready (some previous) → previous ∈ settled
  behind : ∀ n < s.count, ∀ previous, (stage n).place n = .queued (some previous) n →
    previous < n ∧ jobOf previous = jobOf n
  chain : ∀ k ref, s.jobChains k = some ref → ref.link = .next
  started : ∀ n, n ∈ s.started ↔ n < s.count ∧ 2 ≤ (stage n).rank
  started_order : ∀ k, s.started.filter (jobOf · = k) <+: s.arrivals jobOf k

/-- The earlier tasks of a job have left when one is inside or has left. -/
theorem left_of_started (h : (lines jobOf s stage settled).InOrder jobOf) {m : ℕ} (hn : n < s.count)
    (started : 2 ≤ (stage n).rank) (hm : m < n) (job : jobOf m = jobOf n) :
    (stage m).place m = .left := by
  obtain ⟨earlier, later, harrivals⟩ :=
    List.append_of_mem (Consumer.mem_arrivals.mpr ⟨hn, rfl⟩ : n ∈ s.arrivals jobOf (jobOf n))
  have hsorted := s.pairwise_arrivals jobOf (jobOf n)
  have hmem : m ∈ s.arrivals jobOf (jobOf n) :=
    Consumer.mem_arrivals.mpr ⟨hm.trans hn, job⟩
  rw [harrivals] at hsorted hmem
  have hearlier : m ∈ earlier := by
    rcases List.mem_append.mp hmem with hmem | hmem
    · exact hmem
    · rcases List.mem_cons.mp hmem with rfl | hlater
      · exact absurd hm (lt_irrefl _)
      · have hlt := List.rel_of_pairwise_cons (List.pairwise_append.mp hsorted).2.1 hlater
        exact absurd hm (Nat.not_lt.mpr hlt.le)
  have hbehind := h.behind
    (show earlier ++ [n] <+: s.arrivals jobOf (jobOf n) from ⟨later, by simp [harrivals]⟩)
  have hplace : (lines jobOf s stage settled).place n = (stage n).place n := if_pos hn
  have hplace' : (lines jobOf s stage settled).place m = (stage m).place m := if_pos (hm.trans hn)
  rw [hplace] at hbehind
  rw [← hplace']
  rcases (Stage.two_le_rank_iff n).mp started with hinside | hleft
  · rw [hinside] at hbehind
    exact hbehind m hearlier
  · rw [hleft] at hbehind
    exact hbehind m hearlier

/-- An increasing list and a beginning of it that ends right before an element. -/
theorem concat_isPrefix {front all : List ℕ} (h : front <+: all) (sorted : all.Pairwise (· < ·))
    (hn : n ∈ all) (hnot : n ∉ front) (before : ∀ m ∈ all, m < n → m ∈ front) :
    front ++ [n] <+: all := by
  obtain ⟨rest, rfl⟩ := h
  have hrest : n ∈ rest := (List.mem_append.mp hn).resolve_left hnot
  cases rest with
  | nil => cases hrest
  | cons x rest =>
    rcases List.mem_cons.mp hrest with rfl | hlater
    · exact ⟨rest, by simp⟩
    · have hparts := List.pairwise_append.mp sorted
      have hlt : x < n := List.rel_of_pairwise_cons hparts.2.1 hlater
      have hmem := before x (List.mem_append_right _ List.mem_cons_self) hlt
      exact absurd (hparts.2.2 x hmem x List.mem_cons_self) (lt_irrefl _)

/-- A stage that moves within its place keeps the order. -/
theorem Ordered.keep (h : Ordered jobOf s stage settled) (count : s'.count = s.count)
    (started : s'.started = s.started) (chains : s'.jobChains = s.jobChains)
    (place : ∀ m, (stage' m).place m = (stage m).place m)
    (ready : ∀ m < s.count, ∀ previous, stage' m = .ready (some previous) → previous ∈ settled) :
    Ordered jobOf s' stage' settled := by
  have hlines : lines jobOf s' stage' settled = lines jobOf s stage settled := by
    unfold lines Consumer.arrivals
    simp only [count, chains, place]
  constructor
  case inOrder => rw [hlines]; exact h.inOrder
  case left => rw [count]; exact fun m hm hleft ↦ h.left m hm ((place m).symm.trans hleft)
  case ready => rw [count]; exact ready
  case behind => rw [count]; exact fun m hm p hp ↦ h.behind m hm p ((place m).symm.trans hp)
  case chain => rw [chains]; exact h.chain
  case started =>
    intro m
    rw [started, count, h.started, Stage.two_le_rank_iff m, ← place m,
      ← Stage.two_le_rank_iff]
  case started_order =>
    intro k
    have horder := h.started_order k
    rw [started]
    unfold Consumer.arrivals at horder ⊢
    rwa [count]

theorem lines_start (hn : n < s.count) (count : s'.count = s.count)
    (chains : s'.jobChains = s.jobChains) :
    lines jobOf s' (Function.update stage n .adopting) settled =
      (lines jobOf s stage settled).enter n n := by
  unfold lines Lines.enter Consumer.arrivals
  simp only [count, chains, Lines.mk.injEq, true_and]
  funext m
  by_cases hm : m = n
  · subst hm
    simp [hn, Stage.place]
  · simp [hm]

/-- A ready task starts. -/
theorem Ordered.start (h : Ordered jobOf s stage settled) {previous : Option ℕ} (hn : n < s.count)
    (hready : stage n = .ready previous) (count : s'.count = s.count)
    (started : s'.started = s.started ++ [n]) (chains : s'.jobChains = s.jobChains) :
    Ordered jobOf s' (Function.update stage n .adopting) settled := by
  have hplace : (lines jobOf s stage settled).place n = .queued previous n := by
    unfold lines
    simp [hn, hready, Stage.place]
  have hnot : n ∉ s.started := by
    intro hmem
    simpa [hready, Stage.rank] using ((h.started n).mp hmem).2
  have hrank : ∀ m, 2 ≤ (Function.update stage n .adopting m).rank ↔ m = n ∨ 2 ≤ (stage m).rank := by
    intro m
    by_cases hm : m = n
    · subst hm
      simp [Stage.rank]
    · simp [hm]
  have hinOrder : (lines jobOf s' (Function.update stage n .adopting) settled).InOrder jobOf := by
    rw [lines_start hn count chains]
    exact h.inOrder.enter hplace fun p hp ↦ h.ready n hn p (by rw [hready, hp])
  have hbefore : ∀ m < n, jobOf m = jobOf n → m ∈ s.started := by
    intro m hm hjob
    have hleft := left_of_started hinOrder (count ▸ hn) ((hrank n).mpr (.inl rfl)) hm hjob
    rw [Function.update_of_ne (Nat.ne_of_lt hm)] at hleft
    exact (h.started m).mpr ⟨hm.trans hn, (Stage.two_le_rank_iff m).mpr (.inr hleft)⟩
  constructor
  case inOrder => exact hinOrder
  case left =>
    rw [count]
    intro m hm hleft
    by_cases hmn : m = n
    · subst hmn
      simp [Stage.place] at hleft
    · rw [Function.update_of_ne hmn] at hleft
      exact h.left m hm hleft
  case ready =>
    rw [count]
    intro m hm p hp
    by_cases hmn : m = n
    · subst hmn
      simp at hp
    · rw [Function.update_of_ne hmn] at hp
      exact h.ready m hm p hp
  case behind =>
    rw [count]
    intro m hm p hp
    by_cases hmn : m = n
    · subst hmn
      simp [Stage.place] at hp
    · rw [Function.update_of_ne hmn] at hp
      exact h.behind m hm p hp
  case chain => rw [chains]; exact h.chain
  case started =>
    intro m
    rw [started, count, List.mem_append, List.mem_singleton, h.started, hrank]
    constructor
    · rintro (⟨hm, hstarted⟩ | rfl)
      · exact ⟨hm, .inr hstarted⟩
      · exact ⟨hn, .inl rfl⟩
    · rintro ⟨hm, rfl | hstarted⟩
      · exact .inr rfl
      · exact .inl ⟨hm, hstarted⟩
  case started_order =>
    intro k
    have harrivals : s'.arrivals jobOf k = s.arrivals jobOf k := by
      unfold Consumer.arrivals
      rw [count]
    rw [started, harrivals, List.filter_append]
    by_cases hk : jobOf n = k
    · subst hk
      rw [List.filter_singleton, decide_eq_true rfl, cond_true]
      refine concat_isPrefix (h.started_order _) (s.pairwise_arrivals _ _)
        (Consumer.mem_arrivals.mpr ⟨hn, rfl⟩) (fun hmem ↦ hnot (List.mem_filter.mp hmem).1) ?_
      intro m hm hlt
      have hjob := (Consumer.mem_arrivals.mp hm).2
      exact List.mem_filter.mpr ⟨hbefore m hlt hjob, decide_eq_true hjob⟩
    · rw [List.filter_singleton, decide_eq_false hk]
      simpa using h.started_order k

theorem Ordered.jobChain_iff (h : Ordered jobOf s stage settled) {k : κ} :
    (s.jobChains k).map (·.task) = some n ↔ s.jobChains k = some ⟨n, .next⟩ := by
  constructor
  · intro hmap
    obtain ⟨ref, href, rfl⟩ := Option.map_eq_some_iff.mp hmap
    rw [href, ← h.chain _ ref href]
  · intro hsome
    rw [hsome]
    rfl

theorem Ordered.lines_clean (h : Ordered jobOf s stage settled) (hn : n < s.count)
    (count : s'.count = s.count)
    (chains : s'.jobChains = if s.jobChains (jobOf n) = some ⟨n, .next⟩ then
      Function.update s.jobChains (jobOf n) none else s.jobChains) :
    lines jobOf s' (Function.update stage n .cleaned) (n :: settled) =
      (lines jobOf s stage settled).leave (jobOf n) n n := by
  unfold lines Lines.leave Consumer.arrivals
  simp only [count, chains, h.jobChain_iff, Lines.mk.injEq, true_and]
  constructor
  · funext k
    split_ifs
    · by_cases hk : k = jobOf n
      · subst hk
        simp
      · simp [Function.update_of_ne hk]
    · rfl
  · funext m
    by_cases hm : m = n
    · subst hm
      simp [hn, Stage.place]
    · simp [hm]

/-- A task is over, and the entry is dropped if it is its own. -/
theorem Ordered.clean (h : Ordered jobOf s stage settled) (hn : n < s.count)
    (hcaught : stage n = .caught) (count : s'.count = s.count) (started : s'.started = s.started)
    (chains : s'.jobChains = if s.jobChains (jobOf n) = some ⟨n, .next⟩ then
      Function.update s.jobChains (jobOf n) none else s.jobChains) :
    Ordered jobOf s' (Function.update stage n .cleaned) (n :: settled) := by
  have hplace : (lines jobOf s stage settled).place n = .inside n := by
    unfold lines
    simp [hn, hcaught, Stage.place]
  constructor
  case inOrder =>
    rw [h.lines_clean hn count chains]
    exact h.inOrder.leave hplace
  case left =>
    rw [count]
    intro m hm hleft
    by_cases hmn : m = n
    · exact hmn ▸ List.mem_cons_self
    · rw [Function.update_of_ne hmn] at hleft
      exact List.mem_cons_of_mem _ (h.left m hm hleft)
  case ready =>
    rw [count]
    intro m hm p hp
    by_cases hmn : m = n
    · subst hmn
      simp at hp
    · rw [Function.update_of_ne hmn] at hp
      exact List.mem_cons_of_mem _ (h.ready m hm p hp)
  case behind =>
    rw [count]
    intro m hm p hp
    by_cases hmn : m = n
    · subst hmn
      simp [Stage.place] at hp
    · rw [Function.update_of_ne hmn] at hp
      exact h.behind m hm p hp
  case chain =>
    intro k ref href
    rw [chains] at href
    split_ifs at href
    · by_cases hk : k = jobOf n
      · subst hk
        simp at href
      · rw [Function.update_of_ne hk] at href
        exact h.chain k ref href
    · exact h.chain k ref href
  case started =>
    intro m
    rw [started, count, h.started]
    by_cases hmn : m = n
    · subst hmn
      simp [hcaught, Stage.rank]
    · rw [Function.update_of_ne hmn]
  case started_order =>
    intro k
    have horder := h.started_order k
    rw [started]
    unfold Consumer.arrivals at horder ⊢
    rwa [count]

/-- The task of an entry is the last one of its job, and has not left. -/
theorem Ordered.tail_task (h : Ordered jobOf s stage settled) {k : κ}
    (tail : (s.jobChains k).map (·.task) = some n) :
    (s.arrivals jobOf k).getLast? = some n ∧ n < s.count ∧ (stage n).rank < 7 ∧ jobOf n = k := by
  obtain ⟨earlier, i, harrivals, htask⟩ := h.inOrder.tail_some tail
  have harrivals : s.arrivals jobOf k = earlier ++ [i] := harrivals
  have hmem : i ∈ s.arrivals jobOf k := by
    rw [harrivals]
    exact List.mem_append_right _ List.mem_cons_self
  obtain ⟨hi, hjob⟩ := Consumer.mem_arrivals.mp hmem
  have hplace : (lines jobOf s stage settled).place i = (stage i).place i := if_pos hi
  rw [hplace] at htask
  have hin : i = n ∧ (stage i).rank < 7 := by
    cases hst : stage i <;> simp_all [Stage.place, Place.task?, Stage.rank]
  obtain ⟨rfl, hrank⟩ := hin
  exact ⟨by rw [harrivals, List.getLast?_concat], hi, hrank, hjob⟩

theorem arrivals_succ (count : s'.count = s.count + 1) (k : κ) :
    s'.arrivals jobOf k = s.arrivals jobOf k ++ if jobOf s.count = k then [s.count] else [] := by
  unfold Consumer.arrivals
  rw [count, List.range_succ, List.filter_append, List.filter_singleton]
  by_cases hk : jobOf s.count = k <;> simp [hk]

theorem lines_arrive {st : Stage ε}
    (place : st.place s.count = .queued ((s.jobChains (jobOf s.count)).map (·.task)) s.count)
    (count : s'.count = s.count + 1)
    (chains : s'.jobChains = Function.update s.jobChains (jobOf s.count) (some ⟨s.count, .next⟩)) :
    lines jobOf s' (Function.update stage s.count st) settled =
      (lines jobOf s stage settled).join (jobOf s.count) s.count := by
  unfold lines Lines.join
  simp only [count, chains, Lines.mk.injEq, true_and]
  refine ⟨?_, ?_, ?_⟩
  · funext k
    by_cases hk : k = jobOf s.count
    · subst hk
      simp
    · simp [Function.update_of_ne hk]
  · funext k
    rw [arrivals_succ count]
    by_cases hk : k = jobOf s.count
    · subst hk
      simp
    · simp [Function.update_of_ne hk, Ne.symm hk]
  · funext m
    by_cases hm : m = s.count
    · subst hm
      simp [place]
    · have hiff : m < s.count + 1 ↔ m < s.count := by omega
      simp [hm, hiff]

/-- A new task joins the line of its job. -/
theorem Ordered.arrive (h : Ordered jobOf s stage settled) {st : Stage ε}
    (place : st.place s.count = .queued ((s.jobChains (jobOf s.count)).map (·.task)) s.count)
    (ready : ∀ previous, st ≠ .ready (some previous)) (count : s'.count = s.count + 1)
    (started : s'.started = s.started)
    (chains : s'.jobChains = Function.update s.jobChains (jobOf s.count) (some ⟨s.count, .next⟩)) :
    Ordered jobOf s' (Function.update stage s.count st) settled := by
  have hold : ∀ {m}, m < s.count → Function.update stage s.count st m = stage m :=
    fun hm ↦ Function.update_of_ne (Nat.ne_of_lt hm) _ _
  have hself : Function.update stage s.count st s.count = st := Function.update_self _ _ _
  have hinside : ∀ {m}, m < s.count + 1 → 2 ≤ (Function.update stage s.count st m).rank →
      m < s.count ∧ 2 ≤ (stage m).rank := by
    intro m hm hrank
    rcases Nat.lt_succ_iff_lt_or_eq.mp hm with hlt | rfl
    · exact ⟨hlt, by rwa [hold hlt] at hrank⟩
    · rw [hself, Stage.two_le_rank_iff s.count, place] at hrank
      simp at hrank
  constructor
  case inOrder =>
    rw [lines_arrive place count chains]
    exact h.inOrder.join (by simp [lines])
  case left =>
    rw [count]
    intro m hm hleft
    rcases Nat.lt_succ_iff_lt_or_eq.mp hm with hlt | rfl
    · rw [hold hlt] at hleft
      exact h.left m hlt hleft
    · rw [hself, place] at hleft
      cases hleft
  case ready =>
    rw [count]
    intro m hm p hp
    rcases Nat.lt_succ_iff_lt_or_eq.mp hm with hlt | rfl
    · rw [hold hlt] at hp
      exact h.ready m hlt p hp
    · rw [hself] at hp
      exact absurd hp (ready p)
  case behind =>
    rw [count]
    intro m hm p hp
    rcases Nat.lt_succ_iff_lt_or_eq.mp hm with hlt | rfl
    · rw [hold hlt] at hp
      exact h.behind m hlt p hp
    · rw [hself, place, Place.queued.injEq] at hp
      obtain ⟨-, hlt, -, hjob⟩ := h.tail_task hp.1
      exact ⟨hlt, hjob⟩
  case chain =>
    intro k ref href
    rw [chains] at href
    by_cases hk : k = jobOf s.count
    · subst hk
      rw [Function.update_self] at href
      cases href
      rfl
    · rw [Function.update_of_ne hk] at href
      exact h.chain k ref href
  case started =>
    intro m
    rw [started, count, h.started]
    constructor
    · rintro ⟨hm, hrank⟩
      exact ⟨Nat.lt_succ_of_lt hm, by rwa [hold hm]⟩
    · rintro ⟨hm, hrank⟩
      exact hinside hm hrank
  case started_order =>
    intro k
    rw [started, arrivals_succ count]
    exact (h.started_order k).trans (List.prefix_append _ _)

/-! ## Every run -/

/-- The stages explain the consumer. -/
def Chained (jobOf : ℕ → κ) (s : Consumer κ ε) : Prop :=
  ∃ stage settled, Hung jobOf s.count stage s.promises ∧ Ordered jobOf s stage settled

theorem chained_idle (jobOf : ℕ → κ) : Chained jobOf (Consumer.idle : Consumer κ ε) := by
  refine ⟨fun _ ↦ .done, [], ?_, ?_⟩
  · constructor <;> simp [Consumer.idle, Promises.fresh]
    exact ⟨by simp, List.nodup_nil⟩
  · constructor
    case inOrder =>
      exact Lines.InOrder.of_empty (fun _ ↦ rfl) (fun t ht ↦ absurd ht List.not_mem_nil)
        (fun _ ↦ rfl) fun _ ↦ rfl
    all_goals simp [Consumer.idle]

theorem Ordered.moves (h : Ordered jobOf s stage settled) (moves : Moves jobOf s stage s' stage')
    (count : s'.count = s.count) : ∃ settled', Ordered jobOf s' stage' settled' := by
  cases moves with
  | start arrived ready started chains => exact ⟨_, h.start arrived ready count started chains⟩
  | clean arrived caught started chains => exact ⟨_, h.clean arrived caught count started chains⟩
  | keep started chains place ready =>
    refine ⟨_, h.keep count started chains place fun m hm p hp ↦ ?_⟩
    rcases ready m p hp with hready | ⟨hlt, hpassing⟩
    · exact h.ready m hm p hready
    · exact h.left p hlt (by rw [hpassing]; rfl)

/-- Every step keeps the consumer explained by stages. -/
theorem Chained.step (h : Chained jobOf s) (step : Consumer.Step jobOf s s') : Chained jobOf s' := by
  obtain ⟨stage, settled, hung, ordered⟩ := h
  cases step with
  | arrive =>
    cases hchain : s.jobChains (jobOf s.count) with
    | none =>
      have hpromises : (s.runInJobOrder (jobOf s.count)).promises =
          registered (s.promises.enqueue (.react (.call (.work s.count)) .fulfilled))
            (jobOf s.count) s.count := by
        unfold Consumer.runInJobOrder registered
        rw [hchain]
      refine ⟨Function.update stage s.count (.ready none), _, ?_,
        ordered.arrive ?_ (by simp) rfl rfl rfl⟩
      · rw [hpromises]
        exact hung.arrive_first
      · rw [hchain]
        rfl
    | some ref =>
      obtain ⟨-, hlt, hrank, -⟩ := ordered.tail_task (by rw [hchain]; rfl)
      have hnext : ref = ⟨ref.task, .next⟩ := by
        rw [← ordered.chain _ ref hchain]
      have hnot : stage ref.task ≠ .done := by
        intro heq
        simp [heq, Stage.rank] at hrank
      have hpromises : (s.runInJobOrder (jobOf s.count)).promises =
          registered (s.promises.subscribe ⟨ref.task, .next⟩ (.call (.work s.count)))
            (jobOf s.count) s.count := by
        unfold Consumer.runInJobOrder registered
        rw [hchain, ← hnext]
      refine ⟨Function.update stage s.count (.waiting ref.task), _, ?_,
        ordered.arrive ?_ (by simp) rfl rfl rfl⟩
      · rw [hpromises]
        exact hung.arrive_behind hlt hnot
      · rw [hchain]
        rfl
  | @finish task settlement started =>
    obtain ⟨hlt, hrank⟩ := (ordered.started task).mp started
    obtain ⟨st, hst, hung', -⟩ :
        ∃ st : Stage ε, (st = stage task ∨ stage task = .running ∧ st = .finished settlement) ∧ _ ∧ _ :=
      hung.finish hlt hrank
    have hplace : st.place task = (stage task).place task := by
      rcases hst with rfl | ⟨hrunning, rfl⟩
      · rfl
      · rw [hrunning]
        rfl
    have hready : ∀ previous, st ≠ .ready previous := by
      rcases hst with rfl | ⟨-, rfl⟩
      · intro previous heq
        simp [heq, Stage.rank] at hrank
      · simp
    have hmoves : Moves jobOf s stage (s.finish task settlement) (Function.update stage task st) :=
      .of_update rfl rfl hplace hready
    obtain ⟨settled', ordered'⟩ := ordered.moves hmoves rfl
    exact ⟨_, settled', hung', ordered'⟩
  | job step =>
    obtain ⟨stage', hung', hcount, moves, -⟩ := hung.step step
    obtain ⟨settled', ordered'⟩ := ordered.moves moves hcount
    exact ⟨stage', settled', hung', ordered'⟩

theorem chained_of_reachable (h : s.Reachable jobOf) : Chained jobOf s := by
  induction h with
  | refl => exact chained_idle jobOf
  | tail _ step ih => exact ih.step step

/-! ## The end of the jobs -/

/-- How far the chains of all tasks are from their ends. -/
def remaining (count : ℕ) (stage : ℕ → Stage ε) : ℕ :=
  ∑ n ∈ Finset.range count, (10 - (stage n).rank)

theorem Advances.remaining_lt {count : ℕ} (h : Advances count stage stage') :
    remaining count stage' < remaining count stage := by
  obtain ⟨hle, n, hn, hlt⟩ := h
  have hrank : (stage' n).rank ≤ 10 := by
    cases stage' n <;> simp [Stage.rank]
  refine Finset.sum_lt_sum (fun m _ ↦ Nat.sub_le_sub_left (hle m) 10) ⟨n, Finset.mem_range.mpr hn, ?_⟩
  omega

/-- No matter in which order the jobs run, they come to an end. -/
theorem Hung.ends (h : Hung jobOf s.count stage s.promises) :
    Acc (fun s' s : Consumer κ ε ↦ s.JobStep s') s := by
  induction hk : remaining s.count stage using Nat.strong_induction_on generalizing s stage with
  | _ k ih =>
    refine Acc.intro s fun s' step ↦ ?_
    obtain ⟨stage', hung, hcount, -, hadvances⟩ := h.step step
    refine ih (remaining s'.count stage') ?_ hung rfl
    rw [hcount, ← hk]
    exact hadvances.remaining_lt

/-! ## What the consumer guarantees -/

/-- What `runInJobOrder` guarantees in a state. -/
structure Serves (jobOf : ℕ → κ) (s : Consumer κ ε) : Prop where
  /-- The tasks of a job start in the order of their arrival, each once. -/
  started_order : ∀ k, s.started.filter (jobOf · = k) <+: s.arrivals jobOf k
  /-- A task starts when those before it on its job are over, however they ended. -/
  one_at_a_time : ∀ n ∈ s.started, ∀ m < n, jobOf m = jobOf n → s.Finished m
  /-- The entry of a job is that of its last task until this task is over. -/
  tail_kept : ∀ k n, (s.arrivals jobOf k).getLast? = some n → ¬s.Finished n →
    s.jobChains k = some ⟨n, .next⟩
  /-- When no job is left, nothing but an unfinished task of its own job keeps a task waiting. -/
  no_other_wait : s.promises.queue = [] → ∀ n < s.count,
    (∀ m < n, jobOf m = jobOf n → s.Finished m) → n ∈ s.started
  /-- When no job is left, the entries are those of the jobs with unfinished tasks. -/
  entries : s.promises.queue = [] → ∀ k,
    (∃ ref, s.jobChains k = some ref) ↔ ∃ n < s.count, jobOf n = k ∧ ¬s.Finished n
  /-- The jobs come to an end. -/
  ends : Acc (fun s' s : Consumer κ ε ↦ s.JobStep s') s

section Guarantees

variable (hung : Hung jobOf s.count stage s.promises) (ordered : Ordered jobOf s stage settled)

include hung ordered

theorem finished_of_left (hn : n < s.count) (left : (stage n).place n = .left) : s.Finished n := by
  have hrank := (Stage.seven_le_rank_iff n).mpr left
  exact ⟨(ordered.started n).mpr ⟨hn, by omega⟩, (hung.fits n hn).result_settled (by omega)⟩

theorem chain_of_last {k : κ} (last : (s.arrivals jobOf k).getLast? = some n)
    (unfinished : ¬s.Finished n) : s.jobChains k = some ⟨n, .next⟩ := by
  obtain ⟨hn, -⟩ := Consumer.mem_arrivals.mp (List.mem_of_getLast? last)
  cases hchain : s.jobChains k with
  | none =>
    have hleft := ordered.inOrder.tail_none (k := k) (by simp [lines, hchain]) n
      (List.mem_of_getLast? last)
    have hplace : (lines jobOf s stage settled).place n = (stage n).place n := if_pos hn
    exact absurd (finished_of_left hung ordered hn (hplace.symm.trans hleft)) unfinished
  | some ref =>
    obtain ⟨hlast, -⟩ := ordered.tail_task (by rw [hchain]; rfl)
    obtain rfl := Option.some.inj (hlast.symm.trans last)
    rw [← ordered.chain k ref hchain]

/-- The chain of a task that is over has run out, and would have let the next one start. -/
theorem started_of_no_wait (empty : s.promises.queue = []) (hn : n < s.count)
    (before : ∀ m < n, jobOf m = jobOf n → s.Finished m) : n ∈ s.started := by
  rcases quiet hung empty hn with ⟨previous, hwaiting⟩ | hrunning | hdone
  · obtain ⟨hlt, hjob⟩ := ordered.behind n hn previous (by rw [hwaiting]; rfl)
    obtain ⟨hprevious, hnot⟩ := hung.waiting n hn previous hwaiting
    have hfinished := before previous hlt hjob
    rcases quiet hung empty hprevious with ⟨p, hwaiting'⟩ | hrunning | hdone
    · have hrank := ((ordered.started previous).mp hfinished.1).2
      simp [hwaiting', Stage.rank] at hrank
    · exact absurd hfinished (not_finished_of_running hung hprevious hrunning)
    · exact absurd hdone hnot
  · exact (ordered.started n).mpr ⟨hn, by simp [hrunning, Stage.rank]⟩
  · exact (ordered.started n).mpr ⟨hn, by simp [hdone, Stage.rank]⟩

theorem entry_iff (empty : s.promises.queue = []) (k : κ) :
    (∃ ref, s.jobChains k = some ref) ↔ ∃ n < s.count, jobOf n = k ∧ ¬s.Finished n := by
  constructor
  · rintro ⟨ref, href⟩
    obtain ⟨-, hlt, hrank, hjob⟩ := ordered.tail_task (by rw [href]; rfl)
    refine ⟨ref.task, hlt, hjob, ?_⟩
    rcases quiet hung empty hlt with ⟨p, hwaiting⟩ | hrunning | hdone
    · rintro ⟨hstarted, -⟩
      have hrank := ((ordered.started _).mp hstarted).2
      simp [hwaiting, Stage.rank] at hrank
    · exact not_finished_of_running hung hlt hrunning
    · simp [hdone, Stage.rank] at hrank
  · rintro ⟨n, hn, hjob, unfinished⟩
    cases hchain : s.jobChains k with
    | some ref => exact ⟨ref, rfl⟩
    | none =>
      have hleft := ordered.inOrder.tail_none (k := k) (by simp [lines, hchain]) n
        (Consumer.mem_arrivals.mpr ⟨hn, hjob⟩)
      have hplace : (lines jobOf s stage settled).place n = (stage n).place n := if_pos hn
      exact absurd (finished_of_left hung ordered hn (hplace.symm.trans hleft)) unfinished

end Guarantees

/-- In every state that a consumer reaches, `runInJobOrder` serves the jobs in order. -/
theorem runInJobOrder_serves (h : s.Reachable jobOf) : Serves jobOf s := by
  obtain ⟨stage, settled, hung, ordered⟩ := chained_of_reachable h
  constructor
  case started_order => exact ordered.started_order
  case one_at_a_time =>
    intro n hstarted m hm hjob
    obtain ⟨hn, hrank⟩ := (ordered.started n).mp hstarted
    exact finished_of_left hung ordered (hm.trans hn)
      (left_of_started ordered.inOrder hn hrank hm hjob)
  case tail_kept => exact fun k n ↦ chain_of_last hung ordered
  case no_other_wait => exact fun empty n hn ↦ started_of_no_wait hung ordered empty hn
  case entries => exact fun empty k ↦ entry_iff hung ordered empty k
  case ends => exact hung.ends

/-! ## A failing task and two behind it -/

/-- The event loop is one order of the jobs. -/
theorem Consumer.Reachable.runNext (h : s.Reachable jobOf) : s.runNext.Reachable jobOf := by
  cases hqueue : s.promises.queue with
  | nil =>
    unfold Consumer.runNext
    rwa [hqueue]
  | cons job rest =>
    have hstep : Consumer.JobStep s ((s.withQueue ([] ++ rest)).runJob job) := .run (by simp [hqueue])
    unfold Consumer.runNext
    rw [hqueue]
    exact Relation.ReflTransGen.tail h (.job hstep)

theorem Consumer.Reachable.iterate (h : s.Reachable jobOf) (k : ℕ) :
    (Consumer.runNext^[k] s).Reachable jobOf := by
  induction k generalizing s with
  | zero => exact h
  | succ k ih => exact ih h.runNext

/-- Two tasks of one job and one of another. -/
def twoJobs (n : ℕ) : Bool := n == 2

/-- The three tasks have arrived, and those that can have started. -/
def threeArrived : Consumer Bool Unit :=
  Consumer.runNext^[4] (((Consumer.idle.runInJobOrder false).runInJobOrder false).runInJobOrder true)

/-- The first task has failed, and all jobs have run. -/
def firstFailed : Consumer Bool Unit :=
  Consumer.runNext^[20] (threeArrived.finish 0 (.rejected ()))

theorem threeArrived_reachable : threeArrived.Reachable twoJobs := by
  refine Consumer.Reachable.iterate ?_ 4
  have hfirst : Consumer.Reachable twoJobs (Consumer.idle.runInJobOrder false : Consumer Bool Unit) :=
    .tail .refl .arrive
  have hsecond : Consumer.Reachable twoJobs
      ((Consumer.idle.runInJobOrder false).runInJobOrder false : Consumer Bool Unit) :=
    .tail hfirst .arrive
  exact .tail hsecond .arrive

theorem firstFailed_reachable : firstFailed.Reachable twoJobs := by
  have hstarted : 0 ∈ threeArrived.started := by decide +kernel
  exact Consumer.Reachable.iterate (.tail threeArrived_reachable (.finish hstarted)) 20

theorem runInJobOrder_serves_failed :
    Serves twoJobs firstFailed ∧ firstFailed.started = [0, 2, 1] ∧
      firstFailed.promises.queue = [] ∧ firstFailed.logged = [(false, ())] :=
  ⟨runInJobOrder_serves firstFailed_reachable, by decide +kernel, by decide +kernel, by decide +kernel⟩

end MemoFlowApi.Amqp
