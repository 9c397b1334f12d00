import Mathlib.Data.List.Infix
import Mathlib.Logic.Function.Basic

/-!
# Waiting Lines of Chained Tasks

Tasks on a key run one at a time in their order of arrival when every arrival chains its task to the
tail of the key's line, waits for that task to settle, and drops the line on leaving if nothing was
chained behind it.  This module proves it of any family of callers: whoever is inside, everybody who
arrived before on the same key has left (`Lines.InOrder`).  No caller looks at the line as a whole;
each sees only the task before its own.
-/

namespace MemoFlowApi.Concurrency

/-- Where a caller stands. -/
inductive Place where
  | waiting
  /-- It arrived, is chained to the previous task, and holds a task. -/
  | queued (previous : Option ℕ) (task : ℕ)
  | inside (task : ℕ)
  | left
  deriving DecidableEq

/-- The unsettled task of a caller. -/
def Place.task? : Place → Option ℕ
  | waiting => none
  | queued _ task => some task
  | inside task => some task
  | left => none

/-- The lines of all keys. -/
structure Lines (κ ι : Type) where
  tail : κ → Option ℕ
  settled : List ℕ
  next : ℕ
  /-- The arrivals on each key, oldest first. -/
  arrivals : κ → List ι
  place : ι → Place

namespace Lines

variable {κ ι : Type}

/-- What a caller's place says about those who arrived before it. -/
def Behind (lines : Lines κ ι) (earlier : List ι) : Place → Prop
  | .waiting => True
  | .queued none _ => ∀ j ∈ earlier, lines.place j = .left
  | .queued (some t) _ => ∃ before j, earlier = before ++ [j] ∧
      (lines.place j = .left ∨ (lines.place j).task? = some t)
  | .inside _ => ∀ j ∈ earlier, lines.place j = .left
  | .left => ∀ j ∈ earlier, lines.place j = .left

/-- The lines are served in order. -/
structure InOrder (key : ι → κ) (lines : Lines κ ι) : Prop where
  settled_lt : ∀ t ∈ lines.settled, t < lines.next
  task_lt : ∀ {i t}, (lines.place i).task? = some t → t < lines.next
  not_settled : ∀ {i t}, (lines.place i).task? = some t → t ∉ lines.settled
  task_inj : ∀ {i j t}, (lines.place i).task? = some t → (lines.place j).task? = some t → i = j
  key_of_mem : ∀ {k i}, i ∈ lines.arrivals k → key i = k
  arrived : ∀ {i}, lines.place i ≠ .waiting ↔ i ∈ lines.arrivals (key i)
  tail_none : ∀ {k}, lines.tail k = none → ∀ i ∈ lines.arrivals k, lines.place i = .left
  tail_some : ∀ {k t}, lines.tail k = some t →
    ∃ earlier i, lines.arrivals k = earlier ++ [i] ∧ (lines.place i).task? = some t
  behind : ∀ {k earlier i}, earlier ++ [i] <+: lines.arrivals k →
    lines.Behind earlier (lines.place i)

variable {key : ι → κ} {lines lines' : Lines κ ι} {k : κ} {earlier : List ι} {i j : ι} {t : ℕ}

/-- Empty lines are in order. -/
theorem InOrder.of_empty (htail : ∀ k, lines.tail k = none)
    (hsettled : ∀ t ∈ lines.settled, t < lines.next) (harrivals : ∀ k, lines.arrivals k = [])
    (hplace : ∀ i, lines.place i = .waiting) : lines.InOrder key := by
  constructor
  · exact hsettled
  all_goals simp [htail, harrivals, hplace, Place.task?]

theorem InOrder.place_ne_waiting (h : lines.InOrder key) (hi : i ∈ lines.arrivals k) :
    lines.place i ≠ .waiting := by
  obtain rfl := h.key_of_mem hi
  exact h.arrived.mpr hi

/-- Whoever has arrived is not the caller that is still waiting. -/
theorem InOrder.ne_of_waiting (h : lines.InOrder key) (waiting : lines.place i = .waiting)
    (hj : j ∈ lines.arrivals k) : j ≠ i := by
  rintro rfl
  exact h.place_ne_waiting hj waiting

theorem mem_arrivals_of_initial (h : earlier ++ [i] <+: lines.arrivals k) :
    i ∈ lines.arrivals k :=
  h.subset (List.mem_append_right _ List.mem_cons_self)

theorem mem_arrivals_of_earlier (h : earlier ++ [i] <+: lines.arrivals k) (hj : j ∈ earlier) :
    j ∈ lines.arrivals k :=
  h.subset (List.mem_append_left _ hj)

/-- Everybody who arrived before somebody inside has left. -/
theorem InOrder.left_of_inside (h : lines.InOrder key)
    (hinitial : earlier ++ [i] <+: lines.arrivals k) (inside : lines.place i = .inside t)
    (hj : j ∈ earlier) : lines.place j = .left := by
  have hbehind := h.behind hinitial
  rw [inside] at hbehind
  exact hbehind j hj

/-- Nobody who arrived after somebody inside has started. -/
theorem InOrder.not_started_of_inside (h : lines.InOrder key) {later : List ι}
    (harrivals : lines.arrivals k = earlier ++ i :: later) (inside : lines.place i = .inside t)
    (hj : j ∈ later) : lines.place j ≠ .left ∧ ∀ t', lines.place j ≠ .inside t' := by
  obtain ⟨middle, rest, rfl⟩ := List.append_of_mem hj
  have hinitial : (earlier ++ i :: middle) ++ [j] <+: lines.arrivals k := by
    rw [harrivals]
    exact ⟨rest, by simp⟩
  have hi : i ∈ earlier ++ i :: middle := List.mem_append_right _ List.mem_cons_self
  have hbehind := h.behind hinitial
  constructor
  · intro hleft
    rw [hleft] at hbehind
    exact nomatch inside.symm.trans (hbehind i hi)
  · intro t' hinside
    rw [hinside] at hbehind
    exact nomatch inside.symm.trans (hbehind i hi)

/-- At most one caller is inside on a key. -/
theorem InOrder.inside_unique (h : lines.InOrder key) {t' : ℕ} (hkey : key i = key j)
    (hi : lines.place i = .inside t) (hj : lines.place j = .inside t') : i = j := by
  have hmem : i ∈ lines.arrivals (key i) := h.arrived.mp (by simp [hi])
  have hmem' : j ∈ lines.arrivals (key i) := hkey ▸ h.arrived.mp (by simp [hj])
  obtain ⟨earlier, later, harrivals⟩ := List.append_of_mem hmem
  rw [harrivals] at hmem'
  rcases List.mem_append.mp hmem' with hearlier | hlater
  · have hinitial : earlier ++ [i] <+: lines.arrivals (key i) := by
      rw [harrivals]
      exact ⟨later, by simp⟩
    have hleft := h.left_of_inside hinitial hi hearlier
    exact nomatch hj.symm.trans hleft
  · rcases List.mem_cons.mp hlater with rfl | hlater
    · rfl
    · exact ((h.not_started_of_inside harrivals hi hlater).2 t' hj).elim

/-- `Behind` survives a step in which those before keep their tasks or leave. -/
theorem Behind.mono {place : Place} (h : lines.Behind earlier place)
    (hleft : ∀ j ∈ earlier, lines.place j = .left → lines'.place j = .left)
    (htask : ∀ j ∈ earlier, ∀ t, (lines.place j).task? = some t →
      lines'.place j = .left ∨ (lines'.place j).task? = some t) :
    lines'.Behind earlier place := by
  cases place with
  | waiting => trivial
  | queued previous task =>
    cases previous with
    | none => exact fun j hj ↦ hleft j hj (h j hj)
    | some t =>
      obtain ⟨before, j, rfl, hj⟩ := h
      have hmem : j ∈ before ++ [j] := List.mem_append_right _ List.mem_cons_self
      refine ⟨before, j, rfl, ?_⟩
      rcases hj with hj | hj
      · exact .inl (hleft j hmem hj)
      · exact htask j hmem t hj
  | inside task => exact fun j hj ↦ hleft j hj (h j hj)
  | left => exact fun j hj ↦ hleft j hj (h j hj)

section Step

variable [DecidableEq ι]

/-- Caller `i` starts its task. -/
def enter (lines : Lines κ ι) (i : ι) (task : ℕ) : Lines κ ι :=
  { lines with place := Function.update lines.place i (.inside task) }

theorem InOrder.enter (h : lines.InOrder key) {previous : Option ℕ}
    (queued : lines.place i = .queued previous t) (settled : ∀ p ∈ previous, p ∈ lines.settled) :
    (lines.enter i t).InOrder key := by
  have hself : (lines.enter i t).place i = .inside t := Function.update_self _ _ _
  have hplace : ∀ {j}, j ≠ i → (lines.enter i t).place j = lines.place j :=
    fun hj ↦ Function.update_of_ne hj _ _
  have htask : ∀ j, ((lines.enter i t).place j).task? = (lines.place j).task? := by
    intro j
    by_cases hji : j = i
    · subst hji
      rw [hself, queued]
      rfl
    · rw [hplace hji]
  have hleft : ∀ {j}, lines.place j = .left → (lines.enter i t).place j = .left := by
    intro j hj
    rw [hplace ?_, hj]
    rintro rfl
    simp [queued] at hj
  constructor
  case settled_lt => exact h.settled_lt
  case task_lt => exact fun hj ↦ h.task_lt ((htask _).symm.trans hj)
  case not_settled => exact fun hj ↦ h.not_settled ((htask _).symm.trans hj)
  case task_inj =>
    exact fun hj hj' ↦ h.task_inj ((htask _).symm.trans hj) ((htask _).symm.trans hj')
  case key_of_mem => exact h.key_of_mem
  case arrived =>
    intro j
    by_cases hji : j = i
    · subst hji
      have harrived : j ∈ lines.arrivals (key j) := h.arrived.mp (by simp [queued])
      rw [hself]
      exact ⟨fun _ ↦ harrived, fun _ ↦ nofun⟩
    · rw [hplace hji]
      exact h.arrived
  case tail_none => exact fun htail j hj ↦ hleft (h.tail_none htail j hj)
  case tail_some =>
    intro k p htail
    obtain ⟨earlier, j, hearlier, hj⟩ := h.tail_some htail
    exact ⟨earlier, j, hearlier, (htask j).trans hj⟩
  case behind =>
    intro k earlier j hinitial
    have hinitial : earlier ++ [j] <+: lines.arrivals k := hinitial
    have hbehind := h.behind hinitial
    by_cases hji : j = i
    · subst hji
      rw [queued] at hbehind
      rw [hself]
      cases previous with
      | none => exact fun j' hj' ↦ hleft (hbehind j' hj')
      | some p =>
        obtain ⟨before, j', rfl, hj'⟩ := hbehind
        have hgone : lines.place j' = .left := by
          rcases hj' with hgone | hholds
          · exact hgone
          · exact (h.not_settled hholds (settled p rfl)).elim
        have hbefore := h.behind ((List.prefix_append _ _).trans hinitial)
        rw [hgone] at hbefore
        intro j'' hj''
        rcases List.mem_append.mp hj'' with hj'' | hj''
        · exact hleft (hbefore j'' hj'')
        · obtain rfl := List.mem_singleton.mp hj''
          exact hleft hgone
    · rw [hplace hji]
      exact hbehind.mono (fun j' _ ↦ hleft) fun j' _ p hj' ↦ .inr ((htask j').trans hj')

variable [DecidableEq κ]

/-- Caller `i` chains a task to the line of its key. -/
def join (lines : Lines κ ι) (key : κ) (i : ι) : Lines κ ι where
  tail := Function.update lines.tail key (some lines.next)
  settled := lines.settled
  next := lines.next + 1
  arrivals := Function.update lines.arrivals key (lines.arrivals key ++ [i])
  place := Function.update lines.place i (.queued (lines.tail key) lines.next)

/-- Caller `i` settles its task. -/
def leave (lines : Lines κ ι) (key : κ) (i : ι) (task : ℕ) : Lines κ ι :=
  { lines with
    tail := if lines.tail key = some task then Function.update lines.tail key none else lines.tail
    settled := task :: lines.settled
    place := Function.update lines.place i .left }

/-- The moves of callers, each on its own key. -/
inductive Step (key : ι → κ) : Lines κ ι → Lines κ ι → Prop
  | join {lines : Lines κ ι} {i : ι} (waiting : lines.place i = .waiting) :
      Step key lines (lines.join (key i) i)
  | enter {lines : Lines κ ι} {i : ι} {previous task} (queued : lines.place i = .queued previous task)
      (settled : ∀ t ∈ previous, t ∈ lines.settled) : Step key lines (lines.enter i task)
  | leave {lines : Lines κ ι} {i : ι} {task} (inside : lines.place i = .inside task) :
      Step key lines (lines.leave (key i) i task)

/-! ## A caller arrives -/

section Join

theorem join_place_self : (lines.join k i).place i = .queued (lines.tail k) lines.next :=
  Function.update_self _ _ _

theorem join_place_of_ne (hj : j ≠ i) : (lines.join k i).place j = lines.place j :=
  Function.update_of_ne hj _ _

theorem join_tail_self : (lines.join k i).tail k = some lines.next :=
  Function.update_self _ _ _

theorem join_tail_of_ne {k' : κ} (hk : k' ≠ k) : (lines.join k i).tail k' = lines.tail k' :=
  Function.update_of_ne hk _ _

theorem join_arrivals_self : (lines.join k i).arrivals k = lines.arrivals k ++ [i] :=
  Function.update_self _ _ _

theorem join_arrivals_of_ne {k' : κ} (hk : k' ≠ k) :
    (lines.join k i).arrivals k' = lines.arrivals k' :=
  Function.update_of_ne hk _ _

/-- A task after the arrival is the new one or an old one. -/
theorem task_of_join (hj : ((lines.join k i).place j).task? = some t) :
    j = i ∧ t = lines.next ∨ (lines.place j).task? = some t := by
  by_cases hji : j = i
  · subst hji
    rw [join_place_self] at hj
    exact .inl ⟨rfl, (Option.some.inj hj).symm⟩
  · rw [join_place_of_ne hji] at hj
    exact .inr hj

theorem mem_join_arrivals {k' : κ} :
    j ∈ (lines.join k i).arrivals k' ↔ j ∈ lines.arrivals k' ∨ j = i ∧ k' = k := by
  by_cases hk : k' = k
  · subst hk
    simp [join_arrivals_self]
  · simp [join_arrivals_of_ne hk, hk]

/-- The last of an initial part of the arrivals is the new caller, or it arrived before. -/
theorem initial_of_join {k' : κ} (h : earlier ++ [j] <+: (lines.join k i).arrivals k') :
    earlier = lines.arrivals k' ∧ j = i ∧ k' = k ∨ earlier ++ [j] <+: lines.arrivals k' := by
  by_cases hk : k' = k
  · subst hk
    rw [join_arrivals_self] at h
    rcases List.prefix_concat_iff.mp h with heq | hold
    · obtain ⟨hearlier, hj⟩ := List.append_inj' heq rfl
      exact .inl ⟨hearlier, List.singleton_inj.mp hj, rfl⟩
    · exact .inr hold
  · rw [join_arrivals_of_ne hk] at h
    exact .inr h

theorem InOrder.join_task_inj {l : ι} (h : lines.InOrder key)
    (hi : ((lines.join k l).place i).task? = some t)
    (hj : ((lines.join k l).place j).task? = some t) : i = j := by
  rcases task_of_join hi with ⟨rfl, rfl⟩ | hold <;> rcases task_of_join hj with ⟨rfl, hnext⟩ | hold'
  · rfl
  · exact (h.task_lt hold').false.elim
  · exact (h.task_lt (hnext ▸ hold)).false.elim
  · exact h.task_inj hold hold'

theorem InOrder.join_arrived (h : lines.InOrder key) :
    (lines.join (key i) i).place j ≠ .waiting ↔ j ∈ (lines.join (key i) i).arrivals (key j) := by
  rw [mem_join_arrivals]
  by_cases hji : j = i
  · subst hji
    simp [join_place_self]
  · rw [join_place_of_ne hji, h.arrived]
    simp [hji]

theorem InOrder.join_tail_none (h : lines.InOrder key) (waiting : lines.place i = .waiting)
    (htail : (lines.join (key i) i).tail k = none) (hj : j ∈ (lines.join (key i) i).arrivals k) :
    (lines.join (key i) i).place j = .left := by
  by_cases hk : k = key i
  · subst hk
    rw [join_tail_self] at htail
    cases htail
  · rw [join_tail_of_ne hk] at htail
    rw [join_arrivals_of_ne hk] at hj
    rw [join_place_of_ne (h.ne_of_waiting waiting hj)]
    exact h.tail_none htail j hj

theorem InOrder.join_tail_some (h : lines.InOrder key) (waiting : lines.place i = .waiting)
    (htail : (lines.join (key i) i).tail k = some t) :
    ∃ earlier j, (lines.join (key i) i).arrivals k = earlier ++ [j] ∧
      ((lines.join (key i) i).place j).task? = some t := by
  by_cases hk : k = key i
  · subst hk
    rw [join_tail_self] at htail
    obtain rfl := Option.some.inj htail
    refine ⟨_, _, join_arrivals_self, ?_⟩
    rw [join_place_self]
    rfl
  · rw [join_tail_of_ne hk] at htail
    obtain ⟨earlier, j, hearlier, hj⟩ := h.tail_some htail
    have hmem : j ∈ lines.arrivals k := hearlier ▸ List.mem_append_right _ List.mem_cons_self
    refine ⟨earlier, j, ?_, ?_⟩
    · rw [join_arrivals_of_ne hk, hearlier]
    · rw [join_place_of_ne (h.ne_of_waiting waiting hmem), hj]

/-- The arriving caller is behind everybody who arrived on its key. -/
theorem InOrder.join_behind_self (h : lines.InOrder key) (waiting : lines.place i = .waiting) :
    (lines.join (key i) i).Behind (lines.arrivals (key i)) ((lines.join (key i) i).place i) := by
  rw [join_place_self]
  cases htail : lines.tail (key i) with
  | none =>
    intro j hj
    rw [join_place_of_ne (h.ne_of_waiting waiting hj)]
    exact h.tail_none htail j hj
  | some t =>
    obtain ⟨before, j, hbefore, hj⟩ := h.tail_some htail
    have hmem : j ∈ lines.arrivals (key i) :=
      hbefore ▸ List.mem_append_right _ List.mem_cons_self
    refine ⟨before, j, hbefore, .inr ?_⟩
    rwa [join_place_of_ne (h.ne_of_waiting waiting hmem)]

theorem InOrder.join_behind (h : lines.InOrder key) (waiting : lines.place i = .waiting)
    (hinitial : earlier ++ [j] <+: (lines.join (key i) i).arrivals k) :
    (lines.join (key i) i).Behind earlier ((lines.join (key i) i).place j) := by
  rcases initial_of_join hinitial with ⟨rfl, rfl, rfl⟩ | hold
  · exact h.join_behind_self waiting
  · have hplace : ∀ j' ∈ lines.arrivals k,
        (lines.join (key i) i).place j' = lines.place j' :=
      fun j' hj' ↦ join_place_of_ne (h.ne_of_waiting waiting hj')
    rw [hplace j (mem_arrivals_of_initial hold)]
    refine (h.behind hold).mono (fun j' hj' hleft ↦ ?_) fun j' hj' t ht ↦ ?_
    · rwa [hplace j' (mem_arrivals_of_earlier hold hj')]
    · rw [hplace j' (mem_arrivals_of_earlier hold hj')]
      exact .inr ht

theorem InOrder.join (h : lines.InOrder key) (waiting : lines.place i = .waiting) :
    (lines.join (key i) i).InOrder key := by
  constructor
  case settled_lt => exact fun t ht ↦ Nat.lt_succ_of_lt (h.settled_lt t ht)
  case task_lt =>
    intro j t hj
    rcases task_of_join hj with ⟨-, rfl⟩ | hold
    · exact Nat.lt_succ_self _
    · exact Nat.lt_succ_of_lt (h.task_lt hold)
  case not_settled =>
    intro j t hj hsettled
    rcases task_of_join hj with ⟨-, rfl⟩ | hold
    · exact (h.settled_lt _ hsettled).false
    · exact h.not_settled hold hsettled
  case task_inj => exact h.join_task_inj
  case key_of_mem =>
    intro k j hj
    rcases mem_join_arrivals.mp hj with hold | ⟨rfl, rfl⟩
    · exact h.key_of_mem hold
    · rfl
  case arrived => exact h.join_arrived
  case tail_none => exact fun htail j ↦ h.join_tail_none waiting htail
  case tail_some => exact h.join_tail_some waiting
  case behind => exact h.join_behind waiting

end Join

/-! ## A caller leaves -/

section Leave

theorem leave_place_self : (lines.leave k i t).place i = .left :=
  Function.update_self _ _ _

theorem leave_place_of_ne (hj : j ≠ i) : (lines.leave k i t).place j = lines.place j :=
  Function.update_of_ne hj _ _

theorem task_of_leave {p : ℕ} (hj : ((lines.leave k i t).place j).task? = some p) :
    j ≠ i ∧ (lines.place j).task? = some p := by
  by_cases hji : j = i
  · subst hji
    rw [leave_place_self] at hj
    cases hj
  · rw [leave_place_of_ne hji] at hj
    exact ⟨hji, hj⟩

theorem leave_place_of_left (hj : lines.place j = .left) :
    (lines.leave k i t).place j = .left := by
  by_cases hji : j = i
  · subst hji
    exact leave_place_self
  · rw [leave_place_of_ne hji, hj]

theorem task_leave {p : ℕ} (hj : (lines.place j).task? = some p) :
    (lines.leave k i t).place j = .left ∨ ((lines.leave k i t).place j).task? = some p := by
  by_cases hji : j = i
  · subst hji
    exact .inl leave_place_self
  · rw [leave_place_of_ne hji]
    exact .inr hj

/-- The tail of a line is dropped by the task it is. -/
theorem tail_of_leave_eq_none {k' : κ} (h : (lines.leave k i t).tail k' = none) :
    lines.tail k' = none ∨ k' = k ∧ lines.tail k = some t := by
  unfold leave at h
  split at h
  · next hlast =>
    by_cases hk : k' = k
    · exact .inr ⟨hk, hlast⟩
    · exact .inl ((Function.update_of_ne hk _ _).symm.trans h)
  · exact .inl h

theorem tail_of_leave_eq_some {k' : κ} {p : ℕ} (h : (lines.leave k i t).tail k' = some p) :
    lines.tail k' = some p ∧ (k' = k → p ≠ t) := by
  unfold leave at h
  split at h
  · by_cases hk : k' = k
    · subst hk
      exact nomatch (Function.update_self _ _ _).symm.trans h
    · exact ⟨(Function.update_of_ne hk _ _).symm.trans h, fun hk' ↦ (hk hk').elim⟩
  · next hlast =>
    refine ⟨h, ?_⟩
    rintro rfl rfl
    exact hlast h

theorem InOrder.leave_tail_none (h : lines.InOrder key) (inside : lines.place i = .inside t)
    (htail : (lines.leave (key i) i t).tail k = none) (hj : j ∈ lines.arrivals k) :
    (lines.leave (key i) i t).place j = .left := by
  rcases tail_of_leave_eq_none htail with hnone | ⟨rfl, hlast⟩
  · exact leave_place_of_left (h.tail_none hnone j hj)
  · have hholds : (lines.place i).task? = some t := by rw [inside]; rfl
    obtain ⟨earlier, last, hearlier, hlast⟩ := h.tail_some hlast
    obtain rfl := h.task_inj hlast hholds
    rw [hearlier] at hj
    rcases List.mem_append.mp hj with hj | hj
    · have hinitial : earlier ++ [last] <+: lines.arrivals (key last) := by rw [hearlier]
      exact leave_place_of_left (h.left_of_inside hinitial inside hj)
    · obtain rfl := List.mem_singleton.mp hj
      exact leave_place_self

theorem InOrder.leave_tail_some (h : lines.InOrder key) (inside : lines.place i = .inside t)
    {p : ℕ} (htail : (lines.leave (key i) i t).tail k = some p) :
    ∃ earlier j, lines.arrivals k = earlier ++ [j] ∧
      ((lines.leave (key i) i t).place j).task? = some p := by
  obtain ⟨hold, hother⟩ := tail_of_leave_eq_some htail
  obtain ⟨earlier, j, hearlier, hj⟩ := h.tail_some hold
  refine ⟨earlier, j, hearlier, ?_⟩
  have hji : j ≠ i := by
    rintro rfl
    have hk := h.key_of_mem (hearlier ▸ List.mem_append_right _ List.mem_cons_self)
    rw [inside] at hj
    exact hother hk.symm (Option.some.inj hj).symm
  rw [leave_place_of_ne hji, hj]

theorem InOrder.leave_behind (h : lines.InOrder key) (inside : lines.place i = .inside t)
    (hinitial : earlier ++ [j] <+: lines.arrivals k) :
    (lines.leave (key i) i t).Behind earlier ((lines.leave (key i) i t).place j) := by
  have hbehind := h.behind hinitial
  by_cases hji : j = i
  · subst hji
    rw [inside] at hbehind
    rw [leave_place_self]
    exact fun j' hj' ↦ leave_place_of_left (hbehind j' hj')
  · rw [leave_place_of_ne hji]
    exact hbehind.mono (fun j' _ ↦ leave_place_of_left) fun j' _ p ↦ task_leave

theorem InOrder.leave (h : lines.InOrder key) (inside : lines.place i = .inside t) :
    (lines.leave (key i) i t).InOrder key := by
  have hholds : (lines.place i).task? = some t := by rw [inside]; rfl
  constructor
  case settled_lt =>
    intro p hp
    rcases List.mem_cons.mp hp with rfl | hp
    · exact h.task_lt hholds
    · exact h.settled_lt p hp
  case task_lt => exact fun hj ↦ h.task_lt (task_of_leave hj).2
  case not_settled =>
    intro j p hj hsettled
    obtain ⟨hji, hold⟩ := task_of_leave hj
    rcases List.mem_cons.mp hsettled with rfl | hsettled
    · exact hji (h.task_inj hold hholds)
    · exact h.not_settled hold hsettled
  case task_inj => exact fun hj hj' ↦ h.task_inj (task_of_leave hj).2 (task_of_leave hj').2
  case key_of_mem => exact h.key_of_mem
  case arrived =>
    intro j
    by_cases hji : j = i
    · subst hji
      have harrived : j ∈ lines.arrivals (key j) := h.arrived.mp (by simp [inside])
      rw [leave_place_self]
      exact ⟨fun _ ↦ harrived, fun _ ↦ nofun⟩
    · rw [leave_place_of_ne hji]
      exact h.arrived
  case tail_none => exact fun htail j ↦ h.leave_tail_none inside htail
  case tail_some => exact h.leave_tail_some inside
  case behind => exact h.leave_behind inside

end Leave

/-- Every step keeps the lines in order. -/
theorem InOrder.step (h : lines.InOrder key) (step : Step key lines lines') :
    lines'.InOrder key := by
  cases step with
  | join waiting => exact h.join waiting
  | enter queued settled => exact h.enter queued settled
  | leave inside => exact h.leave inside

end Step

end Lines

end MemoFlowApi.Concurrency
