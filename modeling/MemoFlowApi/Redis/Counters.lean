import Mathlib.Data.List.AList
import Mathlib.Algebra.BigOperators.Group.List.Basic
import Mathlib.Algebra.GroupWithZero.Nat

/-!
# Counters with an Expiry

The commands of Redis on integer counters: a counter is created by its first increment, and it is
deleted when its expiry has come.  Each command alters one key, and the sum of the counters of a
class changes by what the altered key contributes (`total_eq`, `erase_alter`).
-/

namespace MemoFlowApi.Redis

/-- A counter and the unix second of its expiry. -/
structure Counter where
  value : ℕ
  expireAt : Option ℕ
  deriving DecidableEq

/-- The counters by their keys. -/
abbrev Counters := AList fun _ : String ↦ Counter

/-- A counter is there until its expiry; times are in milliseconds. -/
def Counter.Alive (counter : Counter) (time : ℕ) : Bool :=
  match counter.expireAt with
  | none => true
  | some seconds => time < 1000 * seconds

namespace Counters

variable (counters : Counters)

/-- Change, create or delete the counter of a key. -/
def alter (key : String) (f : Option Counter → Option Counter) : Counters :=
  match f (counters.lookup key) with
  | some counter => counters.insert key counter
  | none => counters.erase key

/-- The counters that are left at a time. -/
def purge (time : ℕ) : Counters where
  entries := counters.entries.filter fun entry ↦ entry.2.Alive time
  nodupKeys := counters.nodupKeys.sublist List.filter_sublist

/-- `GET`, where an absent counter counts as zero. -/
def get (key : String) : ℕ := ((counters.lookup key).map (·.value)).getD 0

/-- `INCR`. -/
def incr (key : String) : Counters :=
  counters.alter key fun counter ↦
    some ⟨(counter.map (·.value)).getD 0 + 1, counter.bind (·.expireAt)⟩

/-- `EXPIREAT`: an expiry in the past deletes the counter at once. -/
def expireAt (time : ℕ) (key : String) (seconds : ℕ) : Counters :=
  counters.alter key fun counter ↦
    if 1000 * seconds ≤ time then none
    else counter.map fun counter ↦ { counter with expireAt := some seconds }

/-- The sum of the counters of a class of keys. -/
def total (p : String → Bool) : ℕ :=
  ((counters.entries.filter fun entry ↦ p entry.1).map fun entry ↦ entry.2.value).sum

variable {counters} {key other : String} {f : Option Counter → Option Counter}

@[simp]
theorem lookup_alter : (counters.alter key f).lookup key = f (counters.lookup key) := by
  unfold alter
  cases hf : f (counters.lookup key) with
  | none => exact AList.lookup_erase key counters
  | some counter => exact AList.lookup_insert counters

theorem lookup_alter_ne (h : other ≠ key) :
    (counters.alter key f).lookup other = counters.lookup other := by
  unfold alter
  cases f (counters.lookup key) with
  | none => exact AList.lookup_erase_ne h
  | some counter => exact AList.lookup_insert_ne h

/-- The sum over a class is that of the other keys and what one key contributes. -/
theorem total_eq (counters : Counters) (p : String → Bool) (key : String) :
    counters.total p = total (counters.erase key) p + if p key then counters.get key else 0 := by
  unfold total get
  by_cases hmem : key ∈ counters
  · obtain ⟨counter, before, behind, -, hentries, herase⟩ :=
      List.exists_of_kerase (AList.mem_keys.mp hmem)
    have hlookup : counters.lookup key = some counter := by
      refine AList.mem_lookup_iff.mpr ?_
      rw [hentries]
      exact List.mem_append_right _ List.mem_cons_self
    have hrest : (AList.erase key counters).entries = before ++ behind := herase
    rw [hlookup, hrest, hentries]
    cases hp : p key with
    | true => simp [hp, Nat.add_comm, Nat.add_left_comm]
    | false => simp [hp]
  · have hlookup : counters.lookup key = none := AList.lookup_eq_none.mpr hmem
    have hrest : (AList.erase key counters).entries = counters.entries :=
      List.kerase_of_notMem_keys hmem
    rw [hlookup, hrest]
    simp

theorem erase_alter : AList.erase key (counters.alter key f) = AList.erase key counters := by
  unfold alter
  cases f (counters.lookup key) with
  | none =>
    refine AList.ext ?_
    exact List.kerase_of_notMem_keys (AList.lookup_eq_none.mp (AList.lookup_erase key counters))
  | some counter =>
    refine AList.ext ?_
    exact List.kerase_cons_eq rfl

/-- Counters that agree on every key have the same sums. -/
theorem total_congr {other : Counters} (same : ∀ key, counters.lookup key = other.lookup key)
    (p : String → Bool) : counters.total p = other.total p := by
  have hperm : counters.entries.Perm other.entries := by
    refine List.lookup_ext counters.nodupKeys other.nodupKeys fun key counter ↦ ?_
    change counter ∈ counters.lookup key ↔ counter ∈ other.lookup key
    rw [same]
  unfold total
  exact ((hperm.filter _).map _).sum_eq

/-! ## Commands -/

variable {time seconds : ℕ}

theorem lookup_incr : (counters.incr key).lookup key =
    some ⟨counters.get key + 1, (counters.lookup key).bind (·.expireAt)⟩ := lookup_alter

theorem lookup_incr_ne (h : other ≠ key) :
    (counters.incr key).lookup other = counters.lookup other := lookup_alter_ne h

theorem get_incr : (counters.incr key).get key = counters.get key + 1 := by
  unfold get
  rw [lookup_incr]
  rfl

theorem lookup_expireAt (h : time < 1000 * seconds) : (counters.expireAt time key seconds).lookup key =
    (counters.lookup key).map fun counter ↦ { counter with expireAt := some seconds } := by
  unfold expireAt
  rw [lookup_alter, if_neg (not_le.mpr h)]

theorem lookup_expireAt_ne (h : other ≠ key) :
    (counters.expireAt time key seconds).lookup other = counters.lookup other := lookup_alter_ne h

theorem get_expireAt (h : time < 1000 * seconds) :
    (counters.expireAt time key seconds).get key = counters.get key := by
  unfold get
  rw [lookup_expireAt h, Option.map_map]
  rfl

theorem lookup_expireAt_past (h : 1000 * seconds ≤ time) :
    (counters.expireAt time key seconds).lookup key = none := by
  unfold expireAt
  rw [lookup_alter, if_pos h]

theorem total_incr (p : String → Bool) :
    (counters.incr key).total p = counters.total p + if p key then 1 else 0 := by
  have hrest : AList.erase key (counters.incr key) = AList.erase key counters := erase_alter
  rw [total_eq _ p key, hrest, get_incr, total_eq counters p key]
  split <;> omega

theorem total_expireAt (h : time < 1000 * seconds) (p : String → Bool) :
    (counters.expireAt time key seconds).total p = counters.total p := by
  have hrest : AList.erase key (counters.expireAt time key seconds) = AList.erase key counters :=
    erase_alter
  rw [total_eq _ p key, hrest, get_expireAt h, total_eq counters p key]

/-! ## The passage of time -/

theorem lookup_purge :
    (counters.purge time).lookup key = (counters.lookup key).filter fun counter ↦
      counter.Alive time := by
  have hpurge : ∀ counter, (counters.purge time).lookup key = some counter ↔
      counters.lookup key = some counter ∧ counter.Alive time = true := by
    intro counter
    have hleft : ((counters.purge time).lookup key = some counter ↔ _) := AList.mem_lookup_iff
    have hright : (counters.lookup key = some counter ↔ _) := AList.mem_lookup_iff
    rw [hleft, hright]
    exact List.mem_filter
  refine Option.ext fun counter ↦ ?_
  rw [hpurge, Option.filter_eq_some_iff]

/-- Counters of a class that all are still alive keep their sum. -/
theorem total_purge_of_alive {p : String → Bool}
    (alive : ∀ key counter, counters.lookup key = some counter → p key = true →
      counter.Alive time = true) : (counters.purge time).total p = counters.total p := by
  unfold total purge
  rw [List.filter_filter]
  congr 2
  refine List.filter_congr fun entry hentry ↦ ?_
  have hlookup : counters.lookup entry.1 = some entry.2 := AList.mem_lookup_iff.mpr hentry
  cases hp : p entry.1 with
  | false => rfl
  | true => rw [alive _ _ hlookup hp, Bool.and_true]

theorem total_purge_of_expired {p : String → Bool}
    (expired : ∀ key counter, counters.lookup key = some counter → p key = true →
      counter.Alive time = false) : (counters.purge time).total p = 0 := by
  unfold total purge
  rw [List.filter_filter, List.filter_eq_nil_iff.mpr]
  · rfl
  · intro entry hentry
    have hlookup : counters.lookup entry.1 = some entry.2 := AList.mem_lookup_iff.mpr hentry
    cases hp : p entry.1 with
    | false => simp
    | true => simp [expired _ _ hlookup hp]

end Counters

end MemoFlowApi.Redis
