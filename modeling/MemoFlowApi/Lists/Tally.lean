import Mathlib.Algebra.GroupWithZero.Nat
import Mathlib.Algebra.BigOperators.Group.List.Lemmas
import Mathlib.Data.List.Count
import Mathlib.Data.List.Dedup
import Mathlib.Data.List.Induction

/-!
# Counts by Key

A record of counts starts at zero for every key of a fixed list and is incremented key by key.  What
results are the numbers of occurrences, which are all that matters of the order of the increments.
-/

namespace MemoFlowApi.Lists

variable {κ : Type}

/-- Counts with their keys, in the order of the keys. -/
abbrev Counts (κ : Type) := List (κ × ℕ)

namespace Counts

/-- The sum of all counts. -/
def total (counts : Counts κ) : ℕ := (counts.map (·.2)).sum

/-- Counts of the same keys, added key by key. -/
def add (a b : Counts κ) : Counts κ := List.zipWith (fun x y ↦ (x.1, x.2 + y.2)) a b

end Counts

def zeroFilled (keys : List κ) : Counts κ := keys.map fun key ↦ (key, 0)

variable [DecidableEq κ]

def increment (counts : Counts κ) (key : κ) : Counts κ :=
  counts.map fun entry ↦ if entry.1 = key then (entry.1, entry.2 + 1) else entry

/-- The number of occurrences of each key. -/
def tally (keys occurrences : List κ) : Counts κ := keys.map fun key ↦ (key, occurrences.count key)

variable {keys occurrences : List κ}

@[simp]
theorem map_fst_tally (keys occurrences : List κ) : (tally keys occurrences).map (·.1) = keys := by
  unfold tally
  rw [List.map_map]
  exact List.map_id keys

theorem increment_tally (keys occurrences : List κ) (key : κ) :
    increment (tally keys occurrences) key = tally keys (occurrences ++ [key]) := by
  unfold increment tally
  rw [List.map_map]
  refine List.map_congr_left fun other _ ↦ ?_
  rw [List.count_append, List.count_singleton]
  by_cases h : other = key
  · subst h
    simp
  · simp [h, Ne.symm h]

/-- Increments one after the other count what they are for. -/
theorem foldl_increment (keys occurrences more : List κ) :
    more.foldl increment (tally keys occurrences) = tally keys (occurrences ++ more) := by
  induction more generalizing occurrences with
  | nil => rw [List.append_nil, List.foldl_nil]
  | cons key more ih =>
    calc
      _ = more.foldl increment (tally keys (occurrences ++ [key])) := by
        rw [List.foldl_cons, increment_tally]
      _ = tally keys (occurrences ++ [key] ++ more) := ih _
      _ = _ := by rw [List.append_assoc, List.singleton_append]

theorem tally_append (keys occurrences more : List κ) :
    tally keys (occurrences ++ more) = (tally keys occurrences).add (tally keys more) := by
  unfold tally Counts.add
  rw [List.zipWith_map, List.zipWith_self]
  simp only [List.count_append]

theorem tally_perm {occurrences' : List κ} (h : occurrences.Perm occurrences') :
    tally keys occurrences = tally keys occurrences' :=
  List.map_congr_left fun key _ ↦ by rw [h.count_eq]

theorem sum_indicator (keys : List κ) (key : κ) :
    (keys.map fun other ↦ if other = key then 1 else 0).sum = keys.count key := by
  induction keys with
  | nil => rfl
  | cons other keys ih =>
    calc
      _ = (if other = key then 1 else 0) + keys.count key := by rw [List.map_cons, List.sum_cons, ih]
      _ = keys.count key + if other = key then 1 else 0 := Nat.add_comm _ _
      _ = _ := by simp only [List.count_cons, beq_iff_eq]

/-- Occurrences of the keys are counted once each. -/
theorem total_tally (nodup : keys.Nodup) (h : ∀ key ∈ occurrences, key ∈ keys) :
    (tally keys occurrences).total = occurrences.length := by
  unfold tally Counts.total
  rw [List.map_map]
  induction occurrences with
  | nil => simp [Function.comp_def]
  | cons key occurrences ih =>
    have hkey : key ∈ keys := h key List.mem_cons_self
    have hcount (other : κ) : (key :: occurrences).count other =
        occurrences.count other + if other = key then 1 else 0 := by
      rw [List.count_cons]
      by_cases hother : other = key
      · simp [hother]
      · simp [hother, Ne.symm hother]
    have hone : (keys.map fun other ↦ if other = key then 1 else 0).sum = 1 := by
      rw [sum_indicator, List.count_eq_one_of_mem nodup hkey]
    have hrest := ih fun other hother ↦ h other (List.mem_cons_of_mem _ hother)
    simp only [Function.comp_def, hcount, List.sum_map_add, List.length_cons] at hrest ⊢
    rw [hrest, hone]

/-- Where each of some groups names a key at most once, a key occurs at most once for each group. -/
theorem count_flatMap_le {α : Type} {f : α → List κ} {groups : List α}
    (nodup : ∀ group ∈ groups, (f group).Nodup) (key : κ) :
    (groups.flatMap f).count key ≤ groups.length := by
  induction groups with
  | nil => simp
  | cons group groups ih =>
    have hfirst := List.nodup_iff_count_le_one.mp (nodup group List.mem_cons_self) key
    have hrest := ih fun other hother ↦ nodup other (List.mem_cons_of_mem _ hother)
    rw [List.flatMap_cons, List.count_append, List.length_cons]
    omega

end MemoFlowApi.Lists
