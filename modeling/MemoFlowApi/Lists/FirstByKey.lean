import Mathlib.Data.List.Induction
import Mathlib.Data.List.Sort

/-!
# The First Element of Each Key

A stream with repetitions is reduced to the first element of every key by testing each element
against the keys seen before.  The elements kept are determined by the stream, and by its elements
alone where equal keys mean equal elements; sorted by key, they form a strictly ascending list that
is determined by its members.
-/

namespace MemoFlowApi.Lists

variable {α κ : Type} [DecidableEq κ] (key : α → κ)

/-- The elements of a list whose key did not occur before them. -/
def firstByKey (l : List α) : List α :=
  l.foldl (fun kept a ↦ if key a ∈ kept.map key then kept else kept ++ [a]) []

@[simp]
theorem firstByKey_nil : firstByKey key [] = [] := rfl

/-- The keys kept are the keys seen. -/
theorem mem_map_firstByKey {l : List α} {k : κ} : k ∈ (firstByKey key l).map key ↔ k ∈ l.map key := by
  induction l using List.reverseRecOn with
  | nil => rfl
  | append_singleton l a ih =>
    rw [firstByKey, List.foldl_concat, ← firstByKey]
    split
    · next hseen =>
      rw [List.map_append, List.mem_append, ih]
      refine ⟨.inl, ?_⟩
      rintro (hk | hk)
      · exact hk
      · obtain rfl := List.mem_singleton.mp hk
        exact ih.mp hseen
    · rw [List.map_append, List.map_append, List.mem_append, List.mem_append, ih]

theorem firstByKey_concat_of_mem {l : List α} {a : α} (h : key a ∈ l.map key) :
    firstByKey key (l ++ [a]) = firstByKey key l := by
  rw [firstByKey, List.foldl_concat, ← firstByKey, if_pos ((mem_map_firstByKey key).mpr h)]

theorem firstByKey_concat_of_not_mem {l : List α} {a : α} (h : key a ∉ l.map key) :
    firstByKey key (l ++ [a]) = firstByKey key l ++ [a] := by
  rw [firstByKey, List.foldl_concat, ← firstByKey,
    if_neg fun hseen ↦ h ((mem_map_firstByKey key).mp hseen)]

/-- A list in which no key repeats keeps all its elements. -/
theorem firstByKey_of_nodup {l : List α} (h : (l.map key).Nodup) : firstByKey key l = l := by
  induction l using List.reverseRecOn with
  | nil => rfl
  | append_singleton l a ih =>
    rw [List.map_append, List.map_singleton, List.nodup_append] at h
    obtain ⟨hl, -, hdisjoint⟩ := h
    rw [firstByKey_concat_of_not_mem key fun hmem ↦
      hdisjoint _ hmem _ (List.mem_singleton_self _) rfl, ih hl]

/-- Every key is kept once. -/
theorem nodup_map_firstByKey (l : List α) : ((firstByKey key l).map key).Nodup := by
  induction l using List.reverseRecOn with
  | nil => exact List.nodup_nil
  | append_singleton l a ih =>
    by_cases hseen : key a ∈ l.map key
    · rwa [firstByKey_concat_of_mem key hseen]
    · rw [firstByKey_concat_of_not_mem key hseen, List.map_append, List.map_singleton]
      refine ih.append (List.nodup_singleton _) ?_
      rw [List.disjoint_singleton, mem_map_firstByKey]
      exact hseen

/-- An element is kept where it occurs with no element of its key before it. -/
theorem mem_firstByKey {l : List α} {a : α} :
    a ∈ firstByKey key l ↔ ∃ before after, l = before ++ a :: after ∧ key a ∉ before.map key := by
  induction l using List.reverseRecOn with
  | nil => simp
  | append_singleton l b ih =>
    have hsplit : (∃ before after, l ++ [b] = before ++ a :: after ∧ key a ∉ before.map key) ↔
        (∃ before after, l = before ++ a :: after ∧ key a ∉ before.map key) ∨
          a = b ∧ key b ∉ l.map key := by
      constructor
      · rintro ⟨before, after, heq, hbefore⟩
        rcases List.eq_nil_or_concat after with rfl | ⟨after, c, rfl⟩
        · obtain ⟨rfl, hab⟩ := List.append_inj' heq rfl
          obtain rfl := List.singleton_inj.mp hab
          exact .inr ⟨rfl, hbefore⟩
        · have heq' : l ++ [b] = (before ++ a :: after) ++ [c] := by simpa using heq
          exact .inl ⟨before, after, (List.append_inj' heq' rfl).1, hbefore⟩
      · rintro (⟨before, after, rfl, hbefore⟩ | ⟨rfl, hseen⟩)
        · exact ⟨before, after ++ [b], by simp, hbefore⟩
        · exact ⟨l, [], rfl, hseen⟩
    rw [hsplit, ← ih]
    by_cases hseen : key b ∈ l.map key
    · rw [firstByKey_concat_of_mem key hseen]
      simp [hseen]
    · rw [firstByKey_concat_of_not_mem key hseen, List.mem_append, List.mem_singleton]
      simp [hseen]

theorem mem_of_mem_firstByKey {l : List α} {a : α} (h : a ∈ firstByKey key l) : a ∈ l := by
  obtain ⟨before, after, rfl, -⟩ := (mem_firstByKey key).mp h
  exact List.mem_append_right _ List.mem_cons_self

/-- Where equal keys mean equal elements, the elements kept are the elements. -/
theorem mem_firstByKey_of_injOn {l : List α} {a : α}
    (h : ∀ a ∈ l, ∀ b ∈ l, key a = key b → a = b) : a ∈ firstByKey key l ↔ a ∈ l := by
  induction l using List.reverseRecOn with
  | nil => rfl
  | append_singleton l b ih =>
    have hl : a ∈ firstByKey key l ↔ a ∈ l :=
      ih fun c hc d hd ↦ h c (List.mem_append_left _ hc) d (List.mem_append_left _ hd)
    by_cases hseen : key b ∈ l.map key
    · obtain ⟨c, hc, hcb⟩ := List.mem_map.mp hseen
      obtain rfl : c = b := h c (List.mem_append_left _ hc) b
        (List.mem_append_right _ List.mem_cons_self) hcb
      rw [firstByKey_concat_of_mem key hseen, hl, List.mem_append, List.mem_singleton]
      exact ⟨.inl, fun hmem ↦ hmem.elim id fun hac ↦ hac ▸ hc⟩
    · rw [firstByKey_concat_of_not_mem key hseen, List.mem_append, List.mem_append, hl]

/-! ## Lists sorted by key -/

/-- Keys that a partial map keeps stay without repetition. -/
theorem nodup_map_filterMap {β γ κ : Type} {key : γ → κ} {key' : β → κ} {f : γ → Option β}
    (hf : ∀ a b, f a = some b → key' b = key a) {l : List γ} (h : (l.map key).Nodup) :
    ((l.filterMap f).map key').Nodup := by
  have hsub : ((l.filterMap f).map key').Sublist (l.map key) := by
    clear h
    induction l with
    | nil => exact List.Sublist.refl _
    | cons a l ih =>
      cases hfa : f a with
      | none =>
        rw [List.filterMap_cons_none hfa]
        exact ih.cons _
      | some b =>
        rw [List.filterMap_cons_some hfa, List.map_cons, List.map_cons, hf a b hfa]
        exact ih.cons_cons _
  exact h.sublist hsub

section Sorted

variable {β κ : Type} [LinearOrder κ]

/-- Sorting a list without repeated keys makes it strictly ascending. -/
theorem pairwise_lt_mergeSort (key : β → κ) {l : List β} (h : (l.map key).Nodup) :
    (l.mergeSort fun a b ↦ key a ≤ key b).Pairwise fun a b ↦ key a < key b := by
  have hle : (l.mergeSort fun a b ↦ key a ≤ key b).Pairwise fun a b ↦ key a ≤ key b := by
    have hsorted : (l.mergeSort fun a b ↦ key a ≤ key b).Pairwise
        fun a b ↦ decide (key a ≤ key b) = true := by
      refine List.pairwise_mergeSort (fun a b c hab hbc ↦ ?_) (fun a b ↦ ?_) l
      · exact decide_eq_true ((of_decide_eq_true hab).trans (of_decide_eq_true hbc))
      · simpa using le_total (key a) (key b)
    simpa using hsorted
  have hne : (l.mergeSort fun a b ↦ key a ≤ key b).Pairwise fun a b ↦ key a ≠ key b := by
    rw [← List.pairwise_map]
    exact ((List.mergeSort_perm l _).map key).nodup_iff.mpr h
  exact hle.imp₂ (fun a b hab hne ↦ lt_of_le_of_ne hab hne) hne

/-- Strictly ascending lists with the same members are equal. -/
theorem eq_of_pairwise_lt (key : β → κ) {l l' : List β} (h : l.Pairwise fun a b ↦ key a < key b)
    (h' : l'.Pairwise fun a b ↦ key a < key b) (hmem : ∀ a, a ∈ l ↔ a ∈ l') : l = l' := by
  have hperm : l.Perm l' := by
    refine (List.perm_ext_iff_of_nodup ?_ ?_).mpr hmem
    · exact h.imp fun hab heq ↦ (heq ▸ hab).false
    · exact h'.imp fun hab heq ↦ (heq ▸ hab).false
  exact hperm.eq_of_pairwise (fun a b _ _ hab hba ↦ (hab.trans hba).false.elim) h h'

end Sorted

end MemoFlowApi.Lists
