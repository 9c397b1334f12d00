import Mathlib.Data.Prod.Lex
import Mathlib.Order.WithBot
import MemoFlowApi.Lists.FirstByKey

/-!
# Queries

The meaning of conditions with nulls, and of `ORDER BY`.  A null is `none`; a condition is true,
false or null, and `WHERE` keeps the rows for which it is true.
-/

namespace MemoFlowApi.Sql

variable {α κ : Type}

/-! ## Conditions -/

section Conditions

variable [DecidableEq α]

/-- `a = b`. -/
def eq : Option α → Option α → Option Bool
  | some a, some b => some (a = b)
  | _, _ => none

/-- `a IS DISTINCT FROM b`. -/
def isDistinctFrom (a b : Option α) : Option Bool := some (a ≠ b)

/-- `a AND b`. -/
def and : Option Bool → Option Bool → Option Bool
  | some false, _ => some false
  | _, some false => some false
  | some true, b => b
  | a, some true => a
  | none, none => none

/-- `a IS NULL`. -/
def isNull (a : Option α) : Option Bool := some a.isNone

/-- `a IS NOT NULL`. -/
def isNotNull (a : Option α) : Option Bool := some a.isSome

/-- `COALESCE(a, b)`. -/
def coalesce (a : Option α) (b : α) : Option α := some (a.getD b)

/-- The rows for which a condition is true. -/
def filter {β : Type} (condition : β → Option Bool) (rows : List β) : List β :=
  rows.filter fun row ↦ condition row = some true

@[simp]
theorem mem_filter {β : Type} {condition : β → Option Bool} {rows : List β} {row : β} :
    row ∈ filter condition rows ↔ row ∈ rows ∧ condition row = some true := by
  unfold filter
  rw [List.mem_filter, decide_eq_true_eq]

@[simp]
theorem eq_eq_true {a b : Option α} : eq a b = some true ↔ a = b ∧ a ≠ none := by
  cases a <;> cases b <;> simp [eq]

@[simp]
theorem isDistinctFrom_eq_true {a b : Option α} : isDistinctFrom a b = some true ↔ a ≠ b := by
  unfold isDistinctFrom
  simp

omit [DecidableEq α] in
@[simp]
theorem isNull_eq_true {a : Option α} : isNull a = some true ↔ a = none := by
  unfold isNull
  simp

omit [DecidableEq α] in
@[simp]
theorem isNotNull_eq {a : Option α} {b : Bool} : isNotNull a = some b ↔ a.isSome = b := by
  unfold isNotNull
  simp

@[simp]
theorem and_eq_true {a b : Option Bool} : and a b = some true ↔ a = some true ∧ b = some true := by
  cases a with
  | none => cases b with
    | none => simp [and]
    | some b => cases b <;> simp [and]
  | some a => cases a <;> cases b with
    | none => simp [and]
    | some b => cases b <;> simp [and]

end Conditions

/-! ## Order -/

section Order

/-- `key DESC`. -/
abbrev desc (key : κ) : κᵒᵈ := OrderDual.toDual key

/-- `key DESC`, where nulls come first. -/
def descNullsFirst : Option κ → (WithTop κ)ᵒᵈ
  | none => OrderDual.toDual ⊤
  | some key => OrderDual.toDual key

/-- `key DESC NULLS LAST`. -/
def descNullsLast : Option κ → WithTop κᵒᵈ
  | none => ⊤
  | some key => (OrderDual.toDual key : κᵒᵈ)

/-- `key ASC NULLS LAST`. -/
def ascNullsLast : Option κ → WithTop κ
  | none => ⊤
  | some key => key

variable [LinearOrder κ]

/-- `ORDER BY key`. -/
def orderBy (key : α → κ) (rows : List α) : List α := rows.mergeSort fun a b ↦ key a ≤ key b

theorem orderBy_perm (key : α → κ) (rows : List α) : (orderBy key rows).Perm rows :=
  List.mergeSort_perm rows _

@[simp]
theorem mem_orderBy {key : α → κ} {rows : List α} {row : α} :
    row ∈ orderBy key rows ↔ row ∈ rows := (orderBy_perm key rows).mem_iff

/-- A row of a smallest key that no other row has comes first. -/
theorem head?_orderBy {key : α → κ} {rows : List α} {row : α} (nodup : (rows.map key).Nodup)
    (hrow : row ∈ rows) (least : ∀ other ∈ rows, key row ≤ key other) :
    (orderBy key rows).head? = some row := by
  have hsorted := Lists.pairwise_lt_mergeSort key nodup
  have hmem : row ∈ orderBy key rows := mem_orderBy.mpr hrow
  cases h : orderBy key rows with
  | nil =>
    rw [h] at hmem
    exact (List.not_mem_nil hmem).elim
  | cons first rest =>
    have hfirst : first ∈ rows := mem_orderBy.mp (h ▸ List.mem_cons_self)
    rw [h] at hmem
    rcases List.mem_cons.mp hmem with rfl | hrest
    · rfl
    · have hlt : key first < key row := by
        have hpairs : (first :: rest).Pairwise fun a b ↦ key a < key b := h ▸ hsorted
        exact (List.pairwise_cons.mp hpairs).1 row hrest
      exact (hlt.not_ge (least first hfirst)).elim

/-- The order of the rows is determined by the rows, where no two have the same key. -/
theorem orderBy_congr {key : α → κ} {rows rows' : List α} (nodup : (rows.map key).Nodup)
    (nodup' : (rows'.map key).Nodup) (same : ∀ row, row ∈ rows ↔ row ∈ rows') :
    orderBy key rows = orderBy key rows' := by
  refine Lists.eq_of_pairwise_lt key (Lists.pairwise_lt_mergeSort key nodup)
    (Lists.pairwise_lt_mergeSort key nodup') fun row ↦ ?_
  exact mem_orderBy.trans ((same row).trans mem_orderBy.symm)

omit [LinearOrder κ] in
/-- Keys that tell other keys apart are distinct where those are. -/
theorem nodup_of_determines {β : Type} {key : α → κ} {id : α → β} {rows : List α} (f : κ → β)
    (h : ∀ row, f (key row) = id row) (nodup : (rows.map id).Nodup) : (rows.map key).Nodup := by
  have hmap : (rows.map key).map f = rows.map id := by
    rw [List.map_map]
    exact List.map_congr_left fun row _ ↦ h row
  rw [← hmap] at nodup
  exact nodup.of_map f

end Order

/-! ## Joins -/

section Joins

variable {β : Type}

/-- `left LEFT JOIN right ON …`. -/
def leftJoin (left : List α) (right : List β) (on : α → β → Bool) : List (α × Option β) :=
  left.flatMap fun a ↦ match right.filter (on a) with
    | [] => [(a, none)]
    | b :: rest => (b :: rest).map fun b ↦ (a, some b)

/-- Rows of a key are one row at most, where the key is unique. -/
theorem filter_eq_toList_find? [DecidableEq κ] {key : β → κ} {right : List β}
    (nodup : (right.map key).Nodup) (k : κ) :
    right.filter (fun b ↦ key b = k) = (right.find? fun b ↦ key b = k).toList := by
  induction right with
  | nil => rfl
  | cons b right ih =>
    rw [List.map_cons, List.nodup_cons] at nodup
    by_cases hb : key b = k
    · have hrest : right.filter (fun b ↦ key b = k) = [] := by
        refine List.filter_eq_nil_iff.mpr fun other hother hkey ↦ nodup.1 ?_
        rw [hb, ← of_decide_eq_true hkey]
        exact List.mem_map_of_mem hother
      simp [hb, hrest]
    · simp [hb, ih nodup.2]

/-- Joining on a unique key keeps the rows and looks each key up. -/
theorem leftJoin_eq_map [DecidableEq κ] {key : β → κ} {left : List α} {right : List β} {of : α → κ}
    (nodup : (right.map key).Nodup) :
    leftJoin left right (fun a b ↦ key b = of a) =
      left.map fun a ↦ (a, right.find? fun b ↦ key b = of a) := by
  unfold leftJoin
  induction left with
  | nil => rfl
  | cons a left ih =>
    rw [List.flatMap_cons, List.map_cons, ih, filter_eq_toList_find? nodup]
    cases right.find? fun b ↦ key b = of a with
    | none => rfl
    | some b => rfl

end Joins

/-! ## Windows -/

/-- `LIMIT limit OFFSET offset`. -/
def window (limit offset : ℕ) (rows : List α) : List α := (rows.drop offset).take limit

theorem map_window {β : Type} (f : α → β) (limit offset : ℕ) (rows : List α) :
    (window limit offset rows).map f = window limit offset (rows.map f) := by
  unfold window
  rw [List.map_take, List.map_drop]

/-- Windows side by side. -/
theorem flatMap_window (limit count : ℕ) (rows : List α) :
    (List.range count).flatMap (fun n ↦ window limit (n * limit) rows) = rows.take (count * limit) := by
  induction count with
  | zero => simp
  | succ count ih =>
    calc
      _ = rows.take (count * limit) ++ window limit (count * limit) rows := by
        rw [List.range_succ, List.flatMap_append, ih, List.flatMap_singleton]
      _ = rows.take (count * limit + limit) := List.take_add.symm
      _ = _ := by rw [Nat.succ_mul]

end MemoFlowApi.Sql
