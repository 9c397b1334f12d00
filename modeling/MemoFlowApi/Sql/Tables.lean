import Mathlib.Data.List.Basic
import Mathlib.Data.List.Nodup

/-!
# Tables under Read Committed

Rows are addressed by keys.  A transaction sees the committed rows with its own writes over them,
and it writes a row only while it holds a lock that no other transaction may write under.  Locks are
released when the transaction ends, by a commit that makes its writes visible or by a rollback that
drops them.  A row whose lock a transaction holds is therefore changed by nobody else
(`Tables.committed_commit_of_writes`).
-/

namespace MemoFlowApi.Sql

/-! ## Locks -/

/-- The strength of a row lock: of a foreign key check, of an `UPDATE` that leaves the key alone, and
of `SELECT … FOR UPDATE` and `DELETE`. -/
inductive LockMode where
  | keyShare
  | noKeyUpdate
  | update
  deriving DecidableEq

namespace LockMode

def conflicts : LockMode → LockMode → Bool
  | keyShare, keyShare | keyShare, noKeyUpdate | noKeyUpdate, keyShare => false
  | _, _ => true

/-- A row may be written under the lock. -/
def writes : LockMode → Bool
  | keyShare => false
  | noKeyUpdate | update => true

theorem writes_update : update.writes = true := rfl

theorem writes_noKeyUpdate : noKeyUpdate.writes = true := rfl

theorem conflicts_of_writes {a b : LockMode} (ha : a.writes = true) (hb : b.writes = true) :
    a.conflicts b = true := by
  cases a with
  | keyShare => cases ha
  | noKeyUpdate =>
    cases b with
    | keyShare => cases hb
    | _ => rfl
  | update => cases b <;> rfl

/-- A row that is locked in any way is not deleted by others. -/
theorem conflicts_update (a : LockMode) : a.conflicts update = true := by
  cases a <;> rfl

theorem conflicts_comm (a b : LockMode) : a.conflicts b = b.conflicts a := by
  cases a <;> cases b <;> rfl

end LockMode

structure Lock (ι κ : Type) where
  holder : ι
  key : κ
  mode : LockMode
  deriving DecidableEq

/-! ## Tables -/

variable {ι κ : Type} {ρ : κ → Type}

/-- Rows by their keys, the writes of open transactions and their locks. -/
structure Tables (ι κ : Type) (ρ : κ → Type) where
  /-- The keys that rows have had, or were to have. -/
  keys : List κ
  committed : (key : κ) → Option (ρ key)
  pending : ι → (key : κ) → Option (Option (ρ key))
  locks : List (Lock ι κ)
  known : ∀ key, key ∉ keys → committed key = none ∧ ∀ i, pending i key = none
  written : ∀ i key, pending i key ≠ none →
    ∃ lock ∈ locks, lock.holder = i ∧ lock.key = key ∧ lock.mode.writes = true
  exclusive : ∀ lock ∈ locks, ∀ other ∈ locks, lock.key = other.key → lock.holder ≠ other.holder →
    lock.mode.conflicts other.mode = false

namespace Tables

/-- Tables without an open transaction. -/
def ofRows (keys : List κ) (rows : (key : κ) → Option (ρ key))
    (known : ∀ key, key ∉ keys → rows key = none) : Tables ι κ ρ where
  keys := keys
  committed := rows
  pending _ _ := none
  locks := []
  known key h := ⟨known key h, fun _ ↦ rfl⟩
  written _ _ h := (h rfl).elim
  exclusive _ h := by cases h

variable (tables : Tables ι κ ρ)

/-- The rows that a transaction sees. -/
def view (i : ι) (key : κ) : Option (ρ key) := (tables.pending i key).getD (tables.committed key)

/-- The keys of the rows that a condition of a transaction selects. -/
def scan (i : ι) (p : (key : κ) → ρ key → Bool) : List κ :=
  tables.keys.filter fun key ↦ (tables.view i key).any (p key)

/-- A transaction holds a lock under which it may write a row. -/
def Writes (i : ι) (key : κ) : Prop :=
  ∃ lock ∈ tables.locks, lock.holder = i ∧ lock.key = key ∧ lock.mode.writes = true

/-- Nobody else holds a lock that conflicts. -/
def Grants (i : ι) (key : κ) (mode : LockMode) : Prop :=
  ∀ lock ∈ tables.locks, lock.key = key → lock.holder = i ∨ lock.mode.conflicts mode = false

/-- Another transaction holds a lock that conflicts. -/
def Blocks (i : ι) (key : κ) (mode : LockMode) (j : ι) : Prop :=
  j ≠ i ∧ ∃ lock ∈ tables.locks, lock.holder = j ∧ lock.key = key ∧ lock.mode.conflicts mode = true

/-- Take a lock. -/
def lock (i : ι) (key : κ) (mode : LockMode) (grants : tables.Grants i key mode) : Tables ι κ ρ :=
  { tables with
    locks := ⟨i, key, mode⟩ :: tables.locks
    written := by
      intro j other h
      obtain ⟨lock, hlock, hwrites⟩ := tables.written j other h
      exact ⟨lock, List.mem_cons_of_mem _ hlock, hwrites⟩
    exclusive := by
      intro lock hlock other hother hkey hholder
      rcases List.mem_cons.mp hlock with rfl | hlock
      · rcases List.mem_cons.mp hother with rfl | hother
        · exact (hholder rfl).elim
        · rw [LockMode.conflicts_comm]
          exact (grants other hother hkey.symm).resolve_left fun h ↦ hholder h.symm
      · rcases List.mem_cons.mp hother with rfl | hother
        · exact (grants lock hlock hkey).resolve_left hholder
        · exact tables.exclusive lock hlock other hother hkey hholder }

variable {tables} {i j : ι} {key other : κ} {mode : LockMode}

theorem view_of_not_mem (h : key ∉ tables.keys) : tables.view i key = none := by
  unfold view
  rw [(tables.known key h).2 i, Option.getD_none]
  exact (tables.known key h).1

theorem mem_scan {p : (key : κ) → ρ key → Bool} :
    key ∈ tables.scan i p ↔ ∃ row, tables.view i key = some row ∧ p key row = true := by
  unfold scan
  rw [List.mem_filter, Option.any_eq_true]
  refine ⟨fun h ↦ h.2, fun h ↦ ⟨?_, h⟩⟩
  by_contra hmem
  obtain ⟨row, hrow, -⟩ := h
  rw [view_of_not_mem hmem] at hrow
  cases hrow

/-- Only one transaction may write a row. -/
theorem Writes.unique (hi : tables.Writes i key) (hj : tables.Writes j key) : i = j := by
  obtain ⟨lock, hlock, hholder, hkey, hwrites⟩ := hi
  obtain ⟨lock', hlock', hholder', hkey', hwrites'⟩ := hj
  by_contra hne
  have hconflict := LockMode.conflicts_of_writes hwrites hwrites'
  rw [tables.exclusive lock hlock lock' hlock' (hkey.trans hkey'.symm)
    (by rwa [hholder, hholder'])] at hconflict
  cases hconflict

theorem writes_of_pending (h : tables.pending i key ≠ none) : tables.Writes i key :=
  tables.written i key h

/-- A transaction that has not written a row sees the committed one. -/
theorem view_of_pending_none (h : tables.pending i key = none) :
    tables.view i key = tables.committed key := by
  unfold view
  rw [h, Option.getD_none]

/-- Others see the committed row while a transaction may write it. -/
theorem Writes.view_of_ne (h : tables.Writes i key) (hne : j ≠ i) :
    tables.view j key = tables.committed key := by
  refine view_of_pending_none ?_
  by_contra hpending
  exact hne ((writes_of_pending hpending).unique h)

@[simp]
theorem lock_committed {grants} : (tables.lock i key mode grants).committed = tables.committed := rfl

@[simp]
theorem lock_pending {grants} : (tables.lock i key mode grants).pending = tables.pending := rfl

@[simp]
theorem lock_view {grants} : (tables.lock i key mode grants).view = tables.view := rfl

theorem writes_lock (grants : tables.Grants i key mode) (h : mode.writes = true) :
    (tables.lock i key mode grants).Writes i key :=
  ⟨⟨i, key, mode⟩, List.mem_cons_self, rfl, rfl, h⟩

/-! ## Ends of transactions -/

section Finish

variable [DecidableEq ι]

/-- End a transaction with given committed rows. -/
def finish (tables : Tables ι κ ρ) (i : ι) (rows : (key : κ) → Option (ρ key))
    (known : ∀ key, key ∉ tables.keys → rows key = none) : Tables ι κ ρ where
  keys := tables.keys
  committed := rows
  pending := Function.update tables.pending i fun _ ↦ none
  locks := tables.locks.filter (·.holder ≠ i)
  known := by
    intro key hkey
    refine ⟨known key hkey, fun j ↦ ?_⟩
    by_cases hj : j = i
    · rw [hj, Function.update_self]
    · rw [Function.update_of_ne hj]
      exact (tables.known key hkey).2 j
  written := by
    intro j key h
    by_cases hj : j = i
    · subst hj
      rw [Function.update_self] at h
      exact (h rfl).elim
    · rw [Function.update_of_ne hj] at h
      obtain ⟨lock, hlock, hholder, hwrites⟩ := tables.written j key h
      exact ⟨lock, List.mem_filter.mpr ⟨hlock, by simpa [hholder] using hj⟩, hholder, hwrites⟩
  exclusive lock hlock other hother :=
    tables.exclusive lock (List.mem_filter.mp hlock).1 other (List.mem_filter.mp hother).1

def commit (tables : Tables ι κ ρ) (i : ι) : Tables ι κ ρ :=
  tables.finish i (tables.view i) fun _ ↦ view_of_not_mem

def rollback (tables : Tables ι κ ρ) (i : ι) : Tables ι κ ρ :=
  tables.finish i tables.committed fun key h ↦ (tables.known key h).1

variable {rows : (key : κ) → Option (ρ key)} {known : ∀ key, key ∉ tables.keys → rows key = none}

@[simp]
theorem commit_committed : (tables.commit i).committed = tables.view i := rfl

@[simp]
theorem rollback_committed : (tables.rollback i).committed = tables.committed := rfl

/-- A transaction that ends loses its writes and locks. -/
theorem pending_finish : (tables.finish i rows known).pending i key = none :=
  congrFun (Function.update_self i _ tables.pending) key

theorem holder_ne_of_finish {lock : Lock ι κ} (h : lock ∈ (tables.finish i rows known).locks) :
    lock.holder ≠ i := by
  simpa using (List.mem_filter.mp h).2

theorem pending_finish_of_ne (h : j ≠ i) : (tables.finish i rows known).pending j = tables.pending j :=
  Function.update_of_ne h _ _

theorem mem_locks_finish {lock : Lock ι κ} (h : lock.holder ≠ i) :
    lock ∈ (tables.finish i rows known).locks ↔ lock ∈ tables.locks := by
  unfold finish
  rw [List.mem_filter]
  simp [h]

/-- A row that a transaction may write is not changed by the commit of another. -/
theorem committed_commit_of_writes (h : tables.Writes j key) (hne : j ≠ i) :
    (tables.commit i).committed key = tables.committed key :=
  h.view_of_ne (Ne.symm hne)

end Finish

/-! ## Writes -/

section Write

variable [DecidableEq ι] [DecidableEq κ]

instance : Decidable (tables.Writes i key) :=
  inferInstanceAs (Decidable (∃ lock ∈ tables.locks, _))

instance : Decidable (tables.Grants i key mode) :=
  inferInstanceAs (Decidable (∀ lock ∈ tables.locks, _))

/-- Write a row, or delete it, under a lock. -/
def write (tables : Tables ι κ ρ) (i : ι) (key : κ) (row : Option (ρ key))
    (writes : tables.Writes i key) : Tables ι κ ρ :=
  { tables with
    keys := tables.keys.insert key
    pending := Function.update tables.pending i (Function.update (tables.pending i) key (some row))
    known := by
      intro other hother
      rw [List.mem_insert_iff, not_or] at hother
      refine ⟨(tables.known other hother.2).1, fun j ↦ ?_⟩
      by_cases hj : j = i
      · rw [hj, Function.update_self, Function.update_of_ne hother.1]
        exact (tables.known other hother.2).2 i
      · rw [Function.update_of_ne hj]
        exact (tables.known other hother.2).2 j
    written := by
      intro j other h
      by_cases hj : j = i
      · subst hj
        by_cases hother : other = key
        · subst hother
          exact writes
        · rw [Function.update_self, Function.update_of_ne hother] at h
          exact tables.written j other h
      · rw [Function.update_of_ne hj] at h
        exact tables.written j other h }

variable {row : Option (ρ key)} {writes : tables.Writes i key}

@[simp]
theorem write_committed : (tables.write i key row writes).committed = tables.committed := rfl

@[simp]
theorem write_locks : (tables.write i key row writes).locks = tables.locks := rfl

theorem pending_write :
    (tables.write i key row writes).pending i = Function.update (tables.pending i) key (some row) :=
  Function.update_self ..

theorem pending_write_of_ne (h : j ≠ i) :
    (tables.write i key row writes).pending j = tables.pending j := Function.update_of_ne h _ _

theorem view_write : (tables.write i key row writes).view i key = row := by
  unfold view
  rw [pending_write, Function.update_self, Option.getD_some]

/-- Write a row under a lock that is taken first. -/
def put (tables : Tables ι κ ρ) (i : ι) (key : κ) (mode : LockMode) (h : mode.writes = true)
    (row : Option (ρ key)) : Option (Tables ι κ ρ) :=
  if grants : tables.Grants i key mode then
    some ((tables.lock i key mode grants).write i key row (writes_lock grants h))
  else none

/-- Delete rows, each under its lock. -/
def deleteAll (tables : Tables ι κ ρ) (i : ι) : List κ → Option (Tables ι κ ρ)
  | [] => some tables
  | key :: keys =>
      (tables.put i key .update LockMode.writes_update none).bind fun after ↦ after.deleteAll i keys

end Write

/-! ## Statements of one transaction -/

/-- A transaction that holds no lock has written nothing. -/
def Idle (tables : Tables ι κ ρ) (i : ι) : Prop := ∀ lock ∈ tables.locks, lock.holder ≠ i

theorem Idle.pending (h : tables.Idle i) : tables.pending i key = none := by
  by_contra hpending
  obtain ⟨lock, hlock, hholder, -⟩ := tables.written i key hpending
  exact h lock hlock hholder

theorem Idle.view (h : tables.Idle i) : tables.view i = tables.committed := by
  funext key
  exact view_of_pending_none h.pending

theorem idle_ofRows {keys : List κ} {rows : (key : κ) → Option (ρ key)} {known} :
    (ofRows keys rows known : Tables ι κ ρ).Idle i := by
  intro lock hlock
  cases hlock

theorem idle_finish [DecidableEq ι] {rows : (key : κ) → Option (ρ key)} {known} :
    (tables.finish i rows known).Idle i := fun _ ↦ holder_ne_of_finish

/-- What statements of one transaction leave alone: the committed rows, other transactions, and its
own view of rows outside a set of keys. -/
structure Touched (i : ι) (keys : κ → Prop) (before after : Tables ι κ ρ) : Prop where
  committed : after.committed = before.committed
  others : ∀ j, j ≠ i → after.pending j = before.pending j
  untouched : ∀ key, ¬keys key → after.pending i key = before.pending i key
  kept : ∀ lock ∈ before.locks, lock ∈ after.locks
  taken : ∀ lock ∈ after.locks, lock ∈ before.locks ∨ lock.holder = i

namespace Touched

variable {keys : κ → Prop} {before after last : Tables ι κ ρ}

theorem refl (i : ι) (keys : κ → Prop) (tables : Tables ι κ ρ) : Touched i keys tables tables where
  committed := rfl
  others _ _ := rfl
  untouched _ _ := rfl
  kept _ h := h
  taken _ h := .inl h

theorem trans (h : Touched i keys before after) (h' : Touched i keys after last) :
    Touched i keys before last where
  committed := h'.committed.trans h.committed
  others j hj := (h'.others j hj).trans (h.others j hj)
  untouched key hkey := (h'.untouched key hkey).trans (h.untouched key hkey)
  kept lock hlock := h'.kept lock (h.kept lock hlock)
  taken lock hlock := (h'.taken lock hlock).elim (h.taken lock) .inr

theorem mono {keys' : κ → Prop} (h : Touched i keys before after)
    (sub : ∀ key, keys key → keys' key) : Touched i keys' before after where
  committed := h.committed
  others := h.others
  untouched key hkey := h.untouched key fun hmem ↦ hkey (sub key hmem)
  kept := h.kept
  taken := h.taken

theorem lock {grants} : Touched i keys tables (tables.lock i key mode grants) where
  committed := rfl
  others _ _ := rfl
  untouched _ _ := rfl
  kept _ h := List.mem_cons_of_mem _ h
  taken _ h := (List.mem_cons.mp h).elim (fun h ↦ .inr (h ▸ rfl)) .inl

theorem writes (h : Touched i keys before after) (hwrites : before.Writes j key) :
    after.Writes j key := by
  obtain ⟨lock, hlock, hrest⟩ := hwrites
  exact ⟨lock, h.kept lock hlock, hrest⟩

theorem view_of_not (h : Touched i keys before after) (hkey : ¬keys key) :
    after.view i key = before.view i key := by
  unfold view
  rw [h.untouched key hkey, h.committed]

variable [DecidableEq ι] [DecidableEq κ]

theorem write {row : Option (ρ key)} {writes} (hkey : keys key) :
    Touched i keys tables (tables.write i key row writes) where
  committed := rfl
  others _ hj := pending_write_of_ne hj
  untouched other hother := by
    rw [pending_write, Function.update_of_ne]
    rintro rfl
    exact hother hkey
  kept _ h := h
  taken _ h := .inl h

theorem put {row : Option (ρ key)} {hmode} (h : before.put i key mode hmode row = some after) :
    Touched i (· = key) before after ∧ after.view i key = row ∧ after.Writes i key := by
  unfold Tables.put at h
  split at h
  · next grants =>
    cases h
    exact ⟨lock.trans (write rfl), view_write, writes_lock grants hmode⟩
  · cases h

theorem deleteAll {rows : List κ} (h : before.deleteAll i rows = some after) :
    Touched i (· ∈ rows) before after := by
  induction rows generalizing before with
  | nil =>
    cases h
    exact .refl i _ after
  | cons key rows ih =>
    obtain ⟨middle, hput, hrest⟩ := Option.bind_eq_some_iff.mp h
    have hfirst : Touched i (· ∈ key :: rows) before middle :=
      (put hput).1.mono fun other hother ↦ hother ▸ List.mem_cons_self
    exact hfirst.trans ((ih hrest).mono fun _ ↦ List.mem_cons_of_mem key)

end Touched

/-! ## Steps of other transactions -/

/-- What a transaction may do next: statements, or its end. -/
inductive Step [DecidableEq ι] (i : ι) : Tables ι κ ρ → Tables ι κ ρ → Prop
  | statements {before after : Tables ι κ ρ} (touched : Touched i (fun _ ↦ True) before after) :
      Step i before after
  | commit {before : Tables ι κ ρ} : Step i before (before.commit i)
  | rollback {before : Tables ι κ ρ} : Step i before (before.rollback i)

/-- A transaction keeps its writes and locks while another goes on, and the rows that it may write
stay as they are. -/
structure Apart (i : ι) (before after : Tables ι κ ρ) : Prop where
  pending : after.pending i = before.pending i
  locks : ∀ lock, lock.holder = i → (lock ∈ after.locks ↔ lock ∈ before.locks)
  committed : ∀ key, before.Writes i key → after.committed key = before.committed key

theorem Step.apart [DecidableEq ι] {before after : Tables ι κ ρ} (h : Step j before after)
    (hne : i ≠ j) : Apart i before after := by
  cases h with
  | statements touched =>
    refine ⟨touched.others i hne, fun lock hlock ↦ ⟨fun hafter ↦ ?_, touched.kept lock⟩,
      fun _ _ ↦ congrFun touched.committed _⟩
    exact (touched.taken lock hafter).resolve_right fun hown ↦ hne (hlock.symm.trans hown)
  | commit =>
    exact ⟨pending_finish_of_ne hne, fun lock hlock ↦ mem_locks_finish (hlock ▸ hne),
      fun _ h ↦ committed_commit_of_writes h hne⟩
  | rollback =>
    exact ⟨pending_finish_of_ne hne, fun lock hlock ↦ mem_locks_finish (hlock ▸ hne), fun _ _ ↦ rfl⟩

namespace Apart

variable {before after last : Tables ι κ ρ}

theorem writes (h : Apart i before after) (hwrites : before.Writes i key) : after.Writes i key := by
  obtain ⟨lock, hlock, hholder, hrest⟩ := hwrites
  exact ⟨lock, (h.locks lock hholder).mpr hlock, hholder, hrest⟩

theorem trans (h : Apart i before after) (h' : Apart i after last) : Apart i before last where
  pending := h'.pending.trans h.pending
  locks lock hlock := (h'.locks lock hlock).trans (h.locks lock hlock)
  committed key hkey := (h'.committed key (h.writes hkey)).trans (h.committed key hkey)

theorem idle (h : Apart i before after) (idle : before.Idle i) : after.Idle i :=
  fun lock hlock hholder ↦ idle lock ((h.locks lock hholder).mp hlock) hholder

/-- Rows that a transaction may write look the same to it. -/
theorem view (h : Apart i before after) (hwrites : before.Writes i key) :
    after.view i key = before.view i key := by
  unfold Tables.view
  rw [h.pending, h.committed key hwrites]

end Apart

end Tables

end MemoFlowApi.Sql
