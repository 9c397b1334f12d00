import MemoFlowApi.Concurrency.Run

/-!
# Transactions

A function run within a transaction: its calls stand between a call that starts the transaction and
one that commits it, and an exception rolls it back.  The calls of a trace that committed are those
that their callers made between the start of a transaction and its commit.
-/

namespace MemoFlowApi.Sql

open Concurrency

/-- The calls at the ends of a transaction. -/
structure Boundary (Op : Type) where
  start : Op
  commit : Op
  rollback : Op

namespace Boundary

variable {ι σ Op : Type} {Ans : Op → Type} {ε α S : Type}

/-- Run a function within a transaction, which an exception rolls back. -/
def transaction (boundary : Boundary Op) (run : Ans boundary.start → Program Ans ε α) :
    Program Ans ε α := do
  let result ← Program.attempt do
    let started ← Program.perform boundary.start
    let value ← run started
    let _ ← Program.perform boundary.commit
    return value
  match result with
  | .ok value => return value
  | .error error =>
    let _ ← Program.perform boundary.rollback
    .throw error

/-- What holds wherever a transaction may fail must let its rollback end it. -/
theorem wp_transaction {boundary : Boundary Op} {run : Ans boundary.start → Program Ans ε α}
    {spec : CallSpec Ans ε S} {Q : α → S → Prop} {E F : ε → S → Prop} {s : S}
    (body : (Program.perform boundary.start).wp spec
      (fun started s' ↦ (run started).wp spec
        (fun value s'' ↦ (Program.perform boundary.commit).wp spec (fun _ ↦ Q value) F s'') F s') F s)
    (undo : ∀ error s', F error s' →
      (Program.perform boundary.rollback).wp spec (fun _ ↦ E error) E s') :
    (boundary.transaction run).wp spec Q E s := by
  unfold transaction
  rw [Program.wp_bind, Program.wp_attempt, Program.wp_bind]
  refine Program.wp_mono (fun started s' h ↦ ?_) (fun error s' h ↦ ?_) body
  · rw [Program.wp_bind]
    refine Program.wp_mono (fun value s'' h' ↦ ?_) (fun error s'' h' ↦ ?_) h
    · rw [Program.wp_bind]
      refine Program.wp_mono (fun _ _ h'' ↦ h'') (fun error s₃ h'' ↦ ?_) h'
      dsimp only
      rw [Program.wp_bind]
      exact undo error s₃ h''
    · dsimp only
      rw [Program.wp_bind]
      exact undo error s'' h'
  · dsimp only
    rw [Program.wp_bind]
    exact undo error s' h

section Calls

variable [DecidableEq ι] [DecidableEq Op] (boundary : Boundary Op)

/-- The calls that a caller has made since it last started a transaction, newest first. -/
def openCalls (i : ι) : List (Event ι σ Ans ε) → List (Event ι σ Ans ε)
  | [] => []
  | event :: earlier =>
      if event.caller = i then
        if event.op = boundary.start then [] else event :: openCalls i earlier
      else openCalls i earlier

/-- The calls of transactions that committed, newest first. -/
def committedCalls : List (Event ι σ Ans ε) → List (Event ι σ Ans ε)
  | [] => []
  | event :: earlier =>
      if event.op = boundary.commit then
        boundary.openCalls event.caller earlier ++ committedCalls earlier
      else committedCalls earlier

variable {boundary} {before : σ} {i j : ι} {op : Op} {o : Outcome ε (Ans op)}
  {earlier : List (Event ι σ Ans ε)}

theorem openCalls_of_start (hop : op = boundary.start) :
    boundary.openCalls i (⟨before, i, op, o⟩ :: earlier) = [] := (if_pos rfl).trans (if_pos hop)

theorem openCalls_of_call (hop : op ≠ boundary.start) :
    boundary.openCalls i (⟨before, i, op, o⟩ :: earlier) =
      ⟨before, i, op, o⟩ :: boundary.openCalls i earlier := (if_pos rfl).trans (if_neg hop)

theorem openCalls_of_ne (hj : j ≠ i) :
    boundary.openCalls i (⟨before, j, op, o⟩ :: earlier) = boundary.openCalls i earlier := if_neg hj

theorem committedCalls_of_commit (hop : op = boundary.commit) :
    boundary.committedCalls (⟨before, i, op, o⟩ :: earlier) =
      boundary.openCalls i earlier ++ boundary.committedCalls earlier := if_pos hop

theorem committedCalls_of_ne (hop : op ≠ boundary.commit) :
    boundary.committedCalls (⟨before, i, op, o⟩ :: earlier) = boundary.committedCalls earlier :=
  if_neg hop

end Calls

end Boundary

end MemoFlowApi.Sql
