import Mathlib.Logic.Function.Basic

/-!
# Promises and the Job Queue

A promise settles once.  Reactions registered on a pending promise are queued as jobs when it
settles; on a settled one they are queued at once.  A promise that is resolved with another one adopts
its settlement by a job that registers on it.
-/

namespace MemoFlowApi.Js

/-- How a promise settled.  Nothing is kept of a fulfilment but that it happened. -/
inductive Settlement (ε : Type) where
  | fulfilled
  | rejected (reason : ε)
  deriving DecidableEq

/-- What follows the settlement of a promise: a handler of the program, or another promise. -/
inductive Reaction (η π : Type) where
  | call (handler : η)
  | resolve (target : π)
  deriving DecidableEq

/-- A promise, pending with its reactions (oldest first) or settled. -/
inductive PromiseState (ε η π : Type) where
  | pending (reactions : List (Reaction η π))
  | settled (settlement : Settlement ε)
  deriving DecidableEq

/-- A job of the queue. -/
inductive Job (ε η π : Type) where
  | react (reaction : Reaction η π) (settlement : Settlement ε)
  /-- Registers the target's resolution on the promise it was resolved with. -/
  | adopt (source target : π)
  deriving DecidableEq

/-- All promises, by their names, and the queue of jobs. -/
structure Promises (ε η π : Type) where
  state : π → PromiseState ε η π
  queue : List (Job ε η π)

namespace Promises

variable {ε η π : Type} (promises : Promises ε η π) {p : π}

/-- Nothing has been registered or settled. -/
def fresh : Promises ε η π where
  state _ := .pending []
  queue := []

def enqueue (job : Job ε η π) : Promises ε η π :=
  { promises with queue := promises.queue ++ [job] }

def withQueue (queue : List (Job ε η π)) : Promises ε η π := { promises with queue := queue }

variable [DecidableEq π]

/-- Settles a promise, unless it has settled before. -/
def settle (p : π) (settlement : Settlement ε) : Promises ε η π :=
  match promises.state p with
  | .pending reactions =>
    { state := Function.update promises.state p (.settled settlement)
      queue := promises.queue ++ reactions.map fun reaction ↦ .react reaction settlement }
  | .settled _ => promises

/-- Registers a reaction on a promise. -/
def subscribe (p : π) (reaction : Reaction η π) : Promises ε η π :=
  match promises.state p with
  | .pending reactions =>
    { promises with
      state := Function.update promises.state p (.pending (reactions ++ [reaction])) }
  | .settled settlement => promises.enqueue (.react reaction settlement)

variable {promises} {settlement settlement' : Settlement ε}
  {reactions : List (Reaction η π)} {reaction : Reaction η π}

theorem settle_of_pending (h : promises.state p = .pending reactions) :
    promises.settle p settlement =
      { state := Function.update promises.state p (.settled settlement)
        queue := promises.queue ++ reactions.map fun reaction ↦ .react reaction settlement } := by
  unfold settle
  rw [h]

theorem settle_of_settled (h : promises.state p = .settled settlement') :
    promises.settle p settlement = promises := by
  unfold settle
  rw [h]

theorem subscribe_of_pending (h : promises.state p = .pending reactions) :
    promises.subscribe p reaction =
      { promises with
        state := Function.update promises.state p (.pending (reactions ++ [reaction])) } := by
  unfold subscribe
  rw [h]

theorem subscribe_of_settled (h : promises.state p = .settled settlement) :
    promises.subscribe p reaction = promises.enqueue (.react reaction settlement) := by
  unfold subscribe
  rw [h]

end Promises

end MemoFlowApi.Js
