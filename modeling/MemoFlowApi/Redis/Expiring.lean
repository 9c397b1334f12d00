import Mathlib.Data.Int.Notation
import Mathlib.Data.Nat.Notation
import Mathlib.Logic.Function.Basic

/-!
# Counters that Expire

The commands of Redis on integer counters whose expiry is given in milliseconds.  A counter that has
expired is deleted when a command comes to its key.
-/

namespace MemoFlowApi.Redis

/-- A counter and the millisecond of its expiry. -/
structure ExpiringCounter where
  value : ℕ
  deadline : Option ℕ
  deriving DecidableEq

def ExpiringCounter.Alive (counter : ExpiringCounter) (time : ℕ) : Bool :=
  counter.deadline.all (time < ·)

/-- The counters by their keys, those included whose expiry nobody has noticed yet. -/
abbrev ExpiringCounters (κ : Type) := κ → Option ExpiringCounter

namespace ExpiringCounters

variable {κ : Type} [DecidableEq κ] (counters : ExpiringCounters κ)

/-- The counters after a look at a key at a time. -/
def touch (time : ℕ) (key : κ) : ExpiringCounters κ :=
  Function.update counters key ((counters key).filter fun counter ↦ counter.Alive time)

/-- `INCR`, with the value it answers. -/
def incr (key : κ) : ℕ × ExpiringCounters κ :=
  let value := ((counters key).map (·.value)).getD 0 + 1
  (value, Function.update counters key (some ⟨value, (counters key).bind (·.deadline)⟩))

/-- `PTTL`: what is left of a counter, or why nothing is. -/
def pttl (time : ℕ) (key : κ) : ℤ :=
  match counters key with
  | none => -2
  | some ⟨_, none⟩ => -1
  | some ⟨_, some deadline⟩ => (deadline : ℤ) - time

/-- `PEXPIRE`. -/
def pexpire (time : ℕ) (key : κ) (ms : ℕ) : ExpiringCounters κ :=
  Function.update counters key
    (if ms = 0 then none
    else (counters key).map fun counter ↦ { counter with deadline := some (time + ms) })

/-- `DEL`. -/
def del (key : κ) : ExpiringCounters κ := Function.update counters key none

end ExpiringCounters

end MemoFlowApi.Redis
