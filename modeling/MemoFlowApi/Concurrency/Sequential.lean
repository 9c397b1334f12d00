import MemoFlowApi.Concurrency.View

/-!
# Sequential Runs

Two programs are compared by running each alone against the same computed responses.  `Program.run`
evaluates a program with a state of its own; the state passes through `bind` and `attempt`, and a
block that leaves a component of the state alone runs on the rest of it (`Program.run_of_only`).
-/

namespace MemoFlowApi.Concurrency.Program

variable {Op S T : Type} {Ans : Op → Type} {ε α β : Type}

/-- Evaluate a program whose calls are answered by computation. -/
def run (respond : (op : Op) → S → Except ε (Ans op) × S) : Program Ans ε α → S → Except ε α × S
  | pure value, s => (.ok value, s)
  | throw error, s => (.error error, s)
  | call op next, s => (next (respond op s).1).run respond (respond op s).2

variable {respond : (op : Op) → S → Except ε (Ans op) × S} {s : S}

@[simp]
theorem run_pure (value : α) :
    (pure value : Program Ans ε α).run respond s = (.ok value, s) := rfl

@[simp]
theorem run_pure' (value : α) :
    (Pure.pure value : Program Ans ε α).run respond s = (.ok value, s) := rfl

@[simp]
theorem run_throw (error : ε) :
    (throw error : Program Ans ε α).run respond s = (.error error, s) := rfl

@[simp]
theorem run_perform (op : Op) :
    (perform op : Program Ans ε (Ans op)).run respond s = respond op s := by
  unfold perform run
  rcases respond op s with ⟨answer | error, s'⟩ <;> rfl

theorem run_bind (program : Program Ans ε α) (rest : α → Program Ans ε β) :
    (program >>= rest).run respond s =
      match program.run respond s with
      | (.ok value, s') => (rest value).run respond s'
      | (.error error, s') => (.error error, s') := by
  change (program.bind rest).run respond s = _
  induction program generalizing s with
  | pure value => rfl
  | throw error => rfl
  | call op next ih => exact ih _

@[simp]
theorem run_attempt (program : Program Ans ε α) :
    program.attempt.run respond s = (.ok (program.run respond s).1, (program.run respond s).2) := by
  induction program generalizing s with
  | pure value => rfl
  | throw error => rfl
  | call op next ih => exact ih _

/-- Sequencing after a block whose run is known. -/
theorem run_bind_ok {program : Program Ans ε α} {rest : α → Program Ans ε β} {value : α} {s' : S}
    (h : program.run respond s = (.ok value, s')) :
    (program >>= rest).run respond s = (rest value).run respond s' := by
  rw [run_bind, h]

theorem run_bind_error {program : Program Ans ε α} {rest : α → Program Ans ε β} {error : ε}
    {s' : S} (h : program.run respond s = (.error error, s')) :
    (program >>= rest).run respond s = (.error error, s') := by
  rw [run_bind, h]

/-- A program whose calls leave the first component of the state alone, and do not read it, runs on
the second. -/
theorem run_of_only {allowed : Op → Prop} {respond : (op : Op) → S × T → Except ε (Ans op) × S × T}
    {respond' : (op : Op) → T → Except ε (Ans op) × T} {program : Program Ans ε α} {s : S} {t : T}
    (only : program.Only allowed)
    (h : ∀ op, allowed op → ∀ s t, respond op (s, t) = ((respond' op t).1, s, (respond' op t).2)) :
    program.run respond (s, t) = ((program.run respond' t).1, s, (program.run respond' t).2) := by
  induction program generalizing t with
  | pure value => rfl
  | throw error => rfl
  | call op next ih =>
    change (next (respond op (s, t)).1).run respond (respond op (s, t)).2 = _
    rw [h op only.1]
    exact ih _ (only.2 _)

end MemoFlowApi.Concurrency.Program
