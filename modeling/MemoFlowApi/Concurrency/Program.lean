import Mathlib.Logic.Function.Basic

/-!
# Programs of Asynchronous Calls

An `async` function alternates local computation with awaited calls to the ports it is given.
This module represents such a function by the tree of its calls: `Program Ans ε α` awaits calls
`op`, each answered by a value of `Ans op` or by an exception of type `ε`, and ends with a value
or with an uncaught exception.  Trees are well founded, so a property of programs is proved by
structural recursion on them.

A `CallSpec` says what one call may do to an abstract state, and `Program.wp` is the weakest
precondition it induces.  The rules for binding, catching and performing calls are stated once
here; every analysis of a program (tracking it through a typestate, or running it alone against a
store) instantiates them.
-/

namespace MemoFlowApi.Concurrency

variable {Op : Type} {Ans : Op → Type} {ε α β S : Type}

/-- What became of one call.  A call that throws may or may not have taken effect before it did;
its caller cannot tell the two apart. -/
inductive Outcome (ε α : Type) where
  | returned (answer : α)
  | lost (error : ε)
  | applied (error : ε)

namespace Outcome

/-- What the caller sees of an outcome. -/
def result : Outcome ε α → Except ε α
  | returned answer => .ok answer
  | lost error => .error error
  | applied error => .error error

/-- The call threw. -/
def Failed : Outcome ε α → Prop
  | returned _ => False
  | lost _ => True
  | applied _ => True

/-- The call changed the world as its operation does, whether or not it then threw. -/
def TookEffect : Outcome ε α → Prop
  | returned _ => True
  | lost _ => False
  | applied _ => True

instance (o : Outcome ε α) : Decidable o.Failed :=
  match o with
  | returned _ => isFalse id
  | lost _ => isTrue trivial
  | applied _ => isTrue trivial

instance (o : Outcome ε α) : Decidable o.TookEffect :=
  match o with
  | returned _ => isTrue trivial
  | lost _ => isFalse id
  | applied _ => isTrue trivial

@[simp]
theorem result_returned (answer : α) : (returned answer : Outcome ε α).result = .ok answer := rfl

@[simp]
theorem result_lost (error : ε) : (lost error : Outcome ε α).result = .error error := rfl

@[simp]
theorem result_applied (error : ε) : (applied error : Outcome ε α).result = .error error := rfl

@[simp]
theorem failed_returned (answer : α) : (returned answer : Outcome ε α).Failed ↔ False := Iff.rfl

@[simp]
theorem failed_lost (error : ε) : (lost error : Outcome ε α).Failed ↔ True := Iff.rfl

@[simp]
theorem failed_applied (error : ε) : (applied error : Outcome ε α).Failed ↔ True := Iff.rfl

@[simp]
theorem tookEffect_returned (answer : α) :
    (returned answer : Outcome ε α).TookEffect ↔ True := Iff.rfl

@[simp]
theorem tookEffect_lost (error : ε) : (lost error : Outcome ε α).TookEffect ↔ False := Iff.rfl

@[simp]
theorem tookEffect_applied (error : ε) :
    (applied error : Outcome ε α).TookEffect ↔ True := Iff.rfl

end Outcome

/-- The tree of calls of an asynchronous function. -/
inductive Program (Ans : Op → Type) (ε α : Type) where
  | pure (value : α)
  | throw (error : ε)
  | call (op : Op) (next : Except ε (Ans op) → Program Ans ε α)

namespace Program

/-- Sequencing; an uncaught exception skips the rest. -/
def bind : Program Ans ε α → (α → Program Ans ε β) → Program Ans ε β
  | pure value, rest => rest value
  | throw error, _ => throw error
  | call op next, rest => call op fun answer ↦ (next answer).bind rest

/-- Run a block as the body of a `try`: an exception becomes a value for the code after it. -/
def attempt : Program Ans ε α → Program Ans ε (Except ε α)
  | pure value => pure (.ok value)
  | throw error => pure (.error error)
  | call op next => call op fun answer ↦ (next answer).attempt

/-- Await one call; a call that throws is an exception at this point. -/
def perform (op : Op) : Program Ans ε (Ans op) :=
  call op fun
    | .ok answer => pure answer
    | .error error => throw error

instance : Monad (Program Ans ε) where
  pure := pure
  bind := bind

/-- The function has returned or thrown. -/
def Finished : Program Ans ε α → Prop
  | pure _ => True
  | throw _ => True
  | call _ _ => False

instance (program : Program Ans ε α) : Decidable program.Finished :=
  match program with
  | pure _ => isTrue trivial
  | throw _ => isTrue trivial
  | call _ _ => isFalse id

@[simp]
theorem finished_pure (value : α) : (pure value : Program Ans ε α).Finished ↔ True := Iff.rfl

@[simp]
theorem finished_throw (error : ε) : (throw error : Program Ans ε α).Finished ↔ True := Iff.rfl

@[simp]
theorem finished_call (op : Op) (next : Except ε (Ans op) → Program Ans ε α) :
    (call op next).Finished ↔ False := Iff.rfl

/-- The exception that a function has ended with. -/
def thrown : Program Ans ε α → Option ε
  | throw error => some error
  | _ => none

theorem thrown_eq_some {program : Program Ans ε α} {error : ε} :
    program.thrown = some error ↔ program = throw error := by
  cases program <;> simp [thrown]

end Program

/-- What one call may do to a state `S`: `post s op o P` holds when every state in which the call
`op`, made in `s`, can end with outcome `o` satisfies `P`. -/
structure CallSpec (Ans : Op → Type) (ε S : Type) where
  post : S → (op : Op) → Outcome ε (Ans op) → (S → Prop) → Prop
  mono : ∀ {s op o} {P P' : S → Prop}, (∀ s', P s' → P' s') → post s op o P → post s op o P'

namespace Program

/-- Weakest precondition of a program: every way its calls can go ends in `Q` if it returns and
in `E` if it throws. -/
def wp (spec : CallSpec Ans ε S) :
    Program Ans ε α → (α → S → Prop) → (ε → S → Prop) → S → Prop
  | pure value, Q, _, s => Q value s
  | throw error, _, E, s => E error s
  | call op next, Q, E, s =>
      ∀ o, spec.post s op o fun s' ↦ (next o.result).wp spec Q E s'

variable {spec : CallSpec Ans ε S} {Q Q' : α → S → Prop} {E E' : ε → S → Prop} {s : S}

@[simp]
theorem wp_pure (value : α) : (pure value : Program Ans ε α).wp spec Q E s ↔ Q value s := Iff.rfl

@[simp]
theorem wp_pure' (value : α) :
    (Pure.pure value : Program Ans ε α).wp spec Q E s ↔ Q value s := Iff.rfl

@[simp]
theorem wp_throw (error : ε) :
    (throw error : Program Ans ε α).wp spec Q E s ↔ E error s := Iff.rfl

theorem wp_call (op : Op) (next : Except ε (Ans op) → Program Ans ε α) :
    (call op next).wp spec Q E s ↔
      ∀ o, spec.post s op o fun s' ↦ (next o.result).wp spec Q E s' := Iff.rfl

theorem wp_mono {program : Program Ans ε α} (hQ : ∀ value s', Q value s' → Q' value s')
    (hE : ∀ error s', E error s' → E' error s') (h : program.wp spec Q E s) :
    program.wp spec Q' E' s := by
  induction program generalizing s with
  | pure value => exact hQ value s h
  | throw error => exact hE error s h
  | call op next ih =>
    intro o
    exact spec.mono (fun s' h' ↦ ih o.result h') (h o)

@[simp]
theorem wp_bind (program : Program Ans ε α) (rest : α → Program Ans ε β) {Q : β → S → Prop} :
    (program >>= rest).wp spec Q E s ↔
      program.wp spec (fun value s' ↦ (rest value).wp spec Q E s') E s := by
  change (program.bind rest).wp spec Q E s ↔ _
  induction program generalizing s with
  | pure value => exact Iff.rfl
  | throw error => exact Iff.rfl
  | call op next ih => simp only [bind, wp, ih]

@[simp]
theorem wp_attempt (program : Program Ans ε α) {Q : Except ε α → S → Prop} :
    program.attempt.wp spec Q E s ↔
      program.wp spec (fun value ↦ Q (.ok value)) (fun error ↦ Q (.error error)) s := by
  induction program generalizing s with
  | pure value => exact Iff.rfl
  | throw error => exact Iff.rfl
  | call op next ih => simp only [attempt, wp, ih]

theorem wp_perform (op : Op) {Q : Ans op → S → Prop} :
    (perform op : Program Ans ε (Ans op)).wp spec Q E s ↔
      ∀ o, spec.post s op o fun s' ↦
        match o with
        | .returned answer => Q answer s'
        | .lost error => E error s'
        | .applied error => E error s' := by
  refine forall_congr' fun o ↦ ?_
  cases o <;> exact Iff.rfl

end Program

end MemoFlowApi.Concurrency
