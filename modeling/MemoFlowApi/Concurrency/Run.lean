import Mathlib.Logic.Relation
import MemoFlowApi.Concurrency.Program

/-!
# Interleaved Runs

A `World` gives the meaning of calls on a shared state: what an answered call may do, and which
calls may throw.  A configuration holds the shared state, one program for every caller of an
arbitrary index type, and the trace of the calls made so far, newest first.  A step lets one caller
make its next call; callers interleave freely between calls, and a caller that never steps is one
that was never started, so a family of programs covers every number and every timing of requests.

Conditions on a run are conditions on the events of its trace, each of which records the state its
call was made in.  `World.invariant` is the induction rule for properties of all reachable
configurations.
-/

namespace MemoFlowApi.Concurrency

variable {ι σ Op : Type} {Ans : Op → Type} {ε α : Type}

/-- One call of a run, with the shared state it was made in. -/
structure Event (ι σ : Type) {Op : Type} (Ans : Op → Type) (ε : Type) where
  before : σ
  caller : ι
  op : Op
  outcome : Outcome ε (Ans op)

/-- Every call of a trace satisfies a condition on it and on the calls before it. -/
def EachCall (P : Event ι σ Ans ε → List (Event ι σ Ans ε) → Prop) : List (Event ι σ Ans ε) → Prop
  | [] => True
  | event :: earlier => P event earlier ∧ EachCall P earlier

instance EachCall.decidable {P : Event ι σ Ans ε → List (Event ι σ Ans ε) → Prop}
    [∀ event earlier, Decidable (P event earlier)] :
    (trace : List (Event ι σ Ans ε)) → Decidable (EachCall P trace)
  | [] => isTrue trivial
  | event :: earlier =>
      have := EachCall.decidable (P := P) earlier
      inferInstanceAs (Decidable (P event earlier ∧ EachCall P earlier))

/-- The calls of a trace with the state each left, newest first; `s` is the last state. -/
def stepsOf (s : σ) (trace : List (Event ι σ Ans ε)) : List (Event ι σ Ans ε × σ) :=
  trace.zip (s :: trace.map Event.before)

@[simp]
theorem stepsOf_nil (s : σ) : stepsOf s ([] : List (Event ι σ Ans ε)) = [] := rfl

@[simp]
theorem stepsOf_cons (s : σ) (event : Event ι σ Ans ε) (trace : List (Event ι σ Ans ε)) :
    stepsOf s (event :: trace) = (event, s) :: stepsOf event.before trace := rfl

/-- The meaning of calls on a shared state.  A call that may fail either has no effect or has the
effect it would have had, and throws. -/
structure World (ι σ : Type) {Op : Type} (Ans : Op → Type) where
  effect : ι → (op : Op) → σ → Ans op → σ → Prop
  mayFail : Op → Prop

/-- The shared state, the callers' remaining programs and the calls made so far. -/
structure Config (ι σ : Type) {Op : Type} (Ans : Op → Type) (ε α : Type) where
  shared : σ
  threads : ι → Program Ans ε α
  trace : List (Event ι σ Ans ε)

/-- A configuration before its first call. -/
def Config.initial (shared : σ) (threads : ι → Program Ans ε α) : Config ι σ Ans ε α :=
  ⟨shared, threads, []⟩

/-- The shared states of a run so far, newest first. -/
def Config.history (config : Config ι σ Ans ε α) : List σ :=
  config.shared :: config.trace.map Event.before

/-- The caller has made a call. -/
def Config.Started (config : Config ι σ Ans ε α) (i : ι) : Prop :=
  ∃ event ∈ config.trace, event.caller = i

/-- The caller has made a call and has more to do. -/
def Config.InFlight (config : Config ι σ Ans ε α) (i : ι) : Prop :=
  config.Started i ∧ ¬ (config.threads i).Finished

namespace World

variable (world : World ι σ Ans)

/-- The possible outcomes of a call in a state, with the state each leaves. -/
inductive Answers (ε : Type) (i : ι) (op : Op) (s : σ) : Outcome ε (Ans op) → σ → Prop
  | returned {answer s'} (effect : world.effect i op s answer s') :
      Answers ε i op s (.returned answer) s'
  | lost (error : ε) (mayFail : world.mayFail op) : Answers ε i op s (.lost error) s
  | applied {answer s'} (error : ε) (mayFail : world.mayFail op)
      (effect : world.effect i op s answer s') : Answers ε i op s (.applied error) s'

theorem Answers.effect_of_returned {world : World ι σ Ans} {i : ι} {op : Op} {s s' : σ} {answer : Ans op}
    (h : world.Answers ε i op s (.returned answer) s') : world.effect i op s answer s' := by
  cases h with
  | returned effect => exact effect

theorem Answers.effect_of_tookEffect {world : World ι σ Ans} {i : ι} {op : Op} {s s' : σ}
    {o : Outcome ε (Ans op)} (h : world.Answers ε i op s o s') (ho : o.TookEffect) :
    ∃ answer, world.effect i op s answer s' := by
  cases h with
  | returned effect => exact ⟨_, effect⟩
  | lost error mayFail => exact ho.elim
  | applied error mayFail effect => exact ⟨_, effect⟩

/-- Whatever became of a call, the state is as before or as its effect makes it. -/
theorem Answers.unchanged_or_effect {world : World ι σ Ans} {i : ι} {op : Op} {s s' : σ}
    {o : Outcome ε (Ans op)} (h : world.Answers ε i op s o s') :
    s' = s ∨ ∃ answer, world.effect i op s answer s' := by
  cases h with
  | returned effect => exact .inr ⟨_, effect⟩
  | lost error mayFail => exact .inl rfl
  | applied error mayFail effect => exact .inr ⟨_, effect⟩

theorem Answers.mayFail_of_failed {world : World ι σ Ans} {i : ι} {op : Op} {s s' : σ}
    {o : Outcome ε (Ans op)} (h : world.Answers ε i op s o s') (ho : o.Failed) :
    world.mayFail op := by
  cases h with
  | returned effect => exact ho.elim
  | lost error mayFail => exact mayFail
  | applied error mayFail effect => exact mayFail

/-- A call that does not fail takes effect. -/
theorem Answers.effect_of_sure {world : World ι σ Ans} {i : ι} {op : Op} {s s' : σ}
    {o : Outcome ε (Ans op)} (h : world.Answers ε i op s o s') (sure : ¬world.mayFail op) :
    ∃ answer, world.effect i op s answer s' := by
  cases h with
  | returned effect => exact ⟨_, effect⟩
  | lost error mayFail => exact (sure mayFail).elim
  | applied error mayFail effect => exact ⟨_, effect⟩

/-- An outcome the call can have in some state. -/
def Possible (ε : Type) (i : ι) (op : Op) (o : Outcome ε (Ans op)) : Prop :=
  ∃ s s', world.Answers ε i op s o s'

section Step

variable [DecidableEq ι]

/-- The configuration after caller `i` made its call `op` with outcome `o`. -/
def advance (config : Config ι σ Ans ε α) (i : ι) (op : Op)
    (next : Except ε (Ans op) → Program Ans ε α) (o : Outcome ε (Ans op)) (s' : σ) :
    Config ι σ Ans ε α where
  shared := s'
  threads := Function.update config.threads i (next o.result)
  trace := ⟨config.shared, i, op, o⟩ :: config.trace

/-- One caller makes its next call. -/
inductive Step : Config ι σ Ans ε α → Config ι σ Ans ε α → Prop
  | call {config i op next o s'} (thread : config.threads i = .call op next)
      (answers : world.Answers ε i op config.shared o s') :
      Step config (advance config i op next o s')

/-- The configurations of the runs from `start`. -/
def Reachable (start config : Config ι σ Ans ε α) : Prop :=
  Relation.ReflTransGen world.Step start config

variable {world} {start config : Config ι σ Ans ε α}

/-- What holds at the start and is kept by every step holds throughout every run. -/
theorem invariant (I : Config ι σ Ans ε α → Prop) (hstart : I start)
    (hstep : ∀ {c i op next o s'}, world.Reachable start c → I c →
      c.threads i = .call op next → world.Answers ε i op c.shared o s' →
      I (advance c i op next o s'))
    (h : world.Reachable start config) : I config := by
  induction h with
  | refl => exact hstart
  | tail hreach hlast ih =>
    cases hlast with
    | call thread answers => exact hstep hreach ih thread answers

theorem Reachable.step {c : Config ι σ Ans ε α} (h : world.Reachable start config)
    (hstep : world.Step config c) : world.Reachable start c :=
  Relation.ReflTransGen.tail h hstep

end Step

end World

end MemoFlowApi.Concurrency
