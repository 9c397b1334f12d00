import MemoFlowApi.Concurrency.Run

/-!
# Typestates of Concurrent Callers

Interleaved programs are verified in two halves.  A `Typestate` is a small automaton over calls
and their outcomes: it names the phases of a caller and says which calls each phase allows.  That a
program follows its automaton is a property of the program alone, proved by `Program.wp` with no
reference to the shared state.

`World.Tracked` then describes the runs of the whole system with every program replaced by its
phase.  Each run of conforming programs is tracked (`exists_tracked`), so an invariant relating the
shared state, the phases and the trace of all tracked runs (`Tracked.invariant`) holds of every run
of the programs.
-/

namespace MemoFlowApi.Concurrency

variable {ι σ Op : Type} {Ans : Op → Type} {ε α Φ : Type}

/-- An automaton over calls and outcomes.  A phase without successor forbids the call; where
there are several, a program's proof chooses. -/
structure Typestate (Ans : Op → Type) (ε Φ : Type) where
  Next : Φ → (op : Op) → Outcome ε (Ans op) → Φ → Prop

namespace Typestate

variable {T : Typestate Ans ε Φ} {possible : (op : Op) → Outcome ε (Ans op) → Prop}

/-- Following the automaton, for the outcomes that can occur. -/
def spec (T : Typestate Ans ε Φ) (possible : (op : Op) → Outcome ε (Ans op) → Prop) :
    CallSpec Ans ε Φ where
  post φ op o P := possible op o → ∃ φ', T.Next φ op o φ' ∧ P φ'
  mono hP h hpossible := by
    obtain ⟨φ', hnext, hφ'⟩ := h hpossible
    exact ⟨φ', hnext, hP φ' hφ'⟩

/-- To make a call in a phase, name a next phase for every possible outcome. -/
theorem wp_perform {op : Op} {Q : Ans op → Φ → Prop} {E : ε → Φ → Prop} {φ : Φ}
    (hreturned : ∀ answer, possible op (.returned answer) →
      ∃ φ', T.Next φ op (.returned answer) φ' ∧ Q answer φ')
    (hlost : ∀ error, possible op (.lost error) → ∃ φ', T.Next φ op (.lost error) φ' ∧ E error φ')
    (happlied : ∀ error, possible op (.applied error) →
      ∃ φ', T.Next φ op (.applied error) φ' ∧ E error φ') :
    (Program.perform op : Program Ans ε (Ans op)).wp (T.spec possible) Q E φ := by
  rw [Program.wp_perform]
  intro o hpossible
  cases o with
  | returned answer => exact hreturned answer hpossible
  | lost error => exact hlost error hpossible
  | applied error => exact happlied error hpossible

end Typestate

namespace World

/-- A call that does not fail returns. -/
theorem wp_answered {world : World ι σ Ans} {T : Typestate Ans ε Φ} {i : ι} {op : Op}
    {Q : Ans op → Φ → Prop} {E : ε → Φ → Prop} {φ : Φ} (sure : ¬world.mayFail op)
    (returned : ∀ answer, ∃ φ', T.Next φ op (.returned answer) φ' ∧ Q answer φ') :
    (Program.perform op : Program Ans ε (Ans op)).wp (T.spec (world.Possible ε i)) Q E φ := by
  have himpossible : ∀ {o : Outcome ε (Ans op)}, o.Failed → ¬world.Possible ε i op o := by
    rintro o hfailed ⟨s, s', answers⟩
    exact sure (answers.mayFail_of_failed hfailed)
  refine Typestate.wp_perform (fun answer _ ↦ returned answer) (fun error possible ↦ ?_)
    (fun error possible ↦ ?_)
  · exact (himpossible (o := .lost error) trivial possible).elim
  · exact (himpossible (o := .applied error) trivial possible).elim

variable [DecidableEq ι] (world : World ι σ Ans) (T : ι → Typestate Ans ε Φ)

/-- Runs of the system in which every caller is known by its phase only. -/
inductive Tracked (s₀ : σ) (φ₀ : ι → Φ) : σ → (ι → Φ) → List (Event ι σ Ans ε) → Prop
  | start : Tracked s₀ φ₀ s₀ φ₀ []
  | step {s φ trace i op o s' φ'} (run : Tracked s₀ φ₀ s φ trace)
      (answers : world.Answers ε i op s o s') (next : (T i).Next (φ i) op o φ') :
      Tracked s₀ φ₀ s' (Function.update φ i φ') (⟨s, i, op, o⟩ :: trace)

variable {world T}

/-- Runs of conforming programs are tracked, and what remains of each program conforms to its
caller's phase. -/
theorem exists_tracked {start config : Config ι σ Ans ε α} {φ₀ : ι → Φ}
    {Q : ι → α → Φ → Prop} {E : ι → ε → Φ → Prop} (htrace : start.trace = [])
    (hstart : ∀ i, (start.threads i).wp ((T i).spec (world.Possible ε i)) (Q i) (E i) (φ₀ i))
    (h : world.Reachable start config) :
    ∃ φ, world.Tracked T start.shared φ₀ config.shared φ config.trace ∧
      ∀ i, (config.threads i).wp ((T i).spec (world.Possible ε i)) (Q i) (E i) (φ i) := by
  refine World.invariant (fun c ↦ ∃ φ, world.Tracked T start.shared φ₀ c.shared φ c.trace ∧
    ∀ i, (c.threads i).wp ((T i).spec (world.Possible ε i)) (Q i) (E i) (φ i)) ?_ ?_ h
  · exact ⟨φ₀, htrace ▸ Tracked.start, hstart⟩
  · rintro c i op next o s' - ⟨φ, hrun, hconform⟩ hthread hanswers
    have hcall := hconform i
    rw [hthread, Program.wp_call] at hcall
    obtain ⟨φ', hnext, hrest⟩ := hcall o ⟨_, _, hanswers⟩
    refine ⟨Function.update φ i φ', hrun.step hanswers hnext, fun j ↦ ?_⟩
    by_cases hj : j = i
    · subst hj
      simpa [advance] using hrest
    · simpa [advance, Function.update_of_ne hj] using hconform j

namespace Tracked

variable {s₀ s : σ} {φ₀ φ : ι → Φ} {trace : List (Event ι σ Ans ε)}

/-- The induction rule for tracked runs whose events all satisfy a condition. -/
theorem invariant (I : σ → (ι → Φ) → List (Event ι σ Ans ε) → Prop)
    (condition : Event ι σ Ans ε → Prop) (hstart : I s₀ φ₀ [])
    (hstep : ∀ {s φ trace i op o s' φ'}, I s φ trace → condition ⟨s, i, op, o⟩ →
      world.Answers ε i op s o s' → (T i).Next (φ i) op o φ' →
      I s' (Function.update φ i φ') (⟨s, i, op, o⟩ :: trace))
    (h : world.Tracked T s₀ φ₀ s φ trace) (hcondition : ∀ event ∈ trace, condition event) :
    I s φ trace := by
  induction h with
  | start => exact hstart
  | step run answers next ih =>
    have htail := ih fun event hevent ↦ hcondition event (List.mem_cons_of_mem _ hevent)
    exact hstep htail (hcondition _ List.mem_cons_self) answers next

/-- A caller that has made no call is in its initial phase. -/
theorem phase_of_not_started {i : ι} (h : world.Tracked T s₀ φ₀ s φ trace)
    (hi : ∀ event ∈ trace, event.caller ≠ i) : φ i = φ₀ i := by
  induction h with
  | start => rfl
  | step run answers next ih =>
    have hne := hi _ List.mem_cons_self
    rw [Function.update_of_ne (Ne.symm hne)]
    exact ih fun event hevent ↦ hi event (List.mem_cons_of_mem _ hevent)

end Tracked

end World

end MemoFlowApi.Concurrency
