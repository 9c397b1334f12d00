import MemoFlowApi.Concurrency.View

/-!
# The Steps of a Run

A trace records the state before each call, and `stepsOf` pairs each call with the state after it.
An invariant of states and of the steps that led to them holds along the whole trace, not only at its
end (`World.each_invariant`).
-/

namespace MemoFlowApi.Concurrency

variable {ι σ Op : Type} {Ans : Op → Type} {ε α : Type}

theorem EachCall.at {P : Event ι σ Ans ε → List (Event ι σ Ans ε) → Prop}
    {later earlier : List (Event ι σ Ans ε)} {event : Event ι σ Ans ε}
    (h : EachCall P (later ++ event :: earlier)) : P event earlier := by
  induction later with
  | nil => exact h.1
  | cons first later ih => exact ih h.2

/-- Every call of a trace left some state. -/
theorem exists_mem_stepsOf {s : σ} {trace : List (Event ι σ Ans ε)} {event : Event ι σ Ans ε}
    (h : event ∈ trace) : ∃ s', (event, s') ∈ stepsOf s trace := by
  induction trace generalizing s with
  | nil => cases h
  | cons first trace ih =>
    rw [stepsOf_cons]
    rcases List.mem_cons.mp h with rfl | h
    · exact ⟨s, List.mem_cons_self⟩
    · obtain ⟨s', hs'⟩ := ih (s := first.before) h
      exact ⟨s', List.mem_cons_of_mem _ hs'⟩

theorem mem_of_mem_stepsOf {s : σ} {trace : List (Event ι σ Ans ε)} {step : Event ι σ Ans ε × σ}
    (h : step ∈ stepsOf s trace) : step.1 ∈ trace :=
  (List.of_mem_zip h).1

/-- A relation between each call and all calls before it is one between all pairs. -/
theorem EachCall.pairwise {P : Event ι σ Ans ε → Event ι σ Ans ε → Prop}
    {trace : List (Event ι σ Ans ε)}
    (h : EachCall (fun event earlier ↦ ∀ event' ∈ earlier, P event event') trace) : trace.Pairwise P := by
  induction trace with
  | nil => exact List.Pairwise.nil
  | cons event trace ih => exact List.pairwise_cons.mpr ⟨h.1, ih h.2⟩

/-- A relation between the steps of a kind and all steps before them is one between all pairs. -/
theorem pairwise_stepsOf {Q : Event ι σ Ans ε × σ → Prop}
    {P : Event ι σ Ans ε × σ → Event ι σ Ans ε × σ → Prop} {s : σ} {trace : List (Event ι σ Ans ε)}
    (hQ : ∀ step ∈ stepsOf s trace, Q step)
    (h : EachCall (fun event earlier ↦
      ∀ s', Q (event, s') → ∀ step ∈ stepsOf event.before earlier, P (event, s') step) trace) :
    (stepsOf s trace).Pairwise P := by
  induction trace generalizing s with
  | nil => exact List.Pairwise.nil
  | cons event trace ih =>
    rw [stepsOf_cons] at hQ ⊢
    obtain ⟨hfirst, hrest⟩ := List.forall_mem_cons.mp hQ
    exact List.pairwise_cons.mpr ⟨h.1 s hfirst, ih hrest h.2⟩

namespace World

variable [DecidableEq ι] {world : World ι σ Ans} {start config : Config ι σ Ans ε α}

/-- What every step keeps holds at the end of a run and at each of its calls. -/
theorem each_invariant {J : σ → List (Event ι σ Ans ε) → Prop} (htrace : start.trace = [])
    (hstart : J start.shared [])
    (hstep : ∀ {s trace i op o s'}, J s trace → world.Answers ε i op s o s' →
      J s' (⟨s, i, op, o⟩ :: trace))
    (h : world.Reachable start config) :
    J config.shared config.trace ∧
      EachCall (fun event earlier ↦ J event.before earlier) config.trace := by
  refine World.invariant (fun c ↦ J c.shared c.trace ∧
    EachCall (fun event earlier ↦ J event.before earlier) c.trace) ?_ ?_ h
  · rw [htrace]
    exact ⟨hstart, trivial⟩
  · rintro c i op next o s' - ⟨hJ, heach⟩ - answers
    exact ⟨hstep hJ answers, hJ, heach⟩

/-- Callers make only the calls of their programs. -/
theorem only_of_reachable {allowed : ι → Op → Prop} (htrace : start.trace = [])
    (only : ∀ i, (start.threads i).Only (allowed i)) (h : world.Reachable start config) :
    ∀ event ∈ config.trace, allowed event.caller event.op := by
  have hinv := World.invariant (fun c ↦ (∀ event ∈ c.trace, allowed event.caller event.op) ∧
    ∀ i, (c.threads i).Only (allowed i)) ?_ ?_ h
  · exact hinv.1
  · rw [htrace]
    exact ⟨by rintro _ ⟨⟩, only⟩
  · rintro c i op next o s' - ⟨hevents, honly⟩ hthread -
    have hcall := honly i
    rw [hthread] at hcall
    refine ⟨List.forall_mem_cons.mpr ⟨hcall.1, hevents⟩, fun j ↦ ?_⟩
    by_cases hj : j = i
    · subst hj
      simpa [advance] using hcall.2 o.result
    · simpa [advance, Function.update_of_ne hj] using honly j

end World

end MemoFlowApi.Concurrency
