import MemoFlowApi.Concurrency.Run

/-!
# One Caller among Others

A program that needs facts about the shared state is verified against a `View` of a run: the part
of the shared state and of the trace that its proof is about.  Where the calls of all other callers
keep the view, what one caller's program does to it is a matter of that program alone
(`World.wp_of_reachable`), and `Program.wp` applies with `viewSpec` as the meaning of calls.

`Program.Only` bounds the calls of a program.  A block whose calls all keep the state of a
`CallSpec` is passed in one step (`Program.wp_of_only`), whatever it computes.
-/

namespace MemoFlowApi.Concurrency

variable {ι σ Op V S : Type} {Ans : Op → Type} {ε α β : Type}

namespace Program

/-- A program all of whose calls are allowed. -/
def Only (allowed : Op → Prop) : Program Ans ε α → Prop
  | pure _ => True
  | throw _ => True
  | call op next => allowed op ∧ ∀ answer, (next answer).Only allowed

variable {allowed : Op → Prop}

@[simp]
theorem only_pure (value : α) : (pure value : Program Ans ε α).Only allowed ↔ True := Iff.rfl

@[simp]
theorem only_pure' (value : α) : (Pure.pure value : Program Ans ε α).Only allowed ↔ True := Iff.rfl

@[simp]
theorem only_throw (error : ε) : (throw error : Program Ans ε α).Only allowed ↔ True := Iff.rfl

@[simp]
theorem only_perform (op : Op) : (perform op : Program Ans ε (Ans op)).Only allowed ↔ allowed op := by
  constructor
  · intro h
    exact h.1
  · intro h
    refine ⟨h, fun answer ↦ ?_⟩
    cases answer <;> trivial

theorem Only.bind {program : Program Ans ε α} {rest : α → Program Ans ε β}
    (h : program.Only allowed) (hrest : ∀ value, (rest value).Only allowed) :
    (program >>= rest).Only allowed := by
  change (program.bind rest).Only allowed
  induction program with
  | pure value => exact hrest value
  | throw error => trivial
  | call op next ih => exact ⟨h.1, fun answer ↦ ih answer (h.2 answer)⟩

theorem Only.attempt {program : Program Ans ε α} (h : program.Only allowed) :
    program.attempt.Only allowed := by
  induction program with
  | pure value => trivial
  | throw error => trivial
  | call op next ih => exact ⟨h.1, fun answer ↦ ih answer (h.2 answer)⟩

/-- What every allowed call keeps holds however a program of such calls ends. -/
theorem wp_of_only {spec : CallSpec Ans ε S} {program : Program Ans ε α} {I : S → Prop} {s : S}
    (only : program.Only allowed) (keep : ∀ op, allowed op → ∀ s o, I s → spec.post s op o I)
    (hs : I s) : program.wp spec (fun _ ↦ I) (fun _ ↦ I) s := by
  induction program generalizing s with
  | pure value => exact hs
  | throw error => exact hs
  | call op next ih =>
    intro o
    exact spec.mono (fun s' hs' ↦ ih o.result (only.2 o.result) hs') (keep op only.1 s o hs)

/-- What every call keeps holds however a program ends. -/
theorem wp_of_kept {spec : CallSpec Ans ε S} (program : Program Ans ε α) {I : S → Prop} {s : S}
    (keep : ∀ op s o, I s → spec.post s op o I) (hs : I s) :
    program.wp spec (fun _ ↦ I) (fun _ ↦ I) s := by
  induction program generalizing s with
  | pure value => exact hs
  | throw error => exact hs
  | call op next ih =>
    intro o
    exact spec.mono (fun s' hs' ↦ ih o.result hs') (keep op s o hs)

end Program

namespace World

variable (world : World ι σ Ans) (view : σ → List (Event ι σ Ans ε) → V)

/-- What a call of caller `i` may do to a view of the run. -/
def viewSpec (i : ι) : CallSpec Ans ε V where
  post v op o P := ∀ s trace s', view s trace = v → world.Answers ε i op s o s' →
    P (view s' (⟨s, i, op, o⟩ :: trace))
  mono hP h s trace s' hv answers := hP _ (h s trace s' hv answers)

variable {world view} [DecidableEq ι]

/-- While all other callers keep the view, what is left of caller `i`'s program takes the view as
it is to what the whole program guarantees. -/
theorem wp_of_reachable {start config : Config ι σ Ans ε α} {i : ι} {Q : α → V → Prop}
    {E : ε → V → Prop} {allowed : ι → Op → Prop}
    (others : ∀ j, j ≠ i → (start.threads j).Only (allowed j))
    (keep : ∀ j op, allowed j op → ∀ s o s' trace, world.Answers ε j op s o s' →
      view s' (⟨s, j, op, o⟩ :: trace) = view s trace)
    (hstart : (start.threads i).wp (world.viewSpec view i) Q E (view start.shared start.trace))
    (h : world.Reachable start config) :
    (config.threads i).wp (world.viewSpec view i) Q E (view config.shared config.trace) := by
  have hinv := World.invariant (fun c ↦
    (c.threads i).wp (world.viewSpec view i) Q E (view c.shared c.trace) ∧
      ∀ j, j ≠ i → (c.threads j).Only (allowed j)) ⟨hstart, others⟩ ?_ h
  · exact hinv.1
  · rintro c j op next o s' - ⟨hwp, honly⟩ hthread hanswers
    by_cases hj : j = i
    · subst hj
      rw [hthread, Program.wp_call] at hwp
      refine ⟨?_, fun k hk ↦ ?_⟩
      · simpa [advance] using hwp o _ _ _ rfl hanswers
      · simpa [advance, Function.update_of_ne hk] using honly k hk
    · have hcall := honly j hj
      rw [hthread] at hcall
      refine ⟨?_, fun k hk ↦ ?_⟩
      · have hview := keep j op hcall.1 c.shared o s' c.trace hanswers
        simpa [advance, Function.update_of_ne (Ne.symm hj), hview] using hwp
      · by_cases hkj : k = j
        · subst hkj
          simpa [advance] using hcall.2 o.result
        · simpa [advance, Function.update_of_ne hkj] using honly k hk

end World

end MemoFlowApi.Concurrency
