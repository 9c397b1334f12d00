import Mathlib.Data.List.Basic
import MemoFlowApi.Concurrency.Typestate

/-!
# Programs at the Same Time

`Program.all` runs a list of programs at the same time within one caller and waits for all of them.
The schedule says whose call comes next; every order of the calls is some schedule.

A property of one program survives the calls of the others where the calls are monotone: a state
that knows more allows the same calls and leads to states that know more (`CallSpec.Monotone`).
Programs that each follow such a specification follow it together (`Program.Follows.all`).
-/

namespace MemoFlowApi.Concurrency

variable {Op : Type} {Ans : Op → Type} {ε α S Φ : Type}

namespace Program

/-- Run programs one after the other, each to its end. -/
def settleAll : List (Program Ans ε α) → Program Ans ε (List (Except ε α))
  | [] => pure []
  | program :: programs => program.attempt.bind fun result ↦
      (settleAll programs).bind fun results ↦ pure (result :: results)

/-- Run programs at the same time, in the order of a schedule of their calls. -/
def interleave : List ℕ → List (Program Ans ε α) → Program Ans ε (List (Except ε α))
  | [], programs => settleAll programs
  | k :: schedule, programs =>
      match programs[k]? with
      | some (call op next) =>
          call op fun answer ↦ interleave schedule (programs.set k (next answer))
      | _ => interleave schedule programs

/-- The values of programs run at the same time, or the first of their exceptions. -/
def all (schedule : List ℕ) (programs : List (Program Ans ε α)) : Program Ans ε (List α) := do
  let results ← interleave schedule programs
  match results.mapM fun result ↦ result with
  | .ok values => pure values
  | .error error => throw error

/-- Every call of a program is allowed by a specification. -/
def Follows (spec : CallSpec Ans ε S) (program : Program Ans ε α) (s : S) : Prop :=
  program.wp spec (fun _ _ ↦ True) (fun _ _ ↦ True) s

end Program

/-- Calls on states ordered by what they know.  The order may leave out states: it is reflexive on
those from which programs run at the same time. -/
structure CallSpec.Monotone (spec : CallSpec Ans ε S) (le : S → S → Prop) : Prop where
  extend : ∀ {s op o} {P : S → Prop}, le s s → spec.post s op o P →
    spec.post s op o fun s' ↦ le s s' ∧ le s' s' ∧ P s'
  simulate : ∀ {s t op o} {P : S → Prop}, le s t → (∀ {u v}, le u v → P u → P v) →
    spec.post s op o P → spec.post t op o P

/-- A typestate is monotone if its moves can be made from phases that know more. -/
theorem Typestate.monotone_spec {T : Typestate Ans ε Φ}
    {possible : (op : Op) → Outcome ε (Ans op) → Prop} {le : Φ → Φ → Prop}
    (extend : ∀ {φ op o φ'}, le φ φ → T.Next φ op o φ' → le φ φ' ∧ le φ' φ')
    (simulate : ∀ {φ ψ op o φ'}, le φ ψ → T.Next φ op o φ' → ∃ ψ', T.Next ψ op o ψ' ∧ le φ' ψ') :
    (T.spec possible).Monotone le := by
  constructor
  · intro φ op o P hφ h hpossible
    obtain ⟨φ', hnext, hP⟩ := h hpossible
    obtain ⟨hle, hφ'⟩ := extend hφ hnext
    exact ⟨φ', hnext, hle, hφ', hP⟩
  · intro φ ψ op o P hle hP h hpossible
    obtain ⟨φ', hnext, hφ'⟩ := h hpossible
    obtain ⟨ψ', hnext', hle'⟩ := simulate hle hnext
    exact ⟨ψ', hnext', hP hle' hφ'⟩

namespace Program

variable {spec : CallSpec Ans ε S} {le : S → S → Prop} {s t : S}

theorem Follows.mono (monotone : spec.Monotone le) {program : Program Ans ε α} (hle : le s t)
    (h : program.Follows spec s) : program.Follows spec t := by
  induction program generalizing s t with
  | pure value => trivial
  | throw error => trivial
  | call op next ih =>
    intro o
    exact monotone.simulate hle (fun hle' h' ↦ ih o.result hle' h') (h o)

theorem Follows.settleAll (monotone : spec.Monotone le) {programs : List (Program Ans ε α)}
    (hs : le s s) (h : ∀ program ∈ programs, program.Follows spec s) :
    (settleAll programs).Follows spec s := by
  induction programs generalizing s with
  | nil => trivial
  | cons program programs ih =>
    have hprogram := h program List.mem_cons_self
    have hrest : ∀ other ∈ programs, other.Follows spec s :=
      fun other hother ↦ h other (List.mem_cons_of_mem _ hother)
    clear h
    change (program.attempt >>= fun result ↦ Program.settleAll programs >>= fun results ↦
      Pure.pure (result :: results)).wp spec _ _ s
    rw [wp_bind, wp_attempt]
    have hcontinue : ∀ {t}, le t t → (∀ other ∈ programs, other.Follows spec t) →
        ∀ result, (Program.settleAll programs >>= fun results ↦
          Pure.pure (result :: results)).Follows spec t := by
      intro t ht hothers result
      unfold Follows
      rw [wp_bind]
      exact ih ht hothers
    induction program generalizing s with
    | pure value => exact hcontinue hs hrest (.ok value)
    | throw error => exact hcontinue hs hrest (.error error)
    | call op next ih' =>
      intro o
      refine spec.mono ?_ (monotone.extend hs (hprogram o))
      rintro s' ⟨hle, hs', hnext⟩
      exact ih' o.result hs' hnext fun other hother ↦ (hrest other hother).mono monotone hle

/-- Programs that each follow a monotone specification follow it at the same time. -/
theorem Follows.interleave (monotone : spec.Monotone le) (schedule : List ℕ)
    {programs : List (Program Ans ε α)} (hs : le s s)
    (h : ∀ program ∈ programs, program.Follows spec s) :
    (interleave schedule programs).Follows spec s := by
  induction schedule generalizing programs s with
  | nil => exact Follows.settleAll monotone hs h
  | cons k schedule ih =>
    rw [Program.interleave]
    split
    · next op next hk =>
      intro o
      have hcall := h _ (List.mem_of_getElem? hk) o
      refine spec.mono ?_ (monotone.extend hs hcall)
      rintro s' ⟨hle, hs', hnext⟩
      refine ih hs' fun other hother ↦ ?_
      rcases List.mem_or_eq_of_mem_set hother with hmem | rfl
      · exact (h other hmem).mono monotone hle
      · exact hnext
    · exact ih hs h

theorem Follows.all (monotone : spec.Monotone le) (schedule : List ℕ)
    {programs : List (Program Ans ε α)} (hs : le s s)
    (h : ∀ program ∈ programs, program.Follows spec s) :
    (all schedule programs).Follows spec s := by
  unfold Program.all Follows
  rw [wp_bind]
  refine wp_mono (fun results s' _ ↦ ?_) (fun _ _ _ ↦ trivial)
    (Follows.interleave monotone schedule hs h)
  cases results.mapM fun result ↦ result with
  | ok values => trivial
  | error error => trivial

end Program

end MemoFlowApi.Concurrency
