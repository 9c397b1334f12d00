import MemoFlowApi.Concurrency.View

/-!
# The Calls of One Caller

What a caller does next depends on its program and on what its own calls answered, whatever other
callers do.  `Program.Goes` relates a program to what is left of it after some calls.  A rule that
each call keeps relative to the earlier calls of its caller is a matter of the program alone: it is
proved with `ownSpec`, and holds of every call of every run (`World.each_of_own`).
-/

namespace MemoFlowApi.Concurrency

variable {ι σ Op : Type} {Ans : Op → Type} {ε α β : Type}

/-- A call with what its caller saw of it. -/
abbrev Call {Op : Type} (Ans : Op → Type) (ε : Type) := Σ op, Except ε (Ans op)

namespace Program

/-- A program makes some calls, and something is left of it. -/
inductive Goes : Program Ans ε α → List (Call Ans ε) → Program Ans ε α → Prop
  | refl (program) : Goes program [] program
  | call {op next answer calls left} (h : Goes (next answer) calls left) :
      Goes (call op next) (⟨op, answer⟩ :: calls) left

theorem Goes.bind {program : Program Ans ε α} {rest : α → Program Ans ε β} {value : α}
    {calls calls' : List (Call Ans ε)} {left : Program Ans ε β} (h : program.Goes calls (pure value))
    (hrest : (rest value).Goes calls' left) : (program >>= rest).Goes (calls ++ calls') left := by
  generalize hend : pure value = done at h
  induction h with
  | refl program =>
    subst hend
    exact hrest
  | call _ ih => exact .call (ih hend)

theorem Goes.bind_throw {program : Program Ans ε α} {rest : α → Program Ans ε β} {error : ε}
    {calls : List (Call Ans ε)} (h : program.Goes calls (throw error)) :
    (program >>= rest).Goes calls (throw error) := by
  generalize hend : throw error = done at h
  induction h with
  | refl program =>
    subst hend
    exact .refl _
  | call _ ih => exact .call (ih hend)

/-- A block that throws leaves the exception to its caller. -/
theorem Goes.attempt_throw {program : Program Ans ε α} {error : ε} {calls : List (Call Ans ε)}
    (h : program.Goes calls (throw error)) : program.attempt.Goes calls (pure (.error error)) := by
  generalize hend : throw error = done at h
  induction h with
  | refl program =>
    subst hend
    exact .refl _
  | call _ ih => exact .call (ih hend)

theorem Goes.of_bind {program : Program Ans ε α} {rest : α → Program Ans ε β} {value : β}
    {calls : List (Call Ans ε)} (h : (program >>= rest).Goes calls (pure value)) :
    ∃ middle made made', calls = made ++ made' ∧ program.Goes made (pure middle) ∧
      (rest middle).Goes made' (pure value) := by
  induction program generalizing calls with
  | pure middle => exact ⟨middle, [], calls, rfl, .refl _, h⟩
  | throw error => cases h
  | call op next ih =>
    cases h with
    | call h =>
      obtain ⟨middle, made, made', rfl, hmade, hrest⟩ := ih _ h
      exact ⟨middle, _ :: made, made', rfl, .call hmade, hrest⟩

theorem Goes.of_pure {calls : List (Call Ans ε)} {value value' : α}
    (h : (Pure.pure value : Program Ans ε α).Goes calls (pure value')) : calls = [] ∧ value = value' := by
  change (pure value : Program Ans ε α).Goes calls (pure value') at h
  cases h
  exact ⟨rfl, rfl⟩

/-- A call in a `try` block shows what it answered. -/
theorem goes_attempt_perform {op : Op} {calls : List (Call Ans ε)} {result : Except ε (Ans op)} :
    (perform op : Program Ans ε (Ans op)).attempt.Goes calls (pure result) ↔
      calls = [⟨op, result⟩] := by
  constructor
  · intro h
    cases h with
    | @call _ _ answer _ _ h => cases answer <;> cases h <;> rfl
  · rintro rfl
    cases result with
    | ok answer => exact .call (.refl _)
    | error error => exact .call (.refl _)

/-- A program goes one way along the calls of its caller. -/
theorem Goes.unique {program : Program Ans ε α} {calls calls' all : List (Call Ans ε)}
    {value value' : α} (h : program.Goes calls (pure value)) (h' : program.Goes calls' (pure value'))
    (hall : calls <+: all) (hall' : calls' <+: all) : calls = calls' ∧ value = value' := by
  induction program generalizing calls calls' all with
  | pure middle =>
    cases h
    cases h'
    exact ⟨rfl, rfl⟩
  | throw error => cases h
  | call op next ih =>
    cases h with
    | call h =>
      cases h' with
      | call h' =>
        cases all with
        | nil => exact absurd (List.prefix_nil.mp hall) (List.cons_ne_nil _ _)
        | cons call all =>
          obtain ⟨rfl, htail⟩ := List.cons_prefix_cons.mp hall
          obtain ⟨heq, htail'⟩ := List.cons_prefix_cons.mp hall'
          cases heq
          obtain ⟨rfl, rfl⟩ := ih _ h h' htail htail'
          exact ⟨rfl, rfl⟩

end Program

/-- Calls that obey a rule relative to the calls before them. -/
def ownSpec (rule : List (Call Ans ε) → Op → Prop) : CallSpec Ans ε (List (Call Ans ε)) where
  post calls op o P := rule calls op ∧ P (calls ++ [⟨op, o.result⟩])
  mono hP h := ⟨h.1, hP _ h.2⟩

namespace Program

variable {rule : List (Call Ans ε) → Op → Prop} {calls : List (Call Ans ε)}

theorem wp_ownSpec_perform {op : Op} {Q : Ans op → List (Call Ans ε) → Prop}
    {E : ε → List (Call Ans ε) → Prop} (hrule : rule calls op)
    (hQ : ∀ answer, Q answer (calls ++ [⟨op, .ok answer⟩]))
    (hE : ∀ error, E error (calls ++ [⟨op, .error error⟩])) :
    (perform op : Program Ans ε (Ans op)).wp (ownSpec rule) Q E calls := by
  rw [wp_perform]
  intro o
  cases o with
  | returned answer => exact ⟨hrule, hQ answer⟩
  | lost error => exact ⟨hrule, hE error⟩
  | applied error => exact ⟨hrule, hE error⟩

/-- A program that obeys the rule ends after the calls that it goes through. -/
theorem wp_goes {program : Program Ans ε α} {Q : α → List (Call Ans ε) → Prop}
    {E : ε → List (Call Ans ε) → Prop} (h : program.wp (ownSpec rule) Q E calls) :
    program.wp (ownSpec rule)
      (fun value calls' ↦ Q value calls' ∧ ∃ made, calls' = calls ++ made ∧ program.Goes made (pure value))
      E calls := by
  induction program generalizing calls with
  | pure value => exact ⟨h, [], (List.append_nil _).symm, .refl _⟩
  | throw error => exact h
  | call op next ih =>
    intro o
    refine ⟨(h o).1, wp_mono ?_ (fun _ _ h ↦ h) (ih o.result (h o).2)⟩
    rintro value _ ⟨hvalue, made, rfl, hmade⟩
    exact ⟨hvalue, ⟨op, o.result⟩ :: made, by simp, .call hmade⟩

/-- A block whose calls obey the rule wherever they are made obeys it. -/
theorem wp_ownSpec_of_only {program : Program Ans ε α} {allowed : Op → Prop}
    (only : program.Only allowed) (keep : ∀ op, allowed op → ∀ calls, rule calls op) :
    program.wp (ownSpec rule) (fun _ _ ↦ True) (fun _ _ ↦ True) calls :=
  wp_of_only only (fun op hop calls _ _ ↦ ⟨keep op hop calls, trivial⟩) trivial

end Program

/-- Calls that obey a rule relative to the calls before them, as long as all are of a kind. -/
def assumeSpec (legal : Call Ans ε → Prop) (rule : List (Call Ans ε) → Op → Prop) :
    CallSpec Ans ε (List (Call Ans ε)) where
  post calls op o P := rule calls op ∧ (legal ⟨op, o.result⟩ → P (calls ++ [⟨op, o.result⟩]))
  mono hP h := ⟨h.1, fun hlegal ↦ hP _ (h.2 hlegal)⟩

namespace Program

variable {legal : Call Ans ε → Prop} {rule : List (Call Ans ε) → Op → Prop}
  {calls made : List (Call Ans ε)}

theorem wp_assumeSpec_perform {op : Op} {Q : Ans op → List (Call Ans ε) → Prop}
    {E : ε → List (Call Ans ε) → Prop} (hrule : rule calls op)
    (hQ : ∀ answer, legal ⟨op, .ok answer⟩ → Q answer (calls ++ [⟨op, .ok answer⟩]))
    (hE : ∀ error, legal ⟨op, .error error⟩ → E error (calls ++ [⟨op, .error error⟩])) :
    (perform op : Program Ans ε (Ans op)).wp (assumeSpec legal rule) Q E calls := by
  rw [wp_perform]
  intro o
  cases o with
  | returned answer => exact ⟨hrule, hQ answer⟩
  | lost error => exact ⟨hrule, hE error⟩
  | applied error => exact ⟨hrule, hE error⟩

/-- A program that obeys a rule obeys it along the calls it makes, and what is left of it does. -/
theorem Goes.obeys {program left : Program Ans ε α} {Q : α → List (Call Ans ε) → Prop}
    {E : ε → List (Call Ans ε) → Prop} (h : program.Goes made left)
    (hlegal : ∀ call ∈ made, legal call)
    (hwp : program.wp (assumeSpec legal rule) Q E calls) :
    (∀ before call after, made = before ++ call :: after → rule (calls ++ before) call.1) ∧
      left.wp (assumeSpec legal rule) Q E (calls ++ made) := by
  induction h generalizing calls with
  | refl program =>
    refine ⟨fun before call after heq ↦ ?_, by rwa [List.append_nil]⟩
    exact absurd heq.symm (List.append_ne_nil_of_right_ne_nil _ (List.cons_ne_nil _ _))
  | @call op next answer made left h ih =>
    have hcall : rule calls op ∧ (legal ⟨op, answer⟩ →
        (next answer).wp (assumeSpec legal rule) Q E (calls ++ [⟨op, answer⟩])) := by
      cases answer with
      | ok answer => exact hwp (.returned answer)
      | error error => exact hwp (.lost error)
    obtain ⟨hrule, hnext⟩ := hcall
    obtain ⟨hmade, hleft⟩ := ih (fun call hcall ↦ hlegal call (List.mem_cons_of_mem _ hcall))
      (hnext (hlegal _ (List.mem_cons_self ..)))
    refine ⟨fun before call after heq ↦ ?_, by rwa [List.append_assoc] at hleft⟩
    cases before with
    | nil =>
      obtain ⟨rfl, rfl⟩ := List.cons.inj heq
      rwa [List.append_nil]
    | cons first before =>
      obtain ⟨rfl, htail⟩ := List.cons.inj heq
      have := hmade before call after htail
      rwa [List.append_assoc] at this

end Program

section Own

variable [DecidableEq ι]

/-- The calls of a caller in a trace, oldest first. -/
def ownCalls (i : ι) : List (Event ι σ Ans ε) → List (Call Ans ε)
  | [] => []
  | event :: earlier =>
    if event.caller = i then ownCalls i earlier ++ [⟨event.op, event.outcome.result⟩]
    else ownCalls i earlier

theorem ownCalls_cons_self (event : Event ι σ Ans ε) (trace : List (Event ι σ Ans ε)) :
    ownCalls event.caller (event :: trace) =
      ownCalls event.caller trace ++ [⟨event.op, event.outcome.result⟩] := if_pos rfl

theorem ownCalls_cons_of_ne {event : Event ι σ Ans ε} {i : ι} (h : event.caller ≠ i)
    (trace : List (Event ι σ Ans ε)) : ownCalls i (event :: trace) = ownCalls i trace := if_neg h

/-- A caller's calls grow. -/
theorem ownCalls_isPrefix (i : ι) (later trace : List (Event ι σ Ans ε)) :
    ownCalls i trace <+: ownCalls i (later ++ trace) := by
  induction later with
  | nil => exact List.prefix_rfl
  | cons event later ih =>
    by_cases hi : event.caller = i
    · subst hi
      rw [List.cons_append, ownCalls_cons_self]
      exact ih.trans (List.prefix_append _ _)
    · rw [List.cons_append, ownCalls_cons_of_ne hi]
      exact ih

theorem mem_ownCalls {i : ι} {call : Call Ans ε} {trace : List (Event ι σ Ans ε)} :
    call ∈ ownCalls i trace ↔
      ∃ event ∈ trace, event.caller = i ∧ (⟨event.op, event.outcome.result⟩ : Call Ans ε) = call := by
  induction trace with
  | nil => simp [ownCalls]
  | cons event trace ih =>
    simp only [List.mem_cons, or_and_right, exists_or, exists_eq_left]
    by_cases hi : event.caller = i
    · subst hi
      rw [ownCalls_cons_self, List.mem_append, ih, List.mem_singleton, or_comm]
      exact or_congr_left ⟨fun h ↦ ⟨rfl, h.symm⟩, fun h ↦ h.2.symm⟩
    · rw [ownCalls_cons_of_ne hi, ih]
      exact ⟨.inr, fun h ↦ h.resolve_left fun hself ↦ hi hself.1⟩

/-- A rule that each call keeps is kept along the calls of one caller. -/
theorem rule_of_ownCalls {rule : ι → List (Call Ans ε) → Op → Prop} {trace : List (Event ι σ Ans ε)}
    (h : EachCall (fun event earlier ↦ rule event.caller (ownCalls event.caller earlier) event.op) trace)
    {i : ι} {before after : List (Call Ans ε)} {call : Call Ans ε}
    (hcalls : ownCalls i trace = before ++ call :: after) : rule i before call.1 := by
  induction trace generalizing after with
  | nil => exact absurd hcalls.symm (List.append_ne_nil_of_right_ne_nil _ (List.cons_ne_nil _ _))
  | cons event trace ih =>
    by_cases hi : event.caller = i
    · subst hi
      rw [ownCalls_cons_self] at hcalls
      rcases List.eq_nil_or_concat after with rfl | ⟨front, last, rfl⟩
      · obtain ⟨rfl, heq⟩ := List.append_inj' hcalls rfl
        rw [← List.singleton_inj.mp heq]
        exact h.1
      · have hfront : before ++ call :: front.concat last = (before ++ call :: front) ++ [last] := by simp
        rw [hfront] at hcalls
        exact ih h.2 (List.append_inj' hcalls rfl).1
    · rw [ownCalls_cons_of_ne hi] at hcalls
      exact ih h.2 hcalls

theorem countP_ownCalls (p : Op → Bool) (i : ι) (trace : List (Event ι σ Ans ε)) :
    (ownCalls i trace).countP (p ·.1) = trace.countP fun event ↦ p event.op && decide (event.caller = i) := by
  induction trace with
  | nil => rfl
  | cons event trace ih =>
    rw [List.countP_cons]
    by_cases hi : event.caller = i
    · subst hi
      have hself : decide (event.caller = event.caller) = true := decide_eq_true rfl
      rw [ownCalls_cons_self, List.countP_append, ih, List.countP_singleton, hself, Bool.and_true]
    · rw [ownCalls_cons_of_ne hi, ih, decide_eq_false hi, Bool.and_false]
      rfl

namespace World

variable {world : World ι σ Ans} {start config : Config ι σ Ans ε α}

/-- A rule that every program keeps on its own calls is kept by every call of a run. -/
theorem each_of_own {rule : ι → List (Call Ans ε) → Op → Prop} {Q : ι → α → List (Call Ans ε) → Prop}
    {E : ι → ε → List (Call Ans ε) → Prop} (htrace : start.trace = [])
    (hstart : ∀ i, (start.threads i).wp (ownSpec (rule i)) (Q i) (E i) [])
    (h : world.Reachable start config) :
    EachCall (fun event earlier ↦ rule event.caller (ownCalls event.caller earlier) event.op)
        config.trace ∧
      ∀ i, (config.threads i).wp (ownSpec (rule i)) (Q i) (E i) (ownCalls i config.trace) := by
  refine World.invariant (fun c ↦
    EachCall (fun event earlier ↦ rule event.caller (ownCalls event.caller earlier) event.op) c.trace ∧
      ∀ i, (c.threads i).wp (ownSpec (rule i)) (Q i) (E i) (ownCalls i c.trace)) ?_ ?_ h
  · rw [htrace]
    exact ⟨trivial, hstart⟩
  · rintro c i op next o s' - ⟨heach, hconform⟩ hthread -
    have hcall := hconform i
    rw [hthread, Program.wp_call] at hcall
    obtain ⟨hrule, hnext⟩ := hcall o
    refine ⟨⟨hrule, heach⟩, fun j ↦ ?_⟩
    by_cases hj : j = i
    · subst hj
      simpa [advance, ownCalls] using hnext
    · simpa [advance, Function.update_of_ne hj, ownCalls, Ne.symm hj] using hconform j

end World

end Own

end MemoFlowApi.Concurrency
