import MemoFlowApi.Concurrency.Run

/-!
# Executable Worlds

A `Machine` is a world whose answers are computed from a reply, the part of an answer that is not
determined by the shared state (a clock reading, the answer of an external service).  Its runs can
be replayed from a script of moves, each naming a caller, the reply to its next call and whether
the call fails.  Every replay is a run (`Machine.reachable_of_replay`), so a concrete schedule is
checked by evaluating it.
-/

namespace MemoFlowApi.Concurrency

variable {ι σ ρ Op : Type} {Ans : Op → Type} {ε α : Type}

/-- A world given by computation.  A call without answer is blocked. -/
structure Machine (σ ρ : Type) {Op : Type} (Ans : Op → Type) where
  answer : ρ → (op : Op) → σ → Option (Ans op × σ)
  mayFail : Op → Bool

/-- One entry of a script: who makes a call, the reply to it, and its fate. -/
structure Move (ι ρ ε : Type) where
  caller : ι
  reply : ρ
  fate : Outcome ε Unit := .returned ()

/-- Scripts name their callers by literals; with this instance a literal holds no proof of its own. -/
instance neZero_one : @NeZero Nat Zero.ofOfNat0 1 := ⟨by decide⟩

instance neZero_two : @NeZero Nat Zero.ofOfNat0 2 := ⟨by decide⟩

namespace Machine

variable (machine : Machine σ ρ Ans)

/-- The world whose effects are the answers to all replies. -/
def world : World ι σ Ans where
  effect _ op s answer s' := ∃ reply, machine.answer reply op s = some (answer, s')
  mayFail op := machine.mayFail op = true

/-- The outcome of a call under a reply and a fate, with the state it leaves. -/
def outcome (reply : ρ) (fate : Outcome ε Unit) (op : Op) (s : σ) :
    Option (Outcome ε (Ans op) × σ) :=
  match fate with
  | .returned () => (machine.answer reply op s).map fun (answer, s') ↦ (.returned answer, s')
  | .lost error => if machine.mayFail op then some (.lost error, s) else none
  | .applied error =>
      if machine.mayFail op then
        (machine.answer reply op s).map fun (_, s') ↦ (.applied error, s')
      else none

theorem answers_of_outcome {i : ι} {reply : ρ} {fate : Outcome ε Unit} {op : Op} {s s' : σ}
    {o : Outcome ε (Ans op)} (h : machine.outcome reply fate op s = some (o, s')) :
    (machine.world : World ι σ Ans).Answers ε i op s o s' := by
  cases fate with
  | returned done =>
    simp only [outcome, Option.map_eq_some_iff, Prod.mk.injEq, Prod.exists] at h
    obtain ⟨answer, _, hanswer, rfl, rfl⟩ := h
    exact .returned ⟨reply, hanswer⟩
  | lost error =>
    simp only [outcome, Option.ite_none_right_eq_some, Option.some.injEq, Prod.mk.injEq] at h
    obtain ⟨hfail, rfl, rfl⟩ := h
    exact .lost error hfail
  | applied error =>
    simp only [outcome, Option.ite_none_right_eq_some, Option.map_eq_some_iff, Prod.mk.injEq,
      Prod.exists] at h
    obtain ⟨hfail, answer, _, hanswer, rfl, rfl⟩ := h
    exact .applied error hfail ⟨reply, hanswer⟩

section Replay

variable [DecidableEq ι]

/-- Let the caller of a move make its next call. -/
def move (config : Config ι σ Ans ε α) (entry : Move ι ρ ε) : Option (Config ι σ Ans ε α) :=
  match config.threads entry.caller with
  | .call op next =>
      (machine.outcome entry.reply entry.fate op config.shared).map fun (o, s') ↦
        World.advance config entry.caller op next o s'
  | _ => none

/-- Make all moves of a script, oldest first. -/
def replay : Config ι σ Ans ε α → List (Move ι ρ ε) → Option (Config ι σ Ans ε α)
  | config, [] => some config
  | config, entry :: script => (machine.move config entry).bind fun middle ↦ replay middle script

theorem step_of_move {config config' : Config ι σ Ans ε α} {entry : Move ι ρ ε}
    (h : machine.move config entry = some config') : machine.world.Step config config' := by
  unfold move at h
  split at h
  · next op next hthread =>
    simp only [Option.map_eq_some_iff, Prod.exists] at h
    obtain ⟨o, s', houtcome, rfl⟩ := h
    exact .call hthread (machine.answers_of_outcome houtcome)
  · cases h

theorem reachable_of_replay {config config' : Config ι σ Ans ε α} {script : List (Move ι ρ ε)}
    (h : machine.replay config script = some config') :
    machine.world.Reachable config config' := by
  induction script generalizing config with
  | nil =>
    simp only [replay, Option.some.injEq] at h
    exact h ▸ Relation.ReflTransGen.refl
  | cons entry script ih =>
    simp only [replay, Option.bind_eq_some_iff] at h
    obtain ⟨middle, hmove, hrest⟩ := h
    exact Relation.ReflTransGen.head (machine.step_of_move hmove) (ih hrest)

/-- A property computed from the end of a replay holds in a reachable configuration. -/
theorem exists_reachable {β : Type} {config : Config ι σ Ans ε α} {script : List (Move ι ρ ε)}
    {view : Config ι σ Ans ε α → β} {value : β}
    (h : (machine.replay config script).map view = some value) :
    ∃ config', machine.world.Reachable config config' ∧ view config' = value := by
  obtain ⟨config', hreplay, hview⟩ := Option.map_eq_some_iff.mp h
  exact ⟨config', machine.reachable_of_replay hreplay, hview⟩

end Replay

end Machine

end MemoFlowApi.Concurrency
