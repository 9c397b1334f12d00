import MemoFlowApi.Concurrency.Replay

/-!
# Sessions

A machine that tells its callers apart, such as a database with a transaction for each of them.  Its
runs are replayed from scripts like those of a `Machine`.
-/

namespace MemoFlowApi.Concurrency

variable {ι σ ρ Op : Type} {Ans : Op → Type} {ε α : Type}

/-- A world given by computation, whose answers depend on the caller. -/
structure Sessions (ι σ ρ : Type) {Op : Type} (Ans : Op → Type) where
  answer : ι → ρ → (op : Op) → σ → Option (Ans op × σ)
  mayFail : Op → Bool

namespace Sessions

variable (sessions : Sessions ι σ ρ Ans)

/-- The machine that a caller sees. -/
def machine (i : ι) : Machine σ ρ Ans := ⟨sessions.answer i, sessions.mayFail⟩

/-- The world whose effects are the answers to all replies. -/
def world : World ι σ Ans where
  effect i op s answer s' := ∃ reply, sessions.answer i reply op s = some (answer, s')
  mayFail op := sessions.mayFail op = true

theorem answers_of_machine {i : ι} {op : Op} {s s' : σ} {o : Outcome ε (Ans op)}
    (h : ((sessions.machine i).world : World ι σ Ans).Answers ε i op s o s') :
    sessions.world.Answers ε i op s o s' := by
  cases h with
  | returned effect => exact .returned effect
  | lost error mayFail => exact .lost error mayFail
  | applied error mayFail effect => exact .applied error mayFail effect

variable [DecidableEq ι]

/-- Make all moves of a script, oldest first. -/
def replay : Config ι σ Ans ε α → List (Move ι ρ ε) → Option (Config ι σ Ans ε α)
  | config, [] => some config
  | config, entry :: script =>
      ((sessions.machine entry.caller).move config entry).bind fun middle ↦ replay middle script

theorem step_of_move {config config' : Config ι σ Ans ε α} {entry : Move ι ρ ε}
    (h : (sessions.machine entry.caller).move config entry = some config') :
    sessions.world.Step config config' := by
  unfold Machine.move at h
  split at h
  · next op next hthread =>
    simp only [Option.map_eq_some_iff, Prod.exists] at h
    obtain ⟨o, s', houtcome, rfl⟩ := h
    exact .call hthread (sessions.answers_of_machine (Machine.answers_of_outcome _ houtcome))
  · cases h

theorem reachable_of_replay {config config' : Config ι σ Ans ε α} {script : List (Move ι ρ ε)}
    (h : sessions.replay config script = some config') :
    sessions.world.Reachable config config' := by
  induction script generalizing config with
  | nil =>
    simp only [replay, Option.some.injEq] at h
    exact h ▸ Relation.ReflTransGen.refl
  | cons entry script ih =>
    simp only [replay, Option.bind_eq_some_iff] at h
    obtain ⟨middle, hmove, hrest⟩ := h
    exact Relation.ReflTransGen.head (sessions.step_of_move hmove) (ih hrest)

/-- A property computed from the end of a replay holds in a reachable configuration. -/
theorem exists_reachable {β : Type} {config : Config ι σ Ans ε α} {script : List (Move ι ρ ε)}
    {view : Config ι σ Ans ε α → β} {value : β}
    (h : (sessions.replay config script).map view = some value) :
    ∃ config', sessions.world.Reachable config config' ∧ view config' = value := by
  obtain ⟨config', hreplay, hview⟩ := Option.map_eq_some_iff.mp h
  exact ⟨config', sessions.reachable_of_replay hreplay, hview⟩

end Sessions

end MemoFlowApi.Concurrency
