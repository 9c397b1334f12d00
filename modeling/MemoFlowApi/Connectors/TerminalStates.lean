import MemoFlowApi.Connectors.Reads

/-!
# Terminal States of a Connection

The guard of `applyStatus` looks at the row that was read, and its update addresses the row by id.
A revoked or failed row keeps its status up to a fresh connect exactly in those runs in which no
other request writes a terminal status between that read and the update, and no failed row is revoked
(`terminal_kept_iff`).
-/

namespace MemoFlowApi.Connectors

open Concurrency

section Runs

variable {ι : Type} [DecidableEq ι]

/-- A terminal row changes its status only by a fresh connect. -/
def KeepsTerminal (step : Call ι × ConnectorState) : Prop :=
  ∀ id row row', step.1.before.row? id = some row → row.status.Terminal →
    step.2.row? id = some row' → row'.status ≠ row.status →
    ∃ patch, step.1.op = .update .upsertInitiated id patch

/-- Where a webhook or a reconcile updates a row, the last status written to the row since its
request read it is not a terminal one other than it writes; a row that is revoked is not failed. -/
def Timely (call : Call ι) (earlier : List (Call ι)) : Prop :=
  match call.op with
  | .update .applyStatus id patch => call.outcome.TookEffect →
      ∀ status ∈ lastStatus id (sinceRead call.caller earlier),
        status.Terminal → status = patch.status
  | .update .revokeConnection id _ => call.outcome.TookEffect →
      ∀ row ∈ call.before.row? id, row.status ≠ .failed
  | _ => True

instance (call : Call ι) (earlier : List (Call ι)) : Decidable (Timely call earlier) :=
  match call with
  | ⟨_, i, .update .applyStatus id patch, o⟩ => inferInstanceAs (Decidable (o.TookEffect →
      ∀ status ∈ lastStatus id (sinceRead i earlier), status.Terminal → status = patch.status))
  | ⟨s, _, .update .revokeConnection id _, o⟩ => inferInstanceAs (Decidable (o.TookEffect →
      ∀ row ∈ s.row? id, row.status ≠ .failed))
  | ⟨_, _, .update .upsertInitiated _ _, _⟩ | ⟨_, _, .findOne _, _⟩ | ⟨_, _, .find _, _⟩
  | ⟨_, _, .insert _, _⟩ | ⟨_, _, .verifyWebhook _ _, _⟩ | ⟨_, _, .getConnectionStatus _, _⟩
  | ⟨_, _, .initiateConnection _, _⟩ | ⟨_, _, .revoke _, _⟩ | ⟨_, _, .now, _⟩
  | ⟨_, _, .emit _, _⟩ => isTrue trivial

variable {s s' state : ConnectorState} {φ : ι → Knowledge} {trace : List (Call ι)} {i : ι} {op : Op}
  {o : Outcome ConnectorError (Ans op)}

/-- A call that does not update keeps all rows and has nothing to be timely about. -/
theorem keepsTerminal_of_not_update (trace : List (Call ι))
    (answers : (world ι).Answers ConnectorError i op s o s')
    (h : ∀ writer id patch, op = .update writer id patch → ¬ o.TookEffect) :
    KeepsTerminal (⟨s, i, op, o⟩, s') ∧ Timely (⟨s, i, op, o⟩ : Call ι) trace := by
  constructor
  · intro id row row' hrow _ hrow' hne
    have hafter := row_after answers hrow
    rw [rowAfter_of_not_update h] at hafter
    obtain rfl := Option.some.inj (hafter.symm.trans hrow')
    exact (hne rfl).elim
  · unfold Timely
    split
    · next hop => exact fun effective ↦ (h _ _ _ hop effective).elim
    · next hop => exact fun effective ↦ (h _ _ _ hop effective).elim
    · trivial

/-- A webhook or reconcile keeps a terminal state if and only if none was written since it read. -/
theorem Reading.keepsTerminal_iff_of_apply (h : Reading s φ trace)
    {patch : UpdateConnectorStatusData} {o : Outcome ConnectorError Unit}
    {rows : List ConnectorConnection} {connection : ConnectorConnection}
    (read : (φ i).read = some rows) (mem : connection ∈ rows)
    (going : ¬ connection.status.Terminal)
    (answers : (world ι).Answers ConnectorError i (.update .applyStatus connection.id patch) s o s')
    (effective : o.TookEffect) :
    KeepsTerminal (⟨s, i, .update .applyStatus connection.id patch, o⟩, s') ↔
      Timely (⟨s, i, .update .applyStatus connection.id patch, o⟩ : Call ι) trace := by
  have hcurrent := h.current read mem
  have hstatus : (rowSince connection.id (sinceRead i trace) connection).status =
      (lastStatus connection.id (sinceRead i trace)).getD connection.status := rowSince_status
  constructor
  · intro hkeeps _ status hlast hterminal
    have hlast : lastStatus connection.id (sinceRead i trace) = some status := hlast
    rw [hlast, Option.getD_some] at hstatus
    by_contra hne
    have hafter := row_after answers hcurrent
    rw [rowAfter_of_update effective, if_pos rfl] at hafter
    obtain ⟨_, hupsert⟩ := hkeeps _ _ _ hcurrent (hstatus ▸ hterminal) hafter
      (by rw [hstatus]; exact Ne.symm hne)
    cases hupsert
  · intro htimely id row row' hrow hterminal hrow' hne
    have hafter := updated_row answers effective hrow hrow'
    by_cases hid : connection.id = id
    · subst hid
      rw [if_pos rfl] at hafter
      obtain rfl := Option.some.inj (hcurrent.symm.trans hrow)
      cases hlast : lastStatus connection.id (sinceRead i trace) with
      | none =>
        rw [hlast, Option.getD_none] at hstatus
        exact (going (hstatus ▸ hterminal)).elim
      | some status =>
        rw [hlast, Option.getD_some] at hstatus
        have hsame := htimely effective status hlast (hstatus ▸ hterminal)
        exact (hne (by rw [hafter, hstatus, hsame]; rfl)).elim
    · rw [if_neg hid] at hafter
      exact (hne (by rw [hafter])).elim

/-- `RevokeConnection` keeps a terminal state if and only if the row is not failed. -/
theorem keepsTerminal_iff_of_revoke {id : ConnectionId} {o : Outcome ConnectorError Unit}
    (answers : (world ι).Answers ConnectorError i
      (.update .revokeConnection id { status := .revoked }) s o s') (effective : o.TookEffect) :
    KeepsTerminal (⟨s, i, .update .revokeConnection id { status := .revoked }, o⟩, s') ↔
      Timely (⟨s, i, .update .revokeConnection id { status := .revoked }, o⟩ : Call ι) trace := by
  constructor
  · intro hkeeps _ row hrow hfailed
    have hrow : s.row? id = some row := hrow
    have hafter := row_after answers hrow
    rw [rowAfter_of_update effective, if_pos rfl] at hafter
    obtain ⟨_, hupsert⟩ := hkeeps _ _ _ hrow (.inr hfailed) hafter (by rw [hfailed]; nofun)
    cases hupsert
  · intro htimely id' row row' hrow hterminal hrow' hne
    have hafter := updated_row answers effective hrow hrow'
    by_cases hid : id = id'
    · subst hid
      rw [if_pos rfl] at hafter
      rcases hterminal with hrevoked | hfailed
      · exact (hne (by rw [hafter, hrevoked]; rfl)).elim
      · exact (htimely effective row hrow hfailed).elim
    · rw [if_neg hid] at hafter
      exact (hne (by rw [hafter])).elim

/-- One call keeps terminal states if and only if it is timely. -/
theorem Reading.keepsTerminal_iff (h : Reading s φ trace) {φ' : Knowledge}
    (answers : (world ι).Answers ConnectorError i op s o s') (knows : Knows (φ i) op o φ') :
    KeepsTerminal (⟨s, i, op, o⟩, s') ↔ Timely (⟨s, i, op, o⟩ : Call ι) trace := by
  by_cases hupdate : ∀ writer id patch, op = .update writer id patch → ¬ o.TookEffect
  · obtain ⟨hkeeps, htimely⟩ := keepsTerminal_of_not_update trace answers hupdate
    exact iff_of_true hkeeps htimely
  push Not at hupdate
  obtain ⟨writer, id, patch, rfl, effective⟩ := hupdate
  cases knows with
  | apply read mem going bound reported kept =>
    exact h.keepsTerminal_iff_of_apply read mem going answers effective
  | reset =>
    refine iff_of_true ?_ ?_
    · intro id' row row' hrow _ hrow' hne
      have hafter := updated_row answers effective hrow hrow'
      by_cases hid : id = id'
      · exact ⟨_, by rw [hid]⟩
      · rw [if_neg hid] at hafter
        exact (hne (by rw [hafter])).elim
    · trivial
  | revoke => exact keepsTerminal_iff_of_revoke answers effective
  | silent silent => cases silent
  | fail failed reads => exact (reads _ _ _ rfl).elim

/-- In every run, terminal states are kept by all calls if and only if all calls are timely. -/
theorem KnowledgeRun.keepsTerminal_iff (h : KnowledgeRun state s φ trace) :
    (∀ step ∈ stepsOf s trace, KeepsTerminal step) ↔ EachCall Timely trace := by
  have hinv : Reading s φ trace ∧
      ((∀ step ∈ stepsOf s trace, KeepsTerminal step) ↔ EachCall Timely trace) := by
    refine h.invariant (fun s φ trace ↦ Reading s φ trace ∧
      ((∀ step ∈ stepsOf s trace, KeepsTerminal step) ↔ EachCall Timely trace)) (fun _ ↦ True)
      ⟨Reading.start state, ?_⟩ ?_ fun _ _ ↦ trivial
    · exact iff_of_true (by simp) trivial
    · rintro s φ trace i op o s' φ' ⟨hreading, hiff⟩ - answers knows
      refine ⟨hreading.step answers knows, ?_⟩
      rw [stepsOf_cons, List.forall_mem_cons, hreading.keepsTerminal_iff answers knows, hiff]
      rfl
  exact hinv.2

/-- A revoked or failed connection changes its status by fresh connects only, if and only if all
updates of the run are timely. -/
theorem terminal_kept_iff {requests : ι → Request} {config : System ι}
    (h : System.Reaches state requests config) :
    (∀ step ∈ stepsOf config.shared config.trace, KeepsTerminal step) ↔
      EachCall Timely config.trace := by
  obtain ⟨φ, hrun⟩ := h.exists_knowledgeRun
  exact hrun.keepsTerminal_iff

end Runs

/-! ## A webhook and a revocation -/

def webhookAndRevocation : Fin 2 → Request
  | 0 => aWebhook
  | 1 => .revoke "connection" "user"

/-- A step in which another call than a fresh connect changes a terminal status. -/
def Revives (step : Call (Fin 2) × ConnectorState) : Bool :=
  match step.1.before.row? "connection", step.2.row? "connection", step.1.op with
  | some row, some row', .update .applyStatus _ _ =>
      decide (row.status.Terminal ∧ row'.status ≠ row.status)
  | _, _, _ => false

theorem not_keepsTerminal_of_revives {step : Call (Fin 2) × ConnectorState}
    (h : Revives step = true) : ¬ KeepsTerminal step := by
  unfold Revives at h
  split at h
  · next row row' id patch hrow hrow' hop =>
    obtain ⟨hterminal, hne⟩ := of_decide_eq_true h
    intro hkeeps
    obtain ⟨_, hupsert⟩ := hkeeps _ row row' hrow hterminal hrow' hne
    rw [hop] at hupsert
    cases hupsert
  · cases h

/-- The webhook reads the row before it is revoked, and writes after. -/
def revivingSchedule : List (Move (Fin 2) Reply ConnectorError) :=
  List.replicate 2 ⟨0, reportsActive, .returned ()⟩ ++
    List.replicate 7 ⟨1, { status := some "INITIATED" }, .returned ()⟩ ++
    List.replicate 5 ⟨0, {}, .returned ()⟩

/-- The revoked connection is active again. -/
theorem not_keepsTerminal_webhook :
    ∃ config, System.Reaches oneConnection webhookAndRevocation config ∧
      ¬ ∀ step ∈ stepsOf config.shared config.trace, KeepsTerminal step := by
  have hreplay : (machine.replay (System.start oneConnection webhookAndRevocation)
      revivingSchedule).map (fun config ↦
        (stepsOf config.shared config.trace).any Revives) = some true := by decide
  obtain ⟨config, hreach, hview⟩ := machine.exists_reachable hreplay
  obtain ⟨step, hstep, hrevives⟩ := List.any_eq_true.mp hview
  exact ⟨config, hreach, fun hkeeps ↦ not_keepsTerminal_of_revives hrevives (hkeeps step hstep)⟩

/-- The webhook reads the row after it was revoked, and leaves it. -/
def lateSchedule : List (Move (Fin 2) Reply ConnectorError) :=
  List.replicate 7 ⟨1, { status := some "INITIATED" }, .returned ()⟩ ++
    List.replicate 2 ⟨0, reportsActive, .returned ()⟩

theorem terminal_kept_late :
    ∃ config, System.Reaches oneConnection webhookAndRevocation config ∧
      (∀ k, (config.threads k).Finished) ∧
      ∀ step ∈ stepsOf config.shared config.trace, KeepsTerminal step := by
  have hreplay : (machine.replay (System.start oneConnection webhookAndRevocation)
      lateSchedule).map (fun config ↦ (decide (∀ k, (config.threads k).Finished),
        decide (EachCall Timely config.trace))) = some (true, true) := by decide
  obtain ⟨config, hreach, hview⟩ := machine.exists_reachable hreplay
  obtain ⟨hfinished, htimely⟩ := Prod.mk.inj hview
  exact ⟨config, hreach, of_decide_eq_true hfinished,
    (terminal_kept_iff hreach).mpr (of_decide_eq_true htimely)⟩

end MemoFlowApi.Connectors
