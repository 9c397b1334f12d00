import MemoFlowApi.Connectors.Reads

/-!
# Whose Status a Row Has

A webhook or a lookup reports the status of one account, and the update addresses a row by id.  While
no reconnect binds the row to another account between the read and the update, every status of a row
was reported for the account that the row is bound to (`statuses_reported`).
-/

namespace MemoFlowApi.Connectors

open Concurrency

section Runs

variable {ι : Type}

/-- What Composio reported in a call. -/
def report (call : Call ι) : Option (AccountId × ConnectorStatus) :=
  match call with
  | ⟨_, _, .verifyWebhook _ _, .returned (some event)⟩ =>
      some (event.composioAccountId, event.status)
  | ⟨_, _, .getConnectionStatus account, .returned status⟩ => some (account, status)
  | _ => none

/-- The function whose call updated a row. -/
def writerOn (id : ConnectionId) (call : Call ι) : Option Writer :=
  match call.op with
  | .update writer id' _ => if id' = id ∧ call.outcome.TookEffect then some writer else none
  | _ => none

/-- The function that updated a row last. -/
def lastWriter (id : ConnectionId) (trace : List (Call ι)) : Option Writer :=
  trace.findSome? (writerOn id)

/-- Composio reported the status of every row for the account that the row is bound to, unless a row
is `initiated` or was revoked by its owner. -/
def StatusesReported (s : ConnectorState) (trace : List (Call ι)) : Prop :=
  ∀ id row account, s.row? id = some row → row.composioAccountId = some account →
    row.status = .active ∨ row.status = .failed ∨
      row.status = .revoked ∧ lastWriter id trace = some .applyStatus →
    (account, row.status) ∈ trace.filterMap report

/-- Where a webhook or a reconcile updates a row, no connect has bound the row to an account since
its request read it. -/
def Unswapped [DecidableEq ι] (call : Call ι) (earlier : List (Call ι)) : Prop :=
  match call.op with
  | .update .applyStatus id _ => call.outcome.TookEffect →
      ∀ other ∈ sinceRead call.caller earlier, accountBound id other = none
  | _ => True

instance [DecidableEq ι] (call : Call ι) (earlier : List (Call ι)) :
    Decidable (Unswapped call earlier) :=
  match call with
  | ⟨_, i, .update .applyStatus id _, o⟩ => inferInstanceAs (Decidable (o.TookEffect →
      ∀ other ∈ sinceRead i earlier, accountBound id other = none))
  | ⟨_, _, .update .upsertInitiated _ _, _⟩ | ⟨_, _, .update .revokeConnection _ _, _⟩
  | ⟨_, _, .findOne _, _⟩ | ⟨_, _, .find _, _⟩ | ⟨_, _, .insert _, _⟩
  | ⟨_, _, .verifyWebhook _ _, _⟩ | ⟨_, _, .getConnectionStatus _, _⟩
  | ⟨_, _, .initiateConnection _, _⟩ | ⟨_, _, .revoke _, _⟩ | ⟨_, _, .now, _⟩
  | ⟨_, _, .emit _, _⟩ => isTrue trivial

variable {s s' state : ConnectorState} {φ : ι → Knowledge} {trace : List (Call ι)} {i : ι} {op : Op}
  {o : Outcome ConnectorError (Ans op)} {id : ConnectionId}

theorem mem_reports_cons (call : Call ι) {entry : AccountId × ConnectorStatus}
    (h : entry ∈ trace.filterMap report) : entry ∈ (call :: trace).filterMap report := by
  rw [← List.singleton_append, List.filterMap_append]
  exact List.mem_append_right _ h

/-- A move hears only what Composio reports. -/
theorem Knows.reports_cases {φ φ' : Knowledge} (h : Knows φ op o φ')
    {entry : AccountId × ConnectorStatus} (mem : entry ∈ φ'.reports) :
    entry ∈ φ.reports ∨ report (⟨s, i, op, o⟩ : Call ι) = some entry := by
  cases h with
  | webhook =>
    rcases List.mem_cons.mp mem with rfl | hold
    · exact .inr rfl
    · exact .inl hold
  | lookup =>
    rcases List.mem_cons.mp mem with rfl | hold
    · exact .inr rfl
    · exact .inl hold
  | _ => exact .inl mem

/-- A call either leaves a row and its last writer, or updates it. -/
theorem rowAfter_cases (trace : List (Call ι)) (id : ConnectionId) (call : Call ι)
    (row : ConnectorConnection) :
    rowAfter id call row = row ∧ lastWriter id (call :: trace) = lastWriter id trace ∨
      ∃ writer patch, call.op = .update writer id patch ∧ call.outcome.TookEffect ∧
        rowAfter id call row = row.update patch ∧ lastWriter id (call :: trace) = some writer := by
  obtain ⟨s, i, op, o⟩ := call
  cases op
  case update writer id' patch =>
    by_cases h : id' = id ∧ o.TookEffect
    · right
      obtain ⟨rfl, hook⟩ := h
      refine ⟨writer, patch, rfl, hook, ?_, ?_⟩
      · rw [rowAfter_of_update hook, if_pos rfl]
      · simp [lastWriter, writerOn, hook]
    · left
      constructor
      · unfold rowAfter patchOn
        simp only [if_neg h]
      · simp [lastWriter, writerOn, h]
  all_goals exact .inl ⟨rfl, rfl⟩

variable [DecidableEq ι]

/-- What Composio reported is known along a run, and statuses are about accounts. -/
structure Reporting (s : ConnectorState) (φ : ι → Knowledge) (trace : List (Call ι)) : Prop where
  reading : Reading s φ trace
  heard : ∀ {i entry}, entry ∈ (φ i).reports → entry ∈ trace.filterMap report
  statuses : EachCall Unswapped trace → StatusesReported s trace

theorem Reporting.step (h : Reporting s φ trace) {φ' : Knowledge}
    (answers : (world ι).Answers ConnectorError i op s o s') (knows : Knows (φ i) op o φ') :
    Reporting s' (Function.update φ i φ') (⟨s, i, op, o⟩ :: trace) := by
  constructor
  case reading => exact h.reading.step answers knows
  case heard =>
    intro k entry hentry
    by_cases hk : k = i
    · subst hk
      rw [Function.update_self] at hentry
      rcases knows.reports_cases (s := s) (i := k) hentry with hold | hnew
      · exact mem_reports_cons _ (h.heard hold)
      · exact List.mem_filterMap.mpr ⟨_, List.mem_cons_self, hnew⟩
    · rw [Function.update_of_ne hk] at hentry
      exact mem_reports_cons _ (h.heard hentry)
  case statuses =>
    rintro ⟨hunswapped, hearlier⟩ id row' account hrow' haccount hstatus
    rcases row_before answers hrow' with ⟨row, hrow, rfl⟩ | ⟨-, data, rfl, rfl⟩
    · rcases rowAfter_cases trace id (⟨s, i, op, o⟩ : Call ι) row with
        ⟨hsame, hwriter⟩ | ⟨writer, patch, hop, hook, hupdated, hwriter⟩
      · rw [hsame] at haccount hstatus ⊢
        rw [hwriter] at hstatus
        exact mem_reports_cons _ (h.statuses hearlier id row account hrow haccount hstatus)
      · obtain rfl : op = .update writer id patch := hop
        rw [hupdated] at haccount hstatus ⊢
        rw [hwriter] at hstatus
        cases knows with
        | @apply rows connection bound' _ _ read mem going bound reported kept =>
          have hcurrent := h.reading.current read mem
          obtain rfl := Option.some.inj (hcurrent.symm.trans hrow)
          have hsame : (rowSince connection.id (sinceRead i trace) connection).composioAccountId =
              some bound' := by
            rw [rowSince_account (hunswapped hook), bound]
          simp only [ConnectorConnection.update, kept, hsame] at haccount
          obtain rfl : bound' = account := Option.some.inj haccount
          exact mem_reports_cons _ (h.heard reported)
        | reset => simp [ConnectorConnection.update, UpsertInitiatedData.patch] at hstatus
        | revoke => simp [ConnectorConnection.update] at hstatus
        | silent silent => cases silent
        | fail failed reads => exact (reads _ _ _ rfl).elim
    · simp [UpsertInitiatedData.create] at hstatus

/-- In every run from rows that are `initiated` in which no row is bound to another account between a
request's read and its update, every status is about the row's current account. -/
theorem statuses_reported {requests : ι → Request} {config : System ι}
    (h : System.Reaches state requests config)
    (initiated : ∀ id row, state.row? id = some row → row.status = .initiated)
    (unswapped : EachCall Unswapped config.trace) :
    StatusesReported config.shared config.trace := by
  obtain ⟨φ, hrun⟩ := h.exists_knowledgeRun
  have hinv : Reporting config.shared φ config.trace := by
    refine hrun.invariant (fun s φ trace ↦ Reporting s φ trace) (fun _ ↦ True)
      ⟨Reading.start state, by simp, ?_⟩ ?_ fun _ _ ↦ trivial
    · rintro - id row account hrow - hstatus
      simp [initiated id row hrow] at hstatus
    · intro s φ trace i op o s' φ' hinv _ answers knows
      exact hinv.step answers knows
  exact hinv.statuses unswapped

end Runs

/-! ## A webhook and a reconnect -/

def webhookAndReconnect : Fin 2 → Request
  | 0 => aWebhook
  | 1 => .connect ⟨"user", .notion⟩

/-- A reconnect makes its next calls; Composio's new account is `new`. -/
def reconnects (count : ℕ) : List (Move (Fin 2) Reply ConnectorError) :=
  List.replicate count ⟨1, { account := "new", status := some "INITIATED" }, .returned ()⟩

def delivers (count : ℕ) : List (Move (Fin 2) Reply ConnectorError) :=
  List.replicate count ⟨0, reportsActive, .returned ()⟩

/-- The row is rebound between the webhook's read and its update. -/
theorem not_statusesReported_swapped :
    ∃ config, System.Reaches oneConnection webhookAndReconnect config ∧
      ¬ StatusesReported config.shared config.trace := by
  have hreplay : (machine.replay (System.start oneConnection webhookAndReconnect)
      (delivers 2 ++ reconnects 7 ++ delivers 5)).map (fun config ↦
        ((config.shared.row? "connection").map fun row ↦ (row.composioAccountId, row.status),
          config.trace.filterMap report)) =
      some (some (some "new", .active), [("old", .active)]) := by decide
  obtain ⟨config, hreach, hview⟩ := machine.exists_reachable hreplay
  obtain ⟨hrow, hreports⟩ := Prod.mk.inj hview
  refine ⟨config, hreach, fun hreported ↦ ?_⟩
  obtain ⟨row, hrow, hfields⟩ := Option.map_eq_some_iff.mp hrow
  obtain ⟨haccount, hstatus⟩ := Prod.mk.inj hfields
  have hmem := hreported _ row "new" hrow haccount (.inl hstatus)
  rw [hreports, hstatus] at hmem
  revert hmem
  decide

/-- A webhook that is handled before the reconnect is about the row's account. -/
theorem statuses_reported_active :
    ∃ config, System.Reaches oneConnection webhookAndReconnect config ∧
      (config.shared.row? "connection").map (·.status) = some .active ∧
      StatusesReported config.shared config.trace := by
  have hreplay : (machine.replay (System.start oneConnection webhookAndReconnect)
      (delivers 7)).map (fun config ↦ ((config.shared.row? "connection").map (·.status),
        decide (EachCall Unswapped config.trace))) = some (some .active, true) := by decide
  obtain ⟨config, hreach, hview⟩ := machine.exists_reachable hreplay
  obtain ⟨hactive, hunswapped⟩ := Prod.mk.inj hview
  refine ⟨config, hreach, hactive, statuses_reported hreach ?_ (of_decide_eq_true hunswapped)⟩
  intro id row hrow
  obtain ⟨hmem, -⟩ := ConnectionTable.row?_eq_some.mp hrow
  obtain rfl := List.mem_singleton.mp hmem
  rfl

end MemoFlowApi.Connectors
