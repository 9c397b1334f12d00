import MemoFlowApi.Connectors.UseCases

/-!
# Effects on Connections

What a call does to the stored rows: an `UPDATE` patches one row, an `INSERT` adds the row of a fresh
connect, and every other call leaves the table as it is.  What a run does to one row is the
composition of the patches of its calls (`rowSince`).
-/

namespace MemoFlowApi.Connectors

open Concurrency

section Effect

variable {ι : Type} {i : ι} {s s' : ConnectorState} {op : Op}
  {o : Outcome ConnectorError (Ans op)} {id : ConnectionId} {row row' : ConnectorConnection}

/-- The patch of an effective update of a row. -/
def patchOn (id : ConnectionId) (call : Call ι) : Option UpdateConnectorStatusData :=
  match call.op with
  | .update _ id' patch => if id' = id ∧ call.outcome.TookEffect then some patch else none
  | _ => none

theorem patchOn_eq_some {call : Call ι} {patch : UpdateConnectorStatusData}
    (h : patchOn id call = some patch) :
    ∃ writer, call.op = .update writer id patch ∧ call.outcome.TookEffect := by
  unfold patchOn at h
  split at h
  · next hop =>
    split at h
    · next hcond =>
      obtain rfl := Option.some.inj h
      exact ⟨_, hcond.1 ▸ hop, hcond.2⟩
    · cases h
  · cases h

/-- A row after a call. -/
def rowAfter (id : ConnectionId) (call : Call ι) (row : ConnectorConnection) :
    ConnectorConnection :=
  match patchOn id call with
  | none => row
  | some patch => row.update patch

/-- What a call does to the table. -/
theorem table_after (answers : (world ι).Answers ConnectorError i op s o s') :
    s'.table = s.table ∧ (∀ id, patchOn id (⟨s, i, op, o⟩ : Call ι) = none) ∨
      (∃ writer id patch, op = .update writer id patch ∧ o.TookEffect ∧
        s'.table = s.table.update id patch) ∨
      ∃ data id freshId freshUserProvider, op = .insert data ∧
        s'.table = s.table.insert (data.create id) freshId freshUserProvider := by
  have heffect : ∀ {a : Ans op}, (world ι).effect i op s a s' → o.TookEffect →
      s'.table = s.table ∧ (∀ id, patchOn id (⟨s, i, op, o⟩ : Call ι) = none) ∨
        (∃ writer id patch, op = .update writer id patch ∧ o.TookEffect ∧
          s'.table = s.table.update id patch) ∨
        ∃ data id freshId freshUserProvider, op = .insert data ∧
          s'.table = s.table.insert (data.create id) freshId freshUserProvider := by
    rintro a ⟨reply, h⟩ hook
    cases op
    case update writer id patch =>
      obtain ⟨-, rfl⟩ := Prod.mk.inj (Option.some.inj h)
      exact .inr (.inl ⟨writer, id, patch, rfl, hook, rfl⟩)
    case insert data =>
      change s.insert (data.create reply.id) = _ at h
      unfold ConnectorState.insert at h
      split at h
      · split at h
        · next freshUserProvider freshId =>
          obtain ⟨-, rfl⟩ := Prod.mk.inj (Option.some.inj h)
          exact .inr (.inr ⟨data, reply.id, freshId, freshUserProvider, rfl, rfl⟩)
        · cases h
      · obtain ⟨-, rfl⟩ := Prod.mk.inj (Option.some.inj h)
        exact .inl ⟨rfl, fun _ ↦ rfl⟩
    case findOne criteria =>
      simp only [answer] at h
      split at h
      · obtain ⟨-, rfl⟩ := Prod.mk.inj (Option.some.inj h)
        exact .inl ⟨rfl, fun _ ↦ rfl⟩
      · obtain ⟨_, -, hrow⟩ := Option.map_eq_some_iff.mp h
        obtain ⟨-, rfl⟩ := Prod.mk.inj hrow
        exact .inl ⟨rfl, fun _ ↦ rfl⟩
    case initiateConnection input =>
      simp only [answer, Option.ite_none_left_eq_some, Option.some.injEq, Prod.mk.injEq] at h
      obtain ⟨-, -, rfl⟩ := h
      exact .inl ⟨rfl, fun _ ↦ rfl⟩
    all_goals
      have htable : some s.table = some s'.table :=
        congrArg (Option.map fun answered : _ × ConnectorState ↦ answered.2.table) h
      exact .inl ⟨(Option.some.inj htable).symm, fun _ ↦ rfl⟩
  cases answers with
  | returned effect => exact heffect effect trivial
  | lost error mayFail =>
    refine .inl ⟨rfl, fun id ↦ ?_⟩
    unfold patchOn
    split
    · exact if_neg fun h ↦ h.2
    · rfl
  | applied error mayFail effect => exact heffect effect trivial

/-- A stored row stays stored, and only its updates change it. -/
theorem row_after (answers : (world ι).Answers ConnectorError i op s o s')
    (found : s.row? id = some row) : s'.row? id = some (rowAfter id ⟨s, i, op, o⟩ row) := by
  unfold ConnectorState.row? at found ⊢
  unfold rowAfter
  rcases table_after answers with ⟨htable, hnone⟩ | ⟨writer, id', patch, rfl, hook, htable⟩ |
    ⟨data, id', freshId, freshUserProvider, rfl, htable⟩
  · rw [htable, hnone, found]
  · rw [htable, ConnectionTable.update_row?, found, patchOn]
    by_cases hid : id = id'
    · simp [hid, hook]
    · simp [hid, Ne.symm hid]
  · have hid : id' ≠ id := by
      rintro rfl
      obtain ⟨hmem, hid⟩ := ConnectionTable.row?_eq_some.mp found
      exact freshId (List.mem_map.mpr ⟨row, hmem, hid⟩)
    rw [htable, ConnectionTable.insert_row?, if_neg (by exact hid), found]
    rfl

/-- A row that is stored after a call was stored before, or is the row of a fresh connect. -/
theorem row_before (answers : (world ι).Answers ConnectorError i op s o s')
    (found : s'.row? id = some row') :
    (∃ row, s.row? id = some row ∧ row' = rowAfter id ⟨s, i, op, o⟩ row) ∨
      s.row? id = none ∧ ∃ data, op = .insert data ∧ row' = data.create id := by
  cases hrow : s.row? id with
  | some row =>
    rw [row_after answers hrow, Option.some.injEq] at found
    exact .inl ⟨row, rfl, found.symm⟩
  | none =>
    refine .inr ⟨rfl, ?_⟩
    unfold ConnectorState.row? at found hrow
    rcases table_after answers with ⟨htable, -⟩ | ⟨writer, id', patch, rfl, hook, htable⟩ |
      ⟨data, id', freshId, freshUserProvider, rfl, htable⟩
    · rw [htable, hrow] at found
      cases found
    · rw [htable, ConnectionTable.update_row?, hrow] at found
      cases found
    · rw [htable, ConnectionTable.insert_row?, hrow] at found
      split at found
      · next hid =>
        obtain rfl : id' = id := hid
        exact ⟨data, rfl, (Option.some.inj found).symm⟩
      · cases found

/-- A query answers with a row that is stored and matches. -/
theorem found_of_findOne {criteria : Criteria}
    (answers : (world ι).Answers ConnectorError i (.findOne criteria) s (.returned (some row)) s') :
    s.row? row.id = some row ∧ criteria.Matches row = true ∧ s' = s := by
  cases answers with
  | returned effect =>
    obtain ⟨reply, h⟩ := effect
    simp only [answer] at h
    split at h
    · cases h
    · obtain ⟨found, hfound, hanswer⟩ := Option.map_eq_some_iff.mp h
      obtain ⟨hrow, rfl⟩ := Prod.mk.inj hanswer
      cases hrow
      obtain ⟨hmem, hmatches⟩ := List.mem_filter.mp (List.mem_of_getElem? hfound)
      exact ⟨ConnectionTable.row?_eq_some.mpr ⟨hmem, rfl⟩, hmatches, rfl⟩

theorem found_of_find {userId : UserId} {rows : List ConnectorConnection}
    (answers : (world ι).Answers ConnectorError i (.find userId) s (.returned rows) s')
    (mem : row ∈ rows) : s.row? row.id = some row := by
  cases answers with
  | returned effect =>
    obtain ⟨reply, h⟩ := effect
    obtain ⟨rfl, -⟩ := Prod.mk.inj (Option.some.inj h)
    exact ConnectionTable.row?_eq_some.mpr ⟨List.mem_of_mem_filter mem, rfl⟩

/-- What a call does to the accounts at Composio. -/
theorem accounts_after (answers : (world ι).Answers ConnectorError i op s o s') :
    s'.accounts = s.accounts ∨ ∃ account, account ≠ "" ∧ account ∉ s.accounts ∧
      s'.accounts = account :: s.accounts := by
  rcases answers.unchanged_or_effect with rfl | ⟨a, reply, h⟩
  · exact .inl rfl
  cases op
  case initiateConnection input =>
    simp only [answer, Option.ite_none_left_eq_some, Option.some.injEq, Prod.mk.injEq, not_or] at h
    obtain ⟨⟨hempty, hfresh⟩, -, rfl⟩ := h
    exact .inr ⟨_, hempty, hfresh, rfl⟩
  case insert data =>
    change s.insert (data.create reply.id) = _ at h
    unfold ConnectorState.insert at h
    split at h
    · split at h
      · obtain ⟨-, rfl⟩ := Prod.mk.inj (Option.some.inj h)
        exact .inl rfl
      · cases h
    · obtain ⟨-, rfl⟩ := Prod.mk.inj (Option.some.inj h)
      exact .inl rfl
  case findOne criteria =>
    simp only [answer] at h
    split at h
    · obtain ⟨-, rfl⟩ := Prod.mk.inj (Option.some.inj h)
      exact .inl rfl
    · obtain ⟨_, -, hrow⟩ := Option.map_eq_some_iff.mp h
      obtain ⟨-, rfl⟩ := Prod.mk.inj hrow
      exact .inl rfl
  all_goals
    have haccounts : some s.accounts = some s'.accounts :=
      congrArg (Option.map fun answered : _ × ConnectorState ↦ answered.2.accounts) h
    exact .inl (Option.some.inj haccounts).symm

/-- The account of a connection that Composio initiated is new. -/
theorem created_of_initiateConnection {input : InitiateConnectionInput}
    {result : InitiateConnectionResult}
    (answers : (world ι).Answers ConnectorError i (.initiateConnection input) s (.returned result)
      s') : result.composioAccountId ∉ s.accounts ∧ result.composioAccountId ∈ s'.accounts := by
  cases answers with
  | returned effect =>
    obtain ⟨reply, h⟩ := effect
    simp only [answer, Option.ite_none_left_eq_some, Option.some.injEq, Prod.mk.injEq, not_or] at h
    obtain ⟨⟨-, hfresh⟩, rfl, rfl⟩ := h
    exact ⟨hfresh, List.mem_cons_self⟩

end Effect

/-! ## Rows along a run -/

section Run

variable {ι : Type}

/-- A row after calls, newest first. -/
def rowSince (id : ConnectionId) (calls : List (Call ι)) (row : ConnectorConnection) :
    ConnectorConnection :=
  calls.foldr (rowAfter id) row

/-- The status that a call writes to a row. -/
def statusWritten (id : ConnectionId) (call : Call ι) : Option ConnectorStatus :=
  (patchOn id call).map (·.status)

/-- The account that a call binds a row to. -/
def accountBound (id : ConnectionId) (call : Call ι) : Option AccountId :=
  (patchOn id call).bind (·.composioAccountId)

/-- The last status that calls, newest first, wrote to a row. -/
def lastStatus (id : ConnectionId) (calls : List (Call ι)) : Option ConnectorStatus :=
  calls.findSome? (statusWritten id)

variable {id : ConnectionId} {call : Call ι} {calls : List (Call ι)} {row : ConnectorConnection}

theorem rowAfter_of_update {s : ConnectorState} {i : ι} {writer : Writer} {id : ConnectionId}
    {patch : UpdateConnectorStatusData} {o : Outcome ConnectorError Unit}
    (effective : o.TookEffect) (id' : ConnectionId) (row : ConnectorConnection) :
    rowAfter id' (⟨s, i, .update writer id patch, o⟩ : Call ι) row =
      if id = id' then row.update patch else row := by
  unfold rowAfter patchOn
  by_cases hid : id = id' <;> simp [hid, effective]

/-- A call that is no effective update keeps every row. -/
theorem rowAfter_of_not_update {call : Call ι}
    (h : ∀ writer id patch, call.op = .update writer id patch → ¬ call.outcome.TookEffect)
    (id : ConnectionId) (row : ConnectorConnection) : rowAfter id call row = row := by
  unfold rowAfter patchOn
  split
  · rfl
  · next heq =>
    split at heq
    · next hop =>
      split at heq
      · next hcond => exact (h _ _ _ hop hcond.2).elim
      · cases heq
    · cases heq

/-- What an update leaves of a row. -/
theorem updated_row {i : ι} {s s' : ConnectorState} {writer : Writer} {id id' : ConnectionId}
    {patch : UpdateConnectorStatusData} {o : Outcome ConnectorError Unit} {row' : ConnectorConnection}
    (answers : (world ι).Answers ConnectorError i (.update writer id patch) s o s')
    (effective : o.TookEffect) (hrow : s.row? id' = some row) (hrow' : s'.row? id' = some row') :
    row' = if id = id' then row.update patch else row := by
  rw [row_after answers hrow, Option.some.injEq] at hrow'
  rw [← hrow', rowAfter_of_update effective]

theorem rowAfter_status : (rowAfter id call row).status = (statusWritten id call).getD row.status := by
  unfold rowAfter statusWritten
  cases patchOn id call <;> rfl

theorem rowAfter_account (h : accountBound id call = none) :
    (rowAfter id call row).composioAccountId = row.composioAccountId := by
  unfold accountBound at h
  unfold rowAfter
  cases hpatch : patchOn id call with
  | none => rfl
  | some patch =>
    rw [hpatch] at h
    have hkept : patch.composioAccountId = none := h
    simp [ConnectorConnection.update, hkept]

theorem rowSince_status :
    (rowSince id calls row).status = (lastStatus id calls).getD row.status := by
  unfold rowSince lastStatus
  induction calls with
  | nil => rfl
  | cons call calls ih =>
    rw [List.foldr_cons, rowAfter_status, List.findSome?_cons]
    cases statusWritten id call with
    | none => exact ih
    | some status => rfl

theorem rowSince_account (h : ∀ call ∈ calls, accountBound id call = none) :
    (rowSince id calls row).composioAccountId = row.composioAccountId := by
  unfold rowSince
  induction calls with
  | nil => rfl
  | cons call calls ih =>
    rw [List.foldr_cons, rowAfter_account (h call List.mem_cons_self)]
    exact ih fun other hother ↦ h other (List.mem_cons_of_mem _ hother)

end Run

end MemoFlowApi.Connectors
