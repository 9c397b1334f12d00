import Mathlib.Data.List.Nodup
import Mathlib.Data.List.Basic

/-!
# Connector Connections

The rows of `connector_connections` and the table they form.  A row refers to a connected account
at Composio; it never holds a provider's token.  The table carries its primary key and its unique
index on user and provider as proofs, so no operation can build a table that breaks them.
-/

namespace MemoFlowApi.Connectors

abbrev ConnectionId := String

abbrev UserId := String

/-- A connected account at Composio. -/
abbrev AccountId := String

/-- A time in milliseconds. -/
abbrev Time := ℕ

inductive ConnectorProvider where
  | trello
  | notion
  | github
  deriving DecidableEq, Repr

inductive ConnectorStatus where
  | initiated
  | active
  | revoked
  | failed
  deriving DecidableEq, Repr

/-- `TERMINAL_STATUSES`: the states a connection leaves only by a fresh connect. -/
def ConnectorStatus.Terminal (status : ConnectorStatus) : Prop :=
  status = .revoked ∨ status = .failed

instance (status : ConnectorStatus) : Decidable status.Terminal :=
  inferInstanceAs (Decidable (_ ∨ _))

/-- A row; `toDomain` copies its fields. -/
structure ConnectorConnection where
  id : ConnectionId
  userId : UserId
  provider : ConnectorProvider
  composioAccountId : Option AccountId
  status : ConnectorStatus
  connectedAt : Option Time
  deriving DecidableEq, Repr

/-- The owner of a row and its provider: the unique index `UQ_connector_user_provider`. -/
def ConnectorConnection.userProvider (row : ConnectorConnection) : UserId × ConnectorProvider :=
  (row.userId, row.provider)

/-- Input of `upsertInitiated`. -/
structure UpsertInitiatedData where
  userId : UserId
  provider : ConnectorProvider
  composioAccountId : AccountId

/-- The columns an `UPDATE` sets; an absent one is kept. -/
structure UpdateConnectorStatusData where
  status : ConnectorStatus
  composioAccountId : Option AccountId := none
  connectedAt : Option (Option Time) := none
  deriving DecidableEq

/-- The row of a fresh connect. -/
def UpsertInitiatedData.create (data : UpsertInitiatedData) (id : ConnectionId) :
    ConnectorConnection where
  id := id
  userId := data.userId
  provider := data.provider
  composioAccountId := some data.composioAccountId
  status := .initiated
  connectedAt := none

/-- What a connect sets on a row that exists. -/
def UpsertInitiatedData.patch (data : UpsertInitiatedData) : UpdateConnectorStatusData where
  status := .initiated
  composioAccountId := some data.composioAccountId
  connectedAt := some none

/-- A row after an `UPDATE`. -/
def ConnectorConnection.update (row : ConnectorConnection) (patch : UpdateConnectorStatusData) :
    ConnectorConnection :=
  { row with
    status := patch.status
    composioAccountId := patch.composioAccountId <|> row.composioAccountId
    connectedAt := patch.connectedAt.getD row.connectedAt }

/-- The table `connector_connections`. -/
structure ConnectionTable where
  rows : List ConnectorConnection
  nodup_id : (rows.map (·.id)).Nodup
  nodup_userProvider : (rows.map (·.userProvider)).Nodup

namespace ConnectionTable

/-- The row of an id. -/
def row? (table : ConnectionTable) (id : ConnectionId) : Option ConnectorConnection :=
  table.rows.find? (·.id = id)

/-- `UPDATE connector_connections SET … WHERE id = …`. -/
def update (table : ConnectionTable) (id : ConnectionId) (patch : UpdateConnectorStatusData) :
    ConnectionTable where
  rows := table.rows.map fun row ↦ if row.id = id then row.update patch else row
  nodup_id := by
    have hsame : ((fun row : ConnectorConnection ↦ row.id) ∘
        fun row ↦ if row.id = id then row.update patch else row) = (·.id) := by
      funext row
      dsimp only [Function.comp_apply]
      split <;> rfl
    rw [List.map_map, hsame]
    exact table.nodup_id
  nodup_userProvider := by
    have hsame : ((fun row : ConnectorConnection ↦ row.userProvider) ∘
        fun row ↦ if row.id = id then row.update patch else row) = (·.userProvider) := by
      funext row
      dsimp only [Function.comp_apply]
      split <;> rfl
    rw [List.map_map, hsame]
    exact table.nodup_userProvider

/-- Add a row that violates no constraint. -/
def insert (table : ConnectionTable) (row : ConnectorConnection)
    (freshId : row.id ∉ table.rows.map (·.id))
    (freshUserProvider : row.userProvider ∉ table.rows.map (·.userProvider)) :
    ConnectionTable where
  rows := row :: table.rows
  nodup_id := List.nodup_cons.mpr ⟨freshId, table.nodup_id⟩
  nodup_userProvider := List.nodup_cons.mpr ⟨freshUserProvider, table.nodup_userProvider⟩

variable {table : ConnectionTable} {id : ConnectionId} {row row' : ConnectorConnection}

theorem row?_eq_some : table.row? id = some row ↔ row ∈ table.rows ∧ row.id = id := by
  unfold row?
  constructor
  · intro h
    exact ⟨List.mem_of_find?_eq_some h, by simpa using List.find?_some h⟩
  · rintro ⟨hmem, rfl⟩
    cases hfound : table.rows.find? (·.id = row.id) with
    | none => simpa using List.find?_eq_none.mp hfound row hmem
    | some other =>
      have hid : other.id = row.id := by simpa using List.find?_some hfound
      rw [List.inj_on_of_nodup_map table.nodup_id (List.mem_of_find?_eq_some hfound) hmem hid]

theorem update_row? (patch : UpdateConnectorStatusData) (id' : ConnectionId) :
    (table.update id patch).row? id' =
      (table.row? id').map fun row ↦ if id' = id then row.update patch else row := by
  have hsame : ((fun row : ConnectorConnection ↦ decide (row.id = id')) ∘
      fun row ↦ if row.id = id then row.update patch else row) = fun row ↦ decide (row.id = id') := by
    funext row
    dsimp only [Function.comp_apply]
    split <;> rfl
  unfold update row?
  rw [List.find?_map, hsame]
  refine Option.map_congr fun row hrow ↦ ?_
  obtain rfl : row.id = id' := by simpa using List.find?_some hrow
  rfl

theorem insert_row? {freshId freshUserProvider} (id' : ConnectionId) :
    (table.insert row freshId freshUserProvider).row? id' =
      if row.id = id' then some row else table.row? id' := by
  unfold insert row?
  rw [List.find?_cons]
  by_cases h : row.id = id' <;> simp [h]

end ConnectionTable

end MemoFlowApi.Connectors
