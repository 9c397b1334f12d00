import MemoFlowApi.Concurrency.Replay
import MemoFlowApi.Connectors.Connection

/-!
# Calls of the Connector Subsystem

The statements on `connector_connections`, the calls to Composio and what they do.  The repository
methods are programs over single statements, so requests interleave between the statements of one
method as well as between methods.

The state holds the table and the accounts that Composio has created.  Answers that it does not
determine (what Composio reports, which of several matching rows a query returns first, the clock)
are taken from a `Reply`, which runs choose freely.
-/

namespace MemoFlowApi.Connectors

open Concurrency

inductive ConnectorErrorKind where
  | unauthorized
  | notFound
  | serviceUnavailable
  | other
  deriving DecidableEq, Repr

/-- A thrown `Error`. -/
structure ConnectorError where
  kind : ConnectorErrorKind
  message : String
  deriving DecidableEq, Repr

/-- The `where` of a query. -/
inductive Criteria where
  | byId (id : ConnectionId)
  | byUserAndProvider (userId : UserId) (provider : ConnectorProvider)
  | byComposioAccountId (composioAccountId : AccountId)

def Criteria.Matches (row : ConnectorConnection) : Criteria → Bool
  | byId id => row.id = id
  | byUserAndProvider userId provider => row.userId = userId && row.provider = provider
  | byComposioAccountId account => row.composioAccountId = some account

/-- The function that awaits an `UPDATE`.  It is no part of the statement; it names in a trace who
wrote. -/
inductive Writer where
  | upsertInitiated
  | applyStatus
  | revokeConnection
  deriving DecidableEq

/-- The headers that Composio signs together. -/
structure ConnectorWebhookHeaders where
  id : String
  timestamp : String
  signature : String

structure ConnectorWebhookEvent where
  composioAccountId : AccountId
  status : ConnectorStatus

structure InitiateConnectionInput where
  userId : UserId
  provider : ConnectorProvider

structure InitiateConnectionResult where
  redirectUrl : String
  composioAccountId : AccountId
  status : ConnectorStatus

inductive ConnectorEvent where
  | statusChanged (userId : UserId)
  | revoked (userId : UserId) (connectionId : ConnectionId) (provider : ConnectorProvider)

inductive Op where
  | findOne (criteria : Criteria)
  | find (userId : UserId)
  | insert (data : UpsertInitiatedData)
  | update (writer : Writer) (id : ConnectionId) (patch : UpdateConnectorStatusData)
  | verifyWebhook (rawBody : String) (headers : ConnectorWebhookHeaders)
  | getConnectionStatus (composioAccountId : AccountId)
  | initiateConnection (input : InitiateConnectionInput)
  | revoke (composioAccountId : AccountId)
  | now
  | emit (event : ConnectorEvent)

/-- The answer to a call.  An `INSERT` that violates the unique index answers `none`. -/
abbrev Ans : Op → Type
  | .findOne _ => Option ConnectorConnection
  | .find _ => List ConnectorConnection
  | .insert _ => Option ConnectorConnection
  | .verifyWebhook _ _ => Option ConnectorWebhookEvent
  | .getConnectionStatus _ => ConnectorStatus
  | .initiateConnection _ => InitiateConnectionResult
  | .now => Time
  | _ => Unit

/-- An `async` function of the connector subsystem. -/
abbrev Async (α : Type) := Program Ans ConnectorError α

/-- Await a call. -/
abbrev await (op : Op) : Async (Ans op) := Program.perform op

/-! ## The state -/

structure ConnectorState where
  table : ConnectionTable
  /-- The connected accounts that Composio has created, newest first. -/
  accounts : List AccountId

/-- The row of an id. -/
def ConnectorState.row? (s : ConnectorState) (id : ConnectionId) : Option ConnectorConnection :=
  s.table.row? id

/-- `mapStatus` of the gateway: an unknown status is not healthy progress. -/
def mapStatus : Option String → ConnectorStatus
  | some "INITIATED" | some "INITIALIZING" | some "INITIATING" => .initiated
  | some "ACTIVE" => .active
  | some "FAILED" => .failed
  | some "EXPIRED" | some "INACTIVE" | some "REVOKED" => .revoked
  | _ => .failed

/-- The part of an answer that the state does not determine. -/
structure Reply where
  /-- Which of the matching rows a query returns. -/
  position : ℕ := 0
  id : ConnectionId := ""
  account : AccountId := ""
  redirectUrl : String := ""
  status : Option String := none
  /-- The account and status of a connected-account webhook. -/
  event : Option (AccountId × String) := none
  time : Time := 0

/-- A new row, unless its user and provider have one.  Its id is generated. -/
def ConnectorState.insert (s : ConnectorState) (row : ConnectorConnection) :
    Option (Option ConnectorConnection × ConnectorState) :=
  if freshUserProvider : row.userProvider ∉ s.table.rows.map (·.userProvider) then
    if freshId : row.id ∉ s.table.rows.map (·.id) then
      some (some row, { s with table := s.table.insert row freshId freshUserProvider })
    else none
  else some (none, s)

/-- The answer to a call and the state it leaves.  Composio creates a new account for every
connection; its id is not empty. -/
def answer (reply : Reply) : (op : Op) → ConnectorState → Option (Ans op × ConnectorState)
  | .findOne criteria, s =>
      let found := s.table.rows.filter criteria.Matches
      if found = [] then some (none, s)
      else (found[reply.position]?).map fun row ↦ (some row, s)
  | .find userId, s => some (s.table.rows.filter (·.userId = userId), s)
  | .insert data, s => s.insert (data.create reply.id)
  | .update _ id patch, s => some ((), { s with table := s.table.update id patch })
  | .verifyWebhook _ _, s =>
      some (reply.event.map fun (account, status) ↦ ⟨account, mapStatus (some status)⟩, s)
  | .getConnectionStatus _, s => some (mapStatus reply.status, s)
  | .initiateConnection _, s =>
      if reply.account = "" ∨ reply.account ∈ s.accounts then none
      else some (⟨reply.redirectUrl, reply.account, mapStatus reply.status⟩,
        { s with accounts := reply.account :: s.accounts })
  | .revoke _, s => some ((), s)
  | .now, s => some (reply.time, s)
  | .emit _, s => some ((), s)

/-- Calls that leave the process may throw. -/
def mayFail : Op → Bool
  | .now | .emit _ => false
  | _ => true

/-- The connector store as a machine. -/
abbrev machine : Machine ConnectorState Reply Ans := ⟨answer, mayFail⟩

/-- The world of a system of requests. -/
abbrev world (ι : Type) : World ι ConnectorState Ans := machine.world

end MemoFlowApi.Connectors
