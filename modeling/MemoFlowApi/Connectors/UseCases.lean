import MemoFlowApi.Concurrency.Interleave
import MemoFlowApi.Connectors.Ports

/-!
# Connector Use Cases

Connecting a provider, revoking and reading connections, and the two ways a connection's status is
synchronised with Composio: webhooks and lookups on read.  A system is a family of requests over an
arbitrary index type, so it covers every number and timing of requests and webhooks.
-/

namespace MemoFlowApi.Connectors

open Concurrency

/-! ## The repository -/

def findById (id : ConnectionId) : Async (Option ConnectorConnection) :=
  await (.findOne (.byId id))

def findByUserAndProvider (userId : UserId) (provider : ConnectorProvider) :
    Async (Option ConnectorConnection) :=
  await (.findOne (.byUserAndProvider userId provider))

def findByComposioAccountId (composioAccountId : AccountId) : Async (Option ConnectorConnection) :=
  await (.findOne (.byComposioAccountId composioAccountId))

def findAllByUser (userId : UserId) : Async (List ConnectorConnection) := await (.find userId)

def entityNotFoundError : ConnectorError where
  kind := .other
  message := "Could not find any entity of type ConnectorConnectionOrmEntity"

/-- Bind an existing row to a new account, and read it back. -/
def resetInitiated (id : ConnectionId) (data : UpsertInitiatedData) :
    Async (Option ConnectorConnection) := do
  await (.update .upsertInitiated id data.patch)
  findById id

/-- A connect that loses the race to insert falls back to an update of the winner's row. -/
def upsertInitiated (data : UpsertInitiatedData) : Async (Option ConnectorConnection) := do
  match ← findByUserAndProvider data.userId data.provider with
  | some existing => resetInitiated existing.id data
  | none =>
    match ← await (.insert data) with
    | some saved => return some saved
    | none =>
      match ← findByUserAndProvider data.userId data.provider with
      | none => .throw entityNotFoundError
      | some winner => resetInitiated winner.id data

def updateStatus (writer : Writer) (id : ConnectionId) (patch : UpdateConnectorStatusData) :
    Async (Option ConnectorConnection) := do
  match ← await (.findOne (.byId id)) with
  | none => return none
  | some _ =>
    await (.update writer id patch)
    findById id

/-! ## SyncConnectionStatusUseCase -/

/-- The account of a connection; an empty id counts as none. -/
def ConnectorConnection.account? (connection : ConnectorConnection) : Option AccountId :=
  connection.composioAccountId.filter (· ≠ "")

/-- The `connectedAt` that a status change sets: the first time a connection becomes active. -/
def connectedAtPatch (connection : ConnectorConnection) (status : ConnectorStatus) :
    Async (Option (Option Time)) := do
  if status = .active ∧ connection.connectedAt = none then
    let time ← await .now
    return some (some time)
  else
    return none

def applyStatus (connection : ConnectorConnection) (status : ConnectorStatus) :
    Async ConnectorConnection := do
  if connection.status = status then
    return connection
  else if connection.status.Terminal then
    return connection
  else
    let connectedAt ← connectedAtPatch connection status
    match ← updateStatus .applyStatus connection.id { status, connectedAt } with
    | none => return connection
    | some updated =>
      await (.emit (.statusChanged updated.userId))
      return updated

def applyEvent (event : ConnectorWebhookEvent) : Async Unit := do
  match ← findByComposioAccountId event.composioAccountId with
  | none => return ()
  | some connection =>
    let _ ← applyStatus connection event.status

def invalidSignatureError : ConnectorError where
  kind := .unauthorized
  message := "Invalid Composio webhook signature"

def verifyAndApply (rawBody : String) (headers : ConnectorWebhookHeaders) : Async Unit := do
  match ← (await (.verifyWebhook rawBody headers)).attempt with
  | .error _ => .throw invalidSignatureError
  | .ok none => return ()
  | .ok (some event) => applyEvent event

/-- Poll fallback: look up a connection that is still `initiated`.  A failed lookup keeps it. -/
def reconcile (connection : ConnectorConnection) : Async ConnectorConnection := do
  if connection.status ≠ .initiated then
    return connection
  else
    match connection.account? with
    | none => return connection
    | some account =>
      match ← (await (.getConnectionStatus account)).attempt with
      | .error _ => return connection
      | .ok status =>
        if status = connection.status then
          return connection
        else
          applyStatus connection status

/-! ## Reading, revoking and connecting -/

def connectionNotFoundError (id : ConnectionId) : ConnectorError where
  kind := .notFound
  message := s!"Connector connection {id} not found"

def getConnection (connectionId : ConnectionId) (userId : UserId) : Async ConnectorConnection := do
  match ← findById connectionId with
  | none => .throw (connectionNotFoundError connectionId)
  | some connection =>
    if connection.userId ≠ userId then
      .throw (connectionNotFoundError connectionId)
    else
      reconcile connection

/-- The rows that are still `initiated` are reconciled at the same time. -/
def listConnections (userId : UserId) (schedule : List ℕ) : Async (List ConnectorConnection) := do
  let connections ← findAllByUser userId
  Program.all schedule (connections.map fun connection ↦
    if connection.status = .initiated then reconcile connection else pure connection)

/-- Delete the account of a connection at Composio. -/
def revokeAccount (connection : ConnectorConnection) : Async Unit := do
  match connection.account? with
  | none => return ()
  | some account => await (.revoke account)

def revokeConnection (connectionId : ConnectionId) (userId : UserId) :
    Async ConnectorConnection := do
  let connection ← getConnection connectionId userId
  if connection.status = .revoked then
    return connection
  else
    revokeAccount connection
    let updated ← updateStatus .revokeConnection connection.id { status := .revoked }
    let result := updated.getD connection
    await (.emit (.revoked userId result.id result.provider))
    return result

/-- The account that a reconnect has replaced and must revoke. -/
def replacedAccount (previous : Option ConnectorConnection) (newComposioAccountId : AccountId) :
    Option AccountId :=
  match previous with
  | none => none
  | some previous =>
    match previous.account? with
    | none => none
    | some old => if old = newComposioAccountId ∨ previous.status = .revoked then none else some old

/-- Best effort: a failure does not fail the reconnect. -/
def revokeReplacedAccount (previous : Option ConnectorConnection)
    (newComposioAccountId : AccountId) : Async Unit := do
  match replacedAccount previous newComposioAccountId with
  | none => return ()
  | some old =>
    let _ ← (await (.revoke old)).attempt

def rowMissingError : ConnectorError where
  kind := .other
  message := "Cannot read properties of null (reading 'id')"

/-- The row is read before the upsert overwrites it. -/
def initiateConnection (input : InitiateConnectionInput) :
    Async (String × ConnectionId × ConnectorStatus) := do
  let previous ← findByUserAndProvider input.userId input.provider
  let initiated ← await (.initiateConnection input)
  let row ← upsertInitiated ⟨input.userId, input.provider, initiated.composioAccountId⟩
  await (.emit (.statusChanged input.userId))
  match row with
  | none => .throw rowMissingError
  | some row =>
    revokeReplacedAccount previous initiated.composioAccountId
    return (initiated.redirectUrl, row.id, initiated.status)

/-! ## Systems -/

/-- One request to a system. -/
inductive Request where
  | webhook (rawBody : String) (headers : ConnectorWebhookHeaders)
  | getById (connectionId : ConnectionId) (userId : UserId)
  | list (userId : UserId) (schedule : List ℕ)
  | revoke (connectionId : ConnectionId) (userId : UserId)
  | connect (input : InitiateConnectionInput)

/-- What a request runs. -/
def Request.program : Request → Async Unit
  | webhook rawBody headers => verifyAndApply rawBody headers
  | getById connectionId userId => do
    let _ ← getConnection connectionId userId
  | list userId schedule => do
    let _ ← listConnections userId schedule
  | revoke connectionId userId => do
    let _ ← revokeConnection connectionId userId
  | connect input => do
    let _ ← initiateConnection input

/-- The calls of a system, by its requests, on the connector store. -/
abbrev Call (ι : Type) := Event ι ConnectorState Ans ConnectorError

/-- The configurations of a system. -/
abbrev System (ι : Type) := Config ι ConnectorState Ans ConnectorError Unit

/-- A system before its first call. -/
def System.start {ι : Type} (state : ConnectorState) (requests : ι → Request) : System ι :=
  Config.initial state fun i ↦ (requests i).program

/-- The configurations a system can reach from its start. -/
def System.Reaches {ι : Type} [DecidableEq ι] (state : ConnectorState) (requests : ι → Request)
    (config : System ι) : Prop :=
  (world ι).Reachable (System.start state requests) config

/-! ## One connection -/

/-- A connection that was just initiated. -/
def initiatedRow : ConnectorConnection :=
  ⟨"connection", "user", .notion, some "old", .initiated, none⟩

/-- Its table. -/
def oneConnection : ConnectorState where
  table := ⟨[initiatedRow], by decide, by decide⟩
  accounts := ["old"]

/-- A webhook. -/
def aWebhook : Request := .webhook "" ⟨"", "", ""⟩

/-- The reply to a webhook that reports its account active. -/
def reportsActive : Reply := { event := some ("old", "ACTIVE") }

end MemoFlowApi.Connectors
