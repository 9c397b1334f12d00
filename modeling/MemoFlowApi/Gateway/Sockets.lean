import Mathlib.Data.Nat.Notation
import MemoFlowApi.Concurrency.Sessions

/-!
# Sockets of the Planning Gateway

A socket is admitted by a chain of awaited calls: its token is verified, it joins the room of the
token's user, and the account is read.  Meanwhile an account may be disabled or its sessions be
revoked, by a write to the database and an event after it that evicts the room.  A caller that
connects is its own socket.
-/

namespace MemoFlowApi.Gateway

open Concurrency

abbrev UserId := String

/-- The session state of an account, a part of its row in `users`. -/
structure Account where
  tokenVersion : ℕ
  disabledAt : Option ℕ
  deriving DecidableEq

def Account.isDisabled (account : Account) : Bool := account.disabledAt.isSome

structure JwtPayload where
  sub : UserId
  /-- A missing value counts as 0. -/
  tv : Option ℕ
  /-- Expiry in seconds. -/
  exp : Option ℕ
  deriving DecidableEq

/-- The version of the session that a token belongs to. -/
def JwtPayload.version (payload : JwtPayload) : ℕ := payload.tv.getD 0

/-- `client.data` of an admitted socket. -/
structure ClientData where
  userId : UserId
  tokenVersion : ℕ
  deriving DecidableEq

/-- A socket; one that is disconnected is in no room and cannot join one. -/
structure Client where
  connected : Bool := false
  room : Option UserId := none
  data : Option ClientData := none

/-- A timer of `expiryTimers`. -/
structure Timer where
  expiresAt : ℕ
  firesAt : ℕ

structure State (ι : Type) where
  clock : ℕ
  users : UserId → Option Account
  clients : ι → Client
  expiryTimers : ι → Option Timer

inductive GatewayError where
  | jwt
  | notFound
  | forbidden
  | badRequest
  | other
  deriving DecidableEq

inductive Op (ι : Type) where
  | connect
  | verify (token : String)
  | join (userId : UserId)
  | accept (payload : JwtPayload)
  | disconnect (socket : ι)
  /-- The timer of a socket fires. -/
  | expire (socket : ι)
  | findUser (id : UserId)
  | setDisabledAt (id : UserId) (at' : ℕ)
  | enable (id : UserId)
  /-- The commit that raises `token_version`. -/
  | raiseTokenVersion (id : UserId)
  | sign (id : UserId) (tokenVersion : ℕ)
  /-- The event that evicts the room of a user. -/
  | evict (id : UserId)
  deriving DecidableEq

/-- The account whose sessions a call ends. -/
def Op.account {ι : Type} : Op ι → Option UserId
  | .setDisabledAt id _ => some id
  | .raiseTokenVersion id => some id
  | _ => none

abbrev Ans {ι : Type} : Op ι → Type
  | .verify _ => JwtPayload
  | .findUser _ => Option Account
  | .raiseTokenVersion _ => Option ℕ
  | .sign _ _ => String
  | _ => Unit

/-- The part of an answer that the state does not determine. -/
structure Reply where
  elapsed : ℕ := 0
  /-- What a token says. -/
  payload : JwtPayload := ⟨"", none, none⟩
  token : String := ""

/-- Largest delay `setTimeout` accepts. -/
def maxTimeoutMs : ℕ := 2147483647

section Answers

variable {ι : Type} [DecidableEq ι]

/-- `disconnect(true)`: the socket leaves its room, and `handleDisconnect` clears its timer. -/
def State.disconnect (s : State ι) (socket : ι) : State ι :=
  { s with
    clients := Function.update s.clients socket
      { s.clients socket with connected := false, room := none }
    expiryTimers := Function.update s.expiryTimers socket none }

/-- `disconnectSockets(true)` on the room of a user. -/
def State.evict (s : State ι) (userId : UserId) : State ι :=
  { s with
    clients := fun socket ↦
      if (s.clients socket).room = some userId then
        { s.clients socket with connected := false, room := none }
      else s.clients socket
    expiryTimers := fun socket ↦
      if (s.clients socket).room = some userId then none else s.expiryTimers socket }

def State.scheduleExpiry (s : State ι) (socket : ι) (expiresAt : ℕ) : State ι :=
  if expiresAt ≤ s.clock then s.disconnect socket
  else
    { s with
      expiryTimers := Function.update s.expiryTimers socket
        (some ⟨expiresAt, s.clock + min (expiresAt - s.clock) maxTimeoutMs⟩) }

/-- The end of a handshake: a socket without a time limit, or that was disconnected meanwhile, is
refused. -/
def State.accept (s : State ι) (socket : ι) (payload : JwtPayload) : State ι :=
  match payload.exp, (s.clients socket).connected with
  | some exp, true =>
    let scheduled := s.scheduleExpiry socket (exp * 1000)
    { scheduled with
      clients := Function.update scheduled.clients socket
        { scheduled.clients socket with data := some ⟨payload.sub, payload.version⟩ } }
  | _, _ => s.disconnect socket

/-- A timer fires when its time has come, and is set anew until the token expires. -/
def State.expire (s : State ι) (socket : ι) : Option (State ι) :=
  match s.expiryTimers socket with
  | none => none
  | some timer =>
    if timer.firesAt ≤ s.clock then
      some ({ s with expiryTimers := Function.update s.expiryTimers socket none }.scheduleExpiry socket
        timer.expiresAt)
    else none

/-- Change the row of a user. -/
def State.setAccount (s : State ι) (id : UserId) (change : Account → Account) : State ι :=
  { s with users := Function.update s.users id ((s.users id).map change) }

def State.wait (s : State ι) (elapsed : ℕ) : State ι := { s with clock := s.clock + elapsed }

def answer (i : ι) (reply : Reply) : (op : Op ι) → State ι → Option (Ans op × State ι)
  | .connect, s => some ((), { s with
      clients := Function.update s.clients i { connected := true }
      expiryTimers := Function.update s.expiryTimers i none })
  | .verify _, s => some (reply.payload, s)
  | .join userId, s =>
      if (s.clients i).connected then
        some ((), { s with
          clients := Function.update s.clients i { s.clients i with room := some userId } })
      else some ((), s)
  | .accept payload, s => some ((), (s.wait reply.elapsed).accept i payload)
  | .disconnect socket, s => some ((), s.disconnect socket)
  | .expire socket, s => ((s.wait reply.elapsed).expire socket).map fun s' ↦ ((), s')
  | .findUser id, s => some (s.users id, s)
  | .setDisabledAt id at', s => some ((), s.setAccount id fun account ↦
      { account with disabledAt := some at' })
  | .enable id, s => some ((), s.setAccount id fun account ↦ { account with disabledAt := none })
  | .raiseTokenVersion id, s =>
      some ((s.users id).map (·.tokenVersion + 1), s.setAccount id fun account ↦
        { account with tokenVersion := account.tokenVersion + 1 })
  | .sign _ _, s => some (reply.token, s)
  | .evict id, s => some ((), s.evict id)

/-- Queries, verification and signing may fail. -/
def mayFail : Op ι → Bool
  | .verify _ | .findUser _ | .setDisabledAt _ _ | .enable _ | .raiseTokenVersion _ | .sign _ _ => true
  | _ => false

/-- The gateway and the database. -/
abbrev sessions (ι : Type) [DecidableEq ι] : Sessions ι (State ι) Reply (Ans (ι := ι)) :=
  ⟨answer, mayFail⟩

end Answers

/-! ## Handlers and use cases -/

section Programs

variable {ι : Type}

abbrev Async (ι : Type) (α : Type) := Program (Ans (ι := ι)) GatewayError α

/-- Await a call. -/
abbrev await (op : Op ι) : Async ι (Ans op) := Program.perform op

/-- The handshake of a token, which leaves a socket admitted or disconnected, or throws. -/
def admitToken (socket : ι) (token : String) : Async ι Unit := do
  let payload ← await (.verify token)
  await (.join payload.sub)
  match ← await (.findUser payload.sub) with
  | none => .throw .notFound
  | some user =>
    if user.isDisabled ∨ payload.version ≠ user.tokenVersion then await (.disconnect socket)
    else await (.accept payload)

/-- A connection whose handshake carries a token, or none. -/
def handleConnection (socket : ι) (token : Option String) : Async ι Unit := do
  await .connect
  match token with
  | none => await (.disconnect socket)
  | some token =>
    match ← (admitToken socket token).attempt with
    | .ok _ => return ()
    | .error _ => await (.disconnect socket)

structure ActorInput where
  actorId : UserId
  isAdmin : Bool
  userId : UserId

def disableUser (input : ActorInput) (now : ℕ) : Async ι Unit := do
  if !input.isAdmin then .throw .forbidden
  else if input.actorId = input.userId then .throw .badRequest
  else
    match ← await (.findUser input.userId) with
    | none => .throw .notFound
    | some user =>
      if !user.isDisabled then
        await (.setDisabledAt input.userId now)
      await (.evict input.userId)

/-- Its event evicts nobody. -/
def enableUser (input : ActorInput) : Async ι Unit := do
  if !input.isAdmin then .throw .forbidden
  else
    match ← await (.findUser input.userId) with
    | none => .throw .notFound
    | some user =>
      if !user.isDisabled then return ()
      else await (.enable input.userId)

def logout (userId : UserId) : Async ι Unit := do
  match ← await (.raiseTokenVersion userId) with
  | none => .throw .other
  | some _ => await (.evict userId)

/-- What follows the comparison of the current password. -/
def changePassword (userId : UserId) : Async ι Unit := do
  match ← await (.raiseTokenVersion userId) with
  | none => .throw .other
  | some tokenVersion =>
    let _ ← await (.sign userId tokenVersion)
    await (.evict userId)

/-- The owner of a token that is consumed; the login counter is cleared before the event, at best. -/
def resetPassword (userId : UserId) : Async ι Unit := do
  match ← await (.raiseTokenVersion userId) with
  | none => .throw .badRequest
  | some _ =>
    let _ ← (await (.findUser userId)).attempt
    await (.evict userId)

inductive Request (ι : Type) where
  | connect (token : Option String)
  /-- A client leaves. -/
  | leave (socket : ι)
  | expire (socket : ι)
  | disable (input : ActorInput) (now : ℕ)
  | enable (input : ActorInput)
  | logout (userId : UserId)
  | changePassword (userId : UserId)
  | resetPassword (userId : UserId)

/-- What a caller does. -/
def Request.program (i : ι) : Request ι → Async ι Unit
  | connect token => handleConnection i token
  | leave socket => await (.disconnect socket)
  | expire socket => await (.expire socket)
  | disable input now => disableUser input now
  | enable input => enableUser input
  | logout userId => Gateway.logout userId
  | changePassword userId => Gateway.changePassword userId
  | resetPassword userId => Gateway.resetPassword userId

end Programs

end MemoFlowApi.Gateway
