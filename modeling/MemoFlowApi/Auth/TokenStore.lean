import Mathlib.Data.Int.Notation
import MemoFlowApi.Concurrency.Sessions
import MemoFlowApi.Sql.Tables
import MemoFlowApi.Sql.Transactions
import MemoFlowApi.Uuid

/-!
# Authentication Tokens

The transactions that issue one-time tokens and consume them, and the other writes to the rows of
users.  Tokens are addressed by their hashes, which are unique, and an advisory lock is a row that
nobody writes.  Instants are counted in microseconds.
-/

namespace MemoFlowApi.Auth.Tokens

open Concurrency Sql

abbrev UserId := Uuid

abbrev TokenHash := String

inductive AuthTokenType where
  | passwordReset
  | emailVerification
  deriving DecidableEq

def AuthTokenType.text : AuthTokenType → String
  | passwordReset => "password_reset"
  | emailVerification => "email_verification"

/-! ## Rows -/

structure UserRow where
  passwordHash : String
  tokenVersion : ℕ
  emailVerifiedAt : Option ℕ
  disabledAt : Option ℕ
  deriving DecidableEq

structure TokenRow where
  userId : UserId
  type : AuthTokenType
  expiresAt : ℕ
  usedAt : Option ℕ
  createdAt : ℕ
  deriving DecidableEq

structure IssueAuthTokenData where
  userId : UserId
  type : AuthTokenType
  tokenHash : TokenHash
  expiresAt : ℕ
  minIntervalMs : ℕ
  deriving DecidableEq

/-- The row that is inserted in a transaction that started at `now`. -/
def IssueAuthTokenData.row (data : IssueAuthTokenData) (now : ℕ) : TokenRow :=
  ⟨data.userId, data.type, data.expiresAt, none, now⟩

/-- `created_at > now() - interval`, for a token of an account and a type. -/
def TokenRow.isRecent (row : TokenRow) (userId : UserId) (type : AuthTokenType) (minIntervalMs now : ℕ) :
    Bool :=
  row.userId = userId ∧ row.type = type ∧ now < row.createdAt + minIntervalMs * 1000

/-- `used_at IS NULL AND expires_at > now()`, for a token of a type. -/
def TokenRow.isUsable (row : TokenRow) (type : AuthTokenType) (now : ℕ) : Bool :=
  row.type = type ∧ row.usedAt = none ∧ now < row.expiresAt

/-- `used_at IS NULL`, for a token of a user. -/
def TokenRow.isOpen (row : TokenRow) (userId : UserId) : Bool :=
  row.userId = userId ∧ row.usedAt = none

inductive Key where
  | advisory (number : ℤ)
  | user (id : UserId)
  | token (hash : TokenHash)
  deriving DecidableEq

abbrev Row : Key → Type
  | .advisory _ => Unit
  | .user _ => UserRow
  | .token _ => TokenRow

/-- The tables, and `now()` of each transaction. -/
structure Database (ι : Type) where
  tables : Tables ι Key Row
  clock : ℕ
  now : ι → ℕ

/-! ## Calls -/

inductive AuthError where
  | error (message : String)
  /-- A statement failed. -/
  | queryFailed
  deriving DecidableEq

inductive Op where
  | startTransaction
  | commitTransaction
  | rollbackTransaction
  | advisoryLock (number : ℤ)
  | existsRecent (userId : UserId) (type : AuthTokenType) (minIntervalMs : ℕ)
  | insertToken (data : IssueAuthTokenData)
  | referenceUser (userId : UserId)
  | findOwner (hash : TokenHash) (type : AuthTokenType)
  | lockUser (userId : UserId)
  | consume (hash : TokenHash) (type : AuthTokenType)
  | verifyEmail (userId : UserId) (at' : ℕ)
  | changePassword (userId : UserId) (passwordHash : String)
  | resetPassword (userId : UserId) (passwordHash : String) (at' : ℕ)
  | findOpen (userId : UserId)
  /-- The time is `now()` unless it is given. -/
  | spend (userId : UserId) (hash : TokenHash) (at' : Option ℕ)
  | setDisabledAt (userId : UserId) (disabledAt : Option ℕ)
  | revokeSessions (userId : UserId)
  deriving DecidableEq

/-- An insert answers whether no other token has the hash, and the check of its reference whether the
user is there. -/
abbrev Ans : Op → Type
  | .existsRecent _ _ _ => Bool
  | .insertToken _ => Bool
  | .referenceUser _ => Bool
  | .findOwner _ _ => Option UserId
  | .lockUser _ => Option (Option ℕ)
  | .consume _ _ => Option UserId
  | .changePassword _ _ => Option ℕ
  | .revokeSessions _ => Option ℕ
  | .findOpen _ => List TokenHash
  | _ => Unit

/-- The ends of a transaction. -/
abbrev boundary : Boundary Op := ⟨.startTransaction, .commitTransaction, .rollbackTransaction⟩

/-- The part of an answer that the state does not determine. -/
structure Reply where
  elapsed : ℕ := 0
  /-- The rows of an update, in the order in which it meets them. -/
  order : List TokenHash := []

section Answers

variable {ι : Type} [DecidableEq ι]

abbrev Store (ι : Type) := Tables ι Key Row

/-- `COALESCE("email_verified_at", …)`. -/
def UserRow.verify (row : UserRow) (at' : ℕ) : UserRow :=
  { row with emailVerifiedAt := some (row.emailVerifiedAt.getD at') }

def UserRow.changePassword (row : UserRow) (passwordHash : String) : UserRow :=
  { row with passwordHash := passwordHash, tokenVersion := row.tokenVersion + 1 }

/-- Take a lock, or wait for it. -/
def lockRow (i : ι) (key : Key) (mode : LockMode) (s : Store ι) : Option (Store ι) :=
  if grants : s.Grants i key mode then some (s.lock i key mode grants) else none

/-- Write the row of a user, whose key stays. -/
def updateUser (i : ι) (userId : UserId) (change : UserRow → UserRow) (s : Store ι) :
    Option (Option UserRow × Store ι) :=
  match s.view i (.user userId) with
  | none => some (none, s)
  | some row =>
    (s.put i (.user userId) .noKeyUpdate LockMode.writes_noKeyUpdate (some (change row))).map fun s' ↦
      (some (change row), s')

/-- Set `used_at` where a condition holds, which is evaluated again once the row is locked. -/
def useToken (i : ι) (hash : TokenHash) (condition : TokenRow → Bool) (at' : ℕ) (s : Store ι) :
    Option (Option TokenRow × Store ι) :=
  match s.view i (.token hash) with
  | none => some (none, s)
  | some row =>
    if condition row then
      (s.put i (.token hash) .noKeyUpdate LockMode.writes_noKeyUpdate
        (some { row with usedAt := some at' })).map fun s' ↦ (some row, s')
    else some (none, s)

/-- Insert a token, unless its hash is taken. -/
def insertToken (i : ι) (data : IssueAuthTokenData) (now : ℕ) (s : Store ι) : Option (Bool × Store ι) :=
  if ¬s.Grants i (.token data.tokenHash) .update then none
  else if (s.view i (.token data.tokenHash)).isSome then some (false, s)
  else (s.put i (.token data.tokenHash) .update LockMode.writes_update (some (data.row now))).map fun s' ↦
    (true, s')

/-- The check of a foreign key, which locks the user against deletion. -/
def referenceUser (i : ι) (userId : UserId) (s : Store ι) : Option (Bool × Store ι) :=
  if (s.view i (.user userId)).isNone then some (false, s)
  else (lockRow i (.user userId) .keyShare s).map fun s' ↦ (true, s')

/-- `SELECT "disabled_at" … FOR UPDATE`. -/
def lockUser (i : ι) (userId : UserId) (s : Store ι) : Option (Option (Option ℕ) × Store ι) :=
  match s.view i (.user userId) with
  | none => some (none, s)
  | some row => (lockRow i (.user userId) .update s).map fun s' ↦ (some row.disabledAt, s')

def isRecentToken (userId : UserId) (type : AuthTokenType) (minIntervalMs now : ℕ) :
    (key : Key) → Row key → Bool
  | .token _, row => row.isRecent userId type minIntervalMs now
  | _, _ => false

def isOpenToken (userId : UserId) : (key : Key) → Row key → Bool
  | .token _, row => row.isOpen userId
  | _, _ => false

/-- The hash of the token that a key is of. -/
def Key.hash? : Key → Option TokenHash
  | .token hash => some hash
  | _ => none

/-- The tokens of a user that are not used. -/
def openTokens (i : ι) (userId : UserId) (s : Store ι) : List TokenHash :=
  (s.scan i (isOpenToken userId)).filterMap Key.hash?

/-- An update meets the rows that it has found in any order. -/
def findOpen (i : ι) (userId : UserId) (order : List TokenHash) (s : Store ι) :
    Option (List TokenHash) :=
  if order.isPerm (openTokens i userId s) then some order else none

def Database.with (s : Database ι) (tables : Store ι) : Database ι := { s with tables := tables }

/-- The answer to a call and the state it leaves.  A call that waits for a lock has none. -/
def answer (i : ι) (reply : Reply) : (op : Op) → Database ι → Option (Ans op × Database ι)
  | .startTransaction, s => some ((), { s with
      clock := s.clock + reply.elapsed
      now := Function.update s.now i (s.clock + reply.elapsed) })
  | .commitTransaction, s => some ((), s.with (s.tables.commit i))
  | .rollbackTransaction, s => some ((), s.with (s.tables.rollback i))
  | .advisoryLock number, s =>
      (lockRow i (.advisory number) .update s.tables).map fun tables ↦ ((), s.with tables)
  | .existsRecent userId type minIntervalMs, s =>
      some (!(s.tables.scan i (isRecentToken userId type minIntervalMs (s.now i))).isEmpty, s)
  | .insertToken data, s =>
      (insertToken i data (s.now i) s.tables).map fun result ↦ (result.1, s.with result.2)
  | .referenceUser userId, s =>
      (referenceUser i userId s.tables).map fun result ↦ (result.1, s.with result.2)
  | .findOwner hash type, s =>
      some (((s.tables.view i (.token hash)).filter (·.type = type)).map (·.userId), s)
  | .lockUser userId, s =>
      (lockUser i userId s.tables).map fun result ↦ (result.1, s.with result.2)
  | .consume hash type, s =>
      (useToken i hash (·.isUsable type (s.now i)) (s.now i) s.tables).map fun result ↦
        (result.1.map (·.userId), s.with result.2)
  | .verifyEmail userId at', s =>
      (updateUser i userId (·.verify at') s.tables).map fun result ↦ ((), s.with result.2)
  | .changePassword userId passwordHash, s =>
      (updateUser i userId (·.changePassword passwordHash) s.tables).map fun result ↦
        (result.1.map (·.tokenVersion), s.with result.2)
  | .resetPassword userId passwordHash at', s =>
      (updateUser i userId (fun row ↦ (row.changePassword passwordHash).verify at') s.tables).map
        fun result ↦ ((), s.with result.2)
  | .findOpen userId, s =>
      (findOpen i userId reply.order s.tables).map fun hashes ↦ (hashes, s)
  | .spend userId hash at', s =>
      (useToken i hash (·.isOpen userId) (at'.getD (s.now i)) s.tables).map fun result ↦
        ((), s.with result.2)
  | .setDisabledAt userId disabledAt, s =>
      (updateUser i userId (fun row ↦ { row with disabledAt := disabledAt }) s.tables).map fun result ↦
        ((), s.with (result.2.commit i))
  | .revokeSessions userId, s =>
      (updateUser i userId (fun row ↦ { row with tokenVersion := row.tokenVersion + 1 }) s.tables).map
        fun result ↦ (result.1.map (·.tokenVersion), s.with (result.2.commit i))

/-- A connection that fails to roll back is closed, which rolls back. -/
def mayFail : Op → Bool
  | .rollbackTransaction => false
  | _ => true

/-- The database as sessions. -/
abbrev sessions (ι : Type) [DecidableEq ι] : Sessions ι (Database ι) Reply Ans := ⟨answer, mayFail⟩

abbrev world (ι : Type) [DecidableEq ι] : World ι (Database ι) Ans := (sessions ι).world

end Answers

/-! ## Repositories -/

section Programs

abbrev Async (α : Type) := Program Ans AuthError α

/-- Await a call. -/
abbrev await (op : Op) : Async (Ans op) := Program.perform op

/-- The number of the lock of an account and a type. -/
def IssueAuthTokenData.lockNumber (hashtext : String → ℤ) (data : IssueAuthTokenData) : ℤ :=
  hashtext s!"{data.userId}:{data.type.text}"

/-- The insert that stands in the transaction checks its condition, the hash and the user in turn. -/
def issueInTransaction (hashtext : String → ℤ) (data : IssueAuthTokenData) : Async Bool := do
  await (.advisoryLock (data.lockNumber hashtext))
  if ← await (.existsRecent data.userId data.type data.minIntervalMs) then return false
  else if ← await (.insertToken data) then
    if ← await (.referenceUser data.userId) then return true
    else .throw .queryFailed
  else .throw .queryFailed

def issue (hashtext : String → ℤ) (data : IssueAuthTokenData) : Async Bool :=
  boundary.transaction fun _ ↦ issueInTransaction hashtext data

def lockOwnerAndConsume (tokenHash : TokenHash) (type : AuthTokenType) : Async (Option UserId) := do
  match ← await (.findOwner tokenHash type) with
  | none => return none
  | some userId =>
    match ← await (.lockUser userId) with
    | some none => await (.consume tokenHash type)
    | _ => return none

/-- An update of all tokens of a user meets them one by one. -/
def spendAll (userId : UserId) (at' : Option ℕ) : List TokenHash → Async Unit
  | [] => return ()
  | hash :: hashes => do
    await (.spend userId hash at')
    spendAll userId at' hashes

def spendTokens (userId : UserId) (at' : Option ℕ) : Async Unit := do
  let hashes ← await (.findOpen userId)
  spendAll userId at' hashes

def verifyEmailWithToken (tokenHash : TokenHash) (at' : ℕ) : Async (Option UserId) :=
  boundary.transaction fun _ ↦ do
    match ← lockOwnerAndConsume tokenHash .emailVerification with
    | none => return none
    | some userId =>
      await (.verifyEmail userId at')
      return some userId

def resetPasswordWithToken (tokenHash : TokenHash) (passwordHash : String) (at' : ℕ) :
    Async (Option UserId) :=
  boundary.transaction fun _ ↦ do
    match ← lockOwnerAndConsume tokenHash .passwordReset with
    | none => return none
    | some userId =>
      await (.resetPassword userId passwordHash at')
      spendTokens userId (some at')
      return some userId

def changePassword (id : UserId) (passwordHash : String) : Async ℕ :=
  boundary.transaction fun _ ↦ do
    match ← await (.changePassword id passwordHash) with
    | none => .throw (.error "User not found")
    | some tokenVersion =>
      spendTokens id none
      return tokenVersion

def revokeSessions (id : UserId) : Async ℕ := do
  match ← await (.revokeSessions id) with
  | none => .throw (.error "User not found")
  | some tokenVersion => return tokenVersion

inductive Request where
  | issue (data : IssueAuthTokenData)
  | verifyEmail (tokenHash : TokenHash) (at' : ℕ)
  | resetPassword (tokenHash : TokenHash) (passwordHash : String) (at' : ℕ)
  | changePassword (id : UserId) (passwordHash : String)
  | setDisabledAt (id : UserId) (disabledAt : Option ℕ)
  | revokeSessions (id : UserId)

inductive Response where
  | issued (stored : Bool)
  | owner (userId : Option UserId)
  | tokenVersion (value : ℕ)
  | done
  deriving DecidableEq

def Request.program (hashtext : String → ℤ) : Request → Async Response
  | issue data => return .issued (← Tokens.issue hashtext data)
  | verifyEmail tokenHash at' => return .owner (← verifyEmailWithToken tokenHash at')
  | resetPassword tokenHash passwordHash at' =>
      return .owner (← resetPasswordWithToken tokenHash passwordHash at')
  | changePassword id passwordHash => return .tokenVersion (← Tokens.changePassword id passwordHash)
  | setDisabledAt id disabledAt => do
    await (.setDisabledAt id disabledAt)
    return .done
  | revokeSessions id => return .tokenVersion (← Tokens.revokeSessions id)

end Programs

end MemoFlowApi.Auth.Tokens
