import Mathlib.Data.Nat.Notation
import MemoFlowApi.Concurrency.Sessions

/-!
# Passwords and Access Tokens of One User

The requests that prove or replace a password, each repository transaction as one step.  A hash
keeps the password with a salt that is drawn once: it is named after the request that draws it.
-/

namespace MemoFlowApi.Auth.Passwords

open Concurrency

/-- What `bcrypt.hash` returns; a stored hash may come from no request of the run. -/
structure PasswordHash (ι : Type) where
  password : String
  salt : Option ι
  deriving DecidableEq

/-- `bcrypt.compare`. -/
def PasswordHash.compare {ι : Type} (password : String) (hash : PasswordHash ι) : Bool :=
  hash.password = password

structure User (ι : Type) where
  passwordHash : PasswordHash ι
  tokenVersion : ℕ
  disabledAt : Option ℕ
  deriving DecidableEq

def User.isDisabled {ι : Type} (user : User ι) : Bool := user.disabledAt.isSome

/-- A one-time token that resets the password. -/
structure ResetToken where
  expiresAt : ℕ
  usedAt : Option ℕ

/-- `used_at IS NULL AND expires_at > now()`. -/
def ResetToken.isUsable (token : ResetToken) (now : ℕ) : Bool :=
  token.usedAt = none ∧ now < token.expiresAt

/-- The payload of an access token of the user. -/
structure JwtPayload where
  tv : Option ℕ
  deriving DecidableEq

/-- `payload.tv ?? 0`. -/
def JwtPayload.version (payload : JwtPayload) : ℕ := payload.tv.getD 0

structure State (ι : Type) where
  clock : ℕ
  user : Option (User ι)
  resetTokens : String → Option ResetToken

/-! ## Calls -/

inductive AuthError where
  | unauthorized (message : String)
  | badRequest (message : String)
  | throttled
  | error (message : String)
  /-- A call failed. -/
  | failed
  deriving DecidableEq

inductive Op (ι : Type) where
  | registerAttempt
  | clearAttempts
  /-- `findByEmail` or `findById`. -/
  | findUser
  | updateLastActiveAt
  | compare (password : String) (hash : PasswordHash ι)
  | hash (password : String)
  | changePassword (hash : PasswordHash ι)
  | resetPassword (tokenHash : String) (hash : PasswordHash ι)
  | revokeSessions
  | sign (payload : JwtPayload)

variable {ι : Type}

/-- An attempt answers whether it is allowed, and a reset whether its token was good. -/
abbrev Ans : Op ι → Type
  | .registerAttempt => Bool
  | .findUser => Option (User ι)
  | .compare _ _ => Bool
  | .hash _ => PasswordHash ι
  | .changePassword _ => Option ℕ
  | .resetPassword _ _ => Bool
  | .revokeSessions => Option ℕ
  | .sign _ => JwtPayload
  | _ => Unit

/-- The part of an answer that the state does not determine. -/
structure Reply where
  elapsed : ℕ := 0
  allowed : Bool := true

/-- The row after the password was replaced. -/
def User.replace (user : User ι) (hash : PasswordHash ι) : User ι :=
  { user with passwordHash := hash, tokenVersion := user.tokenVersion + 1 }

/-- `UPDATE "auth_tokens" SET "used_at" … WHERE "used_at" IS NULL`. -/
def State.spendAll (s : State ι) : State ι :=
  { s with
    resetTokens := fun hash ↦ (s.resetTokens hash).map fun token ↦
      { token with usedAt := some (token.usedAt.getD s.clock) } }

def State.wait (s : State ι) (elapsed : ℕ) : State ι := { s with clock := s.clock + elapsed }

/-- The account is enabled, and the reset token is good. -/
def State.consumes (s : State ι) (tokenHash : String) : Bool :=
  s.user.any (!·.isDisabled) && (s.resetTokens tokenHash).any (·.isUsable s.clock)

/-- The transaction that replaces the hash, raises the version and spends all tokens. -/
def State.replacePassword (s : State ι) (hash : PasswordHash ι) : State ι :=
  { s.spendAll with user := s.user.map (·.replace hash) }

def State.revokeSessions (s : State ι) : State ι :=
  { s with user := s.user.map fun user ↦ { user with tokenVersion := user.tokenVersion + 1 } }

/-- What a call answers to caller `i`, and what it leaves. -/
def effect (i : ι) (reply : Reply) : (op : Op ι) → State ι → Ans op × State ι
  | .registerAttempt, s => (reply.allowed, s)
  | .clearAttempts, s => ((), s)
  | .findUser, s => (s.user, s)
  | .updateLastActiveAt, s => ((), s)
  | .compare password hash, s => (hash.compare password, s)
  | .hash password, s => (⟨password, some i⟩, s)
  | .changePassword hash, s => (s.user.map (·.tokenVersion + 1), s.replacePassword hash)
  | .resetPassword tokenHash hash, s =>
      if s.consumes tokenHash then (true, s.replacePassword hash) else (false, s)
  | .revokeSessions, s => (s.user.map (·.tokenVersion + 1), s.revokeSessions)
  | .sign payload, s => (payload, s)

/-- Time passes with every call. -/
def answer (i : ι) (reply : Reply) (op : Op ι) (s : State ι) : Option (Ans op × State ι) :=
  some ((effect i reply op s).1, (effect i reply op s).2.wait reply.elapsed)

/-- The database, the limiter and the crypto library, any of which may fail. -/
abbrev sessions (ι : Type) : Sessions ι (State ι) Reply (Ans (ι := ι)) := ⟨answer, fun _ ↦ true⟩

/-! ## Use cases -/

abbrev Async (ι : Type) (α : Type) := Program (Ans (ι := ι)) AuthError α

/-- Await a call. -/
abbrev await (op : Op ι) : Async ι (Ans op) := Program.perform op

def invalidToken : AuthError := .unauthorized "Invalid token"

/-- The check of an access token against the row of its user. -/
def check (payload : JwtPayload) : Option (User ι) → Except AuthError (User ι)
  | none => .error invalidToken
  | some user =>
    if user.isDisabled then .error invalidToken
    else if payload.version ≠ user.tokenVersion then .error invalidToken
    else .ok user

/-- `JwtStrategy.validate`. -/
def validate (payload : JwtPayload) : Async ι (User ι) := do
  match check payload (← await .findUser) with
  | .ok user => return user
  | .error error => .throw error

/-- Compared against when the email is unknown. -/
def dummyPasswordHash : PasswordHash ι := ⟨"", none⟩

def invalidCredentials : AuthError := .unauthorized "Invalid email or password"

/-- `LoginUserUseCase.execute`. -/
def login (password : String) : Async ι JwtPayload := do
  if !(← await .registerAttempt) then .throw .throttled
  else
    match ← await .findUser with
    | none =>
      let _ ← await (.compare password dummyPasswordHash)
      .throw invalidCredentials
    | some user =>
      let passwordMatches ← await (.compare password user.passwordHash)
      if !passwordMatches || user.isDisabled then .throw invalidCredentials
      else
        await .clearAttempts
        await .updateLastActiveAt
        await (.sign ⟨some user.tokenVersion⟩)

/-- `ChangePasswordUseCase.execute`, for the user that the strategy has read. -/
def changePassword (user : User ι) (currentPassword newPassword : String) : Async ι JwtPayload := do
  let passwordMatches ← await (.compare currentPassword user.passwordHash)
  if !passwordMatches then .throw (.badRequest "Current password is incorrect")
  else
    let passwordHash ← await (.hash newPassword)
    match ← await (.changePassword passwordHash) with
    | none => .throw (.error "User not found")
    | some tokenVersion => await (.sign ⟨some tokenVersion⟩)

/-- Best effort: it never fails the reset. -/
def clearLoginCounter : Async ι Unit := do
  let cleared : Async ι Unit := do
    match ← await .findUser with
    | none => return ()
    | some _ => await .clearAttempts
  let _ ← cleared.attempt
  return ()

/-- `ResetPasswordUseCase.execute`. -/
def resetPassword (tokenHash newPassword : String) : Async ι Unit := do
  let passwordHash ← await (.hash newPassword)
  if !(← await (.resetPassword tokenHash passwordHash)) then
    .throw (.badRequest "Invalid or expired token")
  else clearLoginCounter

/-- `LogoutUserUseCase.execute`. -/
def logout : Async ι Unit := do
  match ← await .revokeSessions with
  | none => .throw (.error "User not found")
  | some _ => return ()

/-! ## Requests -/

/-- The requests of a user, those behind `JwtAuthGuard` with their access tokens. -/
inductive Request where
  | login (password : String)
  | changePassword (token : JwtPayload) (currentPassword newPassword : String)
  | resetPassword (tokenHash newPassword : String)
  | logout (token : JwtPayload)

/-- A request returns the access token of its response, if there is one. -/
def Request.program : Request → Async ι (Option JwtPayload)
  | login password => do
    let accessToken ← Passwords.login password
    return some accessToken
  | changePassword token currentPassword newPassword => do
    let user ← validate token
    let accessToken ← Passwords.changePassword user currentPassword newPassword
    return some accessToken
  | resetPassword tokenHash newPassword => do
    Passwords.resetPassword tokenHash newPassword
    return none
  | logout token => do
    let _ ← validate token
    Passwords.logout
    return none

end MemoFlowApi.Auth.Passwords
