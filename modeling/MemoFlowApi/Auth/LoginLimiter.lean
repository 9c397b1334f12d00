import Mathlib.Algebra.Order.Archimedean.Basic
import Mathlib.Algebra.Order.Floor.Ring
import Mathlib.Data.Rat.Floor
import MemoFlowApi.Concurrency.Program
import MemoFlowApi.Js.Text
import MemoFlowApi.Redis.Expiring

/-!
# Logging In

The login and the limiter of its attempts.  An attempt is counted before anything is looked up, and a
successful login forgets the counter of its account.
-/

namespace MemoFlowApi.Auth

open Concurrency Js Redis

/-! ## Ports -/

/-- Failed attempts allowed per account within the window. -/
def LOGIN_MAX_ATTEMPTS : ℕ := 10

/-- Length of the counting window, in seconds. -/
def LOGIN_ATTEMPT_WINDOW_SECONDS : ℕ := 15 * 60

def LOGIN_ATTEMPT_WINDOW_MS : ℕ := LOGIN_ATTEMPT_WINDOW_SECONDS * 1000

structure LoginAttemptResult where
  allowed : Bool
  /-- Seconds until the window resets. -/
  retryAfterSeconds : ℤ
  /-- Attempts counted in the window, including this one; none if the store was unavailable. -/
  attempts : ℕ

structure LoginUser where
  id : Text
  email : Text
  passwordHash : Text
  tokenVersion : ℕ
  isDisabled : Bool

structure JwtPayload where
  sub : Text
  email : Text
  tv : ℕ

inductive LoginEvent where
  | login (userId : Text)
  | failed (userId : Option Text) (email : Text)
  | throttled (email : Text)
  deriving DecidableEq

inductive LoginOp where
  /-- The script that counts an attempt, on a key and with the length of its window. -/
  | eval (key : Text) (windowMs : ℕ)
  | del (key : Text)
  | findByEmail (email : Text)
  | compare (password hash : Text)
  | emit (event : LoginEvent)
  | updateLastActiveAt (userId : Text)
  | signAsync (payload : JwtPayload)

abbrev LoginOp.Ans : LoginOp → Type
  | eval _ _ => ℕ × ℤ
  | del _ => Unit
  | findByEmail _ => Option LoginUser
  | compare _ _ => Bool
  | emit _ => Unit
  | updateLastActiveAt _ => Unit
  | signAsync _ => Text

inductive LoginError where
  | throttled (retryAfterSeconds : ℤ)
  | unauthorized (message : String)
  /-- An exception of a port. -/
  | internal

abbrev Login := Program LoginOp.Ans LoginError

def ask (op : LoginOp) : Login op.Ans := Program.perform op

/-- What the code is configured with: the digest of an email in hexadecimal, and Unicode's lower case. -/
structure LoginSettings where
  sha256 : Text → Text
  toLowerCase : Text → Text

/-! ## The limiter -/

/-- The script: count, and start the window on the first attempt or where a key lost its expiry. -/
def INCR_WITH_EXPIRY (key : Text) (windowMs time : ℕ) (counters : ExpiringCounters Text) :
    (ℕ × ℤ) × ExpiringCounters Text :=
  let (count, counters) := (counters.touch time key).incr key
  let ttl := counters.pttl time key
  if count = 1 ∨ ttl < 0 then ((count, windowMs), counters.pexpire time key windowMs)
  else ((count, ttl), counters)

def KEY_PREFIX : Text := Text.of "login-attempts:"

variable (settings : LoginSettings)

def loginAttemptKey (email : Text) : Text := KEY_PREFIX ++ settings.sha256 email

/-- What an answer of the script says. -/
def attemptResult (answer : ℕ × ℤ) : LoginAttemptResult where
  allowed := answer.1 ≤ LOGIN_MAX_ATTEMPTS
  retryAfterSeconds := max 1 ⌈(answer.2 : ℚ) / 1000⌉
  attempts := answer.1

/-- Counts one attempt; an error of the store lets it proceed. -/
def registerAttempt (email : Text) : Login LoginAttemptResult := do
  match ← (ask (.eval (loginAttemptKey settings email) LOGIN_ATTEMPT_WINDOW_MS)).attempt with
  | .ok answer => return attemptResult answer
  | .error _ => return ⟨true, 0, 0⟩

/-- Forgets the counter of an account. -/
def clear (email : Text) : Login Unit := do
  let _ ← (ask (.del (loginAttemptKey settings email))).attempt
  return ()

/-! ## The use case -/

/-- Canonical form of an email address. -/
def normalizeEmail (email : Text) : Text := settings.toLowerCase (trim email)

def DUMMY_PASSWORD_HASH : Text :=
  Text.of "$2b$10$6beIFBDfQh6MC8Fn/Mw4I.GJBGlN7Nxmn79JZ2rW/SHYEnUnPVAOq"

def invalidCredentials : LoginError := .unauthorized "Invalid email or password"

structure LoginUserInput where
  email : Text
  password : Text

/-- `LoginUserUseCase.execute`, with the access token it ends with.  An unknown email costs the same
work as a wrong password. -/
def login (input : LoginUserInput) : Login Text := do
  let email := normalizeEmail settings input.email
  let attempt ← registerAttempt settings email
  if !attempt.allowed then
    if attempt.attempts = LOGIN_MAX_ATTEMPTS + 1 then
      let _ ← ask (.emit (.throttled email))
    .throw (.throttled attempt.retryAfterSeconds)
  else
    match ← ask (.findByEmail email) with
    | none =>
      let _ ← ask (.compare input.password DUMMY_PASSWORD_HASH)
      let _ ← ask (.emit (.failed none email))
      .throw invalidCredentials
    | some user =>
      let passwordMatches : Bool ← ask (.compare input.password user.passwordHash)
      if !passwordMatches || user.isDisabled then
        let _ ← ask (.emit (.failed (some user.id) email))
        .throw invalidCredentials
      else
        clear settings email
        let _ ← ask (.updateLastActiveAt user.id)
        let accessToken : Text ← ask (.signAsync ⟨user.id, user.email, user.tokenVersion⟩)
        let _ ← ask (.emit (.login user.id))
        return accessToken

end MemoFlowApi.Auth
