import MemoFlowApi.Calendar.Utc
import MemoFlowApi.Redis.Counters

/-!
# The Daily AI Quota

One counter for every user and one for all users, per UTC day.  A reserve counts on both unless one
of them has reached its limit; a check only looks.
-/

namespace MemoFlowApi.Quota

open Calendar Redis

def DEFAULT_AI_USER_DAILY_LIMIT : ℕ := 10

def DEFAULT_AI_GLOBAL_DAILY_LIMIT : ℕ := 40

/-- How long a counter outlives its day. -/
def EXPIRY_GRACE_SECONDS : ℕ := 3600

inductive Mode where
  | reserve
  | check
  deriving DecidableEq

/-- The script runs on the counters that are there at its time, and nothing runs in between. -/
def QUOTA_SCRIPT (userKey globalKey : String) (userLimit globalLimit expireAt : ℕ) (mode : Mode)
    (time : ℕ) (counters : Counters) : ℕ × Counters :=
  let counters := counters.purge time
  let userCount := counters.get userKey
  let globalCount := counters.get globalKey
  if userLimit ≤ userCount ∨ globalLimit ≤ globalCount then
    (0, counters)
  else if mode = .reserve then
    let counters := counters.incr userKey
    let counters := counters.incr globalKey
    let counters := counters.expireAt time userKey expireAt
    let counters := counters.expireAt time globalKey expireAt
    (1, counters)
  else
    (1, counters)

/-- `YYYY-MM-DD`. -/
def utcDay (now : Timestamp) : String := String.ofList ((toISOString now.ms).take 10)

def secondsUntilUtcMidnight (now : Timestamp) : ℕ :=
  let today := day now.ms
  let next := makeDay (yearFromDay today) (monthFromDay today) (dateFromDay today + 1) * msPerDay
  max 1 ((next - now.ms + 999) / 1000)

inductive QuotaError where
  | exceeded (retryAfterSeconds : ℕ)
  | unavailable
  deriving DecidableEq

def QuotaError.message : QuotaError → String
  | exceeded _ => "Daily AI usage limit reached. Try again later."
  | unavailable => "AI usage limits are temporarily unavailable"

structure RedisAiQuota where
  userLimit : ℕ
  globalLimit : ℕ
  /-- The hexadecimal SHA-256 digest. -/
  sha256 : String → String

/-- The limits of a configuration. -/
def RedisAiQuota.new (userLimit globalLimit : Option ℕ) (sha256 : String → String) :
    RedisAiQuota where
  userLimit := userLimit.getD DEFAULT_AI_USER_DAILY_LIMIT
  globalLimit := globalLimit.getD DEFAULT_AI_GLOBAL_DAILY_LIMIT
  sha256 := sha256

def globalQuotaKey (day : String) : String := "ai-quota:global:" ++ day

/-- What became of the call to Redis. -/
inductive Fate where
  | answered
  | lost
  | applied
  deriving DecidableEq

structure Call where
  userId : String
  mode : Mode
  /-- The reading of the clock that the call makes first. -/
  now : Timestamp
  /-- The time at which Redis runs the script. -/
  executedAt : ℕ
  now_le : now.ms ≤ executedAt
  fate : Fate

/-- The expiry that a call asks for. -/
def Call.expireAt (call : Call) : ℕ :=
  call.now.ms / 1000 + secondsUntilUtcMidnight call.now + EXPIRY_GRACE_SECONDS

namespace RedisAiQuota

variable (quota : RedisAiQuota)

def userQuotaKey (userId day : String) : String :=
  "ai-quota:user:" ++ quota.sha256 userId ++ ":" ++ day

/-- The script of a call. -/
def eval (call : Call) (counters : Counters) : ℕ × Counters :=
  QUOTA_SCRIPT (quota.userQuotaKey call.userId (utcDay call.now)) (globalQuotaKey (utcDay call.now))
    quota.userLimit quota.globalLimit call.expireAt call.mode call.executedAt counters

/-- `reserve` and `check`. -/
def run (call : Call) (counters : Counters) : Except QuotaError Unit × Counters :=
  match call.fate with
  | .lost => (.error .unavailable, counters.purge call.executedAt)
  | .applied => (.error .unavailable, (quota.eval call counters).2)
  | .answered =>
    let (allowed, counters) := quota.eval call counters
    if allowed ≠ 1 then
      (.error (.exceeded (secondsUntilUtcMidnight call.now)), counters)
    else
      (.ok (), counters)

/-- The counters at a time, after any calls of any users so far. -/
inductive Reached : Counters → ℕ → Prop
  | start (time : ℕ) : Reached ∅ time
  | wait {counters time later} (reached : Reached counters time) (le : time ≤ later) :
      Reached (counters.purge later) later
  | call {counters time call} (reached : Reached counters time) (le : time ≤ call.executedAt) :
      Reached (quota.run call counters).2 call.executedAt

end RedisAiQuota

end MemoFlowApi.Quota
