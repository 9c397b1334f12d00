import MemoFlowApi.Auth.LoginLimiter
import MemoFlowApi.Concurrency.Calls
import MemoFlowApi.Concurrency.Replay

/-!
# Windows of Login Attempts

The attempts on an account fall into windows, each from its first attempt until its time is over or the
counter is forgotten.  In each window the first attempts are allowed and no others, and the first that
is not allowed is audited.
-/

namespace MemoFlowApi.Auth

open Concurrency Js Redis

/-! ## Requests at the same time -/

/-- What uses the limiter: a login, or another success that forgets a counter. -/
inductive LimiterRequest where
  | login (input : LoginUserInput)
  | clear (email : Text)

def LimiterRequest.execute (settings : LoginSettings) : LimiterRequest → Login Unit
  | login input => do
    let _ ← Auth.login settings input
    return ()
  | clear email => Auth.clear settings email

/-- The counters and the clock of Redis. -/
structure LoginStore where
  counters : ExpiringCounters Text
  time : ℕ

/-- What a call takes from outside. -/
structure LoginReply where
  elapsed : ℕ := 0
  user : Option LoginUser := none
  passwordMatches : Bool := false
  accessToken : Text := []

def LoginStore.answer (reply : LoginReply) : (op : LoginOp) → LoginStore → Option (op.Ans × LoginStore)
  | .eval key windowMs, s =>
    let time := s.time + reply.elapsed
    let (answer, counters) := INCR_WITH_EXPIRY key windowMs time s.counters
    some (answer, ⟨counters, time⟩)
  | .del key, s => some ((), ⟨s.counters.del key, s.time + reply.elapsed⟩)
  | .findByEmail _, s => some (reply.user, { s with time := s.time + reply.elapsed })
  | .compare _ _, s => some (reply.passwordMatches, { s with time := s.time + reply.elapsed })
  | .emit _, s => some ((), s)
  | .updateLastActiveAt _, s => some ((), { s with time := s.time + reply.elapsed })
  | .signAsync _, s => some (reply.accessToken, { s with time := s.time + reply.elapsed })

def LoginOp.mayFail : LoginOp → Bool
  | .emit _ => false
  | _ => true

def loginMachine : Machine LoginStore LoginReply LoginOp.Ans := ⟨LoginStore.answer, LoginOp.mayFail⟩

variable {ι : Type}

abbrev LoginConfig (ι : Type) := Config ι LoginStore LoginOp.Ans LoginError Unit

abbrev LoginTrace (ι : Type) := List (Event ι LoginStore LoginOp.Ans LoginError)

/-- Requests that begin at a time at which nothing is counted. -/
def LoginConfig.initial (settings : LoginSettings) (time : ℕ) (requests : ι → LimiterRequest) :
    LoginConfig ι := Config.initial ⟨fun _ ↦ none, time⟩ fun i ↦ (requests i).execute settings

/-- A command of the limiter. -/
def LoginOp.onRedis : LoginOp → Bool
  | .eval _ _ | .del _ => true
  | _ => false

/-- No command of the limiter failed. -/
def RedisAvailable (trace : LoginTrace ι) : Prop :=
  ∀ event ∈ trace, event.op.onRedis = true → ¬event.outcome.Failed

/-! ## Windows -/

/-- A window: the time of its first attempt, and who made its attempts, in order. -/
structure Window (ι : Type) where
  start : ℕ
  callers : List ι

/-- The windows of an account, the last one apart as long as its counter is not forgotten. -/
structure Windows (ι : Type) where
  current : Option (Window ι)
  past : List (Window ι)

namespace Windows

def all (windows : Windows ι) : List (Window ι) := windows.current.toList ++ windows.past

/-- The window that an attempt at a time falls into. -/
def openAt (windows : Windows ι) (time : ℕ) : Option (Window ι) :=
  windows.current.filter fun window ↦ time < window.start + LOGIN_ATTEMPT_WINDOW_MS

def attempt (windows : Windows ι) (time : ℕ) (i : ι) : Windows ι :=
  match windows.openAt time with
  | some window => ⟨some { window with callers := window.callers ++ [i] }, windows.past⟩
  | none => ⟨some ⟨time, [i]⟩, windows.all⟩

def clear (windows : Windows ι) : Windows ι := ⟨none, windows.all⟩

/-- The windows of a key after a call of a caller at a time. -/
def after (windows : Windows ι) (key : Text) (op : LoginOp) (time : ℕ) (i : ι) : Windows ι :=
  match op with
  | .eval other _ => if other = key then windows.attempt time i else windows
  | .del other => if other = key then windows.clear else windows
  | _ => windows

end Windows

/-- The windows of a key after a run, from its calls with the state that each left. -/
def windowsOf (key : Text) :
    List (Event ι LoginStore LoginOp.Ans LoginError × LoginStore) → Windows ι
  | [] => ⟨none, []⟩
  | (event, after) :: earlier =>
    (windowsOf key earlier).after key event.op after.time event.caller

/-- The windows of a key in a configuration. -/
def LoginConfig.windows (config : LoginConfig ι) (key : Text) : Windows ι :=
  windowsOf key (stepsOf config.shared config.trace)

/-! ## The counter of a window -/

/-- The counter that counts a window. -/
def Window.counter (window : Window ι) : ExpiringCounter :=
  ⟨window.callers.length, some (window.start + LOGIN_ATTEMPT_WINDOW_MS)⟩

theorem alive_counter (window : Window ι) (time : ℕ) :
    window.counter.Alive time = decide (time < window.start + LOGIN_ATTEMPT_WINDOW_MS) := by
  rw [ExpiringCounter.Alive, Window.counter, Option.all_some]

/-- The attempts of a window include the first one. -/
def Windows.Begun (windows : Windows ι) : Prop := ∀ window ∈ windows.all, window.callers ≠ []

/-- The script counts the attempt in its window. -/
theorem script_eq {counters : ExpiringCounters Text} {key : Text} {windows : Windows ι}
    (begun : windows.Begun) (h : counters key = windows.current.map Window.counter) (time : ℕ) (i : ι) :
    ∃ window ttl, (windows.attempt time i).current = some window ∧
      INCR_WITH_EXPIRY key LOGIN_ATTEMPT_WINDOW_MS time counters =
        ((window.callers.length, ttl), Function.update counters key (some window.counter)) := by
  have htouched : counters.touch time key key = (windows.openAt time).map Window.counter := by
    rw [ExpiringCounters.touch, Function.update_self, h, Windows.openAt, Option.filter_map]
    simp only [Function.comp_def, alive_counter]
  unfold INCR_WITH_EXPIRY ExpiringCounters.incr ExpiringCounters.pttl ExpiringCounters.pexpire
    Windows.attempt
  rw [htouched]
  cases hopen : windows.openAt time with
  | none =>
    refine ⟨⟨time, [i]⟩, LOGIN_ATTEMPT_WINDOW_MS, rfl, ?_⟩
    simp only [ExpiringCounters.touch, Function.update_idem, Option.map_none, Option.getD_none,
      zero_add, true_or, if_true, Function.update_self, Option.map_some, Option.bind_none]
    rfl
  | some window =>
    obtain ⟨hcurrent, hopen⟩ := Option.filter_eq_some_iff.mp hopen
    have hne := begun window (by rw [Windows.all, hcurrent]; exact List.mem_cons_self)
    have hpos := List.length_pos_of_ne_nil hne
    rw [decide_eq_true_eq] at hopen
    refine ⟨{ window with callers := window.callers ++ [i] },
      ((window.start + LOGIN_ATTEMPT_WINDOW_MS : ℕ) : ℤ) - time, rfl, ?_⟩
    simp only [Option.map_some, Option.getD_some, Option.bind_some, Window.counter,
      ExpiringCounters.touch, Function.update_idem, Function.update_self]
    rw [if_neg (by omega)]
    simp only [List.length_append, List.length_singleton]

/-- The script leaves other keys alone. -/
theorem script_of_ne {counters : ExpiringCounters Text} {key other : Text} (h : key ≠ other)
    (windowMs time : ℕ) : (INCR_WITH_EXPIRY other windowMs time counters).2 key = counters key := by
  unfold INCR_WITH_EXPIRY ExpiringCounters.incr ExpiringCounters.pexpire ExpiringCounters.touch
  dsimp only
  split_ifs <;> simp only [Function.update_of_ne h]

/-- An attempt comes last in its window, and no other window changes. -/
theorem Windows.attempt_spec (windows : Windows ι) (time : ℕ) (i : ι) :
    ∃ start earlier, (windows.attempt time i).current = some ⟨start, earlier ++ [i]⟩ ∧
      (earlier = [] ∨ ∃ window ∈ windows.all, window.callers = earlier) ∧
      ∀ window ∈ (windows.attempt time i).all, window = ⟨start, earlier ++ [i]⟩ ∨ window ∈ windows.all := by
  unfold Windows.attempt
  cases hopen : windows.openAt time with
  | none =>
    exact ⟨time, [], rfl, .inl rfl, fun window hmem ↦ List.mem_cons.mp hmem⟩
  | some window =>
    have hcurrent := (Option.filter_eq_some_iff.mp hopen).1
    have hall : windows.all = window :: windows.past := by rw [Windows.all, hcurrent]; rfl
    refine ⟨window.start, window.callers, rfl, .inr ⟨window, ?_, rfl⟩, fun other hmem ↦ ?_⟩
    · rw [hall]
      exact List.mem_cons_self
    · rw [hall]
      exact (List.mem_cons.mp hmem).imp_right (List.mem_cons_of_mem _)

/-! ## The rule of a caller -/

abbrev LoginCall := Call LoginOp.Ans LoginError

/-- What a caller does with the answer to its attempt: a password is checked only if the attempt is
allowed, and the first attempt of a window that is not allowed is audited, once. -/
def loginRule (calls : List LoginCall) : LoginOp → Prop
  | .eval _ windowMs => windowMs = LOGIN_ATTEMPT_WINDOW_MS ∧ calls = []
  | .compare _ _ => ∀ key windowMs answer, (⟨.eval key windowMs, .ok answer⟩ : LoginCall) ∈ calls →
      (attemptResult answer).allowed = true
  | .emit (.throttled _) => ∃ key windowMs ttl,
      calls = [(⟨.eval key windowMs, .ok (LOGIN_MAX_ATTEMPTS + 1, ttl)⟩ : LoginCall)]
  | _ => True

/-- The first attempt of a window that is not allowed has been audited. -/
def Audited (calls : List LoginCall) : Prop :=
  ∀ key windowMs ttl, (⟨.eval key windowMs, .ok (LOGIN_MAX_ATTEMPTS + 1, ttl)⟩ : LoginCall) ∈ calls →
    ∃ email result, (⟨.emit (.throttled email), result⟩ : LoginCall) ∈ calls

/-- All attempts so far are allowed. -/
def Allowed (calls : List LoginCall) : Prop :=
  ∀ key windowMs answer, (⟨.eval key windowMs, .ok answer⟩ : LoginCall) ∈ calls →
    (attemptResult answer).allowed = true

theorem Allowed.audited {calls : List LoginCall} (h : Allowed calls) : Audited calls :=
  fun key windowMs _ hmem ↦ Bool.noConfusion (h key windowMs _ hmem)

theorem audited_of_emit {calls : List LoginCall} {email : Text} (result : Except LoginError Unit) :
    Audited (calls ++ [⟨.emit (.throttled email), result⟩]) :=
  fun _ _ _ _ ↦ ⟨email, result, List.mem_append_right _ (List.mem_singleton.mpr rfl)⟩

/-- A call that an allowed attempt may be followed by. -/
def afterAllowed : LoginOp → Prop
  | .eval _ _ => False
  | .emit (.throttled _) => False
  | _ => True

theorem Allowed.call {calls : List LoginCall} (h : Allowed calls) {op : LoginOp} (hop : afterAllowed op)
    (result : Except LoginError op.Ans) : loginRule calls op ∧ Allowed (calls ++ [⟨op, result⟩]) := by
  constructor
  · cases op with
    | eval _ _ => exact hop.elim
    | compare _ _ => exact h
    | emit event => cases event with
      | throttled _ => exact hop.elim
      | _ => trivial
    | _ => trivial
  · intro key windowMs answer hmem
    rcases List.mem_append.mp hmem with hmem | hmem
    · exact h key windowMs answer hmem
    · cases List.mem_singleton.mp hmem
      exact hop.elim

theorem Allowed.wp {α : Type} {program : Login α} (only : program.Only afterAllowed)
    {calls : List LoginCall} (h : Allowed calls) :
    program.wp (ownSpec loginRule) (fun _ ↦ Audited) (fun _ ↦ Audited) calls :=
  Program.wp_mono (fun _ _ h ↦ h.audited) (fun _ _ h ↦ h.audited)
    (Program.wp_of_only only (fun _ hop _ o h ↦ h.call hop o.result) h)

theorem only_clear (settings : LoginSettings) (email : Text) :
    (clear settings email).Only afterAllowed :=
  ((Program.only_perform _).mpr trivial).attempt.bind fun _ ↦ trivial

/-- The first call counts the attempt. -/
theorem wp_registerAttempt (settings : LoginSettings) (email : Text) :
    (registerAttempt settings email).wp (ownSpec loginRule)
      (fun attempt calls ↦ (attempt.allowed = true → Allowed calls) ∧
        (attempt.allowed = false → ∃ key windowMs answer, attempt = attemptResult answer ∧
          calls = [(⟨.eval key windowMs, .ok answer⟩ : LoginCall)]))
      (fun _ _ ↦ False) [] := by
  unfold registerAttempt
  rw [Program.wp_bind, Program.wp_attempt]
  refine Program.wp_ownSpec_perform ⟨rfl, rfl⟩ (fun answer ↦ ?_) fun error ↦ ?_
  · refine ⟨fun hallowed key windowMs answer' hmem ↦ ?_, fun _ ↦ ⟨_, _, answer, rfl, rfl⟩⟩
    cases List.mem_singleton.mp hmem
    exact hallowed
  · refine ⟨fun _ key windowMs answer hmem ↦ ?_, fun h ↦ Bool.noConfusion h⟩
    cases List.mem_singleton.mp hmem

theorem wp_login (settings : LoginSettings) (input : LoginUserInput) :
    (login settings input).wp (ownSpec loginRule) (fun _ ↦ Audited) (fun _ ↦ Audited) [] := by
  unfold login
  rw [Program.wp_bind]
  refine Program.wp_mono (fun attempt calls ⟨hallowed, hblocked⟩ ↦ ?_) (fun _ _ h ↦ h.elim)
    (wp_registerAttempt settings _)
  cases hresult : attempt.allowed with
  | false =>
    obtain ⟨key, windowMs, answer, rfl, rfl⟩ := hblocked hresult
    rw [if_pos (by rfl)]
    by_cases hfirst : (attemptResult answer).attempts = LOGIN_MAX_ATTEMPTS + 1
    · rw [if_pos hfirst, Program.wp_bind]
      obtain ⟨count, ttl⟩ := answer
      obtain rfl : count = LOGIN_MAX_ATTEMPTS + 1 := hfirst
      exact Program.wp_ownSpec_perform ⟨key, windowMs, ttl, rfl⟩ (fun _ ↦ audited_of_emit _)
        fun _ ↦ audited_of_emit _
    · rw [if_neg hfirst]
      intro key' windowMs' ttl hmem
      cases List.mem_singleton.mp hmem
      exact (hfirst rfl).elim
  | true =>
    rw [if_neg (by simp)]
    refine (hallowed hresult).wp ?_
    refine ((Program.only_perform _).mpr trivial).bind fun user ↦ ?_
    cases user with
    | none =>
      exact ((Program.only_perform _).mpr trivial).bind fun _ ↦
        ((Program.only_perform _).mpr trivial).bind fun _ ↦ trivial
    | some user =>
      refine ((Program.only_perform _).mpr trivial).bind fun passwordMatches ↦ ?_
      split
      · exact ((Program.only_perform _).mpr trivial).bind fun _ ↦ trivial
      · exact (only_clear settings _).bind fun _ ↦ ((Program.only_perform _).mpr trivial).bind fun _ ↦
          ((Program.only_perform _).mpr trivial).bind fun _ ↦
            ((Program.only_perform _).mpr trivial).bind fun _ ↦ trivial

theorem wp_execute (settings : LoginSettings) (request : LimiterRequest) :
    (request.execute settings).wp (ownSpec loginRule) (fun _ ↦ Audited) (fun _ ↦ Audited) [] := by
  cases request with
  | login input =>
    unfold LimiterRequest.execute
    rw [Program.wp_bind]
    exact wp_login settings input
  | clear email => exact Allowed.wp (only_clear settings email) fun _ _ _ hmem ↦ (List.not_mem_nil hmem).elim

/-! ## What is counted -/

/-- Attempt number `n` of a window counts `n + 1` attempts. -/
def Window.Answered (window : Window ι) (key : Text) (trace : LoginTrace ι) : Prop :=
  ∀ n i, window.callers[n]? = some i → ∃ event ∈ trace, event.caller = i ∧ ∃ ttl,
    (⟨event.op, event.outcome.result⟩ : LoginCall) =
      ⟨.eval key LOGIN_ATTEMPT_WINDOW_MS, .ok (n + 1, ttl)⟩

/-- What holds of the counters and of the windows. -/
structure Counted (s : LoginStore) (trace : LoginTrace ι) (key : Text) (windows : Windows ι) : Prop where
  begun : windows.Begun
  counter : s.counters key = windows.current.map Window.counter
  answered : ∀ window ∈ windows.all, window.Answered key trace

theorem Window.Answered.mono {window : Window ι} {key : Text} {trace : LoginTrace ι}
    (h : window.Answered key trace) (event : Event ι LoginStore LoginOp.Ans LoginError) :
    window.Answered key (event :: trace) := by
  intro n i hi
  obtain ⟨found, hmem, hfound⟩ := h n i hi
  exact ⟨found, List.mem_cons_of_mem _ hmem, hfound⟩

variable {s s' : LoginStore} {trace : LoginTrace ι} {key : Text} {windows : Windows ι} {i : ι}

/-- An attempt is counted in its window. -/
theorem Counted.attempt (h : Counted s trace key windows) {reply : LoginReply} {answer : ℕ × ℤ}
    (effect : LoginStore.answer reply (.eval key LOGIN_ATTEMPT_WINDOW_MS) s = some (answer, s')) :
    Counted s' (⟨s, i, .eval key LOGIN_ATTEMPT_WINDOW_MS, .returned answer⟩ :: trace) key
      (windows.attempt s'.time i) := by
  obtain ⟨window, ttl, hwindow, hscript⟩ := script_eq h.begun h.counter (s.time + reply.elapsed) i
  rw [LoginStore.answer, hscript] at effect
  obtain ⟨rfl, rfl⟩ := Prod.mk.inj (Option.some.inj effect)
  obtain ⟨start, earlier, hcurrent, hearlier, hall⟩ := windows.attempt_spec (s.time + reply.elapsed) i
  obtain rfl := Option.some.inj (hwindow.symm.trans hcurrent)
  refine ⟨fun other hmem ↦ ?_, ?_, fun other hmem ↦ ?_⟩
  · rcases hall other hmem with rfl | hold
    · simp
    · exact h.begun other hold
  · rw [hwindow]
    exact Function.update_self ..
  · rcases hall other hmem with rfl | hold
    · intro n j hj
      rcases Nat.lt_trichotomy n earlier.length with hn | rfl | hn
      · rw [List.getElem?_append_left hn] at hj
        rcases hearlier with rfl | ⟨other, hother, rfl⟩
        · cases hn
        · exact (h.answered other hother).mono _ n j hj
      · obtain rfl : i = j := by simpa using hj
        exact ⟨_, List.mem_cons_self, rfl, ttl, by simp⟩
      · rw [List.getElem?_eq_none (by simp; omega)] at hj
        cases hj
    · exact (h.answered other hold).mono _

/-- A counter that is forgotten ends its window. -/
theorem Counted.clear (h : Counted s trace key windows) (hkey : s'.counters key = none)
    (event : Event ι LoginStore LoginOp.Ans LoginError) :
    Counted s' (event :: trace) key windows.clear where
  begun := h.begun
  counter := hkey
  answered window hmem := (h.answered window hmem).mono event

theorem Counted.keep (h : Counted s trace key windows) (hkey : s'.counters key = s.counters key)
    (event : Event ι LoginStore LoginOp.Ans LoginError) : Counted s' (event :: trace) key windows where
  begun := h.begun
  counter := hkey.trans h.counter
  answered window hmem := (h.answered window hmem).mono event

/-- Calls to other ports leave the counters alone. -/
theorem counters_of_answers {op : LoginOp} {o : Outcome LoginError op.Ans} (hop : op.onRedis = false)
    (answers : loginMachine.world.Answers LoginError i op s o s') : s'.counters = s.counters := by
  rcases answers.unchanged_or_effect with rfl | ⟨answer, reply, heffect⟩
  · rfl
  · cases op with
    | eval _ _ => cases hop
    | del _ => cases hop
    | _ => cases heffect; rfl

/-! ## Runs -/

variable [DecidableEq ι] {settings : LoginSettings} {time : ℕ} {requests : ι → LimiterRequest}
  {config : LoginConfig ι}

/-- Every caller keeps the rule, and audits what it must before it ends. -/
theorem loginRule_of_reachable
    (h : loginMachine.world.Reachable (LoginConfig.initial settings time requests) config) :
    EachCall (fun event earlier ↦ loginRule (ownCalls event.caller earlier) event.op) config.trace ∧
      ∀ i, (config.threads i).wp (ownSpec loginRule) (fun _ ↦ Audited) (fun _ ↦ Audited)
        (ownCalls i config.trace) :=
  World.each_of_own rfl (fun i ↦ wp_execute settings (requests i)) h

/-- While no command fails, the counters count the windows. -/
theorem counted (h : loginMachine.world.Reachable (LoginConfig.initial settings time requests) config)
    (available : RedisAvailable config.trace) (key : Text) :
    Counted config.shared config.trace key (config.windows key) := by
  refine World.invariant
    (fun c ↦ RedisAvailable c.trace → Counted c.shared c.trace key (LoginConfig.windows c key))
    (fun _ ↦ ?_) ?_ h available
  · exact ⟨fun _ hmem ↦ (List.not_mem_nil hmem).elim, rfl, fun _ hmem ↦ (List.not_mem_nil hmem).elim⟩
  · intro c i op next o s' hreach ih hthread answers available
    have hc := ih fun event hmem ↦ available event (List.mem_cons_of_mem _ hmem)
    have hrule := (loginRule_of_reachable (hreach.step (.call hthread answers))).1.1
    have hsure := available _ List.mem_cons_self
    have hwindows : LoginConfig.windows (World.advance c i op next o s') key =
        (LoginConfig.windows c key).after key op s'.time i := rfl
    rw [hwindows]
    cases op with
    | eval other windowMs =>
      obtain rfl : windowMs = LOGIN_ATTEMPT_WINDOW_MS := hrule.1
      cases answers with
      | lost error _ => exact (hsure rfl trivial).elim
      | applied error _ _ => exact (hsure rfl trivial).elim
      | returned effect =>
        obtain ⟨reply, effect⟩ := effect
        by_cases hkey : other = key
        · subst hkey
          rw [Windows.after, if_pos rfl]
          exact hc.attempt effect
        · rw [Windows.after, if_neg hkey]
          refine hc.keep ?_ _
          obtain ⟨-, rfl⟩ := Prod.mk.inj (Option.some.inj effect)
          exact script_of_ne (Ne.symm hkey) _ _
    | del other =>
      cases answers with
      | lost error _ => exact (hsure rfl trivial).elim
      | applied error _ _ => exact (hsure rfl trivial).elim
      | returned effect =>
        obtain ⟨reply, effect⟩ := effect
        obtain ⟨-, rfl⟩ := Prod.mk.inj (Option.some.inj effect)
        by_cases hkey : other = key
        · subst hkey
          rw [Windows.after, if_pos rfl]
          exact hc.clear (Function.update_self ..) _
        · rw [Windows.after, if_neg hkey]
          exact hc.keep (Function.update_of_ne (Ne.symm hkey) ..) _
    | _ => exact hc.keep (congrFun (counters_of_answers rfl answers) key) _

/-! ## What is allowed and audited -/

def LoginOp.isThrottled : LoginOp → Bool
  | .emit (.throttled _) => true
  | _ => false

def LoginOp.isCompare : LoginOp → Bool
  | .compare _ _ => true
  | _ => false

/-- The audit events of blocked attempts that the callers of a window emitted. -/
def Window.throttledEvents (window : Window ι) (trace : LoginTrace ι) : LoginTrace ι :=
  trace.filter fun event ↦ event.op.isThrottled && decide (event.caller ∈ window.callers)

/-- What the limiter promises of a window: the first attempts are allowed and no others, a blocked one
checks no password, and there is one audit event if one is blocked and its callers have ended. -/
structure Window.Limited (window : Window ι) (key : Text) (config : LoginConfig ι) : Prop where
  allowed : ∀ n i, window.callers[n]? = some i → ∃ event ∈ config.trace, event.caller = i ∧
    ∃ answer, (⟨event.op, event.outcome.result⟩ : LoginCall) =
        ⟨.eval key LOGIN_ATTEMPT_WINDOW_MS, .ok answer⟩ ∧
      ((attemptResult answer).allowed = true ↔ n < LOGIN_MAX_ATTEMPTS)
  unchecked : ∀ n i, window.callers[n]? = some i → LOGIN_MAX_ATTEMPTS ≤ n →
    ∀ event ∈ config.trace, event.caller = i → event.op.isCompare = false
  audited_le : (window.throttledEvents config.trace).length ≤
    if LOGIN_MAX_ATTEMPTS < window.callers.length then 1 else 0
  audited : (∀ i ∈ window.callers, (config.threads i).Finished) →
    (window.throttledEvents config.trace).length =
      if LOGIN_MAX_ATTEMPTS < window.callers.length then 1 else 0

theorem allowed_of_compare {calls : List LoginCall} {op : LoginOp} (hop : op.isCompare = true)
    (rule : loginRule calls op) : Allowed calls := by
  cases op with
  | compare _ _ => exact rule
  | _ => cases hop

/-- A caller's calls begin with its attempt. -/
theorem eq_cons_of_eval {calls : List LoginCall} {key : Text} {windowMs : ℕ}
    {result : Except LoginError (ℕ × ℤ)}
    (rule : ∀ before call after, calls = before ++ call :: after → loginRule before call.1)
    (hmem : (⟨.eval key windowMs, result⟩ : LoginCall) ∈ calls) :
    ∃ after, calls = ⟨.eval key windowMs, result⟩ :: after := by
  obtain ⟨before, after, hcalls⟩ := List.append_of_mem hmem
  obtain rfl : before = [] := (rule _ _ _ hcalls).2
  exact ⟨after, hcalls⟩

/-- One audit event at most, and only of the first attempt that is blocked. -/
theorem countP_throttled {calls after : List LoginCall} {key : Text} {windowMs count : ℕ} {ttl : ℤ}
    (rule : ∀ before call after, calls = before ++ call :: after → loginRule before call.1)
    (hcalls : calls = ⟨.eval key windowMs, .ok (count, ttl)⟩ :: after) :
    calls.countP (·.1.isThrottled) ≤ if count = LOGIN_MAX_ATTEMPTS + 1 then 1 else 0 := by
  have hearlier : ∀ before call later, calls = before ++ call :: later → call.1.isThrottled = true →
      before.length = 1 ∧ count = LOGIN_MAX_ATTEMPTS + 1 := by
    intro before call later hsplit hthrottled
    have hrule := rule before call later hsplit
    obtain ⟨op, result⟩ := call
    cases op with
    | emit event =>
      cases event with
      | throttled email =>
        obtain ⟨key', windowMs', ttl', rfl⟩ := hrule
        rw [hcalls] at hsplit
        cases (List.cons.inj hsplit).1
        exact ⟨rfl, rfl⟩
      | _ => cases hthrottled
    | _ => cases hthrottled
  subst hcalls
  cases after with
  | nil => exact Nat.zero_le _
  | cons call after =>
    have hnone : after.countP (·.1.isThrottled) = 0 := by
      rw [List.countP_eq_zero]
      intro later hlater hthrottled
      obtain ⟨before, rest, rfl⟩ := List.append_of_mem hlater
      have hlength := (hearlier (_ :: call :: before) later rest rfl hthrottled).1
      simp at hlength
    rw [List.countP_cons, List.countP_cons, hnone, zero_add]
    by_cases hthrottled : call.1.isThrottled = true
    · obtain ⟨-, hcount⟩ := hearlier [_] call after rfl hthrottled
      rw [if_pos hthrottled, if_pos hcount]
      exact le_rfl
    · rw [if_neg hthrottled]
      exact Nat.zero_le _

theorem audited_of_finished
    (h : loginMachine.world.Reachable (LoginConfig.initial settings time requests) config) {i : ι}
    (finished : (config.threads i).Finished) : Audited (ownCalls i config.trace) := by
  have hwp := (loginRule_of_reachable h).2 i
  cases hthread : config.threads i with
  | pure value =>
    rw [hthread] at hwp
    exact hwp
  | throw error =>
    rw [hthread] at hwp
    exact hwp
  | call op next =>
    rw [hthread] at finished
    exact finished.elim

theorem loginRule_of_ownCalls
    (h : loginMachine.world.Reachable (LoginConfig.initial settings time requests) config) (i : ι) :
    ∀ before call after, ownCalls i config.trace = before ++ call :: after → loginRule before call.1 :=
  fun _ _ _ ↦ @rule_of_ownCalls ι LoginStore LoginOp LoginOp.Ans LoginError _ (fun _ ↦ loginRule) _
    (loginRule_of_reachable h).1 i _ _ _

/-- The calls of a caller that made an attempt of a window begin with it. -/
theorem ownCalls_of_answered {window : Window ι}
    (h : loginMachine.world.Reachable (LoginConfig.initial settings time requests) config)
    (answered : window.Answered key config.trace) {n : ℕ} (hn : window.callers[n]? = some i) :
    ∃ ttl after, ownCalls i config.trace =
      (⟨.eval key LOGIN_ATTEMPT_WINDOW_MS, .ok (n + 1, ttl)⟩ : LoginCall) :: after := by
  obtain ⟨event, hevent, hcaller, ttl, hcall⟩ := answered n i hn
  have hmem := mem_ownCalls.mpr ⟨event, hevent, hcaller, hcall⟩
  obtain ⟨after, hafter⟩ := eq_cons_of_eval (loginRule_of_ownCalls h i) hmem
  exact ⟨ttl, after, hafter⟩

/-- The audit events of a window come from the first attempt that is blocked. -/
theorem length_throttledEvents {window : Window ι}
    (h : loginMachine.world.Reachable (LoginConfig.initial settings time requests) config)
    (answered : window.Answered key config.trace) :
    (window.throttledEvents config.trace).length =
      ((window.callers[LOGIN_MAX_ATTEMPTS]?).map fun i ↦
        (ownCalls i config.trace).countP (·.1.isThrottled)).getD 0 := by
  have hplace : ∀ event ∈ config.trace, event.op.isThrottled = true → event.caller ∈ window.callers →
      window.callers[LOGIN_MAX_ATTEMPTS]? = some event.caller := by
    intro event hevent hthrottled hcaller
    obtain ⟨n, hn⟩ := List.mem_iff_getElem?.mp hcaller
    obtain ⟨ttl, after, hcalls⟩ := ownCalls_of_answered h answered hn
    have hcount := countP_throttled (loginRule_of_ownCalls h event.caller) hcalls
    have hpos : 0 < (ownCalls event.caller config.trace).countP (·.1.isThrottled) :=
      List.countP_pos_iff.mpr ⟨_, mem_ownCalls.mpr ⟨event, hevent, rfl, rfl⟩, hthrottled⟩
    by_cases hfirst : n + 1 = LOGIN_MAX_ATTEMPTS + 1
    · rw [← hn, Nat.succ.inj hfirst]
    · rw [if_neg hfirst] at hcount
      exact absurd hpos (Nat.not_lt.mpr hcount)
  unfold Window.throttledEvents
  rw [← List.countP_eq_length_filter]
  cases hblocked : window.callers[LOGIN_MAX_ATTEMPTS]? with
  | none =>
    rw [Option.map_none, Option.getD_none, List.countP_eq_zero]
    intro event hevent hthrottled
    rw [Bool.and_eq_true, decide_eq_true_eq] at hthrottled
    rw [hplace event hevent hthrottled.1 hthrottled.2] at hblocked
    cases hblocked
  | some i =>
    rw [Option.map_some, Option.getD_some, countP_ownCalls LoginOp.isThrottled]
    apply List.countP_congr
    intro event hevent
    simp only [Bool.and_eq_true, decide_eq_true_eq]
    refine and_congr_right fun hthrottled ↦ ⟨fun hcaller ↦ ?_, fun hcaller ↦ ?_⟩
    · rw [hplace event hevent hthrottled hcaller] at hblocked
      exact Option.some.inj hblocked
    · exact hcaller ▸ List.mem_of_getElem? hblocked

theorem limited_of_answered {window : Window ι}
    (h : loginMachine.world.Reachable (LoginConfig.initial settings time requests) config)
    (answered : window.Answered key config.trace) : window.Limited key config where
  allowed n i hn := by
    obtain ⟨event, hevent, hcaller, ttl, hcall⟩ := answered n i hn
    refine ⟨event, hevent, hcaller, (n + 1, ttl), hcall, ?_⟩
    exact decide_eq_true_iff.trans Nat.succ_le_iff
  unchecked n i hn hblocked event hevent hcaller := by
    obtain ⟨ttl, after, hcalls⟩ := ownCalls_of_answered h answered hn
    by_contra hcompare
    rw [Bool.not_eq_false] at hcompare
    obtain ⟨before, later, hsplit⟩ := List.append_of_mem (mem_ownCalls.mpr ⟨event, hevent, hcaller, rfl⟩)
    have hrule := loginRule_of_ownCalls h i _ _ _ hsplit
    rw [hcalls] at hsplit
    cases before with
    | nil =>
      have hop := congrArg Sigma.fst (List.cons.inj hsplit).1
      dsimp only at hop
      rw [← hop] at hcompare
      cases hcompare
    | cons call before =>
      obtain rfl := (List.cons.inj hsplit).1
      have hallowed := of_decide_eq_true (allowed_of_compare hcompare hrule _ _ _ List.mem_cons_self)
      omega
  audited_le := by
    rw [length_throttledEvents h answered]
    cases hblocked : window.callers[LOGIN_MAX_ATTEMPTS]? with
    | none => exact Nat.zero_le _
    | some i =>
      obtain ⟨ttl, after, hcalls⟩ := ownCalls_of_answered h answered hblocked
      rw [if_pos (List.getElem?_eq_some_iff.mp hblocked).1]
      have hcount := countP_throttled (loginRule_of_ownCalls h i) hcalls
      rwa [if_pos rfl] at hcount
  audited hfinished := by
    rw [length_throttledEvents h answered]
    cases hblocked : window.callers[LOGIN_MAX_ATTEMPTS]? with
    | none =>
      rw [if_neg (Nat.not_lt.mpr (List.getElem?_eq_none_iff.mp hblocked))]
      rfl
    | some i =>
      obtain ⟨ttl, after, hcalls⟩ := ownCalls_of_answered h answered hblocked
      have hcount := countP_throttled (loginRule_of_ownCalls h i) hcalls
      rw [if_pos rfl] at hcount
      have haudited := audited_of_finished h (hfinished i (List.mem_of_getElem? hblocked))
      obtain ⟨email, result, hmem⟩ := haudited key _ ttl (by rw [hcalls]; exact List.mem_cons_self)
      have hpos : 0 < (ownCalls i config.trace).countP (·.1.isThrottled) :=
        List.countP_pos_iff.mpr ⟨_, hmem, rfl⟩
      rw [if_pos (List.getElem?_eq_some_iff.mp hblocked).1]
      exact le_antisymm hcount hpos

/-- In each window the limiter keeps its promise, and the counter expires one window after the first
attempt of its window. -/
theorem login_windows
    (h : loginMachine.world.Reachable (LoginConfig.initial settings time requests) config)
    (available : RedisAvailable config.trace) (key : Text) :
    (∀ window ∈ (config.windows key).all, window.Limited key config) ∧
      ∀ counter, config.shared.counters key = some counter →
        ∃ window, (config.windows key).current = some window ∧
          counter.value = window.callers.length ∧
          counter.deadline = some (window.start + LOGIN_ATTEMPT_WINDOW_MS) := by
  have hcounted := counted h available key
  constructor
  · intro window hwindow
    exact limited_of_answered h (hcounted.answered window hwindow)
  · intro counter hcounter
    rw [hcounted.counter] at hcounter
    obtain ⟨window, hwindow, rfl⟩ := Option.map_eq_some_iff.mp hcounter
    exact ⟨window, hwindow, rfl, rfl⟩

/-! ## Eleven attempts -/

def plainSettings : LoginSettings := ⟨id, id⟩

instance (trace : LoginTrace ι) : Decidable (RedisAvailable trace) :=
  inferInstanceAs (Decidable (∀ event ∈ trace, _))

/-- Eleven attempts on one account, the last of which is audited. -/
def elevenAttempts : List (Move (Fin 11) LoginReply LoginError) :=
  (List.finRange 11).map (fun i ↦ ⟨i, { elapsed := 1 }, .returned ()⟩) ++ [⟨10, {}, .returned ()⟩]

/-- How many attempts the last window has, and whether Redis was there throughout. -/
def LoginConfig.attempts (config : LoginConfig ι) (key : Text) : Option ℕ × Bool :=
  ((config.windows key).current.map (·.callers.length), decide (RedisAvailable config.trace))

theorem login_windows_eleven : ∃ config : LoginConfig (Fin 11), ∃ window,
    (config.windows (loginAttemptKey plainSettings [])).current = some window ∧
      window.callers.length = 11 ∧ window.Limited (loginAttemptKey plainSettings []) config := by
  have hreplay : (loginMachine.replay (LoginConfig.initial plainSettings 0 fun _ ↦ .login ⟨[], []⟩)
      elevenAttempts).map (LoginConfig.attempts · (loginAttemptKey plainSettings [])) =
        some (some 11, true) := by decide +kernel
  obtain ⟨config, hreachable, hview⟩ := loginMachine.exists_reachable hreplay
  obtain ⟨hwindow, havailable⟩ := Prod.mk.inj hview
  obtain ⟨window, hcurrent, hlength⟩ := Option.map_eq_some_iff.mp hwindow
  refine ⟨config, window, hcurrent, hlength, ?_⟩
  refine (login_windows hreachable (of_decide_eq_true havailable) _).1 window ?_
  exact List.mem_append_left _ (Option.mem_toList.mpr hcurrent)

end MemoFlowApi.Auth
