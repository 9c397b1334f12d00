import Mathlib.Order.Bounds.Basic
import MemoFlowApi.Quota.RedisAiQuota

/-!
# Limits of the Daily AI Quota

All counters of a day expire together, an hour after the day is over.  So while the day lasts they
count every reserve, no counter passes its limit, and the global counter is the sum of the users'
(`RedisAiQuota.Reached.kept`).
-/

namespace MemoFlowApi.Quota

open Calendar Redis

/-! ## Keys -/

/-- A key of a user's counter of a day. -/
def isUserKey (day : String) (key : String) : Bool :=
  "ai-quota:user:".toList.isPrefixOf key.toList && (':' :: day.toList).isSuffixOf key.toList

theorem toList_utcDay (now : Timestamp) : (utcDay now).toList = isoDate (day now.ms) := by
  unfold utcDay
  rw [String.toList_ofList, take_toISOString]

/-- Clock readings have the same date exactly on the same day. -/
theorem utcDay_inj {a b : Timestamp} : utcDay a = utcDay b ↔ day a.ms = day b.ms := by
  rw [← String.toList_inj, toList_utcDay, toList_utcDay]
  exact ⟨isoDate_inj a.year_lt b.year_lt, congrArg isoDate⟩

theorem globalQuotaKey_inj {d e : String} : globalQuotaKey d = globalQuotaKey e ↔ d = e := by
  unfold globalQuotaKey
  rw [← String.toList_inj, String.toList_append, String.toList_append, List.append_cancel_left_eq,
    String.toList_inj]

theorem isUserKey_globalQuotaKey (d e : String) : isUserKey d (globalQuotaKey e) = false := by
  unfold isUserKey globalQuotaKey
  rw [String.toList_append]
  rfl

theorem toList_userQuotaKey (quota : RedisAiQuota) (userId day : String) :
    (quota.userQuotaKey userId day).toList =
      "ai-quota:user:".toList ++ ((quota.sha256 userId).toList ++ ':' :: day.toList) := by
  unfold RedisAiQuota.userQuotaKey
  calc
    _ = "ai-quota:user:".toList ++ (quota.sha256 userId).toList ++ ":".toList ++ day.toList := by
      rw [String.toList_append, String.toList_append, String.toList_append]
    _ = _ := by
      rw [List.append_assoc, List.append_assoc]
      rfl

theorem isUserKey_userQuotaKey (quota : RedisAiQuota) (userId day : String) :
    isUserKey day (quota.userQuotaKey userId day) = true := by
  unfold isUserKey
  rw [toList_userQuotaKey, Bool.and_eq_true, List.isPrefixOf_iff_prefix, List.isSuffixOf_iff_suffix]
  exact ⟨List.prefix_append _ _, (List.suffix_append _ _).trans (List.suffix_append _ _)⟩

/-- A key of a user's counter names one day. -/
theorem isUserKey_unique {a b : Timestamp} {key : String} (ha : isUserKey (utcDay a) key = true)
    (hb : isUserKey (utcDay b) key = true) : day a.ms = day b.ms := by
  unfold isUserKey at ha hb
  rw [Bool.and_eq_true, List.isSuffixOf_iff_suffix] at ha hb
  have hlength : (':' :: (utcDay a).toList).length = (':' :: (utcDay b).toList).length := by
    rw [toList_utcDay, toList_utcDay, List.length_cons, List.length_cons, length_isoDate,
      length_isoDate]
  have hsame := (List.suffix_of_suffix_length_le ha.2 hb.2 hlength.le).eq_of_length hlength
  exact utcDay_inj.mp (String.toList_inj.mp (List.cons.inj hsame).2)

/-- A key of one of the counters of a day. -/
def IsDayKey (day : String) (key : String) : Prop :=
  isUserKey day key = true ∨ key = globalQuotaKey day

theorem IsDayKey.unique {a b : Timestamp} {key : String} (ha : IsDayKey (utcDay a) key)
    (hb : IsDayKey (utcDay b) key) : day a.ms = day b.ms := by
  rcases ha with ha | ha
  · rcases hb with hb | hb
    · exact isUserKey_unique ha hb
    · rw [hb, isUserKey_globalQuotaKey] at ha
      cases ha
  · rcases hb with hb | hb
    · rw [ha, isUserKey_globalQuotaKey] at hb
      cases hb
    · exact utcDay_inj.mp (globalQuotaKey_inj.mp (ha.symm.trans hb))

/-! ## Times -/

/-- The unix second in which the counters of a day expire. -/
def expiryOf (day : ℕ) : ℕ := (day + 1) * 86400 + EXPIRY_GRACE_SECONDS

theorem secondsUntilUtcMidnight_eq (now : Timestamp) :
    secondsUntilUtcMidnight now =
      max 1 (((day now.ms + 1) * msPerDay - now.ms + 999) / 1000) := by
  unfold secondsUntilUtcMidnight
  dsimp only
  rw [makeDay_dateFromDay]

/-- Whenever a call is made on a day, it asks for the same expiry. -/
theorem expireAt_eq (call : Call) : call.expireAt = expiryOf (day call.now.ms) := by
  unfold Call.expireAt expiryOf
  rw [secondsUntilUtcMidnight_eq]
  unfold day msPerDay
  omega

/-- The counters of a day are there for all of the day. -/
theorem lt_expiryOf (now : Timestamp) : now.ms < 1000 * expiryOf (day now.ms) := by
  unfold expiryOf day msPerDay EXPIRY_GRACE_SECONDS
  omega

/-- The hint of a rejection is the least number of seconds to the next day. -/
theorem isLeast_secondsUntilUtcMidnight (now : Timestamp) :
    IsLeast {seconds | day (now.ms + 1000 * seconds) = day now.ms + 1}
      (secondsUntilUtcMidnight now) := by
  rw [secondsUntilUtcMidnight_eq]
  constructor
  · rw [Set.mem_ofPred_eq]
    unfold day msPerDay
    omega
  · intro seconds hseconds
    rw [Set.mem_ofPred_eq] at hseconds
    unfold day msPerDay at hseconds ⊢
    omega

/-! ## The counters -/

namespace RedisAiQuota

variable (quota : RedisAiQuota)

/-- What holds of the counters at all times. -/
structure Kept (counters : Counters) (time : ℕ) : Prop where
  keyed : ∀ key counter, counters.lookup key = some counter → ∃ now : Timestamp,
    IsDayKey (utcDay now) key ∧ counter.expireAt = some (expiryOf (day now.ms)) ∧
      time < 1000 * expiryOf (day now.ms)
  user_le : ∀ (now : Timestamp) key, isUserKey (utcDay now) key = true →
    counters.get key ≤ quota.userLimit
  global_le : ∀ now : Timestamp, counters.get (globalQuotaKey (utcDay now)) ≤ quota.globalLimit
  sum : ∀ now : Timestamp,
    counters.get (globalQuotaKey (utcDay now)) = counters.total (isUserKey (utcDay now))

variable {quota} {counters : Counters} {time later : ℕ}

theorem Kept.empty (time : ℕ) : quota.Kept ∅ time where
  keyed _ _ h := by cases h
  user_le _ _ _ := Nat.zero_le _
  global_le _ := Nat.zero_le _
  sum _ := rfl

/-- The expiry of a counter is that of its day. -/
theorem Kept.expireAt (h : quota.Kept counters time) {now : Timestamp} {key : String}
    {counter : Counter} (mem : counters.lookup key = some counter)
    (own : IsDayKey (utcDay now) key) :
    counter.expireAt = some (expiryOf (day now.ms)) ∧ time < 1000 * expiryOf (day now.ms) := by
  obtain ⟨other, hother, hexpiry⟩ := h.keyed key counter mem
  rwa [own.unique hother]

theorem Kept.alive_iff (h : quota.Kept counters time) {now : Timestamp} {key : String}
    {counter : Counter} (mem : counters.lookup key = some counter)
    (own : IsDayKey (utcDay now) key) :
    counter.Alive later = decide (later < 1000 * expiryOf (day now.ms)) := by
  unfold Counter.Alive
  rw [(h.expireAt mem own).1]

theorem get_purge (h : quota.Kept counters time) {now : Timestamp} {key : String}
    (own : IsDayKey (utcDay now) key) :
    (counters.purge later).get key =
      if later < 1000 * expiryOf (day now.ms) then counters.get key else 0 := by
  unfold Counters.get
  rw [Counters.lookup_purge]
  cases hmem : counters.lookup key with
  | none => simp
  | some counter =>
    rw [Option.filter_some, h.alive_iff hmem own]
    split
    · next halive => rw [if_pos (of_decide_eq_true halive)]
    · next hdead =>
      rw [if_neg fun hlt ↦ hdead (decide_eq_true hlt)]
      rfl

theorem get_purge_le (key : String) : (counters.purge later).get key ≤ counters.get key := by
  unfold Counters.get
  rw [Counters.lookup_purge]
  cases counters.lookup key with
  | none => exact le_rfl
  | some counter =>
    rw [Option.filter_some]
    split
    · exact le_rfl
    · exact Nat.zero_le _

theorem total_purge (h : quota.Kept counters time) (now : Timestamp) :
    (counters.purge later).total (isUserKey (utcDay now)) =
      if later < 1000 * expiryOf (day now.ms) then counters.total (isUserKey (utcDay now))
      else 0 := by
  split
  · next hlt =>
    refine Counters.total_purge_of_alive fun key counter hmem hkey ↦ ?_
    rw [h.alive_iff hmem (.inl hkey), decide_eq_true hlt]
  · next hge =>
    refine Counters.total_purge_of_expired fun key counter hmem hkey ↦ ?_
    rw [h.alive_iff hmem (.inl hkey), decide_eq_false hge]

/-- The passage of time keeps the invariant. -/
theorem Kept.purge (h : quota.Kept counters time) (later : ℕ) :
    quota.Kept (counters.purge later) later where
  keyed key counter hmem := by
    rw [Counters.lookup_purge, Option.filter_eq_some_iff] at hmem
    obtain ⟨now, hown, hexpiry, -⟩ := h.keyed key counter hmem.1
    have halive := hmem.2
    rw [h.alive_iff hmem.1 hown] at halive
    exact ⟨now, hown, hexpiry, of_decide_eq_true halive⟩
  user_le now key hkey := (get_purge_le key).trans (h.user_le now key hkey)
  global_le now := (get_purge_le _).trans (h.global_le now)
  sum now := by
    rw [get_purge h (.inr rfl), total_purge h, h.sum]

/-- The invariant is one of what the keys are mapped to. -/
theorem Kept.congr (h : quota.Kept counters time) {other : Counters}
    (same : ∀ key, other.lookup key = counters.lookup key) : quota.Kept other time := by
  have hget : ∀ key, other.get key = counters.get key := by
    intro key
    unfold Counters.get
    rw [same]
  constructor
  · intro key counter hmem
    rw [same] at hmem
    exact h.keyed key counter hmem
  · intro now key hkey
    rw [hget]
    exact h.user_le now key hkey
  · intro now
    rw [hget]
    exact h.global_le now
  · intro now
    rw [hget, Counters.total_congr same]
    exact h.sum now

/-! ## A reserve -/

/-- What a reserve that is not rejected does to the counters. -/
def reserved (counters : Counters) (time : ℕ) (userKey globalKey : String) (seconds : ℕ) : Counters :=
  (((counters.incr userKey).incr globalKey).expireAt time userKey seconds).expireAt time globalKey
    seconds

section Reserve

variable {userKey globalKey key : String} {seconds : ℕ}

theorem lookup_reserved_of_ne (user : key ≠ userKey) (global : key ≠ globalKey) :
    (reserved counters time userKey globalKey seconds).lookup key = counters.lookup key := by
  unfold reserved
  rw [Counters.lookup_expireAt_ne global, Counters.lookup_expireAt_ne user,
    Counters.lookup_incr_ne global, Counters.lookup_incr_ne user]

theorem lookup_reserved_user (ne : userKey ≠ globalKey) (h : time < 1000 * seconds) :
    (reserved counters time userKey globalKey seconds).lookup userKey =
      some ⟨counters.get userKey + 1, some seconds⟩ := by
  unfold reserved
  rw [Counters.lookup_expireAt_ne ne, Counters.lookup_expireAt h, Counters.lookup_incr_ne ne,
    Counters.lookup_incr]
  rfl

theorem lookup_reserved_global (ne : globalKey ≠ userKey) (h : time < 1000 * seconds) :
    (reserved counters time userKey globalKey seconds).lookup globalKey =
      some ⟨counters.get globalKey + 1, some seconds⟩ := by
  unfold reserved
  rw [Counters.lookup_expireAt h, Counters.lookup_expireAt_ne ne, Counters.lookup_incr]
  unfold Counters.get
  rw [Counters.lookup_incr_ne ne]
  rfl

/-- A reserve that comes after the expiry of its day leaves no trace. -/
theorem lookup_reserved_past (h : 1000 * seconds ≤ time)
    (absent : ∀ key, key = userKey ∨ key = globalKey → counters.lookup key = none) (key : String) :
    (reserved counters time userKey globalKey seconds).lookup key = counters.lookup key := by
  by_cases hglobal : key = globalKey
  · subst hglobal
    rw [absent key (.inr rfl)]
    exact Counters.lookup_expireAt_past h
  · by_cases huser : key = userKey
    · subst huser
      rw [absent key (.inl rfl)]
      unfold reserved
      rw [Counters.lookup_expireAt_ne hglobal, Counters.lookup_expireAt_past h]
    · exact lookup_reserved_of_ne huser hglobal

theorem total_reserved (p : String → Bool) (h : time < 1000 * seconds) :
    (reserved counters time userKey globalKey seconds).total p =
      counters.total p + (if p userKey then 1 else 0) + if p globalKey then 1 else 0 := by
  unfold reserved
  rw [Counters.total_expireAt h, Counters.total_expireAt h, Counters.total_incr, Counters.total_incr]

theorem ne_globalQuotaKey {day other : String} (user : isUserKey day userKey = true) :
    userKey ≠ globalQuotaKey other := by
  rintro rfl
  rw [isUserKey_globalQuotaKey] at user
  cases user

/-- A reserve counts for its own day only. -/
theorem get_reserved_global {now : Timestamp} (user : isUserKey (utcDay now) userKey = true)
    (h : time < 1000 * seconds) (other : Timestamp) :
    (reserved counters time userKey (globalQuotaKey (utcDay now)) seconds).get
        (globalQuotaKey (utcDay other)) =
      counters.get (globalQuotaKey (utcDay other)) +
        if day other.ms = day now.ms then 1 else 0 := by
  unfold Counters.get
  by_cases hday : day other.ms = day now.ms
  · rw [if_pos hday, utcDay_inj.mpr hday, lookup_reserved_global (ne_globalQuotaKey user).symm h]
    rfl
  · have hne : globalQuotaKey (utcDay other) ≠ globalQuotaKey (utcDay now) :=
      fun hsame ↦ hday (utcDay_inj.mp (globalQuotaKey_inj.mp hsame))
    rw [if_neg hday, lookup_reserved_of_ne (ne_globalQuotaKey user).symm hne, Nat.add_zero]

theorem total_reserved_user {now : Timestamp} (user : isUserKey (utcDay now) userKey = true)
    (h : time < 1000 * seconds) (other : Timestamp) :
    (reserved counters time userKey (globalQuotaKey (utcDay now)) seconds).total
        (isUserKey (utcDay other)) =
      counters.total (isUserKey (utcDay other)) +
        if day other.ms = day now.ms then 1 else 0 := by
  have hiff : isUserKey (utcDay other) userKey = true ↔ day other.ms = day now.ms := by
    constructor
    · exact fun hother ↦ isUserKey_unique hother user
    · intro hday
      rwa [utcDay_inj.mpr hday]
  rw [total_reserved _ h, isUserKey_globalQuotaKey, if_congr hiff rfl rfl, if_neg Bool.false_ne_true,
    Nat.add_zero]

/-- A reserve below both limits keeps the invariant. -/
theorem Kept.reserve (h : quota.Kept counters time) {now : Timestamp}
    (user : isUserKey (utcDay now) userKey = true) (user_lt : counters.get userKey < quota.userLimit)
    (global_lt : counters.get (globalQuotaKey (utcDay now)) < quota.globalLimit) :
    quota.Kept (reserved counters time userKey (globalQuotaKey (utcDay now))
      (expiryOf (day now.ms))) time := by
  by_cases hpast : 1000 * expiryOf (day now.ms) ≤ time
  · refine h.congr (lookup_reserved_past hpast fun key hkey ↦ ?_)
    by_contra hsome
    obtain ⟨counter, hmem⟩ := Option.ne_none_iff_exists'.mp hsome
    have hown : IsDayKey (utcDay now) key := by
      rcases hkey with rfl | rfl
      · exact .inl user
      · exact .inr rfl
    exact absurd (h.expireAt hmem hown).2 (not_lt.mpr hpast)
  rw [not_le] at hpast
  constructor
  · intro key counter hmem
    by_cases hglobal : key = globalQuotaKey (utcDay now)
    · subst hglobal
      rw [lookup_reserved_global (ne_globalQuotaKey user).symm hpast] at hmem
      cases hmem
      exact ⟨now, .inr rfl, rfl, hpast⟩
    · by_cases huser : key = userKey
      · subst huser
        rw [lookup_reserved_user hglobal hpast] at hmem
        cases hmem
        exact ⟨now, .inl user, rfl, hpast⟩
      · rw [lookup_reserved_of_ne huser hglobal] at hmem
        exact h.keyed key counter hmem
  · intro other key hkey
    unfold Counters.get
    by_cases huser : key = userKey
    · subst huser
      rw [lookup_reserved_user (ne_globalQuotaKey hkey) hpast]
      exact user_lt
    · rw [lookup_reserved_of_ne huser (ne_globalQuotaKey hkey)]
      exact h.user_le other key hkey
  · intro other
    rw [get_reserved_global user hpast]
    split
    · next hday =>
      rw [utcDay_inj.mpr hday]
      exact global_lt
    · exact h.global_le other
  · intro other
    rw [get_reserved_global user hpast, total_reserved_user user hpast, h.sum]

end Reserve

/-! ## Calls -/

/-- The script rejects and leaves the counters, looks only, or counts below both limits. -/
theorem eval_cases (call : Call) (counters : Counters) :
    (quota.eval call counters).2 = counters.purge call.executedAt ∧
        (call.mode = .reserve → (quota.eval call counters).1 = 0) ∨
      call.mode = .reserve ∧ (quota.eval call counters).1 = 1 ∧
        (counters.purge call.executedAt).get (quota.userQuotaKey call.userId (utcDay call.now)) <
          quota.userLimit ∧
        (counters.purge call.executedAt).get (globalQuotaKey (utcDay call.now)) <
          quota.globalLimit ∧
        (quota.eval call counters).2 = reserved (counters.purge call.executedAt) call.executedAt
          (quota.userQuotaKey call.userId (utcDay call.now)) (globalQuotaKey (utcDay call.now))
          call.expireAt := by
  unfold eval QUOTA_SCRIPT
  dsimp only
  split
  · exact .inl ⟨rfl, fun _ ↦ rfl⟩
  · next hbelow =>
    rw [not_or, not_le, not_le] at hbelow
    split
    · next hmode => exact .inr ⟨hmode, rfl, hbelow.1, hbelow.2, rfl⟩
    · next hmode => exact .inl ⟨rfl, fun hreserve ↦ (hmode hreserve).elim⟩

theorem Kept.eval (h : quota.Kept counters time) (call : Call) :
    quota.Kept (quota.eval call counters).2 call.executedAt := by
  have hpurged := h.purge call.executedAt
  rcases eval_cases call counters with ⟨hsame, -⟩ | ⟨-, -, huser, hglobal, hreserved⟩
  · rw [hsame]
    exact hpurged
  · rw [hreserved, expireAt_eq]
    exact hpurged.reserve (isUserKey_userQuotaKey _ _ _) huser hglobal

theorem Kept.run (h : quota.Kept counters time) (call : Call) :
    quota.Kept (quota.run call counters).2 call.executedAt := by
  unfold RedisAiQuota.run
  split
  · exact h.purge call.executedAt
  · exact h.eval call
  · dsimp only
    split
    · exact h.eval call
    · exact h.eval call

/-- The invariant holds at all times. -/
theorem Reached.kept (reached : quota.Reached counters time) : quota.Kept counters time := by
  induction reached with
  | start time => exact Kept.empty time
  | wait _ _ ih => exact ih.purge _
  | call _ _ ih => exact ih.run _

theorem run_check {call : Call} (check : call.mode = .check) :
    (quota.run call counters).2 = counters.purge call.executedAt := by
  have heval : (quota.eval call counters).2 = counters.purge call.executedAt := by
    rcases eval_cases call counters with ⟨hsame, -⟩ | ⟨hmode, -⟩
    · exact hsame
    · rw [check] at hmode
      cases hmode
  unfold RedisAiQuota.run
  split
  · rfl
  · exact heval
  · dsimp only
    split
    · exact heval
    · exact heval

/-- A rejection changes nothing and tells when to come back. -/
theorem run_exceeded {call : Call} {retryAfterSeconds : ℕ}
    (exceeded : (quota.run call counters).1 = .error (.exceeded retryAfterSeconds)) :
    (quota.run call counters).2 = counters.purge call.executedAt ∧
      retryAfterSeconds = secondsUntilUtcMidnight call.now := by
  unfold RedisAiQuota.run at exceeded ⊢
  split at exceeded
  · cases exceeded
  · cases exceeded
  · dsimp only at exceeded ⊢
    split at exceeded
    · next hrejected =>
      rw [if_pos hrejected]
      cases exceeded
      rcases eval_cases call counters with ⟨hsame, -⟩ | ⟨-, hallowed, -⟩
      · exact ⟨hsame, rfl⟩
      · exact (hrejected hallowed).elim
    · cases exceeded

theorem run_ok {call : Call} (allowed : (quota.run call counters).1 = .ok ()) :
    (quota.eval call counters).1 = 1 ∧ (quota.run call counters).2 = (quota.eval call counters).2 := by
  unfold RedisAiQuota.run at allowed ⊢
  split at allowed
  · cases allowed
  · cases allowed
  · dsimp only at allowed ⊢
    split at allowed
    · cases allowed
    · next hallowed =>
      rw [if_neg hallowed]
      exact ⟨not_not.mp hallowed, rfl⟩

/-- A reserve that is allowed before the counters of its day expire counts for the user and for all. -/
theorem run_allowed {call : Call} (reserve : call.mode = .reserve)
    (allowed : (quota.run call counters).1 = .ok ()) (alive : call.executedAt < 1000 * call.expireAt) :
    (quota.run call counters).2.get (quota.userQuotaKey call.userId (utcDay call.now)) =
        (counters.purge call.executedAt).get (quota.userQuotaKey call.userId (utcDay call.now)) + 1 ∧
      (quota.run call counters).2.get (globalQuotaKey (utcDay call.now)) =
        (counters.purge call.executedAt).get (globalQuotaKey (utcDay call.now)) + 1 := by
  have hne : quota.userQuotaKey call.userId (utcDay call.now) ≠ globalQuotaKey (utcDay call.now) :=
    ne_globalQuotaKey (isUserKey_userQuotaKey quota call.userId (utcDay call.now))
  obtain ⟨hallowed, hrun⟩ := run_ok allowed
  have hcounted : (quota.run call counters).2 = reserved (counters.purge call.executedAt)
      call.executedAt (quota.userQuotaKey call.userId (utcDay call.now))
      (globalQuotaKey (utcDay call.now)) call.expireAt := by
    rw [hrun]
    rcases eval_cases call counters with ⟨-, hrejected⟩ | ⟨-, -, -, -, hreserved⟩
    · rw [hrejected reserve] at hallowed
      cases hallowed
    · exact hreserved
  rw [hcounted]
  unfold Counters.get
  rw [lookup_reserved_user hne alive, lookup_reserved_global hne.symm alive]
  exact ⟨rfl, rfl⟩

/-- At all times and for every UTC day, no user's counter passes the user limit, the global counter
does not pass the global limit and is the sum of the users' counters, and the counters outlive the
day.  A check and a rejection change no counter, an allowed reserve raises both by one, and the hint
of a rejection is the least number of seconds to the next day. -/
theorem quota_kept (reached : quota.Reached counters time) :
    (∀ now : Timestamp,
      (∀ key, isUserKey (utcDay now) key = true → counters.get key ≤ quota.userLimit) ∧
      counters.get (globalQuotaKey (utcDay now)) ≤ quota.globalLimit ∧
      counters.get (globalQuotaKey (utcDay now)) = counters.total (isUserKey (utcDay now)) ∧
      ∀ key counter, counters.lookup key = some counter → IsDayKey (utcDay now) key →
        ∃ seconds, counter.expireAt = some seconds ∧
          ∀ other : Timestamp, day other.ms = day now.ms → other.ms < 1000 * seconds) ∧
    ∀ call : Call, time ≤ call.executedAt →
      (call.mode = .check → (quota.run call counters).2 = counters.purge call.executedAt) ∧
      (call.mode = .reserve → (quota.run call counters).1 = .ok () →
        call.executedAt < 1000 * call.expireAt →
          (quota.run call counters).2.get (quota.userQuotaKey call.userId (utcDay call.now)) =
              (counters.purge call.executedAt).get
                (quota.userQuotaKey call.userId (utcDay call.now)) + 1 ∧
            (quota.run call counters).2.get (globalQuotaKey (utcDay call.now)) =
              (counters.purge call.executedAt).get (globalQuotaKey (utcDay call.now)) + 1) ∧
      ∀ retryAfterSeconds,
        (quota.run call counters).1 = .error (.exceeded retryAfterSeconds) →
          (quota.run call counters).2 = counters.purge call.executedAt ∧
          IsLeast {seconds | day (call.now.ms + 1000 * seconds) = day call.now.ms + 1}
            retryAfterSeconds := by
  have hkept := reached.kept
  refine ⟨fun now ↦ ⟨hkept.user_le now, hkept.global_le now, hkept.sum now, ?_⟩,
    fun call _ ↦ ⟨run_check, run_allowed, fun retryAfterSeconds hexceeded ↦ ?_⟩⟩
  · intro key counter hmem hown
    refine ⟨_, (hkept.expireAt hmem hown).1, fun other hday ↦ ?_⟩
    rw [← hday]
    exact lt_expiryOf other
  · obtain ⟨hsame, rfl⟩ := run_exceeded hexceeded
    exact ⟨hsame, isLeast_secondsUntilUtcMidnight call.now⟩

/-- Two hours before midnight. -/
def evening : Timestamp := ⟨1794002400000, by decide⟩

/-- Eight hours later. -/
def morning : Timestamp := ⟨1794031200000, by decide⟩

def reserveOf (userId : String) (now : Timestamp) : Call where
  userId := userId
  mode := .reserve
  now := now
  executedAt := now.ms + 7
  now_le := Nat.le_add_right _ _
  fate := .answered

/-- Two calls for each user, and three in all. -/
def smallQuota : RedisAiQuota := .new (some 2) (some 3) id

/-- The counters after two reserves of one user and one of another. -/
def eveningCounters : Counters :=
  [reserveOf "ada" evening, reserveOf "ada" evening, reserveOf "bob" evening].foldl
    (fun counters call ↦ (smallQuota.run call counters).2) ∅

theorem reached_eveningCounters : smallQuota.Reached eveningCounters (evening.ms + 7) :=
  .call (.call (.call (.start 0) (Nat.zero_le _)) le_rfl) le_rfl

/-- A reserve at the limit is rejected for the two hours of the day that are left, and one of the next
morning counts for the new day. -/
theorem quota_kept_evening :
    eveningCounters.get (globalQuotaKey (utcDay evening)) =
        eveningCounters.total (isUserKey (utcDay evening)) ∧
      (smallQuota.run (reserveOf "ada" evening) eveningCounters).1 = .error (.exceeded 7200) ∧
      IsLeast {seconds | day (evening.ms + 1000 * seconds) = day evening.ms + 1} 7200 ∧
      (smallQuota.run (reserveOf "ada" morning) eveningCounters).1 = .ok () ∧
      (smallQuota.run (reserveOf "ada" morning) eveningCounters).2.get
        (globalQuotaKey (utcDay morning)) = 1 := by
  obtain ⟨hcounters, hcalls⟩ := quota_kept reached_eveningCounters
  have hexceeded : (smallQuota.run (reserveOf "ada" evening) eveningCounters).1 =
      .error (.exceeded 7200) := by decide +kernel
  have hallowed : (smallQuota.run (reserveOf "ada" morning) eveningCounters).1 = .ok () := by
    decide +kernel
  obtain ⟨-, -, hrejected⟩ := hcalls (reserveOf "ada" evening) le_rfl
  obtain ⟨-, hcounted, -⟩ := hcalls (reserveOf "ada" morning) (by decide)
  exact ⟨(hcounters evening).2.2.1, hexceeded, (hrejected _ hexceeded).2, hallowed,
    (hcounted rfl hallowed (by decide +kernel)).2.trans (by decide +kernel)⟩

end RedisAiQuota

end MemoFlowApi.Quota
