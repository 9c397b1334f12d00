import Mathlib.Logic.Relation
import MemoFlowApi.Auth.Issuing

/-!
# One-Time Tokens

A token is consumed under the lock of its user's row, which the consuming transaction holds to its
end, as does every transaction that uses up all tokens of a user.  Locks are taken in one order: the
advisory lock, a new token, the row of a user, stored tokens; for the last nobody waits.
-/

namespace MemoFlowApi.Auth.Tokens

open Concurrency Sql

/-! ## Waiting -/

/-- The lock that a call may wait for. -/
def Op.lock : Op → Option (Key × LockMode)
  | advisoryLock number => some (.advisory number, .update)
  | insertToken data => some (.token data.tokenHash, .update)
  | referenceUser userId => some (.user userId, .keyShare)
  | lockUser userId => some (.user userId, .update)
  | consume hash _ => some (.token hash, .noKeyUpdate)
  | spend _ hash _ => some (.token hash, .noKeyUpdate)
  | verifyEmail userId _ => some (.user userId, .noKeyUpdate)
  | changePassword userId _ => some (.user userId, .noKeyUpdate)
  | resetPassword userId _ _ => some (.user userId, .noKeyUpdate)
  | setDisabledAt userId _ => some (.user userId, .noKeyUpdate)
  | revokeSessions userId => some (.user userId, .noKeyUpdate)
  | _ => none

/-- The place of the lock of a call in the order of locks. -/
def Op.rank : Op → ℕ
  | advisoryLock _ => 0
  | insertToken _ => 1
  | _ => 2

section Waiting

variable {ι : Type} [DecidableEq ι] {i j k : ι} {hashtext : String → ℤ}
  {allowed : IssueAuthTokenData → Prop} {s s' : Database ι} {φ : Phase} {op : Op}

/-- The next call of a caller waits for a lock of another. -/
def Waits (config : AuthConfig ι) (i j : ι) : Prop :=
  ∃ op next key mode, config.threads i = .call op next ∧ op.lock = some (key, mode) ∧
    config.shared.tables.Blocks i key mode j

omit [DecidableEq ι] in
theorem exists_blocks {t : Store ι} {key : Key} {mode : LockMode} (h : ¬t.Grants i key mode) :
    ∃ j, t.Blocks i key mode j := by
  unfold Tables.Grants at h
  push Not at h
  obtain ⟨lock, hlock, hkey, hholder, hconflict⟩ := h
  exact ⟨lock.holder, hholder, lock, hlock, rfl, hkey, Bool.ne_false_iff.mp hconflict⟩

theorem exists_blocks_of_put {t : Store ι} {key : Key} {mode : LockMode} {hmode} {row : Option (Row key)}
    (h : t.put i key mode hmode row = none) : ∃ j, t.Blocks i key mode j := by
  refine exists_blocks fun hgrants ↦ ?_
  unfold Tables.put at h
  rw [dif_pos hgrants] at h
  cases h

theorem exists_blocks_of_lockRow {t : Store ι} {key : Key} {mode : LockMode}
    (h : lockRow i key mode t = none) : ∃ j, t.Blocks i key mode j := by
  refine exists_blocks fun hgrants ↦ ?_
  unfold lockRow at h
  rw [dif_pos hgrants] at h
  cases h

theorem exists_blocks_of_updateUser {t : Store ι} {userId : UserId} {change : UserRow → UserRow}
    (h : updateUser i userId change t = none) : ∃ j, t.Blocks i (.user userId) .noKeyUpdate j := by
  unfold updateUser at h
  split at h
  · cases h
  · exact exists_blocks_of_put (Option.map_eq_none_iff.mp h)

theorem exists_blocks_of_useToken {t : Store ι} {hash : TokenHash} {condition : TokenRow → Bool} {at' : ℕ}
    (h : useToken i hash condition at' t = none) : ∃ j, t.Blocks i (.token hash) .noKeyUpdate j := by
  unfold useToken at h
  split at h
  · cases h
  · split at h
    · exact exists_blocks_of_put (Option.map_eq_none_iff.mp h)
    · cases h

theorem exists_blocks_of_insertToken {t : Store ι} {data : IssueAuthTokenData} {now : ℕ}
    (h : insertToken i data now t = none) : ∃ j, t.Blocks i (.token data.tokenHash) .update j := by
  unfold insertToken at h
  split at h
  · next hblocked => exact exists_blocks hblocked
  · split at h
    · cases h
    · exact exists_blocks_of_put (Option.map_eq_none_iff.mp h)

theorem exists_blocks_of_referenceUser {t : Store ι} {userId : UserId}
    (h : referenceUser i userId t = none) : ∃ j, t.Blocks i (.user userId) .keyShare j := by
  unfold referenceUser at h
  split at h
  · cases h
  · exact exists_blocks_of_lockRow (Option.map_eq_none_iff.mp h)

theorem exists_blocks_of_lockUser {t : Store ι} {userId : UserId} (h : lockUser i userId t = none) :
    ∃ j, t.Blocks i (.user userId) .update j := by
  unfold lockUser at h
  split at h
  · cases h
  · exact exists_blocks_of_lockRow (Option.map_eq_none_iff.mp h)

omit [DecidableEq ι] in
/-- The rows that an update finds come in some order. -/
theorem findOpen_isSome (userId : UserId) (t : Store ι) :
    findOpen i userId (openTokens i userId t) t = some (openTokens i userId t) :=
  if_pos (List.isPerm_iff.mpr (List.Perm.refl _))

/-- A call that has no answer waits for a lock. -/
theorem exists_blocks_of_stuck (stuck : ∀ reply, answer i reply op s = none) :
    ∃ key mode j, op.lock = some (key, mode) ∧ s.tables.Blocks i key mode j := by
  have hempty := stuck {}
  cases op with
  | startTransaction => cases hempty
  | commitTransaction => cases hempty
  | rollbackTransaction => cases hempty
  | existsRecent userId type minIntervalMs => cases hempty
  | findOwner hash type => cases hempty
  | findOpen userId =>
    have hstuck := stuck { order := openTokens i userId s.tables }
    cases (Option.map_eq_none_iff.mp hstuck).symm.trans (findOpen_isSome userId s.tables)
  | advisoryLock number =>
    obtain ⟨j, hj⟩ := exists_blocks_of_lockRow (Option.map_eq_none_iff.mp hempty)
    exact ⟨_, _, j, rfl, hj⟩
  | insertToken data =>
    obtain ⟨j, hj⟩ := exists_blocks_of_insertToken (Option.map_eq_none_iff.mp hempty)
    exact ⟨_, _, j, rfl, hj⟩
  | referenceUser userId =>
    obtain ⟨j, hj⟩ := exists_blocks_of_referenceUser (Option.map_eq_none_iff.mp hempty)
    exact ⟨_, _, j, rfl, hj⟩
  | lockUser userId =>
    obtain ⟨j, hj⟩ := exists_blocks_of_lockUser (Option.map_eq_none_iff.mp hempty)
    exact ⟨_, _, j, rfl, hj⟩
  | consume hash type =>
    obtain ⟨j, hj⟩ := exists_blocks_of_useToken (Option.map_eq_none_iff.mp hempty)
    exact ⟨_, _, j, rfl, hj⟩
  | spend userId hash at' =>
    obtain ⟨j, hj⟩ := exists_blocks_of_useToken (Option.map_eq_none_iff.mp hempty)
    exact ⟨_, _, j, rfl, hj⟩
  | _ =>
    obtain ⟨j, hj⟩ := exists_blocks_of_updateUser (Option.map_eq_none_iff.mp hempty)
    exact ⟨_, _, j, rfl, hj⟩

/-! ## No deadlock -/

omit [DecidableEq ι] in
/-- Nobody waits for a stored token of a user whose row it holds. -/
theorem not_blocks_token {hash : TokenHash} {row : TokenRow} {mode : LockMode}
    (covered : ∀ k, Covered k s.tables) (hrow : s.tables.committed (.token hash) = some row)
    (writes : s.tables.Writes i (.user row.userId)) : ¬s.tables.Blocks i (.token hash) mode j := by
  rintro ⟨hne, lock, hlock, hholder, hkey, -⟩
  obtain ⟨-, hnone | ⟨row', hrow', hwrites⟩⟩ := covered j lock hlock hholder hash hkey
  · cases hrow.symm.trans hnone
  · cases hrow.symm.trans hrow'
    exact hne (hwrites.unique writes)

omit [DecidableEq ι] in
/-- Nobody waits for a row that it has locked for an update. -/
theorem not_blocks_of_update {t : Store ι} {key : Key} {mode : LockMode}
    (locked : ⟨i, key, .update⟩ ∈ t.locks) : ¬t.Blocks i key mode j := by
  rintro ⟨hne, lock, hlock, rfl, rfl, -⟩
  have hconflict := t.exclusive lock hlock _ locked rfl hne
  rw [LockMode.conflicts_update] at hconflict
  cases hconflict

/-- The key of a lock and the place of the call that its holder waits with. -/
def Follows (key : Key) (rank : ℕ) : Prop :=
  match key with
  | .advisory _ => 1 ≤ rank
  | .token _ => 2 ≤ rank
  | .user _ => False

omit [DecidableEq ι] in
theorem false_of_idle {t : Store ι} {key : Key} {mode : LockMode} (idle : t.Idle j)
    (blocks : t.Blocks i key mode j) : False := by
  obtain ⟨-, lock, hlock, hholder, -⟩ := blocks
  exact idle lock hlock hholder

omit [DecidableEq ι] in
/-- Nobody waits for a stored token. -/
theorem not_blocks_stored {hash : TokenHash} {mode : LockMode} (covered : ∀ k, Covered k s.tables)
    (holds : φ.Holds i (s.now i) s.tables hashtext) (may : φ.May op)
    (lock : op.lock = some (.token hash, .noKeyUpdate)) : ¬s.tables.Blocks i (.token hash) mode j := by
  cases op with
  | consume other type =>
    cases lock
    cases φ with
    | enabled hash type userId =>
      obtain ⟨rfl, rfl⟩ := may
      obtain ⟨-, ⟨row, hrow, -, rfl⟩, hguarded⟩ := holds
      exact not_blocks_token covered hrow hguarded.writes
    | _ => cases may
  | spend userId other at' =>
    cases lock
    cases φ with
    | working work =>
      have hworking : Working i (s.now i) s.tables work := holds
      obtain ⟨rfl, hremaining⟩ := may
      obtain ⟨row, hrow, huser⟩ := hworking.remaining hash hremaining
      refine not_blocks_token covered hrow ?_
      rw [huser]
      exact hworking.writes
    | _ => cases may
  | _ => cases lock

omit [DecidableEq ι] in
/-- Whoever waits in a phase holds only locks that come before the one it waits for. -/
theorem follows_of_may {key key' : Key} {mode mode' : LockMode} (covered : ∀ k, Covered k s.tables)
    (holds : φ.Holds j (s.now j) s.tables hashtext) (may : φ.May op) (lock : op.lock = some (key', mode'))
    (waits : s.tables.Blocks j key' mode' k) (blocks : s.tables.Blocks i key mode j) :
    Follows key op.rank := by
  obtain ⟨-, held, hheld, hholder, hkey, -⟩ := id blocks
  cases φ with
  | idle => exact (false_of_idle holds blocks).elim
  | opened => exact (false_of_idle holds blocks).elim
  | serialized data =>
    cases op with
    | existsRecent userId type minIntervalMs => cases lock
    | _ => cases may
  | clear data =>
    cases op with
    | insertToken other =>
      have hadvisory := holds.2.2.1 held hheld hholder
      rw [hkey] at hadvisory
      cases key with
      | advisory number => exact Nat.le_refl 1
      | _ => exact hadvisory.elim
    | _ => cases may
  | inserted data =>
    cases op with
    | referenceUser userId =>
      have hother := holds.2.2.1 held hheld hholder
      rw [hkey] at hother
      cases key with
      | advisory number => exact Nat.le_succ 1
      | token hash => exact Nat.le_refl 2
      | user id => exact (hother trivial).elim
    | _ => cases may
  | owned hash type userId => exact (false_of_idle holds.1 blocks).elim
  | enabled hash type userId =>
    cases op with
    | consume other otherType =>
      cases lock
      exact (not_blocks_stored covered holds may rfl waits).elim
    | _ => cases may
  | working work =>
    have hworking : Working j (s.now j) s.tables work := holds
    have hguarded : work.consumed ≠ none → ⟨j, .user work.userId, .update⟩ ∈ s.tables.locks := by
      intro hconsumed
      obtain ⟨⟨hash, type⟩, heq⟩ := Option.ne_none_iff_exists'.mp hconsumed
      exact (hworking.consumed hash type heq).guarded.locked
    cases op with
    | verifyEmail userId at' =>
      obtain ⟨hconsumed, rfl⟩ := may
      cases lock
      exact (not_blocks_of_update (hguarded hconsumed) waits).elim
    | resetPassword userId passwordHash at' =>
      obtain ⟨hconsumed, rfl⟩ := may
      cases lock
      exact (not_blocks_of_update (hguarded hconsumed) waits).elim
    | spend userId hash at' =>
      cases lock
      exact (not_blocks_stored covered holds may rfl waits).elim
    | findOpen userId => cases lock
    | _ => cases may
  | _ => cases op <;> cases may

/-- A relation along which a rank rises where it goes on has no cycle. -/
theorem not_cycle_of_rank {α : Type} {R : α → α → Prop} (rank : α → ℕ)
    (rises : ∀ a b c, R a b → R b c → rank a < rank b) (a : α) : ¬Relation.TransGen R a a := by
  have hrise : ∀ {b}, Relation.TransGen R a b → ∀ c, R b c → rank a < rank b := by
    intro b hpath
    induction hpath with
    | single hab => exact fun c hbc ↦ rises a _ c hab hbc
    | tail _ hbc ih => exact fun d hcd ↦ Nat.lt_trans (ih _ hbc) (rises _ _ d hbc hcd)
  intro hcycle
  obtain ⟨b, hab, -⟩ := Relation.TransGen.head'_iff.mp hcycle
  exact Nat.lt_irrefl _ (hrise hcycle b hab)

/-- The place of the lock that a caller needs next. -/
def waitRank (config : AuthConfig ι) (i : ι) : ℕ :=
  match config.threads i with
  | .call op _ => op.rank
  | _ => 0

theorem may_of_waits {config : AuthConfig ι} {next : Except AuthError (Ans op) → Async Response}
    {Q : Response → Phase → Prop} {E : AuthError → Phase → Prop} {key : Key} {mode : LockMode}
    (follows : (config.threads i).wp ((moves hashtext allowed).spec (Answered i)) Q E φ)
    (thread : config.threads i = .call op next) (lock : op.lock = some (key, mode)) :
    φ.May op ∨ op.Single ∧ φ = .idle := by
  rw [thread, Program.wp_call] at follows
  have hfails : mayFail op = true := by
    cases op with
    | rollbackTransaction => cases lock
    | _ => rfl
  obtain ⟨φ', hnext, -⟩ := follows (.lost .queryFailed)
    ⟨config.shared, config.shared, .lost _ hfails⟩
  rcases Moves.may hnext with hmay | ⟨rfl, -⟩ | rfl | ⟨hsingle, hidle, -⟩
  · exact .inl hmay
  · cases lock
  · cases lock
  · exact .inr ⟨hsingle, hidle⟩

/-- Locks are taken in their order, so nobody waits in a circle. -/
theorem no_deadlock {config : AuthConfig ι} {φ : ι → Phase} {Q : ι → Response → Phase → Prop}
    {E : ι → AuthError → Phase → Prop} (good : Good hashtext config.shared φ)
    (follows : ∀ i, (config.threads i).wp ((moves hashtext allowed).spec (Answered i)) (Q i) (E i) (φ i))
    (i : ι) : ¬Relation.TransGen (Waits config) i i := by
  have hfollows : ∀ {i j k key mode}, config.shared.tables.Blocks i key mode j → Waits config j k →
      Follows key (waitRank config j) := by
    rintro i j k key mode hblocks ⟨op, next, key', mode', hthread, hlock, hwaits⟩
    have hrank : waitRank config j = op.rank := by
      unfold waitRank
      rw [hthread]
    rw [hrank]
    have hholds := good.holds j
    rcases may_of_waits (follows j) hthread hlock with hmay | ⟨-, hidle⟩
    · exact follows_of_may good.covered hholds hmay hlock hwaits hblocks
    · rw [hidle] at hholds
      exact (false_of_idle hholds hblocks).elim
  refine not_cycle_of_rank (waitRank config) ?_ i
  rintro a b c ⟨op, next, key, mode, hthread, hlock, hblocks⟩ hbc
  have hrank : waitRank config a = op.rank := by
    unfold waitRank
    rw [hthread]
  have hbelow := hfollows hblocks hbc
  have hstored : ∀ {hash}, op.lock = some (.token hash, .noKeyUpdate) →
      ¬config.shared.tables.Blocks a (.token hash) .noKeyUpdate b := by
    intro hash htoken
    rcases may_of_waits (follows a) hthread hlock with hmay | ⟨hsingle, -⟩
    · exact not_blocks_stored good.covered (good.holds a) hmay htoken
    · cases op with
      | setDisabledAt id disabledAt => cases htoken
      | revokeSessions id => cases htoken
      | _ => cases hsingle
  rw [hrank]
  cases op with
  | advisoryLock number =>
    cases hlock
    exact hbelow
  | insertToken data =>
    cases hlock
    exact hbelow
  | consume hash type =>
    cases hlock
    exact (hstored rfl hblocks).elim
  | spend userId hash at' =>
    cases hlock
    exact (hstored rfl hblocks).elim
  | _ => first | (cases hlock; exact hbelow.elim) | cases hlock

end Waiting

/-! ## Effects -/

section Effects

variable {ι : Type} {i j k : ι} {hash : TokenHash} {type : AuthTokenType}
  {trace : List (AuthEvent ι)} {event : AuthEvent ι}

/-- The caller has used a token. -/
def Consumed (trace : List (AuthEvent ι)) (i : ι) (hash : TokenHash) (type : AuthTokenType) : Prop :=
  ∃ before owner, ⟨before, i, .consume hash type, .returned (some owner)⟩ ∈ trace

/-- A commit of the caller has taken effect. -/
def Commits (trace : List (AuthEvent ι)) (i : ι) : Prop :=
  ∃ before o, o.TookEffect ∧ ⟨before, i, .commitTransaction, o⟩ ∈ trace

/-- A token takes effect through a caller that has used it and has committed. -/
def TakesEffect (trace : List (AuthEvent ι)) (i : ι) (hash : TokenHash) (type : AuthTokenType) : Prop :=
  Consumed trace i hash type ∧ Commits trace i

namespace Phase

/-- A phase in which nothing has taken effect, nor will. -/
def Dead (φ : Phase) : Prop := φ = failed ∨ φ = finished

/-- What a transaction does, or has done, to tokens. -/
def work? : Phase → Option Work
  | working work => some work
  | done work => some work
  | _ => none

/-- A phase in which a token has been used. -/
def Consumes (φ : Phase) (hash : TokenHash) (type : AuthTokenType) : Prop :=
  φ.Dead ∨ ∃ work, φ.work? = some work ∧ work.consumed = some (hash, type)

/-- A phase in which the caller may have changed committed rows. -/
def Wrote : Phase → Prop
  | stored _ => True
  | done _ => True
  | finished => True
  | _ => False

end Phase

/-- A token of a user that was stored when a transaction looked for all tokens is used, by that
transaction or before. -/
def Covers (work : Work) (hash : TokenHash) (row : TokenRow) : Prop :=
  row.usedAt ≠ none ∨ (∃ found, work.found = some found ∧ hash ∈ found) ∨
    ∃ type, work.consumed = some (hash, type)

variable [DecidableEq ι] {hashtext : String → ℤ} {allowed : IssueAuthTokenData → Prop}
  {s s' start : Database ι} {φ φ' : Phase} {op : Op} {o : Outcome AuthError (Ans op)}

theorem Moves.dead (next : Moves hashtext allowed φ op o φ') (h : φ.Dead) : φ'.Dead := by
  rcases h with rfl | rfl
  · cases next with
    | commit commits took => cases commits
    | commitLost commits => exact .inl rfl
    | fail may failed => exact .inl rfl
    | rollback => exact .inr rfl
    | rollbackCommitted committed => exact .inl rfl
  · cases next with
    | commit commits took => cases commits
    | commitLost commits => exact .inl rfl
    | fail may failed => exact .inl rfl
    | rollbackCommitted committed => exact .inr rfl

/-- What a transaction does to tokens stays, and it looks for them once. -/
theorem Moves.work (next : Moves hashtext allowed φ op o φ') {work : Work} (h : φ.work? = some work) :
    φ'.Dead ∨ ∃ work', φ'.work? = some work' ∧ work'.userId = work.userId ∧
      work'.consumed = work.consumed ∧ (work.found ≠ none → work'.found = work.found) := by
  cases next with
  | verifyEmail consumed => exact .inr ⟨work, h, rfl, rfl, fun _ ↦ rfl⟩
  | resetPassword consumed => exact .inr ⟨work, h, rfl, rfl, fun _ ↦ rfl⟩
  | findOpen first =>
    cases h
    exact .inr ⟨_, rfl, rfl, rfl, fun hfound ↦ (hfound first).elim⟩
  | spend remaining =>
    cases h
    exact .inr ⟨_, rfl, rfl, rfl, fun _ ↦ rfl⟩
  | commit commits took =>
    cases φ with
    | working other =>
      cases h
      obtain ⟨-, rfl⟩ := commit_working commits
      exact .inr ⟨work, rfl, rfl, rfl, fun _ ↦ rfl⟩
    | done other => cases commits
    | _ => cases h
  | commitLost commits => exact .inl (.inl rfl)
  | fail may failed => exact .inl (.inl rfl)
  | rollbackCommitted committed => exact .inr ⟨work, h, rfl, rfl, fun _ ↦ rfl⟩
  | _ => cases h

theorem Moves.consumes (next : Moves hashtext allowed φ op o φ') (h : φ.Consumes hash type) :
    φ'.Consumes hash type := by
  rcases h with hdead | ⟨work, hwork, hconsumed⟩
  · exact .inl (next.dead hdead)
  · refine (next.work hwork).imp id ?_
    rintro ⟨work', hwork', -, hsame, -⟩
    exact ⟨work', hwork', hsame.trans hconsumed⟩

theorem Phase.Committed.cases (h : φ.Committed) :
    (∃ data, φ = .refused data) ∨ (∃ data, φ = .stored data) ∨ (∃ work, φ = .done work) ∨
      φ = .unchanged := by
  obtain ⟨before, hbefore⟩ := h
  cases before with
  | recent data => exact .inl ⟨data, (Option.some.inj hbefore).symm⟩
  | referenced data => exact .inr (.inl ⟨data, (Option.some.inj hbefore).symm⟩)
  | working work => exact .inr (.inr (.inl ⟨work, (commit_working hbefore).2⟩))
  | nothing => exact .inr (.inr (.inr (Option.some.inj hbefore).symm))
  | _ => cases hbefore

theorem not_committed_of_dead (h : φ.Dead) : ¬φ.Committed := by
  intro hcommitted
  rcases h with rfl | rfl
  · rcases hcommitted.cases with ⟨_, hφ⟩ | ⟨_, hφ⟩ | ⟨_, hφ⟩ | hφ <;> cases hφ
  · rcases hcommitted.cases with ⟨_, hφ⟩ | ⟨_, hφ⟩ | ⟨_, hφ⟩ | hφ <;> cases hφ

theorem Moves.committed (next : Moves hashtext allowed φ op o φ') (h : φ.Committed) : φ' = φ := by
  rcases h.cases with ⟨data, rfl⟩ | ⟨data, rfl⟩ | ⟨work, rfl⟩ | rfl
  all_goals
    cases next with
    | commit commits took => cases commits
    | commitLost commits => cases commits
    | fail may failed => cases op <;> cases may
    | rollbackCommitted committed => rfl

theorem Moves.wrote (next : Moves hashtext allowed φ op o φ') (h : φ.Wrote) : φ'.Wrote := by
  have hends : (∃ data, φ = .stored data) ∨ (∃ work, φ = .done work) ∨ φ = .finished := by
    cases φ with
    | stored data => exact .inl ⟨data, rfl⟩
    | done work => exact .inr (.inl ⟨work, rfl⟩)
    | finished => exact .inr (.inr rfl)
    | _ => cases h
  rcases hends with ⟨data, rfl⟩ | ⟨work, rfl⟩ | rfl
  all_goals
    cases next with
    | commit commits took => cases commits
    | commitLost commits => cases commits
    | fail may failed => cases op <;> cases may
    | rollbackCommitted committed => trivial

/-- A transaction that commits without a write leaves the committed rows alone. -/
theorem wrote_of_committed (holds : φ.Holds i (s.now i) s.tables hashtext)
    (answers : (world ι).Answers AuthError i op s o s') (next : Moves hashtext allowed φ op o φ')
    (changed : s'.tables.committed ≠ s.tables.committed) : φ'.Wrote := by
  rcases committed_of_answers holds answers next with hsame | ⟨hcommits, -, -, rfl⟩ | ⟨rfl, -⟩
  · exact (changed hsame).elim
  · have hreads : Reads i s.tables → (s.tables.commit i).committed = s.tables.committed := by
      intro hreads
      funext key
      exact hreads.view key
    cases φ with
    | recent data => exact (changed (hreads holds.1)).elim
    | nothing => exact (changed (hreads holds)).elim
    | referenced data =>
      cases hcommits
      trivial
    | working work =>
      obtain ⟨-, rfl⟩ := commit_working hcommits
      trivial
    | _ => cases hcommits
  · trivial

/-- A token is used in the phase that has locked its user. -/
theorem Moves.consume_eq {owner : UserId}
    (next : Moves hashtext allowed φ (.consume hash type) (.returned (some owner)) φ') :
    (∃ userId, φ = .enabled hash type userId) ∧ φ' = .working ⟨owner, some (hash, type), none, []⟩ := by
  cases next with
  | consume => exact ⟨⟨_, rfl⟩, rfl⟩
  | fail may failed => cases failed

theorem Moves.commit_eq {o : Outcome AuthError Unit} (next : Moves hashtext allowed φ .commitTransaction o φ')
    (took : o.TookEffect) : φ.commit = some φ' := by
  cases next with
  | commit commits took => exact commits
  | commitLost commits => cases took
  | fail may failed => exact (may.statement.2.1 rfl).elim

theorem Moves.findOpen_eq {userId : UserId} {hashes : List TokenHash}
    (next : Moves hashtext allowed φ (.findOpen userId) (.returned hashes) φ') :
    ∃ work, φ = .working work ∧ work.userId = userId ∧ work.found = none ∧
      φ' = .working { work with found := some hashes, remaining := hashes } := by
  cases next with
  | findOpen first => exact ⟨_, rfl, rfl, first, rfl⟩
  | fail may failed => cases failed

/-- What makes a token take effect by the commit of a caller. -/
def Effective (before : Database ι) (i : ι) (hash : TokenHash) (type : AuthTokenType) : Prop :=
  ∃ row user, before.tables.committed (.token hash) = some row ∧ row.isUsable type (before.now i) = true ∧
    before.tables.committed (.user row.userId) = some user ∧ user.disabledAt = none

/-- What a run has done to tokens. -/
structure Ledger (s : Database ι) (φ : ι → Phase) (trace : List (AuthEvent ι)) : Prop where
  ages : ∀ event ∈ trace, ∀ hash row, event.before.tables.committed (.token hash) = some row →
    ∃ row', s.tables.committed (.token hash) = some row' ∧ row.Ages row'
  consumed : ∀ i hash type, Consumed trace i hash type → (φ i).Consumes hash type
  commits : ∀ i, Commits trace i → (φ i).Committed
  effects : ∀ before i o, o.TookEffect → ⟨before, i, .commitTransaction, o⟩ ∈ trace →
    ∀ hash type, Consumed trace i hash type → Effective before i hash type
  once : ∀ i j hash type type' work work', φ i = .done work → work.consumed = some (hash, type) →
    φ j = .done work' → work'.consumed = some (hash, type') → i = j
  wrote : ∀ step ∈ stepsOf s trace, step.2.tables.committed ≠ step.1.before.tables.committed →
    (φ step.1.caller).Wrote
  found : ∀ before i userId hashes, ⟨before, i, .findOpen userId, .returned hashes⟩ ∈ trace →
    (φ i).Dead ∨ ∃ work, (φ i).work? = some work ∧ work.userId = userId ∧
      ∀ hash row, before.tables.committed (.token hash) = some row → row.userId = userId →
        Covers work hash row
  superseded : ∀ later earlier before i userId hashes,
    trace = later ++ ⟨before, i, .findOpen userId, .returned hashes⟩ :: earlier →
      ∀ hash row, before.tables.committed (.token hash) = some row → row.userId = userId →
        ∀ j type, j ≠ i → Consumed trace j hash type → Commits later j → (φ i).Dead

section Step

variable {φ : ι → Phase}

theorem ages_step (h : Ledger s φ trace) (good : Good hashtext s φ)
    (answers : (world ι).Answers AuthError i op s o s') (next : Moves hashtext allowed (φ i) op o φ') :
    ∀ event ∈ (⟨s, i, op, o⟩ : AuthEvent ι) :: trace, ∀ hash row,
      event.before.tables.committed (.token hash) = some row →
        ∃ row', s'.tables.committed (.token hash) = some row' ∧ row.Ages row' := by
  intro event hevent hash row hrow
  rcases List.mem_cons.mp hevent with rfl | hevent
  · exact ages_of_answers (good.holds i) answers next hrow
  · obtain ⟨middle, hmiddle, hages⟩ := h.ages event hevent hash row hrow
    obtain ⟨row', hrow', hages'⟩ := ages_of_answers (good.holds i) answers next hmiddle
    exact ⟨row', hrow', hages.trans hages'⟩

omit [DecidableEq ι] in
/-- A token that is new to a trace is used by its last call. -/
theorem consumed_cons (next : Moves hashtext allowed (φ i) op o φ')
    (h : Consumed (⟨s, i, op, o⟩ :: trace) j hash type) :
    Consumed trace j hash type ∨ j = i ∧ (∃ userId, φ i = .enabled hash type userId) ∧
      ∃ owner, φ' = .working ⟨owner, some (hash, type), none, []⟩ := by
  obtain ⟨before, owner, hmem⟩ := h
  rcases List.mem_cons.mp hmem with heq | hmem
  · cases heq
    obtain ⟨hbefore, hafter⟩ := next.consume_eq
    exact .inr ⟨rfl, hbefore, owner, hafter⟩
  · exact .inl ⟨before, owner, hmem⟩

omit [DecidableEq ι] in
theorem commits_cons (next : Moves hashtext allowed (φ i) op o φ')
    (h : Commits (⟨s, i, op, o⟩ :: trace) j) :
    Commits trace j ∨ j = i ∧ (φ i).commit = some φ' := by
  obtain ⟨before, outcome, took, hmem⟩ := h
  rcases List.mem_cons.mp hmem with heq | hmem
  · cases heq
    exact .inr ⟨rfl, next.commit_eq took⟩
  · exact .inl ⟨before, outcome, took, hmem⟩

theorem consumed_step (h : Ledger s φ trace) (next : Moves hashtext allowed (φ i) op o φ') :
    ∀ j hash type, Consumed (⟨s, i, op, o⟩ :: trace) j hash type →
      (Function.update φ i φ' j).Consumes hash type := by
  intro j hash type hconsumed
  rcases consumed_cons next hconsumed with hold | ⟨rfl, -, owner, rfl⟩
  · have hconsumes := h.consumed j hash type hold
    by_cases hj : j = i
    · subst hj
      rw [Function.update_self]
      exact next.consumes hconsumes
    · rw [Function.update_of_ne hj]
      exact hconsumes
  · rw [Function.update_self]
    exact .inr ⟨_, rfl, rfl⟩

theorem commits_step (h : Ledger s φ trace) (next : Moves hashtext allowed (φ i) op o φ') :
    ∀ j, Commits (⟨s, i, op, o⟩ :: trace) j → (Function.update φ i φ' j).Committed := by
  intro j hcommits
  rcases commits_cons next hcommits with hold | ⟨rfl, hcommit⟩
  · have hcommitted := h.commits j hold
    by_cases hj : j = i
    · subst hj
      rw [Function.update_self, next.committed hcommitted]
      exact hcommitted
    · rw [Function.update_of_ne hj]
      exact hcommitted
  · rw [Function.update_self]
    exact ⟨_, hcommit⟩

omit [DecidableEq ι] in
/-- Whoever commits with a token that it has used is at work with it. -/
theorem working_of_commit (h : Ledger s φ trace) (commits : (φ i).commit = some φ')
    (consumed : Consumed trace i hash type) :
    ∃ work, φ i = .working work ∧ φ' = .done work ∧ work.consumed = some (hash, type) := by
  rcases h.consumed i hash type consumed with (hfailed | hover) | ⟨work, hwork, hconsumed⟩
  · rw [hfailed] at commits
    cases commits
  · rw [hover] at commits
    cases commits
  · cases hφ : φ i with
    | working other =>
      rw [hφ] at commits hwork
      cases hwork
      exact ⟨work, rfl, (commit_working commits).2, hconsumed⟩
    | done other =>
      rw [hφ] at commits
      cases commits
    | _ =>
      rw [hφ] at hwork
      cases hwork

omit [DecidableEq ι] in
theorem not_committed_enabled {userId : UserId} : ¬(Phase.enabled hash type userId).Committed := by
  intro hcommitted
  rcases hcommitted.cases with ⟨_, hφ⟩ | ⟨_, hφ⟩ | ⟨_, hφ⟩ | hφ <;> cases hφ

omit [DecidableEq ι] in
theorem effects_step (h : Ledger s φ trace) (good : Good hashtext s φ)
    (next : Moves hashtext allowed (φ i) op o φ') :
    ∀ before j outcome, outcome.TookEffect →
      ⟨before, j, .commitTransaction, outcome⟩ ∈ (⟨s, i, op, o⟩ : AuthEvent ι) :: trace →
        ∀ hash type, Consumed (⟨s, i, op, o⟩ :: trace) j hash type → Effective before j hash type := by
  intro before j outcome took hmem hash type hconsumed
  rcases List.mem_cons.mp hmem with heq | hmem
  · cases heq
    rcases consumed_cons next hconsumed with hold | ⟨-, ⟨userId, henabled⟩, -⟩
    · obtain ⟨work, hφ, -, hwork⟩ := working_of_commit h (next.commit_eq took) hold
      have hholds := good.holds i
      rw [hφ] at hholds
      obtain ⟨hguarded, -, ⟨row, hrow, huser, husable⟩, -⟩ := Working.consumed hholds hash type hwork
      obtain ⟨user, hstored, henabled⟩ := hguarded.enabled
      exact ⟨row, user, hrow, husable, by rwa [huser], henabled⟩
    · have hcommit := next.commit_eq took
      rw [henabled] at hcommit
      cases hcommit
  · have hcommitted := h.commits j ⟨before, outcome, took, hmem⟩
    rcases consumed_cons next hconsumed with hold | ⟨rfl, ⟨userId, henabled⟩, -⟩
    · exact h.effects before j outcome took hmem hash type hold
    · rw [henabled] at hcommitted
      exact (not_committed_enabled hcommitted).elim

/-- A caller that newly commits has used a usable token, which no caller before it has. -/
theorem once_step (h : Ledger s φ trace) (good : Good hashtext s φ)
    (next : Moves hashtext allowed (φ i) op o φ') :
    ∀ j k hash type type' work work', Function.update φ i φ' j = .done work →
      work.consumed = some (hash, type) → Function.update φ i φ' k = .done work' →
        work'.consumed = some (hash, type') → j = k := by
  have hnew : ∀ {hash type work}, φ' = .done work → work.consumed = some (hash, type) →
      φ i = .done work ∨ ∃ row, s.tables.committed (.token hash) = some row ∧ row.usedAt = none := by
    intro hash type work hφ' hconsumed
    subst hφ'
    generalize hbefore : φ i = before at next
    cases next with
    | commit commits took =>
      cases before with
      | working other =>
        obtain ⟨-, heq⟩ := commit_working commits
        cases heq
        have hholds := good.holds i
        rw [hbefore] at hholds
        obtain ⟨-, -, ⟨row, hrow, -, husable⟩, -⟩ := Working.consumed hholds hash type hconsumed
        exact .inr ⟨row, hrow, (of_decide_eq_true husable).2.1⟩
      | _ => cases commits
    | rollbackCommitted committed => exact .inl rfl
  have hused : ∀ {k hash type work}, φ k = .done work → work.consumed = some (hash, type) →
      Used s.tables hash := by
    intro k hash type work hφ hconsumed
    have hholds := good.holds k
    rw [hφ] at hholds
    exact hholds.2.1 hash type hconsumed
  have hapart : ∀ {k hash type type' work work'}, k ≠ i → φ' = .done work →
      work.consumed = some (hash, type) → φ k = .done work' → work'.consumed = some (hash, type') →
        k = i := by
    intro k hash type type' work work' hk hφ' hconsumed hφ hconsumed'
    rcases hnew hφ' hconsumed with hold | ⟨row, hrow, hunused⟩
    · exact h.once k i hash type' type work' work hφ hconsumed' hold hconsumed
    · obtain ⟨row', hrow', hisUsed⟩ := hused hφ hconsumed'
      cases hrow.symm.trans hrow'
      exact (hisUsed hunused).elim
  intro j k hash type type' work work' hj hconsumed hk hconsumed'
  by_cases hji : j = i
  · by_cases hki : k = i
    · exact hji.trans hki.symm
    · rw [hji, Function.update_self] at hj
      rw [Function.update_of_ne hki] at hk
      exact (hki (hapart hki hj hconsumed hk hconsumed')).elim
  · rw [Function.update_of_ne hji] at hj
    by_cases hki : k = i
    · rw [hki, Function.update_self] at hk
      exact (hji (hapart hji hk hconsumed' hj hconsumed)).elim
    · rw [Function.update_of_ne hki] at hk
      exact h.once j k hash type type' work work' hj hconsumed hk hconsumed'

theorem wrote_step (h : Ledger s φ trace) (good : Good hashtext s φ)
    (answers : (world ι).Answers AuthError i op s o s') (next : Moves hashtext allowed (φ i) op o φ') :
    ∀ step ∈ stepsOf s' ((⟨s, i, op, o⟩ : AuthEvent ι) :: trace),
      step.2.tables.committed ≠ step.1.before.tables.committed →
        (Function.update φ i φ' step.1.caller).Wrote := by
  intro step hstep hchanged
  rw [stepsOf_cons] at hstep
  rcases List.mem_cons.mp hstep with rfl | hstep
  · exact (Function.update_self i φ' φ).symm ▸ wrote_of_committed (good.holds i) answers next hchanged
  · have hwrote := h.wrote step hstep hchanged
    by_cases hcaller : step.1.caller = i
    · rw [hcaller] at hwrote ⊢
      rw [Function.update_self]
      exact next.wrote hwrote
    · rw [Function.update_of_ne hcaller]
      exact hwrote

theorem found_step (h : Ledger s φ trace) (good : Good hashtext s φ)
    (answers : (world ι).Answers AuthError i op s o s') (next : Moves hashtext allowed (φ i) op o φ') :
    ∀ before j userId hashes,
      ⟨before, j, .findOpen userId, .returned hashes⟩ ∈ (⟨s, i, op, o⟩ : AuthEvent ι) :: trace →
        (Function.update φ i φ' j).Dead ∨ ∃ work, (Function.update φ i φ' j).work? = some work ∧
          work.userId = userId ∧ ∀ hash row, before.tables.committed (.token hash) = some row →
            row.userId = userId → Covers work hash row := by
  intro before j userId hashes hmem
  rcases List.mem_cons.mp hmem with heq | hmem
  · cases heq
    rw [Function.update_self]
    obtain ⟨work, hφ, rfl, hfirst, rfl⟩ := next.findOpen_eq
    have hholds := good.holds i
    rw [hφ] at hholds
    have hworking : Working i (s.now i) s.tables work := hholds
    refine .inr ⟨_, rfl, rfl, fun hash row hrow huser ↦ ?_⟩
    cases answers with
    | returned effect =>
      obtain ⟨reply, heffect⟩ := effect
      obtain ⟨order, hfind, heq⟩ := Option.map_eq_some_iff.mp heffect
      cases heq
      by_cases hunused : row.usedAt = none
      · by_cases hpending : s.tables.pending i (.token hash) = none
        · have hview := (Tables.view_of_pending_none hpending).trans hrow
          exact .inr (.inl ⟨_, rfl, (mem_findOpen hfind).mpr ⟨row, hview, decide_eq_true ⟨huser, hunused⟩⟩⟩)
        · exact .inr (.inr ((hworking.first hfirst).2 hash hpending))
      · exact .inl hunused
  · have hold := h.found before j userId hashes hmem
    by_cases hj : j = i
    · subst hj
      rw [Function.update_self]
      rcases hold with hdead | ⟨work, hwork, huser, hcovers⟩
      · exact .inl (next.dead hdead)
      · refine (next.work hwork).imp id ?_
        rintro ⟨work', hwork', huser', hconsumed, hfound⟩
        refine ⟨work', hwork', huser'.trans huser, fun hash row hrow howner ↦ ?_⟩
        rcases hcovers hash row hrow howner with hused | ⟨found, heq, hhash⟩ | ⟨type, heq⟩
        · exact .inl hused
        · refine .inr (.inl ⟨found, ?_, hhash⟩)
          rw [hfound (by rw [heq]; exact Option.some_ne_none found)]
          exact heq
        · exact .inr (.inr ⟨type, hconsumed.trans heq⟩)
    · rw [Function.update_of_ne hj]
      exact hold

omit [DecidableEq ι] in
/-- Whoever looked for the tokens of a user when a token of theirs was stored, and has not failed, lets
nobody else commit with it. -/
theorem dead_of_commit (h : Ledger s φ trace) (good : Good hashtext s φ) (commits : (φ i).commit = some φ')
    (consumed : Consumed trace i hash type) {before : Database ι} {userId : UserId}
    {hashes : List TokenHash} (hmem : ⟨before, j, .findOpen userId, .returned hashes⟩ ∈ trace)
    {row : TokenRow} (hrow : before.tables.committed (.token hash) = some row) (huser : row.userId = userId)
    (hne : i ≠ j) : (φ j).Dead := by
  obtain ⟨work, hφ, -, hwork⟩ := working_of_commit h commits consumed
  have hholds := good.holds i
  rw [hφ] at hholds
  have hworking : Working i (s.now i) s.tables work := hholds
  obtain ⟨-, -, ⟨current, hcurrent, howner, husable⟩, -⟩ := hworking.consumed hash type hwork
  have hunused := (of_decide_eq_true husable).2.1
  obtain ⟨row', hrow', hages⟩ := h.ages _ hmem hash row hrow
  cases hrow'.symm.trans hcurrent
  have hnotUsed : ¬Used s.tables hash := by
    rintro ⟨used, hused, hisUsed⟩
    cases hcurrent.symm.trans hused
    exact hisUsed hunused
  refine (h.found before j userId hashes hmem).resolve_right ?_
  rintro ⟨other, hother, rfl, hcovers⟩
  have hholdsj := good.holds j
  cases hφj : φ j with
  | working mine =>
    rw [hφj] at hother hholdsj
    cases hother
    have hworkingj : Working j (s.now j) s.tables other := hholdsj
    have hsame : other.userId = work.userId := huser.symm.trans (hages.userId.symm.trans howner)
    have hwrites := hworkingj.writes
    rw [hsame] at hwrites
    exact hne (hworking.writes.unique hwrites)
  | done mine =>
    rw [hφj] at hother hholdsj
    cases hother
    rcases hcovers hash row hrow huser with hused | ⟨found, hfound, hhash⟩ | ⟨type', hconsumed⟩
    · exact hages.usedAt hused hunused
    · exact hnotUsed (hholdsj.2.2 found hfound hash hhash)
    · exact hnotUsed (hholdsj.2.1 hash type' hconsumed)
  | _ =>
    rw [hφj] at hother
    cases hother

theorem superseded_step (h : Ledger s φ trace) (good : Good hashtext s φ)
    (next : Moves hashtext allowed (φ i) op o φ') :
    ∀ later earlier before j userId hashes, (⟨s, i, op, o⟩ : AuthEvent ι) :: trace =
        later ++ ⟨before, j, .findOpen userId, .returned hashes⟩ :: earlier →
      ∀ hash row, before.tables.committed (.token hash) = some row → row.userId = userId →
        ∀ k type, k ≠ j → Consumed (⟨s, i, op, o⟩ :: trace) k hash type → Commits later k →
          (Function.update φ i φ' j).Dead := by
  intro later earlier before j userId hashes heq hash row hrow huser k type hne hconsumed hcommits
  cases later with
  | nil =>
    obtain ⟨_, _, _, hmem⟩ := hcommits
    cases hmem
  | cons first later =>
    obtain ⟨rfl, rfl⟩ := List.cons.inj heq
    have hdead : (φ j).Dead → (Function.update φ i φ' j).Dead := by
      intro hdead
      by_cases hj : j = i
      · subst hj
        rw [Function.update_self]
        exact next.dead hdead
      · rw [Function.update_of_ne hj]
        exact hdead
    refine hdead ?_
    rcases commits_cons next hcommits with hold | ⟨rfl, hcommit⟩
    · rcases consumed_cons next hconsumed with hbefore | ⟨rfl, ⟨userId', henabled⟩, -⟩
      · exact h.superseded later earlier before j userId hashes rfl hash row hrow huser k type hne hbefore hold
      · obtain ⟨before', outcome, took, hmem⟩ := hold
        have hcommitted := h.commits k ⟨before', outcome, took, List.mem_append_left _ hmem⟩
        rw [henabled] at hcommitted
        exact (not_committed_enabled hcommitted).elim
    · rcases consumed_cons next hconsumed with hbefore | ⟨-, ⟨userId', henabled⟩, -⟩
      · exact dead_of_commit h good hcommit hbefore (List.mem_append_right _ List.mem_cons_self) hrow huser hne
      · rw [henabled] at hcommit
        cases hcommit

theorem ledger_step (h : Ledger s φ trace) (good : Good hashtext s φ)
    (answers : (world ι).Answers AuthError i op s o s') (next : Moves hashtext allowed (φ i) op o φ') :
    Ledger s' (Function.update φ i φ') (⟨s, i, op, o⟩ :: trace) where
  ages := ages_step h good answers next
  consumed := consumed_step h next
  commits := commits_step h next
  effects := effects_step h good next
  once := once_step h good next
  wrote := wrote_step h good answers next
  found := found_step h good answers next
  superseded := superseded_step h good next

end Step

/-! ## Runs -/

/-- A request consumes the token that it is given, of the type of its own. -/
def Request.Asks (request : Request) : Op → Prop
  | .consume hash type =>
      (∃ at', request = .verifyEmail hash at' ∧ type = .emailVerification) ∨
        ∃ passwordHash at', request = .resetPassword hash passwordHash at' ∧ type = .passwordReset
  | _ => True

omit [DecidableEq ι] in
theorem transaction_only {α : Type} {request : Request} {run : Async α} (h : run.Only request.Asks) :
    (boundary.transaction fun _ ↦ run).Only request.Asks := by
  unfold Boundary.transaction
  refine Program.Only.bind (Program.Only.attempt ?_) fun result ↦ ?_
  · refine Program.Only.bind ((Program.only_perform _).mpr trivial) fun _ ↦ Program.Only.bind h fun value ↦ ?_
    exact Program.Only.bind ((Program.only_perform _).mpr trivial) fun _ ↦ trivial
  · cases result with
    | ok value => trivial
    | error error => exact Program.Only.bind ((Program.only_perform _).mpr trivial) fun _ ↦ trivial

theorem lockOwnerAndConsume_only {request : Request} {hash : TokenHash} {type : AuthTokenType}
    (h : request.Asks (.consume hash type)) : (lockOwnerAndConsume hash type).Only request.Asks := by
  unfold lockOwnerAndConsume
  refine Program.Only.bind ((Program.only_perform _).mpr trivial) fun owner ↦ ?_
  cases owner with
  | none => trivial
  | some userId =>
    refine Program.Only.bind ((Program.only_perform _).mpr trivial) fun user ↦ ?_
    split
    · exact (Program.only_perform _).mpr h
    · trivial

theorem spendTokens_only {request : Request} {userId : UserId} {at' : Option ℕ} :
    (spendTokens userId at').Only request.Asks := by
  unfold spendTokens
  refine Program.Only.bind ((Program.only_perform _).mpr trivial) fun hashes ↦ ?_
  induction hashes with
  | nil => trivial
  | cons hash hashes ih => exact Program.Only.bind ((Program.only_perform _).mpr trivial) fun _ ↦ ih

theorem program_only (hashtext : String → ℤ) (request : Request) :
    (request.program hashtext).Only request.Asks := by
  cases request with
  | issue data =>
    refine Program.Only.bind (transaction_only ?_) fun _ ↦ trivial
    unfold issueInTransaction
    refine Program.Only.bind ((Program.only_perform _).mpr trivial) fun _ ↦ ?_
    refine Program.Only.bind ((Program.only_perform _).mpr trivial) fun found ↦ ?_
    split
    · trivial
    · refine Program.Only.bind ((Program.only_perform _).mpr trivial) fun inserted ↦ ?_
      split
      · refine Program.Only.bind ((Program.only_perform _).mpr trivial) fun referenced ↦ ?_
        split <;> trivial
      · trivial
  | verifyEmail hash at' =>
    refine Program.Only.bind (transaction_only ?_) fun _ ↦ trivial
    refine Program.Only.bind (lockOwnerAndConsume_only (.inl ⟨at', rfl, rfl⟩)) fun owner ↦ ?_
    cases owner with
    | none => trivial
    | some userId => exact Program.Only.bind ((Program.only_perform _).mpr trivial) fun _ ↦ trivial
  | resetPassword hash passwordHash at' =>
    refine Program.Only.bind (transaction_only ?_) fun _ ↦ trivial
    refine Program.Only.bind (lockOwnerAndConsume_only (.inr ⟨passwordHash, at', rfl, rfl⟩)) fun owner ↦ ?_
    cases owner with
    | none => trivial
    | some userId =>
      refine Program.Only.bind ((Program.only_perform _).mpr trivial) fun _ ↦ ?_
      exact Program.Only.bind spendTokens_only fun _ ↦ trivial
  | changePassword id passwordHash =>
    refine Program.Only.bind (transaction_only ?_) fun _ ↦ trivial
    refine Program.Only.bind ((Program.only_perform _).mpr trivial) fun version ↦ ?_
    cases version with
    | none => trivial
    | some version => exact Program.Only.bind spendTokens_only fun _ ↦ trivial
  | setDisabledAt id disabledAt =>
    exact Program.Only.bind ((Program.only_perform _).mpr trivial) fun _ ↦ trivial
  | revokeSessions id =>
    refine Program.Only.bind (Program.Only.bind ((Program.only_perform _).mpr trivial) fun version ↦ ?_)
      fun _ ↦ trivial
    cases version <;> trivial

/-- What a run does with its tokens. -/
structure OneTime (requests : ι → Request) (config : AuthConfig ι) : Prop where
  /-- A token is used by a request for its type. -/
  asked : ∀ i hash type, Consumed config.trace i hash type → (requests i).Asks (.consume hash type)
  /-- A token takes effect by a commit before which it is unused, of the type that is asked for and not
  expired at the start of the transaction, and its user is not disabled. -/
  effective : ∀ before i o, o.TookEffect → ⟨before, i, .commitTransaction, o⟩ ∈ config.trace →
    ∀ hash type, Consumed config.trace i hash type → Effective before i hash type
  /-- A token takes effect once. -/
  once : ∀ i j hash type type', TakesEffect config.trace i hash type →
    TakesEffect config.trace j hash type' → i = j
  /-- A request that returns `null` has changed nothing. -/
  null : ∀ i, config.threads i = .pure (.owner none) → ∀ step ∈ stepsOf config.shared config.trace,
    step.1.caller = i → step.2.tables.committed = step.1.before.tables.committed
  /-- No two requests wait for each other. -/
  progress : ∀ i, ¬Relation.TransGen (Waits config) i i
  /-- A request that gets no answer to its next call waits for another. -/
  waiting : ∀ i op next, config.threads i = .call op next →
    (∀ reply, answer i reply op config.shared = none) → ∃ j, Waits config i j
  /-- A token that was stored when a committed reset or change looked for the tokens of its user takes
  effect by an earlier commit or by this one. -/
  superseded : ∀ later earlier before i userId hashes,
    config.trace = later ++ ⟨before, i, .findOpen userId, .returned hashes⟩ :: earlier →
      Commits config.trace i → ∀ hash row, before.tables.committed (.token hash) = some row →
        row.userId = userId → ∀ j type, TakesEffect config.trace j hash type →
          j = i ∨ Commits earlier j

theorem one_time (hashtext : String → ℤ) (requests : ι → Request) {config : AuthConfig ι}
    (idle : ∀ i, start.tables.Idle i)
    (reachable : (world ι).Reachable (Config.initial start fun i ↦ (requests i).program hashtext) config) :
    OneTime requests config := by
  obtain ⟨φ, tracked, hthreads⟩ := World.exists_tracked (T := fun _ ↦ moves hashtext fun _ ↦ True) rfl
    (fun i ↦ program_follows fun _ _ ↦ trivial) reachable
  have hstart : Good hashtext start (fun _ : ι ↦ Phase.idle) ∧ Ledger start (fun _ : ι ↦ Phase.idle) [] := by
    refine ⟨⟨idle, fun i ↦ covered_of_idle (idle i)⟩, ?_⟩
    constructor
    · rintro _ ⟨⟩
    · rintro _ _ _ ⟨_, _, ⟨⟩⟩
    · rintro _ ⟨_, _, _, ⟨⟩⟩
    · rintro _ _ _ _ ⟨⟩
    · rintro _ _ _ _ _ _ _ ⟨⟩
    · rintro _ ⟨⟩
    · rintro _ _ _ _ ⟨⟩
    · intro later earlier before i userId hashes heq
      cases List.append_eq_nil_iff.mp heq.symm |>.2
  obtain ⟨hgood, hledger⟩ := tracked.invariant
    (fun s φ trace ↦ Good hashtext s φ ∧ Ledger s φ trace) (fun _ ↦ True) hstart
    (fun h _ answers next ↦ ⟨good_step h.1 answers next, ledger_step h.2 h.1 answers next⟩)
    fun _ _ ↦ trivial
  have hdone : ∀ {i hash type}, TakesEffect config.trace i hash type →
      ∃ work, φ i = .done work ∧ work.consumed = some (hash, type) := by
    rintro i hash type ⟨hconsumed, hcommits⟩
    have hcommitted := hledger.commits i hcommits
    rcases hledger.consumed i hash type hconsumed with hdead | ⟨work, hwork, heq⟩
    · exact (not_committed_of_dead hdead hcommitted).elim
    · refine ⟨work, ?_, heq⟩
      rcases hcommitted.cases with ⟨_, hφ⟩ | ⟨_, hφ⟩ | ⟨other, hφ⟩ | hφ
      all_goals
        rw [hφ] at hwork
        cases hwork
      exact hφ
  refine ⟨?_, hledger.effects, fun i j hash type type' hi hj ↦ ?_, fun i hthread step hstep hcaller ↦ ?_,
    no_deadlock hgood hthreads, fun i op next hthread hstuck ↦ ?_, ?_⟩
  · rintro i hash type ⟨before, owner, hmem⟩
    exact World.only_of_reachable rfl (fun j ↦ program_only hashtext (requests j)) reachable _ hmem
  · obtain ⟨work, hwork, hconsumed⟩ := hdone hi
    obtain ⟨work', hwork', hconsumed'⟩ := hdone hj
    exact hledger.once i j hash type type' work work' hwork hconsumed hwork' hconsumed'
  · by_contra hchanged
    have hwrote := hledger.wrote step hstep hchanged
    have hends := hthreads i
    rw [hthread] at hends
    have hunchanged : φ i = .unchanged := by
      cases hrequest : requests i with
      | verifyEmail hash at' =>
        rw [hrequest] at hends
        exact hends
      | resetPassword hash passwordHash at' =>
        rw [hrequest] at hends
        obtain ⟨found, hφ⟩ := hends
        exact hφ
      | _ =>
        rw [hrequest] at hends
        exact hends.elim
    rw [hcaller, hunchanged] at hwrote
    exact hwrote
  · obtain ⟨key, mode, j, hlock, hblocks⟩ := exists_blocks_of_stuck hstuck
    exact ⟨j, op, next, key, mode, hthread, hlock, hblocks⟩
  · intro later earlier before i userId hashes heq hcommits hash row hrow huser j type htakes
    by_cases hne : j = i
    · exact .inl hne
    · refine .inr ?_
      obtain ⟨hconsumed, before', outcome, took, hmem⟩ := htakes
      have hcommitted := hledger.commits i hcommits
      rw [heq] at hmem
      rcases List.mem_append.mp hmem with hlater | hrest
      · have hdead := hledger.superseded later earlier before i userId hashes heq hash row hrow huser j type hne
          hconsumed ⟨before', outcome, took, hlater⟩
        exact (not_committed_of_dead hdead hcommitted).elim
      · rcases List.mem_cons.mp hrest with hsame | hearlier
        · cases hsame
        · exact ⟨before', outcome, took, hearlier⟩

end Effects

/-! ## Two uses of one token -/

def storedToken (type : AuthTokenType) : TokenRow := ⟨member, type, 100, none, 0⟩

/-- One user with a token of each type. -/
def twoTokens : Database ℕ where
  tables := .ofRows [.user member, .token "reset", .token "verification"]
    (fun key ↦ match key with
      | .user id => if id = member then some memberRow else none
      | .token hash =>
          if hash = "reset" then some (storedToken .passwordReset)
          else if hash = "verification" then some (storedToken .emailVerification)
          else none
      | .advisory _ => none)
    (by
      intro key hkey
      cases key with
      | advisory number => rfl
      | user id =>
        refine if_neg ?_
        rintro rfl
        exact hkey List.mem_cons_self
      | token hash =>
        refine (if_neg ?_).trans (if_neg ?_)
        · rintro rfl
          exact hkey (List.mem_cons_of_mem _ List.mem_cons_self)
        · rintro rfl
          exact hkey (List.mem_cons_of_mem _ (List.mem_cons_of_mem _ List.mem_cons_self)))
  clock := 0
  now _ := 0

theorem idle_twoTokens (i : ℕ) : twoTokens.tables.Idle i := by
  intro lock hlock
  cases hlock

/-- Two resets with one token, and a verification with the other. -/
def competing : ℕ → Request
  | 0 => .resetPassword "reset" "new" 5
  | 1 => .resetPassword "reset" "other" 5
  | _ => .verifyEmail "verification" 5

/-- All requests find the owner before one of them locks the row of the user. -/
def competition : List (Move ℕ Reply AuthError) :=
  callsOf 0 2 ++ callsOf 1 2 ++ callsOf 2 2 ++ callsOf 0 3 ++
    [.mk 0 { order := ["verification"] } (.returned ())] ++ callsOf 0 2 ++ callsOf 1 3 ++ callsOf 2 3

theorem responses_competition :
    ((sessions ℕ).replay (Config.initial twoTokens fun i ↦ (competing i).program fun _ ↦ 0)
      competition).map (fun config ↦ [0, 1, 2].map (response config)) =
        some [some (.owner (some member)), some (.owner none), some (.owner none)] := by
  decide +kernel

theorem one_time_competition : ∃ config : AuthConfig ℕ,
    [0, 1, 2].map (response config) =
        [some (.owner (some member)), some (.owner none), some (.owner none)] ∧
      OneTime competing config := by
  obtain ⟨config, reachable, hview⟩ := (sessions ℕ).exists_reachable responses_competition
  exact ⟨config, hview, one_time (fun _ ↦ 0) competing idle_twoTokens reachable⟩

end MemoFlowApi.Auth.Tokens
