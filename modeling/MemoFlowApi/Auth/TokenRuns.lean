import MemoFlowApi.Auth.TokenLocks

/-!
# Runs of Token Transactions

What a call does to the phases of its caller and of the others.  Tokens appear by the commit of an
insert, which holds the advisory lock of their account, and they are only ever used.
-/

namespace MemoFlowApi.Auth.Tokens

open Concurrency Sql

variable {ι : Type} [DecidableEq ι] {i j : ι} {hashtext : String → ℤ}
  {allowed : IssueAuthTokenData → Prop} {s s' : Database ι} {φ φ' : Phase} {op : Op}
  {o : Outcome AuthError (Ans op)} {reply : Reply}

/-! ## Effects -/

/-- A statement that is a transaction. -/
def Op.Single : Op → Prop
  | setDisabledAt _ _ => True
  | revokeSessions _ => True
  | _ => False

/-- A call is a statement, the end of its caller's transaction, or both. -/
theorem answer_eq {result : Ans op} (h : answer i reply op s = some (result, s')) :
    Tables.Touched i (fun _ ↦ True) s.tables s'.tables ∨
      op = .commitTransaction ∧ s'.tables = s.tables.commit i ∨
      op = .rollbackTransaction ∧ s'.tables = s.tables.rollback i ∨
      op.Single ∧ ∃ userId change user t,
        updateUser i userId change s.tables = some (user, t) ∧ s'.tables = t.commit i := by
  have hall : ∀ {keys : Key → Prop} {t t' : Store ι}, Tables.Touched i keys t t' →
      Tables.Touched i (fun _ ↦ True) t t' := fun htouched ↦ htouched.mono fun _ _ ↦ trivial
  have hlock : ∀ {key mode t t'}, lockRow i key mode t = some t' →
      Tables.Touched i (fun _ ↦ True) t t' := fun hlock ↦ hall (lockRow_eq hlock).1
  have hupdate : ∀ {userId change user t t'}, updateUser i userId change t = some (user, t') →
      Tables.Touched i (fun _ ↦ True) t t' := by
    intro userId change user t t' hupdate
    rcases updateUser_eq hupdate with ⟨-, rfl⟩ | ⟨_, -, -, hput⟩
    · exact .refl i _ t'
    · exact hall hput.touched
  have huse : ∀ {hash condition at' row t t'}, useToken i hash condition at' t = some (row, t') →
      Tables.Touched i (fun _ ↦ True) t t' := by
    intro hash condition at' row t t' huse
    rcases useToken_eq huse with ⟨-, rfl, -⟩ | ⟨_, -, -, -, hput⟩
    · exact .refl i _ t'
    · exact hall hput.touched
  cases op with
  | startTransaction => cases h; exact .inl (.refl i _ _)
  | commitTransaction => cases h; exact .inr (.inl ⟨rfl, rfl⟩)
  | rollbackTransaction => cases h; exact .inr (.inr (.inl ⟨rfl, rfl⟩))
  | existsRecent userId type minIntervalMs => cases h; exact .inl (.refl i _ _)
  | findOwner hash type => cases h; exact .inl (.refl i _ _)
  | advisoryLock number =>
    obtain ⟨t, ht, heq⟩ := Option.map_eq_some_iff.mp h
    cases heq
    exact .inl (hlock ht)
  | insertToken data =>
    obtain ⟨⟨inserted, t⟩, ht, heq⟩ := Option.map_eq_some_iff.mp h
    cases heq
    rcases insertToken_eq ht with ⟨-, rfl⟩ | ⟨-, -, hput⟩
    · exact .inl (.refl i _ _)
    · exact .inl (hall hput.touched)
  | referenceUser userId =>
    obtain ⟨⟨found, t⟩, ht, heq⟩ := Option.map_eq_some_iff.mp h
    cases heq
    rcases referenceUser_eq ht with ⟨-, rfl⟩ | ⟨-, ht⟩
    · exact .inl (.refl i _ _)
    · exact .inl (hlock ht)
  | lockUser userId =>
    obtain ⟨⟨user, t⟩, ht, heq⟩ := Option.map_eq_some_iff.mp h
    cases heq
    rcases lockUser_eq ht with ⟨-, rfl⟩ | ⟨_, -, -, ht⟩
    · exact .inl (.refl i _ _)
    · exact .inl (hlock ht)
  | consume hash type =>
    obtain ⟨⟨row, t⟩, ht, heq⟩ := Option.map_eq_some_iff.mp h
    cases heq
    exact .inl (huse ht)
  | spend userId hash at' =>
    obtain ⟨⟨row, t⟩, ht, heq⟩ := Option.map_eq_some_iff.mp h
    cases heq
    exact .inl (huse ht)
  | findOpen userId =>
    obtain ⟨hashes, -, heq⟩ := Option.map_eq_some_iff.mp h
    cases heq
    exact .inl (.refl i _ _)
  | verifyEmail userId at' =>
    obtain ⟨⟨row, t⟩, ht, heq⟩ := Option.map_eq_some_iff.mp h
    cases heq
    exact .inl (hupdate ht)
  | changePassword userId passwordHash =>
    obtain ⟨⟨row, t⟩, ht, heq⟩ := Option.map_eq_some_iff.mp h
    cases heq
    exact .inl (hupdate ht)
  | resetPassword userId passwordHash at' =>
    obtain ⟨⟨row, t⟩, ht, heq⟩ := Option.map_eq_some_iff.mp h
    cases heq
    exact .inl (hupdate ht)
  | setDisabledAt userId disabledAt =>
    obtain ⟨⟨row, t⟩, ht, heq⟩ := Option.map_eq_some_iff.mp h
    cases heq
    exact .inr (.inr (.inr ⟨trivial, _, _, _, t, ht, rfl⟩))
  | revokeSessions userId =>
    obtain ⟨⟨row, t⟩, ht, heq⟩ := Option.map_eq_some_iff.mp h
    cases heq
    exact .inr (.inr (.inr ⟨trivial, _, _, _, t, ht, rfl⟩))

/-- Only a transaction's start reads the clock. -/
theorem now_of_answers (h : (world ι).Answers AuthError i op s o s') :
    (∀ k, k ≠ i → s'.now k = s.now k) ∧ (op ≠ .startTransaction → s'.now = s.now) := by
  rcases h.unchanged_or_effect with rfl | ⟨result, reply, heffect⟩
  · exact ⟨fun _ _ ↦ rfl, fun _ ↦ rfl⟩
  · by_cases hop : op = .startTransaction
    · subst hop
      cases heffect
      exact ⟨fun k hk ↦ Function.update_of_ne hk _ _, fun h ↦ (h rfl).elim⟩
    · have hsame : s'.now = s.now := by
        cases op with
        | startTransaction => exact (hop rfl).elim
        | commitTransaction => cases heffect; rfl
        | rollbackTransaction => cases heffect; rfl
        | existsRecent userId type minIntervalMs => cases heffect; rfl
        | findOwner hash type => cases heffect; rfl
        | _ =>
          obtain ⟨_, -, heq⟩ := Option.map_eq_some_iff.mp heffect
          cases heq
          rfl
      exact ⟨fun k _ ↦ congrFun hsame k, fun _ ↦ hsame⟩

/-! ## Moves -/

/-- A statement does not end a transaction. -/
theorem Phase.May.statement (h : φ.May op) :
    ¬op.Single ∧ op ≠ .commitTransaction ∧ op ≠ .rollbackTransaction := by
  refine ⟨fun hsingle ↦ ?_, ?_, ?_⟩
  · cases op with
    | setDisabledAt id disabledAt => cases φ <;> cases h
    | revokeSessions id => cases φ <;> cases h
    | _ => cases hsingle
  · rintro rfl
    cases φ <;> cases h
  · rintro rfl
    cases φ <;> cases h

/-- A call is a statement of its phase, an end of a transaction, or a statement of its own. -/
theorem Moves.may (h : Moves hashtext allowed φ op o φ') :
    φ.May op ∨ op = .commitTransaction ∧ (∃ after, φ.commit = some after) ∨
      op = .rollbackTransaction ∨ op.Single ∧ φ = .idle ∧ φ' = .finished := by
  cases h with
  | start => exact .inl trivial
  | serialize => exact .inl trivial
  | recent => exact .inl ⟨rfl, rfl, rfl⟩
  | clear => exact .inl ⟨rfl, rfl, rfl⟩
  | insert => exact .inl rfl
  | taken => exact .inl rfl
  | reference => exact .inl rfl
  | orphan => exact .inl rfl
  | findOwner => exact .inl trivial
  | findNobody => exact .inl trivial
  | lockUser => exact .inl rfl
  | lockNobody => exact .inl rfl
  | consume => exact .inl ⟨rfl, rfl⟩
  | consumeNothing => exact .inl ⟨rfl, rfl⟩
  | changePassword => exact .inl trivial
  | changeNobody => exact .inl trivial
  | verifyEmail consumed => exact .inl ⟨consumed, rfl⟩
  | resetPassword consumed => exact .inl ⟨consumed, rfl⟩
  | findOpen first => exact .inl rfl
  | spend remaining =>
    refine .inl ⟨rfl, ?_⟩
    rw [remaining]
    exact List.mem_cons_self
  | commit commits took => exact .inr (.inl ⟨rfl, _, commits⟩)
  | commitLost commits => exact .inr (.inl ⟨rfl, _, commits⟩)
  | fail may failed => exact .inl may
  | rollback => exact .inr (.inr (.inl rfl))
  | rollbackCommitted committed => exact .inr (.inr (.inl rfl))
  | setDisabledAt => exact .inr (.inr (.inr ⟨trivial, rfl, rfl⟩))
  | revokeSessions => exact .inr (.inr (.inr ⟨trivial, rfl, rfl⟩))

/-! ## Committed rows -/

theorem touched_updateUser {userId : UserId} {change : UserRow → UserRow} {user : Option UserRow}
    {t t' : Store ι} (h : updateUser i userId change t = some (user, t')) :
    Tables.Touched i (· = .user userId) t t' := by
  rcases updateUser_eq h with ⟨-, rfl⟩ | ⟨_, -, -, hput⟩
  · exact .refl i _ t'
  · exact hput.touched

/-- A call leaves the committed rows alone, or commits, or is a statement of its own, which leaves the
committed tokens alone. -/
theorem committed_of_answers (holds : φ.Holds i (s.now i) s.tables hashtext)
    (answers : (world ι).Answers AuthError i op s o s') (next : Moves hashtext allowed φ op o φ') :
    s'.tables.committed = s.tables.committed ∨
      φ.commit = some φ' ∧ op = .commitTransaction ∧ o.TookEffect ∧ s' = s.with (s.tables.commit i) ∨
      φ' = .finished ∧ op.Single ∧ o.TookEffect ∧
        ∀ hash, s'.tables.committed (.token hash) = s.tables.committed (.token hash) := by
  rcases answers.unchanged_or_effect with rfl | ⟨result, reply, heffect⟩
  · exact .inl rfl
  · rcases answer_eq heffect with htouched | ⟨rfl, -⟩ | ⟨-, htables⟩ | ⟨hsingle, userId, change, user, t,
      hupdate, htables⟩
    · exact .inl htouched.committed
    · cases next with
      | commit commits took =>
        obtain ⟨result, reply, heffect⟩ := answers.effect_of_tookEffect took
        cases heffect
        exact .inr (.inl ⟨commits, rfl, took, rfl⟩)
      | commitLost commits =>
        cases answers with
        | lost error mayFail => exact .inl rfl
      | fail may failed => exact (may.statement.2.1 rfl).elim
    · rw [htables]
      exact .inl Tables.rollback_committed
    · by_cases took : o.TookEffect
      · rcases next.may with hmay | ⟨rfl, -⟩ | rfl | ⟨-, rfl, hover⟩
        · exact (hmay.statement.1 hsingle).elim
        · cases hsingle
        · cases hsingle
        · have hidle : s.tables.Idle i := holds
          refine .inr (.inr ⟨hover, hsingle, took, fun hash ↦ ?_⟩)
          have htouched := touched_updateUser hupdate
          rw [htables, Tables.commit_committed, htouched.view_of_not (by rintro ⟨⟩)]
          exact congrFun hidle.view _
      · cases answers with
        | returned effect => exact (took trivial).elim
        | lost error mayFail => exact .inl rfl
        | applied error mayFail effect => exact (took trivial).elim

omit [DecidableEq ι] in
theorem commit_working {work : Work} (h : (Phase.working work).commit = some φ') :
    work.remaining = [] ∧ φ' = .done work := by
  by_cases hremaining : work.remaining = []
  · have hdone := (if_pos hremaining).symm.trans h
    exact ⟨hremaining, (Option.some.inj hdone).symm⟩
  · have hnone := (if_neg hremaining).symm.trans h
    cases hnone

omit [DecidableEq ι] in
/-- What a transaction that is committed makes of a token. -/
theorem token_commit {t : Store ι} {now : ℕ} (holds : φ.Holds i now t hashtext)
    (commits : φ.commit = some φ') (hash : TokenHash) :
    t.view i (.token hash) = t.committed (.token hash) ∨
      (∃ row at', t.committed (.token hash) = some row ∧
        t.view i (.token hash) = some { row with usedAt := some at' }) ∨
      ∃ data, φ = .referenced data ∧ φ' = .stored data ∧ hash = data.tokenHash ∧
        t.committed (.token hash) = none ∧ t.view i (.token hash) = some (data.row now) := by
  cases φ with
  | recent data => exact .inl (Tables.view_of_pending_none (holds.1 _))
  | nothing =>
    have hreads : Reads i t := holds
    exact .inl (Tables.view_of_pending_none (hreads _))
  | referenced data =>
    cases commits
    obtain ⟨-, hinserting, -⟩ := holds
    by_cases hhash : hash = data.tokenHash
    · subst hhash
      exact .inr (.inr ⟨data, rfl, rfl, rfl, hinserting.absent, hinserting.view⟩)
    · exact .inl (Tables.view_of_pending_none (hinserting.others _ fun h ↦ hhash (Key.token.inj h)))
  | working work =>
    have hworking : Working i now t work := holds
    by_cases hpending : t.pending i (.token hash) = none
    · exact .inl (Tables.view_of_pending_none hpending)
    · obtain ⟨row, at', hrow, -, hview⟩ := hworking.tokens hash hpending
      exact .inr (.inl ⟨row, at', hrow, hview⟩)
  | _ => cases commits

/-- Stored tokens stay. -/
theorem ages_of_answers (holds : φ.Holds i (s.now i) s.tables hashtext)
    (answers : (world ι).Answers AuthError i op s o s') (next : Moves hashtext allowed φ op o φ')
    {hash : TokenHash} {row : TokenRow} (hrow : s.tables.committed (.token hash) = some row) :
    ∃ row', s'.tables.committed (.token hash) = some row' ∧ row.Ages row' := by
  rcases committed_of_answers holds answers next with hsame | ⟨hcommits, -, -, rfl⟩ | ⟨-, -, -, hsame⟩
  · exact ⟨row, (congrFun hsame _).trans hrow, .refl row⟩
  · rcases token_commit holds hcommits hash with hview | ⟨row', at', hrow', hview⟩ | ⟨data, -, -, -, hnone, -⟩
    · exact ⟨row, hview.trans hrow, .refl row⟩
    · cases hrow.symm.trans hrow'
      exact ⟨_, hview, .use row at'⟩
    · cases hrow.symm.trans hnone
  · exact ⟨row, (hsame hash).trans hrow, .refl row⟩

/-- A token appears by the commit of its insert. -/
theorem fresh_of_answers (holds : φ.Holds i (s.now i) s.tables hashtext)
    (answers : (world ι).Answers AuthError i op s o s') (next : Moves hashtext allowed φ op o φ')
    {hash : TokenHash} {row : TokenRow} (hnone : s.tables.committed (.token hash) = none)
    (hrow : s'.tables.committed (.token hash) = some row) :
    ∃ data, φ = .referenced data ∧ φ' = .stored data ∧ hash = data.tokenHash ∧ row = data.row (s.now i) := by
  rcases committed_of_answers holds answers next with hsame | ⟨hcommits, -, -, rfl⟩ | ⟨-, -, -, hsame⟩
  · rw [hsame, hnone] at hrow
    cases hrow
  · have hview : s.tables.view i (.token hash) = some row := hrow
    rcases token_commit holds hcommits hash with hsame | ⟨row', at', hrow', -⟩ |
      ⟨data, hφ, hφ', hhash, -, hview'⟩
    · rw [hsame, hnone] at hview
      cases hview
    · cases hnone.symm.trans hrow'
    · exact ⟨data, hφ, hφ', hhash, Option.some.inj (hview.symm.trans hview')⟩
  · rw [hsame, hnone] at hrow
    cases hrow

omit [DecidableEq ι] in
theorem lockNumber_congr {data other : IssueAuthTokenData} (huser : data.userId = other.userId)
    (htype : data.type = other.type) : data.lockNumber hashtext = other.lockNumber hashtext := by
  unfold IssueAuthTokenData.lockNumber
  rw [huser, htype]

/-- A transaction keeps its locks and writes while another makes a call. -/
theorem apart_of_answers (answers : (world ι).Answers AuthError i op s o s') (hne : j ≠ i) :
    Tables.Apart j s.tables s'.tables := by
  rcases answers.unchanged_or_effect with rfl | ⟨result, reply, heffect⟩
  · exact (Tables.Step.statements (.refl i _ _)).apart hne
  · rcases answer_eq heffect with htouched | ⟨-, htables⟩ | ⟨-, htables⟩ | ⟨-, userId, change, user, t,
      hupdate, htables⟩
    · exact (Tables.Step.statements htouched).apart hne
    · rw [htables]
      exact Tables.Step.commit.apart hne
    · rw [htables]
      exact Tables.Step.rollback.apart hne
    · rw [htables]
      have htouched := (touched_updateUser hupdate).mono fun _ _ ↦ trivial
      exact ((Tables.Step.statements htouched).apart hne).trans (Tables.Step.commit.apart hne)

/-- Others are not concerned by a call. -/
theorem persists_of_answers (holds : φ.Holds i (s.now i) s.tables hashtext)
    (answers : (world ι).Answers AuthError i op s o s') (next : Moves hashtext allowed φ op o φ')
    (hne : j ≠ i) : Persists hashtext j s s' where
  apart := apart_of_answers answers hne
  now := (now_of_answers answers).1 j hne
  ages hash row hrow := ages_of_answers holds answers next hrow
  fresh hash row hnone hrow data hserialized := by
    obtain ⟨other, rfl, -, -, rfl⟩ := fresh_of_answers holds answers next hnone hrow
    rintro ⟨huser, htype⟩
    refine hne (Tables.Writes.unique hserialized ?_)
    rw [lockNumber_congr huser.symm htype.symm]
    exact holds.1

/-! ## The phases of a caller -/

section Own

variable {t t' : Store ι} {key : Key} {mode : LockMode} {now : ℕ}

omit [DecidableEq ι] in
theorem reads_of_idle (h : t.Idle i) : Reads i t := fun _ ↦ h.pending

omit [DecidableEq ι] in
theorem Reads.view (h : Reads i t) (key : Key) : t.view i key = t.committed key :=
  Tables.view_of_pending_none (h key)

omit [DecidableEq ι] in
theorem Reads.touched (h : Reads i t) (touched : Tables.Touched i (fun _ ↦ False) t t') : Reads i t' := by
  intro key
  rw [touched.untouched key id]
  exact h key

theorem reads_lockRow (h : Reads i t) (lock : lockRow i key mode t = some t') : Reads i t' :=
  h.touched (lockRow_eq lock).1

omit [DecidableEq ι] in
theorem onlyLocks_of_cons {p : Key → Prop} (h : OnlyLocks i t p) (hkey : p key)
    (locks : t'.locks = ⟨i, key, mode⟩ :: t.locks) : OnlyLocks i t' p := by
  intro lock hlock hholder
  rw [locks] at hlock
  rcases List.mem_cons.mp hlock with rfl | hlock
  · exact hkey
  · exact h lock hlock hholder

omit [DecidableEq ι] in
theorem writes_of_cons (hmode : mode.writes = true) (locks : t'.locks = ⟨i, key, mode⟩ :: t.locks) :
    t'.Writes i key := by
  refine ⟨⟨i, key, mode⟩, ?_, rfl, rfl, hmode⟩
  rw [locks]
  exact List.mem_cons_self

/-- An insert begins with its advisory lock. -/
theorem serialized_of_opened {data : IssueAuthTokenData} (h : t.Idle i)
    (lock : lockRow i (.advisory (data.lockNumber hashtext)) .update t = some t') :
    (Phase.serialized data).Holds i now t' hashtext := by
  obtain ⟨-, hlocks⟩ := lockRow_eq lock
  have honly : OnlyLocks i t IsAdvisory := fun other hother hholder ↦ (h other hother hholder).elim
  have hadvisory : IsAdvisory (.advisory (data.lockNumber hashtext)) := trivial
  exact ⟨writes_of_cons rfl hlocks, reads_lockRow (reads_of_idle h) lock,
    onlyLocks_of_cons honly hadvisory hlocks⟩

omit [DecidableEq ι] in
/-- The condition of an insert finds what is committed. -/
theorem existsRecent_iff {data : IssueAuthTokenData} (h : Reads i t) :
    (!(t.scan i (isRecentToken data.userId data.type data.minIntervalMs now)).isEmpty) = true ↔
      Recent now t data := by
  rw [Bool.not_eq_true', List.isEmpty_eq_false_iff_exists_mem]
  constructor
  · rintro ⟨key, hkey⟩
    obtain ⟨row, hrow, hrecent⟩ := Tables.mem_scan.mp hkey
    cases key with
    | token hash =>
      rw [h.view] at hrow
      exact ⟨hash, row, hrow, hrecent⟩
    | _ => cases hrecent
  · rintro ⟨hash, row, hrow, hrecent⟩
    refine ⟨.token hash, Tables.mem_scan.mpr ⟨row, ?_, hrecent⟩⟩
    rw [h.view]
    exact hrow

omit [DecidableEq ι] in
theorem spaced_of_not_recent {data : IssueAuthTokenData} (h : ¬Recent now t data) : Spaced now t data :=
  fun hash row hrow ↦ Bool.eq_false_iff.mpr fun hrecent ↦ h ⟨hash, row, hrow, hrecent⟩

omit [DecidableEq ι] in
/-- An insert writes its token only. -/
theorem inserted_of_clear {data : IssueAuthTokenData} (h : (Phase.clear data).Holds i now t hashtext)
    (put : Put i (.token data.tokenHash) .update (data.row now) t t')
    (absent : t.view i (.token data.tokenHash) = none) :
    (Phase.inserted data).Holds i now t' hashtext := by
  obtain ⟨hserialized, hreads, honly, hspaced⟩ := h
  refine ⟨put.touched.writes hserialized, ⟨put.writes, ?_, put.view, fun key hkey ↦ ?_⟩,
    onlyLocks_of_cons (fun lock hlock hholder ↦ ?_) id put.locks, fun hash row hrow ↦ ?_⟩
  · rw [put.touched.committed, ← hreads.view]
    exact absent
  · rw [put.touched.untouched key hkey]
    exact hreads key
  · have hadvisory := honly lock hlock hholder
    intro huser
    cases hkey : lock.key with
    | user id =>
      rw [hkey] at hadvisory
      exact hadvisory
    | _ =>
      rw [hkey] at huser
      exact huser
  · rw [put.touched.committed] at hrow
    exact hspaced hash row hrow

omit [DecidableEq ι] in
theorem view_of_touched (touched : Tables.Touched i (fun _ ↦ False) t t') (key : Key) :
    t'.view i key = t.view i key := touched.view_of_not id

/-- The check of its user leaves the token of an insert alone. -/
theorem referenced_of_inserted {data : IssueAuthTokenData}
    (h : (Phase.inserted data).Holds i now t hashtext) (lock : lockRow i key mode t = some t') :
    (Phase.referenced data).Holds i now t' hashtext := by
  obtain ⟨hserialized, hinserting, -, hspaced⟩ := h
  obtain ⟨htouched, -⟩ := lockRow_eq lock
  refine ⟨htouched.writes hserialized, ⟨htouched.writes hinserting.writes, ?_, ?_, fun other hother ↦ ?_⟩,
    fun hash row hrow ↦ ?_⟩
  · rw [htouched.committed]
    exact hinserting.absent
  · rw [view_of_touched htouched]
    exact hinserting.view
  · rw [htouched.untouched other id]
    exact hinserting.others other hother
  · rw [htouched.committed] at hrow
    exact hspaced hash row hrow

/-- A transaction locks the row of a user who is not disabled. -/
theorem enabled_of_owned {hash : TokenHash} {type : AuthTokenType} {userId : UserId} {row : UserRow}
    (h : (Phase.owned hash type userId).Holds i now t hashtext)
    (lock : lockRow i (.user userId) .update t = some t') (hrow : t.view i (.user userId) = some row)
    (enabled : row.disabledAt = none) : (Phase.enabled hash type userId).Holds i now t' hashtext := by
  obtain ⟨hidle, token, htoken, htype, huser⟩ := h
  obtain ⟨htouched, hlocks⟩ := lockRow_eq lock
  refine ⟨reads_lockRow (reads_of_idle hidle) lock, ⟨token, ?_, htype, huser⟩, ?_, row, ?_, enabled⟩
  · rw [htouched.committed]
    exact htoken
  · rw [hlocks]
    exact List.mem_cons_self
  · rw [htouched.committed, ← hidle.view]
    exact hrow

omit [DecidableEq ι] in
/-- A usable token of the locked user is used. -/
theorem working_of_enabled {hash : TokenHash} {type : AuthTokenType} {userId : UserId} {row : TokenRow}
    (h : (Phase.enabled hash type userId).Holds i now t hashtext)
    (hrow : t.view i (.token hash) = some row) (usable : row.isUsable type now = true)
    (put : Put i (.token hash) .noKeyUpdate { row with usedAt := some now } t t') :
    Working i now t' ⟨row.userId, some (hash, type), none, []⟩ := by
  obtain ⟨hreads, ⟨token, htoken, -, huser⟩, hguarded⟩ := h
  have hcommitted : t.committed (.token hash) = some row := by
    rw [← hreads.view]
    exact hrow
  cases htoken.symm.trans hcommitted
  subst huser
  have hlocked : ⟨i, .user row.userId, .update⟩ ∈ t'.locks := put.touched.kept _ hguarded.locked
  have husers : ∀ id, t'.pending i (.user id) = none := by
    intro id
    rw [put.touched.untouched _ (by rintro ⟨⟩)]
    exact hreads _
  refine ⟨⟨_, hlocked, rfl, rfl, rfl⟩, fun number ↦ ?_, fun other _ ↦ husers other, fun other hpending ↦ ?_, ?_,
    by rintro _ ⟨⟩, by rintro _ ⟨⟩, fun _ ↦ ⟨rfl, fun other hpending ↦ ?_⟩⟩
  · rw [put.touched.untouched _ (by rintro ⟨⟩)]
    exact hreads _
  · by_cases hother : other = hash
    · subst hother
      refine ⟨row, now, ?_, rfl, put.view⟩
      rw [put.touched.committed]
      exact hcommitted
    · rw [put.touched.untouched _ fun h ↦ hother (Key.token.inj h)] at hpending
      exact (hpending (hreads _)).elim
  · rintro _ _ ⟨⟩
    refine ⟨⟨hlocked, ?_⟩, put.writes, ⟨row, ?_, rfl, usable⟩, ⟨_, put.view, Option.some_ne_none _⟩⟩
    · rw [put.touched.committed]
      exact hguarded.enabled
    · rw [put.touched.committed]
      exact hcommitted
  · by_cases hother : other = hash
    · subst hother
      exact ⟨type, rfl⟩
    · rw [put.touched.untouched _ fun h ↦ hother (Key.token.inj h)] at hpending
      exact (hpending (hreads _)).elim

omit [DecidableEq ι] in
/-- A change of a password begins with the row of its user. -/
theorem working_of_opened {userId : UserId} {row : UserRow} (h : t.Idle i)
    (put : Put i (.user userId) .noKeyUpdate row t t') : Working i now t' ⟨userId, none, none, []⟩ := by
  have hpending : ∀ key, key ≠ .user userId → t'.pending i key = none := by
    intro key hkey
    rw [put.touched.untouched key hkey]
    exact h.pending
  refine ⟨put.writes, fun number ↦ hpending _ (by rintro ⟨⟩), fun other hother ↦ hpending _ ?_,
    fun hash hwritten ↦ (hwritten (hpending _ (by rintro ⟨⟩))).elim, by rintro _ _ ⟨⟩, by rintro _ ⟨⟩,
    by rintro _ ⟨⟩, fun _ ↦ ⟨rfl, fun hash hwritten ↦ (hwritten (hpending _ (by rintro ⟨⟩))).elim⟩⟩
  exact fun heq ↦ hother (Key.user.inj heq)

namespace Working

variable {work : Work}

omit [DecidableEq ι] in
/-- A transaction writes the row of its user again. -/
theorem put_user {row : UserRow} (h : Working i now t work)
    (put : Put i (.user work.userId) .noKeyUpdate row t t') : Working i now t' work where
  writes := put.writes
  advisory number := by
    rw [put.touched.untouched _ (by rintro ⟨⟩)]
    exact h.advisory number
  users other hother := by
    rw [put.touched.untouched _ fun heq ↦ hother (Key.user.inj heq)]
    exact h.users other hother
  tokens hash hpending := by
    rw [put.touched.untouched _ (by rintro ⟨⟩)] at hpending
    rw [put.touched.committed, put.touched.view_of_not (by rintro ⟨⟩)]
    exact h.tokens hash hpending
  consumed hash type hconsumed := by
    obtain ⟨⟨hlocked, henabled⟩, hwrites, husable, hused⟩ := h.consumed hash type hconsumed
    have hview : t'.view i (.token hash) = t.view i (.token hash) :=
      put.touched.view_of_not (by rintro ⟨⟩)
    rw [← put.touched.committed] at henabled husable
    rw [← hview] at hused
    exact ⟨⟨put.touched.kept _ hlocked, henabled⟩, put.touched.writes hwrites, husable, hused⟩
  remaining hash hhash := by
    rw [put.touched.committed]
    exact h.remaining hash hhash
  found found hfound hash hhash := by
    rw [put.touched.view_of_not (by rintro ⟨⟩)]
    exact h.found found hfound hash hhash
  first hfirst := by
    refine ⟨(h.first hfirst).1, fun hash hpending ↦ (h.first hfirst).2 hash ?_⟩
    rwa [put.touched.untouched _ (by rintro ⟨⟩)] at hpending

omit [DecidableEq ι] in
/-- An update of the tokens of the user finds stored ones. -/
theorem find (h : Working i now t work) {order hashes : List TokenHash}
    (find : findOpen i work.userId order t = some hashes) :
    Working i now t { work with found := some hashes, remaining := hashes } where
  writes := h.writes
  advisory := h.advisory
  users := h.users
  tokens := h.tokens
  consumed := h.consumed
  remaining hash hhash := by
    obtain ⟨row, hrow, hopen⟩ := (mem_findOpen find).mp hhash
    obtain ⟨huser, hunused⟩ := of_decide_eq_true hopen
    by_cases hpending : t.pending i (.token hash) = none
    · exact ⟨row, (Tables.view_of_pending_none hpending).symm.trans hrow, huser⟩
    · obtain ⟨before, at', -, -, hview⟩ := h.tokens hash hpending
      cases hview.symm.trans hrow
      cases hunused
  found found hfound hash hhash := by
    cases hfound
    exact .inl hhash
  first := by rintro ⟨⟩

omit [DecidableEq ι] in
/-- A token that the update has met is used, by the transaction or before. -/
theorem skip (h : Working i now t work) {hash : TokenHash} {hashes : List TokenHash}
    (remaining : work.remaining = hash :: hashes)
    (used : ∃ row, t.view i (.token hash) = some row ∧ row.usedAt ≠ none) :
    Working i now t { work with remaining := hashes } where
  writes := h.writes
  advisory := h.advisory
  users := h.users
  tokens := h.tokens
  consumed := h.consumed
  remaining other hother := by
    refine h.remaining other ?_
    rw [remaining]
    exact List.mem_cons_of_mem _ hother
  found found hfound other hother := by
    rcases h.found found hfound other hother with hremaining | hused
    · rw [remaining] at hremaining
      rcases List.mem_cons.mp hremaining with rfl | hremaining
      · exact .inr used
      · exact .inl hremaining
    · exact .inr hused
  first hfirst := by
    have hnil := (h.first hfirst).1
    rw [remaining] at hnil
    cases hnil

omit [DecidableEq ι] in
/-- The update uses a token of its user. -/
theorem put_token (h : Working i now t work) {hash : TokenHash} {row : TokenRow} {at' : ℕ}
    (hremaining : hash ∈ work.remaining)
    (committed : ∃ stored, t.committed (.token hash) = some stored ∧ stored.userId = work.userId)
    (hrow : t.view i (.token hash) = some row)
    (put : Put i (.token hash) .noKeyUpdate { row with usedAt := some at' } t t') :
    Working i now t' work := by
  have husedView : ∀ other, (∃ row, t.view i (.token other) = some row ∧ row.usedAt ≠ none) →
      ∃ row, t'.view i (.token other) = some row ∧ row.usedAt ≠ none := by
    intro other hused
    by_cases hother : other = hash
    · subst hother
      exact ⟨_, put.view, Option.some_ne_none _⟩
    · rw [put.touched.view_of_not fun heq ↦ hother (Key.token.inj heq)]
      exact hused
  constructor
  · exact put.touched.writes h.writes
  · intro number
    rw [put.touched.untouched _ (by rintro ⟨⟩)]
    exact h.advisory number
  · intro other hother
    rw [put.touched.untouched _ (by rintro ⟨⟩)]
    exact h.users other hother
  · intro other hpending
    rw [put.touched.committed]
    by_cases hother : other = hash
    · subst hother
      obtain ⟨stored, hstored, huser⟩ := committed
      by_cases hbefore : t.pending i (.token other) = none
      · rw [Tables.view_of_pending_none hbefore, hstored] at hrow
        cases hrow
        exact ⟨row, at', hstored, huser, put.view⟩
      · obtain ⟨before, at'', hcommitted, huser', hview⟩ := h.tokens other hbefore
        cases hview.symm.trans hrow
        exact ⟨before, at', hcommitted, huser', put.view⟩
    · have hne : Key.token other ≠ .token hash := fun heq ↦ hother (Key.token.inj heq)
      rw [put.touched.untouched _ hne] at hpending
      rw [put.touched.view_of_not hne]
      exact h.tokens other hpending
  · intro other type hconsumed
    obtain ⟨⟨hlocked, henabled⟩, hwrites, husable, hused⟩ := h.consumed other type hconsumed
    rw [← put.touched.committed] at henabled husable
    exact ⟨⟨put.touched.kept _ hlocked, henabled⟩, put.touched.writes hwrites, husable, husedView other hused⟩
  · intro other hother
    rw [put.touched.committed]
    exact h.remaining other hother
  · intro found hfound other hother
    exact (h.found found hfound other hother).imp id (husedView other)
  · intro hfirst
    rw [(h.first hfirst).1] at hremaining
    exact (List.not_mem_nil hremaining).elim

/-- The update meets the next token. -/
theorem spend (h : Working i now t work) {hash : TokenHash} {hashes : List TokenHash} {at' : ℕ}
    {used : Option TokenRow} (remaining : work.remaining = hash :: hashes)
    (use : useToken i hash (·.isOpen work.userId) at' t = some (used, t')) :
    Working i now t' { work with remaining := hashes } := by
  have hremaining : hash ∈ work.remaining := by
    rw [remaining]
    exact List.mem_cons_self
  obtain ⟨stored, hstored, huser⟩ := h.remaining hash hremaining
  rcases useToken_eq use with ⟨-, rfl, hclosed⟩ | ⟨row, hrow, -, -, hput⟩
  · refine h.skip remaining ?_
    by_cases hpending : t'.pending i (.token hash) = none
    · have hview := (Tables.view_of_pending_none hpending).trans hstored
      refine ⟨stored, hview, fun hunused ↦ ?_⟩
      have hopen : stored.isOpen work.userId = true := decide_eq_true ⟨huser, hunused⟩
      rw [hclosed stored hview] at hopen
      cases hopen
    · obtain ⟨before, at'', -, -, hview⟩ := h.tokens hash hpending
      exact ⟨_, hview, Option.some_ne_none _⟩
  · exact (h.put_token hremaining ⟨stored, hstored, huser⟩ hrow hput).skip remaining
      ⟨_, hput.view, Option.some_ne_none _⟩

end Working

theorem idle_commit (t : Store ι) (i : ι) : (t.commit i).Idle i := Tables.idle_finish

theorem idle_rollback (t : Store ι) (i : ι) : (t.rollback i).Idle i := Tables.idle_finish

/-- What has been written is stored. -/
theorem holds_commit (holds : φ.Holds i now t hashtext) (commits : φ.commit = some φ') :
    φ'.Holds i now (t.commit i) hashtext := by
  have hidle := idle_commit t i
  cases φ with
  | recent data =>
    cases commits
    obtain ⟨hreads, hash, row, hrow, hrecent⟩ := holds
    refine ⟨hidle, hash, row, ?_, hrecent⟩
    rw [Tables.commit_committed, hreads.view]
    exact hrow
  | referenced data =>
    cases commits
    obtain ⟨-, hinserting, -⟩ := holds
    exact ⟨hidle, _, hinserting.view, .refl _⟩
  | working work =>
    have hworking : Working i now t work := holds
    obtain ⟨hremaining, rfl⟩ := commit_working commits
    refine ⟨hidle, fun hash type hconsumed ↦ (hworking.consumed hash type hconsumed).used,
      fun found hfound hash hhash ↦ ?_⟩
    refine (hworking.found found hfound hash hhash).resolve_left ?_
    rw [hremaining]
    exact List.not_mem_nil
  | nothing =>
    cases commits
    exact hidle
  | _ => cases commits

/-- A rollback after the commit changes nothing. -/
theorem holds_rollback_of_committed (holds : φ.Holds i now t hashtext) (committed : φ.Committed) :
    φ.Holds i now (t.rollback i) hashtext := by
  have hidle := idle_rollback t i
  obtain ⟨before, hbefore⟩ := committed
  cases before with
  | recent data =>
    cases hbefore
    exact ⟨hidle, holds.2⟩
  | referenced data =>
    cases hbefore
    exact ⟨hidle, holds.2⟩
  | working work =>
    obtain ⟨-, rfl⟩ := commit_working hbefore
    exact ⟨hidle, holds.2⟩
  | nothing =>
    cases hbefore
    exact hidle
  | _ => cases hbefore

end Own

/-- A statement of its own leaves its caller without a transaction. -/
theorem idle_of_single (hidle : s.tables.Idle i) (answers : (world ι).Answers AuthError i op s o s')
    (hsingle : op.Single) : s'.tables.Idle i := by
  rcases answers.unchanged_or_effect with rfl | ⟨result, reply, heffect⟩
  · exact hidle
  · cases op with
    | setDisabledAt userId disabledAt =>
      obtain ⟨result, -, heq⟩ := Option.map_eq_some_iff.mp heffect
      cases heq
      exact idle_commit _ i
    | revokeSessions userId =>
      obtain ⟨result, -, heq⟩ := Option.map_eq_some_iff.mp heffect
      cases heq
      exact idle_commit _ i
    | _ => cases hsingle

section Statements

variable {data : IssueAuthTokenData} {hash : TokenHash} {type : AuthTokenType} {userId : UserId}
  {work : Work}

theorem holds_advisoryLock (h : s.tables.Idle i)
    (effect : (world ι).effect i (.advisoryLock (data.lockNumber hashtext)) s () s') :
    (Phase.serialized data).Holds i (s'.now i) s'.tables hashtext := by
  obtain ⟨reply, heffect⟩ := effect
  obtain ⟨t, ht, heq⟩ := Option.map_eq_some_iff.mp heffect
  cases heq
  exact serialized_of_opened h ht

theorem holds_existsRecent {found : Bool}
    (h : (Phase.serialized data).Holds i (s.now i) s.tables hashtext)
    (effect : (world ι).effect i (.existsRecent data.userId data.type data.minIntervalMs) s found s') :
    (if found then Phase.recent data else .clear data).Holds i (s'.now i) s'.tables hashtext := by
  obtain ⟨reply, heffect⟩ := effect
  obtain ⟨hfound, rfl⟩ := Prod.mk.inj (Option.some.inj heffect)
  obtain ⟨hserialized, hreads, honly⟩ := h
  cases found with
  | true => exact ⟨hreads, (existsRecent_iff hreads).mp hfound⟩
  | false =>
    refine ⟨hserialized, hreads, honly, spaced_of_not_recent fun hrecent ↦ ?_⟩
    rw [(existsRecent_iff hreads).mpr hrecent] at hfound
    cases hfound

theorem holds_insertToken (h : (Phase.clear data).Holds i (s.now i) s.tables hashtext)
    (effect : (world ι).effect i (.insertToken data) s true s') :
    (Phase.inserted data).Holds i (s'.now i) s'.tables hashtext := by
  obtain ⟨reply, heffect⟩ := effect
  obtain ⟨⟨inserted, t⟩, ht, heq⟩ := Option.map_eq_some_iff.mp heffect
  cases heq
  rcases insertToken_eq ht with ⟨hfalse, -⟩ | ⟨-, habsent, hput⟩
  · cases hfalse
  · exact inserted_of_clear h hput habsent

theorem holds_referenceUser (h : (Phase.inserted data).Holds i (s.now i) s.tables hashtext)
    (effect : (world ι).effect i (.referenceUser data.userId) s true s') :
    (Phase.referenced data).Holds i (s'.now i) s'.tables hashtext := by
  obtain ⟨reply, heffect⟩ := effect
  obtain ⟨⟨found, t⟩, ht, heq⟩ := Option.map_eq_some_iff.mp heffect
  cases heq
  rcases referenceUser_eq ht with ⟨hfalse, -⟩ | ⟨-, hlock⟩
  · cases hfalse
  · exact referenced_of_inserted h hlock

theorem holds_findOwner (h : s.tables.Idle i)
    (effect : (world ι).effect i (.findOwner hash type) s (some userId) s') :
    (Phase.owned hash type userId).Holds i (s'.now i) s'.tables hashtext := by
  obtain ⟨reply, heffect⟩ := effect
  obtain ⟨hfound, rfl⟩ := Prod.mk.inj (Option.some.inj heffect)
  obtain ⟨row, hrow, huser⟩ := Option.map_eq_some_iff.mp hfound
  obtain ⟨hrow, htype⟩ := Option.filter_eq_some_iff.mp hrow
  refine ⟨h, row, ?_, of_decide_eq_true htype, huser⟩
  rw [← Tables.Idle.view h]
  exact hrow

theorem holds_lockUser (h : (Phase.owned hash type userId).Holds i (s.now i) s.tables hashtext)
    (effect : (world ι).effect i (.lockUser userId) s (some none) s') :
    (Phase.enabled hash type userId).Holds i (s'.now i) s'.tables hashtext := by
  obtain ⟨reply, heffect⟩ := effect
  obtain ⟨⟨user, t⟩, ht, heq⟩ := Option.map_eq_some_iff.mp heffect
  cases heq
  rcases lockUser_eq ht with ⟨hnone, -⟩ | ⟨row, hrow, hdisabled, hlock⟩
  · cases hnone
  · exact enabled_of_owned h hlock hrow (Option.some.inj hdisabled).symm

/-- Whatever row is locked, nothing has been written. -/
theorem reads_of_lockUser {answer : Option (Option ℕ)} (h : s.tables.Idle i)
    (effect : (world ι).effect i (.lockUser userId) s answer s') : Reads i s'.tables := by
  obtain ⟨reply, heffect⟩ := effect
  obtain ⟨⟨user, t⟩, ht, heq⟩ := Option.map_eq_some_iff.mp heffect
  cases heq
  rcases lockUser_eq ht with ⟨-, rfl⟩ | ⟨row, -, -, hlock⟩
  · exact reads_of_idle h
  · exact reads_lockRow (reads_of_idle h) hlock

theorem holds_consume {owner : UserId}
    (h : (Phase.enabled hash type userId).Holds i (s.now i) s.tables hashtext)
    (effect : (world ι).effect i (.consume hash type) s (some owner) s') :
    Working i (s'.now i) s'.tables ⟨owner, some (hash, type), none, []⟩ := by
  obtain ⟨reply, heffect⟩ := effect
  obtain ⟨⟨used, t⟩, ht, heq⟩ := Option.map_eq_some_iff.mp heffect
  rcases useToken_eq ht with ⟨rfl, -, -⟩ | ⟨row, hrow, husable, rfl, hput⟩
  · cases heq
  · cases heq
    exact working_of_enabled h hrow husable hput

theorem reads_of_consumeNothing
    (h : (Phase.enabled hash type userId).Holds i (s.now i) s.tables hashtext)
    (effect : (world ι).effect i (.consume hash type) s none s') : Reads i s'.tables := by
  obtain ⟨reply, heffect⟩ := effect
  obtain ⟨⟨used, t⟩, ht, heq⟩ := Option.map_eq_some_iff.mp heffect
  rcases useToken_eq ht with ⟨rfl, rfl, -⟩ | ⟨row, -, -, rfl, -⟩
  · cases heq
    exact h.1
  · cases heq

theorem holds_changePassword {passwordHash : String} {version : ℕ} (h : s.tables.Idle i)
    (effect : (world ι).effect i (.changePassword userId passwordHash) s (some version) s') :
    Working i (s'.now i) s'.tables ⟨userId, none, none, []⟩ := by
  obtain ⟨reply, heffect⟩ := effect
  obtain ⟨⟨user, t⟩, ht, heq⟩ := Option.map_eq_some_iff.mp heffect
  rcases updateUser_eq ht with ⟨rfl, -⟩ | ⟨row, -, rfl, hput⟩
  · cases heq
  · cases heq
    exact working_of_opened h hput

/-- An update of the row of its user. -/
theorem Working.updateUser {now : ℕ} {t t' : Store ι} {change : UserRow → UserRow}
    {user : Option UserRow} (h : Working i now t work)
    (update : Tokens.updateUser i work.userId change t = some (user, t')) : Working i now t' work := by
  rcases updateUser_eq update with ⟨-, rfl⟩ | ⟨row, -, -, hput⟩
  · exact h
  · exact h.put_user hput

theorem Working.verifyEmail {at' : ℕ} (h : Working i (s.now i) s.tables work)
    (effect : (world ι).effect i (.verifyEmail work.userId at') s () s') :
    Working i (s'.now i) s'.tables work := by
  obtain ⟨reply, heffect⟩ := effect
  obtain ⟨⟨user, t⟩, ht, heq⟩ := Option.map_eq_some_iff.mp heffect
  cases heq
  exact h.updateUser ht

theorem Working.resetPassword {passwordHash : String} {at' : ℕ}
    (h : Working i (s.now i) s.tables work)
    (effect : (world ι).effect i (.resetPassword work.userId passwordHash at') s () s') :
    Working i (s'.now i) s'.tables work := by
  obtain ⟨reply, heffect⟩ := effect
  obtain ⟨⟨user, t⟩, ht, heq⟩ := Option.map_eq_some_iff.mp heffect
  cases heq
  exact h.updateUser ht

end Statements

/-- The phases of a caller hold. -/
theorem holds_of_answers (holds : φ.Holds i (s.now i) s.tables hashtext)
    (answers : (world ι).Answers AuthError i op s o s') (next : Moves hashtext allowed φ op o φ') :
    φ'.Holds i (s'.now i) s'.tables hashtext := by
  cases next with
  | start =>
    obtain ⟨reply, heffect⟩ := answers.effect_of_returned
    cases heffect
    exact holds
  | serialize => exact holds_advisoryLock holds answers.effect_of_returned
  | recent => exact holds_existsRecent holds answers.effect_of_returned
  | clear => exact holds_existsRecent holds answers.effect_of_returned
  | insert => exact holds_insertToken holds answers.effect_of_returned
  | taken => trivial
  | reference => exact holds_referenceUser holds answers.effect_of_returned
  | orphan => trivial
  | findOwner => exact holds_findOwner holds answers.effect_of_returned
  | findNobody =>
    obtain ⟨reply, heffect⟩ := answers.effect_of_returned
    obtain ⟨-, rfl⟩ := Prod.mk.inj (Option.some.inj heffect)
    exact reads_of_idle holds
  | lockUser => exact holds_lockUser holds answers.effect_of_returned
  | lockNobody => exact reads_of_lockUser holds.1 answers.effect_of_returned
  | consume => exact holds_consume holds answers.effect_of_returned
  | consumeNothing => exact reads_of_consumeNothing holds answers.effect_of_returned
  | changePassword => exact holds_changePassword holds answers.effect_of_returned
  | changeNobody => trivial
  | verifyEmail => exact Working.verifyEmail holds answers.effect_of_returned
  | resetPassword => exact Working.resetPassword holds answers.effect_of_returned
  | findOpen =>
    obtain ⟨reply, heffect⟩ := answers.effect_of_returned
    obtain ⟨hashes, hfind, heq⟩ := Option.map_eq_some_iff.mp heffect
    cases heq
    exact Working.find holds hfind
  | spend remaining =>
    obtain ⟨reply, heffect⟩ := answers.effect_of_returned
    obtain ⟨⟨used, t⟩, ht, heq⟩ := Option.map_eq_some_iff.mp heffect
    cases heq
    exact Working.spend holds remaining ht
  | commit commits took =>
    obtain ⟨result, reply, heffect⟩ := answers.effect_of_tookEffect took
    cases heffect
    exact holds_commit holds commits
  | commitLost => trivial
  | fail may failed => trivial
  | rollback =>
    obtain ⟨reply, heffect⟩ := answers.effect_of_returned
    cases heffect
    exact idle_rollback _ i
  | rollbackCommitted committed =>
    obtain ⟨reply, heffect⟩ := answers.effect_of_returned
    cases heffect
    exact holds_rollback_of_committed holds committed
  | setDisabledAt => exact idle_of_single holds answers trivial
  | revokeSessions => exact idle_of_single holds answers trivial

/-! ## Locks of tokens -/

/-- Whoever locks a stored token holds the row of its user. -/
def Covered (i : ι) (t : Store ι) : Prop :=
  ∀ lock ∈ t.locks, lock.holder = i → ∀ hash, lock.key = .token hash → lock.mode.writes = true ∧
    (t.committed (.token hash) = none ∨
      ∃ row, t.committed (.token hash) = some row ∧ t.Writes i (.user row.userId))

omit [DecidableEq ι] in
theorem covered_of_idle {t : Store ι} (h : t.Idle i) : Covered i t :=
  fun lock hlock hholder ↦ (h lock hlock hholder).elim

omit [DecidableEq ι] in
theorem Covered.persists (h : Covered i s.tables) (persists : Persists hashtext i s s') :
    Covered i s'.tables := by
  intro lock hlock hholder hash hkey
  have hbefore := (persists.apart.locks lock hholder).mp hlock
  obtain ⟨hmode, hcovered⟩ := h lock hbefore hholder hash hkey
  refine ⟨hmode, ?_⟩
  rw [persists.apart.committed _ ⟨lock, hbefore, hholder, hkey, hmode⟩]
  refine hcovered.imp id ?_
  rintro ⟨row, hrow, hwrites⟩
  exact ⟨row, hrow, persists.apart.writes hwrites⟩

omit [DecidableEq ι] in
/-- A lock of another row, or one that is covered itself. -/
theorem Covered.cons {t t' : Store ι} {keys : Key → Prop} {key : Key} {mode : LockMode} (h : Covered i t)
    (touched : Tables.Touched i keys t t') (locks : t'.locks = ⟨i, key, mode⟩ :: t.locks)
    (covered : ∀ hash, key = .token hash → mode.writes = true ∧
      (t.committed (.token hash) = none ∨
        ∃ row, t.committed (.token hash) = some row ∧ t.Writes i (.user row.userId))) : Covered i t' := by
  have hcover : ∀ hash, (t.committed (.token hash) = none ∨
      ∃ row, t.committed (.token hash) = some row ∧ t.Writes i (.user row.userId)) →
      t'.committed (.token hash) = none ∨
        ∃ row, t'.committed (.token hash) = some row ∧ t'.Writes i (.user row.userId) := by
    intro hash
    rw [touched.committed]
    refine Or.imp id ?_
    rintro ⟨row, hrow, hwrites⟩
    exact ⟨row, hrow, touched.writes hwrites⟩
  intro lock hlock hholder hash hkey
  rw [locks] at hlock
  rcases List.mem_cons.mp hlock with rfl | hlock
  · obtain ⟨hmode, hcovered⟩ := covered hash hkey
    exact ⟨hmode, hcover hash hcovered⟩
  · obtain ⟨hmode, hcovered⟩ := h lock hlock hholder hash hkey
    exact ⟨hmode, hcover hash hcovered⟩

theorem Covered.lockRow {t t' : Store ι} {key : Key} {mode : LockMode} (h : Covered i t)
    (lock : lockRow i key mode t = some t') (other : ∀ hash, key ≠ .token hash) : Covered i t' := by
  obtain ⟨htouched, hlocks⟩ := lockRow_eq lock
  exact h.cons htouched hlocks fun hash hkey ↦ (other hash hkey).elim

theorem Covered.updateUser {t t' : Store ι} {userId : UserId} {change : UserRow → UserRow}
    {user : Option UserRow} (h : Covered i t) (update : updateUser i userId change t = some (user, t')) :
    Covered i t' := by
  rcases updateUser_eq update with ⟨-, rfl⟩ | ⟨row, -, -, hput⟩
  · exact h
  · exact h.cons hput.touched hput.locks (by rintro _ ⟨⟩)

/-- Only a token of the locked user is used. -/
theorem Covered.useToken {t t' : Store ι} {hash : TokenHash} {condition : TokenRow → Bool} {at' : ℕ}
    {used : Option TokenRow} (h : Covered i t)
    (committed : ∃ row, t.committed (.token hash) = some row ∧ t.Writes i (.user row.userId))
    (use : useToken i hash condition at' t = some (used, t')) : Covered i t' := by
  rcases useToken_eq use with ⟨-, rfl, -⟩ | ⟨row, -, -, -, hput⟩
  · exact h
  · refine h.cons hput.touched hput.locks fun other heq ↦ ⟨rfl, .inr ?_⟩
    cases heq
    exact committed

/-- A statement of a phase locks tokens only under the row of their user. -/
theorem covered_of_may (h : Covered i s.tables) (holds : φ.Holds i (s.now i) s.tables hashtext)
    (may : φ.May op) {result : Ans op} (effect : answer i reply op s = some (result, s')) :
    Covered i s'.tables := by
  cases op with
  | startTransaction => cases effect; exact h
  | commitTransaction => exact (may.statement.2.1 rfl).elim
  | rollbackTransaction => exact (may.statement.2.2 rfl).elim
  | existsRecent userId type minIntervalMs => cases effect; exact h
  | findOwner hash type => cases effect; exact h
  | setDisabledAt userId disabledAt => exact (may.statement.1 trivial).elim
  | revokeSessions userId => exact (may.statement.1 trivial).elim
  | advisoryLock number =>
    obtain ⟨t, ht, heq⟩ := Option.map_eq_some_iff.mp effect
    cases heq
    exact h.lockRow ht (by rintro _ ⟨⟩)
  | insertToken data =>
    obtain ⟨⟨inserted, t⟩, ht, heq⟩ := Option.map_eq_some_iff.mp effect
    cases heq
    rcases insertToken_eq ht with ⟨-, rfl⟩ | ⟨-, habsent, hput⟩
    · exact h
    · refine h.cons hput.touched hput.locks fun hash hkey ↦ ⟨rfl, .inl ?_⟩
      cases hkey
      cases φ with
      | clear other =>
        rw [← holds.2.1.view]
        exact habsent
      | _ => cases may
  | referenceUser userId =>
    obtain ⟨⟨found, t⟩, ht, heq⟩ := Option.map_eq_some_iff.mp effect
    cases heq
    rcases referenceUser_eq ht with ⟨-, rfl⟩ | ⟨-, hlock⟩
    · exact h
    · exact h.lockRow hlock (by rintro _ ⟨⟩)
  | lockUser userId =>
    obtain ⟨⟨user, t⟩, ht, heq⟩ := Option.map_eq_some_iff.mp effect
    cases heq
    rcases lockUser_eq ht with ⟨-, rfl⟩ | ⟨row, -, -, hlock⟩
    · exact h
    · exact h.lockRow hlock (by rintro _ ⟨⟩)
  | consume hash type =>
    obtain ⟨⟨used, t⟩, ht, heq⟩ := Option.map_eq_some_iff.mp effect
    cases heq
    cases φ with
    | enabled other otherType userId =>
      obtain ⟨rfl, rfl⟩ := may
      obtain ⟨-, ⟨row, hrow, -, huser⟩, hguarded⟩ := holds
      refine h.useToken ⟨row, hrow, ?_⟩ ht
      rw [huser]
      exact hguarded.writes
    | _ => cases may
  | verifyEmail userId at' =>
    obtain ⟨⟨user, t⟩, ht, heq⟩ := Option.map_eq_some_iff.mp effect
    cases heq
    exact h.updateUser ht
  | changePassword userId passwordHash =>
    obtain ⟨⟨user, t⟩, ht, heq⟩ := Option.map_eq_some_iff.mp effect
    cases heq
    exact h.updateUser ht
  | resetPassword userId passwordHash at' =>
    obtain ⟨⟨user, t⟩, ht, heq⟩ := Option.map_eq_some_iff.mp effect
    cases heq
    exact h.updateUser ht
  | findOpen userId =>
    obtain ⟨hashes, -, heq⟩ := Option.map_eq_some_iff.mp effect
    cases heq
    exact h
  | spend userId hash at' =>
    obtain ⟨⟨used, t⟩, ht, heq⟩ := Option.map_eq_some_iff.mp effect
    cases heq
    cases φ with
    | working work =>
      obtain ⟨rfl, hremaining⟩ := may
      have hworking : Working i (s.now i) s.tables work := holds
      obtain ⟨row, hrow, huser⟩ := hworking.remaining hash hremaining
      refine h.useToken ⟨row, hrow, ?_⟩ ht
      rw [huser]
      exact hworking.writes
    | _ => cases may

theorem covered_of_answers (h : Covered i s.tables) (holds : φ.Holds i (s.now i) s.tables hashtext)
    (answers : (world ι).Answers AuthError i op s o s') (next : Moves hashtext allowed φ op o φ') :
    Covered i s'.tables := by
  rcases answers.unchanged_or_effect with rfl | ⟨result, reply, heffect⟩
  · exact h
  · rcases next.may with hmay | ⟨rfl, -⟩ | rfl | ⟨hsingle, rfl, -⟩
    · exact covered_of_may h holds hmay heffect
    · cases heffect
      exact covered_of_idle (idle_commit _ i)
    · cases heffect
      exact covered_of_idle (idle_rollback _ i)
    · exact covered_of_idle (idle_of_single holds answers hsingle)

/-! ## All callers -/

/-- The phases of all callers hold, and their locks of tokens are covered. -/
structure Good (hashtext : String → ℤ) (s : Database ι) (φ : ι → Phase) : Prop where
  holds : ∀ i, (φ i).Holds i (s.now i) s.tables hashtext
  covered : ∀ i, Covered i s.tables

theorem good_step {φ : ι → Phase} (h : Good hashtext s φ)
    (answers : (world ι).Answers AuthError i op s o s') (next : Moves hashtext allowed (φ i) op o φ') :
    Good hashtext s' (Function.update φ i φ') := by
  constructor
  · intro j
    by_cases hj : j = i
    · subst hj
      rw [Function.update_self]
      exact holds_of_answers (h.holds j) answers next
    · rw [Function.update_of_ne hj]
      exact (h.holds j).persists (persists_of_answers (h.holds i) answers next hj)
  · intro j
    by_cases hj : j = i
    · subst hj
      exact covered_of_answers (h.covered j) (h.holds j) answers next
    · exact (h.covered j).persists (persists_of_answers (h.holds i) answers next hj)

end MemoFlowApi.Auth.Tokens
