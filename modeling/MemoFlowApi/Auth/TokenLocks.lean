import MemoFlowApi.Auth.TokenPhases

/-!
# What Token Transactions Hold

An insert holds the advisory lock of its account and type, so no other token of theirs is committed
until it ends.  Whoever locks a stored token holds the row of its user, so nobody waits for one.
-/

namespace MemoFlowApi.Auth.Tokens

open Concurrency Sql

variable {ι : Type} [DecidableEq ι] {i j : ι} {hashtext : String → ℤ}

/-! ## Statements -/

section Statements

variable {t t' : Store ι} {key : Key} {mode : LockMode}

theorem lockRow_eq (h : lockRow i key mode t = some t') :
    Tables.Touched i (fun _ ↦ False) t t' ∧ t'.locks = ⟨i, key, mode⟩ :: t.locks := by
  unfold lockRow at h
  split at h
  · cases h
    exact ⟨.lock, rfl⟩
  · cases h

theorem put_locks {row : Option (Row key)} {hmode} (h : t.put i key mode hmode row = some t') :
    t'.locks = ⟨i, key, mode⟩ :: t.locks := by
  unfold Tables.put at h
  split at h
  · cases h
    rfl
  · cases h

/-- A row that is locked and written. -/
structure Put (i : ι) (key : Key) (mode : LockMode) (row : Row key) (t t' : Store ι) : Prop where
  touched : Tables.Touched i (· = key) t t'
  view : t'.view i key = some row
  writes : t'.Writes i key
  locks : t'.locks = ⟨i, key, mode⟩ :: t.locks

theorem Put.of_put {row : Row key} {hmode} (h : t.put i key mode hmode (some row) = some t') :
    Put i key mode row t t' := by
  obtain ⟨htouched, hview, hwrites⟩ := Tables.Touched.put h
  exact ⟨htouched, hview, hwrites, put_locks h⟩

theorem updateUser_eq {userId : UserId} {change : UserRow → UserRow} {result : Option UserRow}
    (h : updateUser i userId change t = some (result, t')) :
    result = none ∧ t' = t ∨ ∃ row, t.view i (.user userId) = some row ∧ result = some (change row) ∧
      Put i (.user userId) .noKeyUpdate (change row) t t' := by
  unfold updateUser at h
  split at h
  · cases h
    exact .inl ⟨rfl, rfl⟩
  · next row hrow =>
    obtain ⟨after, hput, heq⟩ := Option.map_eq_some_iff.mp h
    cases heq
    exact .inr ⟨row, hrow, rfl, .of_put hput⟩

theorem useToken_eq {hash : TokenHash} {condition : TokenRow → Bool} {at' : ℕ} {result : Option TokenRow}
    (h : useToken i hash condition at' t = some (result, t')) :
    result = none ∧ t' = t ∧ (∀ row, t.view i (.token hash) = some row → condition row = false) ∨
      ∃ row, t.view i (.token hash) = some row ∧ condition row = true ∧ result = some row ∧
        Put i (.token hash) .noKeyUpdate { row with usedAt := some at' } t t' := by
  unfold useToken at h
  split at h
  · next hnone =>
    cases h
    refine .inl ⟨rfl, rfl, fun row hrow ↦ ?_⟩
    rw [hnone] at hrow
    cases hrow
  · next row hrow =>
    by_cases hcondition : condition row = true
    · rw [if_pos hcondition] at h
      obtain ⟨after, hput, heq⟩ := Option.map_eq_some_iff.mp h
      cases heq
      exact .inr ⟨row, hrow, hcondition, rfl, .of_put hput⟩
    · rw [if_neg hcondition] at h
      cases h
      refine .inl ⟨rfl, rfl, fun other hother ↦ ?_⟩
      cases hrow.symm.trans hother
      exact Bool.eq_false_iff.mpr hcondition

theorem insertToken_eq {data : IssueAuthTokenData} {now : ℕ} {result : Bool}
    (h : insertToken i data now t = some (result, t')) :
    result = false ∧ t' = t ∨ result = true ∧ t.view i (.token data.tokenHash) = none ∧
      Put i (.token data.tokenHash) .update (data.row now) t t' := by
  unfold insertToken at h
  split at h
  · cases h
  · split at h
    · cases h
      exact .inl ⟨rfl, rfl⟩
    · next hnone =>
      obtain ⟨after, hput, heq⟩ := Option.map_eq_some_iff.mp h
      cases heq
      exact .inr ⟨rfl, Option.not_isSome_iff_eq_none.mp hnone, .of_put hput⟩

theorem referenceUser_eq {userId : UserId} {result : Bool}
    (h : referenceUser i userId t = some (result, t')) :
    result = false ∧ t' = t ∨ result = true ∧ lockRow i (.user userId) .keyShare t = some t' := by
  unfold referenceUser at h
  split at h
  · cases h
    exact .inl ⟨rfl, rfl⟩
  · obtain ⟨after, hlock, heq⟩ := Option.map_eq_some_iff.mp h
    cases heq
    exact .inr ⟨rfl, hlock⟩

theorem lockUser_eq {userId : UserId} {result : Option (Option ℕ)}
    (h : lockUser i userId t = some (result, t')) :
    result = none ∧ t' = t ∨ ∃ row, t.view i (.user userId) = some row ∧
      result = some row.disabledAt ∧ lockRow i (.user userId) .update t = some t' := by
  unfold lockUser at h
  split at h
  · cases h
    exact .inl ⟨rfl, rfl⟩
  · next row hrow =>
    obtain ⟨after, hlock, heq⟩ := Option.map_eq_some_iff.mp h
    cases heq
    exact .inr ⟨row, hrow, rfl, hlock⟩

omit [DecidableEq ι] in
/-- The open tokens of a user. -/
theorem mem_openTokens {userId : UserId} {hash : TokenHash} :
    hash ∈ openTokens i userId t ↔ ∃ row, t.view i (.token hash) = some row ∧ row.isOpen userId = true := by
  unfold openTokens
  rw [List.mem_filterMap]
  constructor
  · rintro ⟨key, hkey, hhash⟩
    cases key with
    | token other =>
      cases hhash
      exact Tables.mem_scan.mp hkey
    | _ => cases hhash
  · intro h
    exact ⟨.token hash, Tables.mem_scan.mpr h, rfl⟩

omit [DecidableEq ι] in
theorem mem_findOpen {userId : UserId} {order hashes : List TokenHash}
    (h : findOpen i userId order t = some hashes) {hash : TokenHash} :
    hash ∈ hashes ↔ ∃ row, t.view i (.token hash) = some row ∧ row.isOpen userId = true := by
  unfold findOpen at h
  split at h
  · next hperm =>
    cases h
    rw [(List.isPerm_iff.mp hperm).mem_iff, mem_openTokens]
  · cases h

end Statements

/-! ## What a transaction relies on -/

/-- What may become of a stored token. -/
structure TokenRow.Ages (row row' : TokenRow) : Prop where
  userId : row'.userId = row.userId
  type : row'.type = row.type
  expiresAt : row'.expiresAt = row.expiresAt
  createdAt : row'.createdAt = row.createdAt
  usedAt : row.usedAt ≠ none → row'.usedAt ≠ none

namespace TokenRow.Ages

variable {row row' : TokenRow}

theorem refl (row : TokenRow) : row.Ages row := ⟨rfl, rfl, rfl, rfl, id⟩

theorem trans {row'' : TokenRow} (h : row.Ages row') (h' : row'.Ages row'') : row.Ages row'' :=
  ⟨h'.userId.trans h.userId, h'.type.trans h.type, h'.expiresAt.trans h.expiresAt,
    h'.createdAt.trans h.createdAt, fun hused ↦ h'.usedAt (h.usedAt hused)⟩

theorem use (row : TokenRow) (at' : ℕ) : row.Ages { row with usedAt := some at' } :=
  ⟨rfl, rfl, rfl, rfl, fun _ ↦ Option.some_ne_none _⟩

theorem isRecent (h : row.Ages row') (userId : UserId) (type : AuthTokenType) (minIntervalMs now : ℕ) :
    row'.isRecent userId type minIntervalMs now = row.isRecent userId type minIntervalMs now := by
  unfold TokenRow.isRecent
  rw [h.userId, h.type, h.createdAt]

end TokenRow.Ages

/-- The advisory lock of an insert is held. -/
def Serialized (hashtext : String → ℤ) (i : ι) (data : IssueAuthTokenData) (t : Store ι) : Prop :=
  t.Writes i (.advisory (data.lockNumber hashtext))

/-- What a transaction relies on while another goes on. -/
structure Persists (hashtext : String → ℤ) (i : ι) (s s' : Database ι) : Prop where
  apart : Tables.Apart i s.tables s'.tables
  now : s'.now i = s.now i
  ages : ∀ hash row, s.tables.committed (.token hash) = some row →
    ∃ row', s'.tables.committed (.token hash) = some row' ∧ row.Ages row'
  fresh : ∀ hash row, s.tables.committed (.token hash) = none →
    s'.tables.committed (.token hash) = some row → ∀ data, Serialized hashtext i data s.tables →
      ¬(row.userId = data.userId ∧ row.type = data.type)

/-! ## Phases -/

section Phases

variable (i : ι) (now : ℕ) (t : Store ι)

/-- The transaction has written nothing. -/
def Reads : Prop := ∀ key, t.pending i key = none

/-- The transaction holds locks of a kind only. -/
def OnlyLocks (p : Key → Prop) : Prop := ∀ lock ∈ t.locks, lock.holder = i → p lock.key

def IsAdvisory : Key → Prop
  | .advisory _ => True
  | _ => False

def IsUser : Key → Prop
  | .user _ => True
  | _ => False

/-- No token of an account and a type is recent. -/
def Spaced (data : IssueAuthTokenData) : Prop :=
  ∀ hash row, t.committed (.token hash) = some row →
    row.isRecent data.userId data.type data.minIntervalMs now = false

/-- A token of an account and a type is recent. -/
def Recent (data : IssueAuthTokenData) : Prop :=
  ∃ hash row, t.committed (.token hash) = some row ∧
    row.isRecent data.userId data.type data.minIntervalMs now = true

/-- A token is written that was not there. -/
structure Inserting (data : IssueAuthTokenData) : Prop where
  writes : t.Writes i (.token data.tokenHash)
  absent : t.committed (.token data.tokenHash) = none
  view : t.view i (.token data.tokenHash) = some (data.row now)
  others : ∀ key, key ≠ .token data.tokenHash → t.pending i key = none

/-- A token of a type is stored for a user. -/
def Owned (hash : TokenHash) (type : AuthTokenType) (userId : UserId) : Prop :=
  ∃ row, t.committed (.token hash) = some row ∧ row.type = type ∧ row.userId = userId

/-- The row of a user who is not disabled is locked. -/
structure Guarded (userId : UserId) : Prop where
  locked : ⟨i, .user userId, .update⟩ ∈ t.locks
  enabled : ∃ user, t.committed (.user userId) = some user ∧ user.disabledAt = none

/-- A token is stored and used. -/
def Used (hash : TokenHash) : Prop :=
  ∃ row, t.committed (.token hash) = some row ∧ row.usedAt ≠ none

/-- A usable token of the user is used by the transaction. -/
structure Consuming (userId : UserId) (hash : TokenHash) (type : AuthTokenType) : Prop where
  guarded : Guarded i t userId
  writes : t.Writes i (.token hash)
  usable : ∃ row, t.committed (.token hash) = some row ∧ row.userId = userId ∧
    row.isUsable type now = true
  used : ∃ row, t.view i (.token hash) = some row ∧ row.usedAt ≠ none

/-- What a transaction that holds the row of a user has done to tokens. -/
structure Working (work : Work) : Prop where
  writes : t.Writes i (.user work.userId)
  advisory : ∀ number, t.pending i (.advisory number) = none
  users : ∀ other, other ≠ work.userId → t.pending i (.user other) = none
  tokens : ∀ hash, t.pending i (.token hash) ≠ none → ∃ row at',
    t.committed (.token hash) = some row ∧ row.userId = work.userId ∧
      t.view i (.token hash) = some { row with usedAt := some at' }
  consumed : ∀ hash type, work.consumed = some (hash, type) → Consuming i now t work.userId hash type
  remaining : ∀ hash ∈ work.remaining, ∃ row,
    t.committed (.token hash) = some row ∧ row.userId = work.userId
  found : ∀ found, work.found = some found → ∀ hash ∈ found, hash ∈ work.remaining ∨
    ∃ row, t.view i (.token hash) = some row ∧ row.usedAt ≠ none
  /-- Before its update of all tokens, it has written none but the one that it has consumed. -/
  first : work.found = none → work.remaining = [] ∧
    ∀ hash, t.pending i (.token hash) ≠ none → ∃ type, work.consumed = some (hash, type)

/-- What a request that has come so far has done. -/
def Phase.Holds (hashtext : String → ℤ) : Phase → Prop
  | idle => t.Idle i
  | opened => t.Idle i
  | serialized data => Serialized hashtext i data t ∧ Reads i t ∧ OnlyLocks i t IsAdvisory
  | recent data => Reads i t ∧ Recent now t data
  | clear data =>
      Serialized hashtext i data t ∧ Reads i t ∧ OnlyLocks i t IsAdvisory ∧ Spaced now t data
  | inserted data => Serialized hashtext i data t ∧ Inserting i now t data ∧
      OnlyLocks i t (¬IsUser ·) ∧ Spaced now t data
  | referenced data => Serialized hashtext i data t ∧ Inserting i now t data ∧ Spaced now t data
  | owned hash type userId => t.Idle i ∧ Owned t hash type userId
  | enabled hash type userId => Reads i t ∧ Owned t hash type userId ∧ Guarded i t userId
  | working work => Working i now t work
  | nothing => Reads i t
  | failed => True
  | stored data => t.Idle i ∧ ∃ row, t.committed (.token data.tokenHash) = some row ∧
      (data.row now).Ages row
  | refused data => t.Idle i ∧ Recent now t data
  | unchanged => t.Idle i
  | done work => t.Idle i ∧ (∀ hash type, work.consumed = some (hash, type) → Used t hash) ∧
      ∀ found, work.found = some found → ∀ hash ∈ found, Used t hash
  | finished => t.Idle i

end Phases

/-! ## Others -/

section Others

variable {s s' : Database ι} {data : IssueAuthTokenData}

omit [DecidableEq ι] in
theorem Serialized.persists (h : Serialized hashtext i data s.tables)
    (persists : Persists hashtext i s s') : Serialized hashtext i data s'.tables :=
  persists.apart.writes h

omit [DecidableEq ι] in
theorem Reads.persists (h : Reads i s.tables) (persists : Persists hashtext i s s') :
    Reads i s'.tables := by
  intro key
  rw [persists.apart.pending]
  exact h key

omit [DecidableEq ι] in
theorem OnlyLocks.persists {p : Key → Prop} (h : OnlyLocks i s.tables p)
    (persists : Persists hashtext i s s') : OnlyLocks i s'.tables p :=
  fun lock hlock hholder ↦ h lock ((persists.apart.locks lock hholder).mp hlock) hholder

omit [DecidableEq ι] in
theorem Spaced.persists (h : Spaced (s.now i) s.tables data) (serialized : Serialized hashtext i data s.tables)
    (persists : Persists hashtext i s s') : Spaced (s'.now i) s'.tables data := by
  intro hash row' hrow'
  rw [persists.now]
  cases hrow : s.tables.committed (.token hash) with
  | none =>
    have hfresh := persists.fresh hash row' hrow hrow' data serialized
    unfold TokenRow.isRecent
    rw [decide_eq_false_iff_not]
    exact fun hrecent ↦ hfresh ⟨hrecent.1, hrecent.2.1⟩
  | some row =>
    obtain ⟨row'', hrow'', hages⟩ := persists.ages hash row hrow
    cases hrow'.symm.trans hrow''
    rw [hages.isRecent]
    exact h hash row hrow

omit [DecidableEq ι] in
theorem Recent.persists (h : Recent (s.now i) s.tables data) (persists : Persists hashtext i s s') :
    Recent (s'.now i) s'.tables data := by
  obtain ⟨hash, row, hrow, hrecent⟩ := h
  obtain ⟨row', hrow', hages⟩ := persists.ages hash row hrow
  refine ⟨hash, row', hrow', ?_⟩
  rw [persists.now, hages.isRecent]
  exact hrecent

omit [DecidableEq ι] in
theorem Inserting.persists (h : Inserting i (s.now i) s.tables data)
    (persists : Persists hashtext i s s') : Inserting i (s'.now i) s'.tables data where
  writes := persists.apart.writes h.writes
  absent := by
    rw [persists.apart.committed _ h.writes]
    exact h.absent
  view := by
    rw [persists.apart.view h.writes, persists.now]
    exact h.view
  others key hkey := by
    rw [persists.apart.pending]
    exact h.others key hkey

omit [DecidableEq ι] in
theorem Owned.persists {hash : TokenHash} {type : AuthTokenType} {userId : UserId}
    (h : Owned s.tables hash type userId) (persists : Persists hashtext i s s') :
    Owned s'.tables hash type userId := by
  obtain ⟨row, hrow, htype, huser⟩ := h
  obtain ⟨row', hrow', hages⟩ := persists.ages hash row hrow
  exact ⟨row', hrow', hages.type.trans htype, hages.userId.trans huser⟩

omit [DecidableEq ι] in
theorem Guarded.writes {t : Store ι} {userId : UserId} (h : Guarded i t userId) :
    t.Writes i (.user userId) := ⟨_, h.locked, rfl, rfl, rfl⟩

omit [DecidableEq ι] in
theorem Guarded.persists {userId : UserId} (h : Guarded i s.tables userId)
    (persists : Persists hashtext i s s') : Guarded i s'.tables userId where
  locked := (persists.apart.locks _ rfl).mpr h.locked
  enabled := by
    rw [persists.apart.committed _ h.writes]
    exact h.enabled

omit [DecidableEq ι] in
theorem Used.persists {hash : TokenHash} (h : Used s.tables hash) (persists : Persists hashtext i s s') :
    Used s'.tables hash := by
  obtain ⟨row, hrow, hused⟩ := h
  obtain ⟨row', hrow', hages⟩ := persists.ages hash row hrow
  exact ⟨row', hrow', hages.usedAt hused⟩

omit [DecidableEq ι] in
theorem Consuming.persists {userId : UserId} {hash : TokenHash} {type : AuthTokenType}
    (h : Consuming i (s.now i) s.tables userId hash type) (persists : Persists hashtext i s s') :
    Consuming i (s'.now i) s'.tables userId hash type where
  guarded := h.guarded.persists persists
  writes := persists.apart.writes h.writes
  usable := by
    rw [persists.apart.committed _ h.writes, persists.now]
    exact h.usable
  used := by
    rw [persists.apart.view h.writes]
    exact h.used

omit [DecidableEq ι] in
/-- A used token that a transaction sees stays one. -/
theorem seesUsed_persists {hash : TokenHash}
    (h : ∃ row, s.tables.view i (.token hash) = some row ∧ row.usedAt ≠ none)
    (persists : Persists hashtext i s s') :
    ∃ row, s'.tables.view i (.token hash) = some row ∧ row.usedAt ≠ none := by
  obtain ⟨row, hrow, hused⟩ := h
  by_cases hpending : s.tables.pending i (.token hash) = none
  · have hpending' : s'.tables.pending i (.token hash) = none := by
      rw [persists.apart.pending]
      exact hpending
    rw [Tables.view_of_pending_none hpending] at hrow
    obtain ⟨row', hrow', hages⟩ := persists.ages hash row hrow
    refine ⟨row', ?_, hages.usedAt hused⟩
    rw [Tables.view_of_pending_none hpending']
    exact hrow'
  · refine ⟨row, ?_, hused⟩
    rw [persists.apart.view (s.tables.written i _ hpending)]
    exact hrow

omit [DecidableEq ι] in
theorem Working.persists {work : Work} (h : Working i (s.now i) s.tables work)
    (persists : Persists hashtext i s s') : Working i (s'.now i) s'.tables work where
  writes := persists.apart.writes h.writes
  advisory number := by
    rw [persists.apart.pending]
    exact h.advisory number
  users other hother := by
    rw [persists.apart.pending]
    exact h.users other hother
  tokens hash hpending := by
    rw [persists.apart.pending] at hpending
    have hwrites := s.tables.written i _ hpending
    rw [persists.apart.committed _ hwrites, persists.apart.view hwrites]
    exact h.tokens hash hpending
  consumed hash type hconsumed := (h.consumed hash type hconsumed).persists persists
  remaining hash hhash := by
    obtain ⟨row, hrow, huser⟩ := h.remaining hash hhash
    obtain ⟨row', hrow', hages⟩ := persists.ages hash row hrow
    exact ⟨row', hrow', hages.userId.trans huser⟩
  found found hfound hash hhash :=
    (h.found found hfound hash hhash).imp id fun hused ↦ seesUsed_persists hused persists
  first hfirst := by
    rw [persists.apart.pending]
    exact h.first hfirst

omit [DecidableEq ι] in
/-- What a request has done is not undone by others. -/
theorem Phase.Holds.persists {φ : Phase} (h : φ.Holds i (s.now i) s.tables hashtext)
    (persists : Persists hashtext i s s') : φ.Holds i (s'.now i) s'.tables hashtext := by
  cases φ with
  | idle => exact persists.apart.idle h
  | opened => exact persists.apart.idle h
  | serialized data => exact ⟨h.1.persists persists, h.2.1.persists persists, h.2.2.persists persists⟩
  | recent data => exact ⟨h.1.persists persists, h.2.persists persists⟩
  | clear data =>
    obtain ⟨hserialized, hreads, honly, hspaced⟩ := h
    exact ⟨hserialized.persists persists, hreads.persists persists, honly.persists persists,
      hspaced.persists hserialized persists⟩
  | inserted data =>
    obtain ⟨hserialized, hinserting, honly, hspaced⟩ := h
    exact ⟨hserialized.persists persists, hinserting.persists persists, honly.persists persists,
      hspaced.persists hserialized persists⟩
  | referenced data =>
    obtain ⟨hserialized, hinserting, hspaced⟩ := h
    exact ⟨hserialized.persists persists, hinserting.persists persists,
      hspaced.persists hserialized persists⟩
  | owned hash type userId => exact ⟨persists.apart.idle h.1, h.2.persists persists⟩
  | enabled hash type userId =>
    exact ⟨h.1.persists persists, h.2.1.persists persists, h.2.2.persists persists⟩
  | working work => exact Working.persists h persists
  | nothing => exact Reads.persists h persists
  | failed => trivial
  | stored data =>
    obtain ⟨hidle, row, hrow, hages⟩ := h
    obtain ⟨row', hrow', hages'⟩ := persists.ages _ row hrow
    refine ⟨persists.apart.idle hidle, row', hrow', ?_⟩
    rw [persists.now]
    exact hages.trans hages'
  | refused data => exact ⟨persists.apart.idle h.1, h.2.persists persists⟩
  | unchanged => exact persists.apart.idle h
  | done work =>
    obtain ⟨hidle, hconsumed, hfound⟩ := h
    exact ⟨persists.apart.idle hidle, fun hash type heq ↦ (hconsumed hash type heq).persists persists,
      fun found heq hash hhash ↦ (hfound found heq hash hhash).persists persists⟩
  | finished => exact persists.apart.idle h

end Others

end MemoFlowApi.Auth.Tokens
