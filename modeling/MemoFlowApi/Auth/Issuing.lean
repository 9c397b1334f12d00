import MemoFlowApi.Auth.TokenRuns
import MemoFlowApi.Concurrency.Steps

/-!
# Intervals Between Tokens

`now()` is the start of a transaction, which may precede the start of another that held the advisory
lock before it.  The condition of an insert is evaluated under the lock, against all stored tokens of
the account and type, so the tokens are an interval apart in whatever order the transactions started.
-/

namespace MemoFlowApi.Auth.Tokens

open Concurrency Sql

variable {ι : Type} [DecidableEq ι] {i j : ι} {hashtext : String → ℤ} {interval : AuthTokenType → ℕ}
  {s s' start : Database ι} {φ : ι → Phase} {φ' : Phase} {op : Op} {o : Outcome AuthError (Ans op)}

abbrev AuthEvent (ι : Type) := Event ι (Database ι) Ans AuthError

abbrev AuthConfig (ι : Type) := Config ι (Database ι) Ans AuthError Response

/-- The tokens of an account and a type are an interval apart. -/
def SpacedOut (interval : AuthTokenType → ℕ) (t : Store ι) : Prop :=
  ∀ hash hash' row row', hash ≠ hash' → t.committed (.token hash) = some row →
    t.committed (.token hash') = some row' → row.userId = row'.userId → row.type = row'.type →
      row.createdAt + interval row.type * 1000 ≤ row'.createdAt ∨
        row'.createdAt + interval row.type * 1000 ≤ row.createdAt

/-- The step stores a token that was not there. -/
def Stores (step : AuthEvent ι × Database ι) : Prop :=
  ∃ hash, step.1.before.tables.committed (.token hash) = none ∧
    step.2.tables.committed (.token hash) ≠ none

/-- The insert has the interval of its type. -/
def Paced (interval : AuthTokenType → ℕ) (data : IssueAuthTokenData) : Prop :=
  data.minIntervalMs = interval data.type

omit [DecidableEq ι] in
/-- A new token is an interval after each token of its account and type. -/
theorem Spaced.le {now : ℕ} {t : Store ι} {data : IssueAuthTokenData} (h : Spaced now t data)
    {hash : TokenHash} {row : TokenRow} (hrow : t.committed (.token hash) = some row)
    (user : row.userId = data.userId) (type : row.type = data.type) :
    row.createdAt + data.minIntervalMs * 1000 ≤ now := by
  have hspaced := h hash row hrow
  unfold TokenRow.isRecent at hspaced
  rw [decide_eq_false_iff_not] at hspaced
  by_contra hlt
  exact hspaced ⟨user, type, Nat.lt_of_not_le hlt⟩

/-- A stored token was there before, or is the new one. -/
theorem stored_cases (good : Good hashtext s φ) (answers : (world ι).Answers AuthError i op s o s')
    (next : Moves hashtext (Paced interval) (φ i) op o φ') {hash : TokenHash} {row' : TokenRow}
    (hrow' : s'.tables.committed (.token hash) = some row') :
    (∃ row, s.tables.committed (.token hash) = some row ∧ row.Ages row') ∨
      ∃ data, φ i = .referenced data ∧ hash = data.tokenHash ∧ row' = data.row (s.now i) := by
  cases hrow : s.tables.committed (.token hash) with
  | some row =>
    obtain ⟨row'', hrow'', hages⟩ := ages_of_answers (good.holds i) answers next hrow
    cases hrow'.symm.trans hrow''
    exact .inl ⟨row, rfl, hages⟩
  | none =>
    obtain ⟨data, hφ, -, hhash, hnew⟩ := fresh_of_answers (good.holds i) answers next hrow hrow'
    exact .inr ⟨data, hφ, hhash, hnew⟩

/-- The tokens stay an interval apart. -/
theorem spacedOut_step (h : SpacedOut interval s.tables) (good : Good hashtext s φ)
    (paced : ∀ data, (φ i).data? = some data → Paced interval data)
    (answers : (world ι).Answers AuthError i op s o s')
    (next : Moves hashtext (Paced interval) (φ i) op o φ') : SpacedOut interval s'.tables := by
  have hnew : ∀ {data : IssueAuthTokenData} {hash : TokenHash} {row : TokenRow},
      φ i = .referenced data → s.tables.committed (.token hash) = some row → row.userId = data.userId →
        row.type = data.type → row.createdAt + interval data.type * 1000 ≤ s.now i := by
    intro data hash row hφ hrow huser htype
    have hholds := good.holds i
    have hpaced := paced data (by rw [hφ]; rfl)
    rw [hφ] at hholds
    rw [← hpaced]
    exact hholds.2.2.le hrow huser htype
  intro hash hash' row row' hne hrow hrow' huser htype
  rcases stored_cases good answers next hrow with ⟨before, hbefore, hages⟩ | ⟨data, hφ, rfl, rfl⟩
  · rcases stored_cases good answers next hrow' with ⟨before', hbefore', hages'⟩ | ⟨data, hφ, rfl, rfl⟩
    · rw [hages.createdAt, hages'.createdAt, hages.type]
      rw [hages.userId, hages'.userId] at huser
      rw [hages.type, hages'.type] at htype
      exact h hash hash' before before' hne hbefore hbefore' huser htype
    · refine .inl ?_
      rw [hages.createdAt, htype]
      exact hnew hφ hbefore (hages.userId.symm.trans huser) (hages.type.symm.trans htype)
  · rcases stored_cases good answers next hrow' with ⟨before', hbefore', hages'⟩ | ⟨data', hφ', rfl, rfl⟩
    · refine .inr ?_
      rw [hages'.createdAt]
      exact hnew hφ hbefore' (hages'.userId.symm.trans huser.symm) (hages'.type.symm.trans htype.symm)
    · rw [hφ] at hφ'
      cases hφ'
      exact (hne rfl).elim

/-- Inserts are paced, and what they have stored is in their phase. -/
structure Issued (interval : AuthTokenType → ℕ) (s : Database ι) (φ : ι → Phase)
    (trace : List (AuthEvent ι)) : Prop where
  spacedOut : SpacedOut interval s.tables
  paced : ∀ i data, (φ i).data? = some data → Paced interval data
  stores : ∀ step ∈ stepsOf s trace, Stores step → ∃ data, φ step.1.caller = .stored data
  stored : ∀ i data, φ i = .stored data → ∃ step ∈ stepsOf s trace, step.1.caller = i ∧ Stores step

/-- A token to issue is one that is allowed. -/
theorem Moves.data {allowed : IssueAuthTokenData → Prop} {φ : Phase}
    (next : Moves hashtext allowed φ op o φ') {data : IssueAuthTokenData} (h : φ'.data? = some data) :
    φ.data? = some data ∨ allowed data := by
  cases next with
  | serialize allows =>
    cases h
    exact .inr allows
  | recent => exact .inl h
  | clear => exact .inl h
  | insert => exact .inl h
  | reference => exact .inl h
  | rollbackCommitted committed => exact .inl h
  | commit commits took =>
    cases φ with
    | recent other =>
      cases commits
      exact .inl h
    | referenced other =>
      cases commits
      exact .inl h
    | working work =>
      obtain ⟨-, rfl⟩ := commit_working commits
      cases h
    | nothing =>
      cases commits
      cases h
    | _ => cases commits
  | _ => cases h

/-- An insert that has been committed makes no more statements. -/
theorem Moves.stored {allowed : IssueAuthTokenData → Prop} {φ : Phase}
    (next : Moves hashtext allowed φ op o φ') {data : IssueAuthTokenData} :
    φ = .stored data → φ' = .stored data := by
  rintro rfl
  cases next with
  | commit commits took => cases commits
  | commitLost commits => cases commits
  | fail may failed => cases op <;> cases may
  | rollbackCommitted committed => rfl

/-- A phase after the commit of an insert is entered by that commit. -/
theorem stores_of_stored (good : Good hashtext s φ) (answers : (world ι).Answers AuthError i op s o s')
    (next : Moves hashtext (Paced interval) (φ i) op o φ') {data : IssueAuthTokenData}
    (hφ : φ i ≠ .stored data) (hφ' : φ' = .stored data) :
    s.tables.committed (.token data.tokenHash) = none ∧ s'.tables.committed (.token data.tokenHash) ≠ none := by
  have hholds := good.holds i
  have hafter := holds_of_answers hholds answers next
  generalize hbefore : φ i = before at next hholds hφ
  subst hφ'
  cases next with
  | commit commits took =>
    cases before with
    | referenced other =>
      cases commits
      obtain ⟨-, row, hrow, -⟩ := hafter
      refine ⟨hholds.2.1.absent, ?_⟩
      rw [hrow]
      exact Option.some_ne_none row
    | working work =>
      obtain ⟨-, hdone⟩ := commit_working commits
      cases hdone
    | _ => cases commits
  | rollbackCommitted committed => exact (hφ rfl).elim

theorem issued_step {trace : List (AuthEvent ι)} (h : Issued interval s φ trace) (good : Good hashtext s φ)
    (answers : (world ι).Answers AuthError i op s o s')
    (next : Moves hashtext (Paced interval) (φ i) op o φ') :
    Issued interval s' (Function.update φ i φ') (⟨s, i, op, o⟩ :: trace) := by
  constructor
  · exact spacedOut_step h.spacedOut good (h.paced i) answers next
  · intro j data hdata
    by_cases hj : j = i
    · subst hj
      rw [Function.update_self] at hdata
      exact (next.data hdata).elim (h.paced j data) id
    · rw [Function.update_of_ne hj] at hdata
      exact h.paced j data hdata
  · intro step hstep hstores
    rw [stepsOf_cons] at hstep
    rcases List.mem_cons.mp hstep with rfl | hstep
    · obtain ⟨hash, hnone, hsome⟩ := hstores
      obtain ⟨row, hrow⟩ := Option.ne_none_iff_exists'.mp hsome
      obtain ⟨data, -, hφ', -⟩ := fresh_of_answers (good.holds i) answers next hnone hrow
      exact ⟨data, (Function.update_self _ _ _).trans hφ'⟩
    · obtain ⟨data, hdata⟩ := h.stores step hstep hstores
      refine ⟨data, ?_⟩
      by_cases hcaller : step.1.caller = i
      · rw [hcaller, Function.update_self]
        exact next.stored (hcaller ▸ hdata)
      · rw [Function.update_of_ne hcaller]
        exact hdata
  · intro j data hdata
    rw [stepsOf_cons]
    by_cases hold : φ j = .stored data
    · obtain ⟨step, hstep, hcaller, hstores⟩ := h.stored j data hold
      exact ⟨step, List.mem_cons_of_mem _ hstep, hcaller, hstores⟩
    · have hj : j = i := by
        by_contra hne
        rw [Function.update_of_ne hne] at hdata
        exact hold hdata
      subst hj
      rw [Function.update_self] at hdata
      exact ⟨_, List.mem_cons_self, rfl, data.tokenHash, stores_of_stored good answers next hold hdata⟩

/-- What a request to issue a token says and what it has done. -/
structure IssueOutcome (config : AuthConfig ι) (i : ι) (data : IssueAuthTokenData) (stored : Bool) : Prop where
  /-- It has stored a token if and only if it says so. -/
  stored_iff : stored = true ↔
    ∃ step ∈ stepsOf config.shared config.trace, step.1.caller = i ∧ Stores step
  row : stored = true → ∃ row, config.shared.tables.committed (.token data.tokenHash) = some row ∧
    (data.row (config.shared.now i)).Ages row
  /-- Only a token of the same account and type stands in its way. -/
  recent : stored = false → Recent (config.shared.now i) config.shared.tables data

/-- In every run, the tokens of an account and a type are an interval apart, and a request to issue a
token returns whether it has stored one, which it has unless one of the same account and type is
recent. -/
theorem issues_spaced (hashtext : String → ℤ) (interval : AuthTokenType → ℕ) (requests : ι → Request)
    {config : AuthConfig ι}
    (paced : ∀ i data, requests i = .issue data → data.minIntervalMs = interval data.type)
    (idle : ∀ i, start.tables.Idle i) (spacedOut : SpacedOut interval start.tables)
    (reachable : (world ι).Reachable (Config.initial start fun i ↦ (requests i).program hashtext) config) :
    SpacedOut interval config.shared.tables ∧
      ∀ i data stored, requests i = .issue data → config.threads i = .pure (.issued stored) →
        IssueOutcome config i data stored := by
  obtain ⟨φ, tracked, hthreads⟩ := World.exists_tracked
    (T := fun _ ↦ moves hashtext (Paced interval)) rfl
    (fun i ↦ program_follows fun data hdata ↦ paced i data hdata) reachable
  have hstart : Good hashtext start (fun _ : ι ↦ Phase.idle) ∧
      Issued interval start (fun _ : ι ↦ Phase.idle) [] := by
    refine ⟨⟨idle, fun i ↦ covered_of_idle (idle i)⟩, spacedOut, by rintro _ _ ⟨⟩, by rintro _ ⟨⟩,
      by rintro _ _ ⟨⟩⟩
  obtain ⟨hgood, hissued⟩ := tracked.invariant
    (fun s φ trace ↦ Good hashtext s φ ∧ Issued interval s φ trace) (fun _ ↦ True) hstart
    (fun h _ answers next ↦ ⟨good_step h.1 answers next, issued_step h.2 h.1 answers next⟩)
    fun _ _ ↦ trivial
  refine ⟨hissued.spacedOut, fun i data stored hrequest hthread ↦ ?_⟩
  have hends := hthreads i
  rw [hthread, hrequest] at hends
  have hφ : φ i = if stored then .stored data else .refused data := hends
  have hholds := hgood.holds i
  cases stored with
  | true =>
    rw [hφ] at hholds
    refine ⟨⟨fun _ ↦ hissued.stored i data hφ, fun _ ↦ rfl⟩, fun _ ↦ hholds.2, by rintro ⟨⟩⟩
  | false =>
    rw [hφ] at hholds
    refine ⟨⟨by rintro ⟨⟩, ?_⟩, by rintro ⟨⟩, fun _ ↦ hholds.2⟩
    rintro ⟨step, hstep, rfl, hstores⟩
    obtain ⟨other, hother⟩ := hissued.stores step hstep hstores
    cases hφ.symm.trans hother

/-! ## A transaction that starts first and inserts last -/

def member : UserId := ⟨"member", by decide⟩

def memberRow : UserRow := ⟨"hash", 0, none, none⟩

/-- One user, and no token. -/
def oneUser : Database ℕ where
  tables := .ofRows [.user member]
    (fun key ↦ match key with
      | .user id => if id = member then some memberRow else none
      | _ => none)
    (by
      intro key hkey
      cases key with
      | user id =>
        refine if_neg ?_
        rintro rfl
        exact hkey List.mem_cons_self
      | _ => rfl)
  clock := 0
  now _ := 0

theorem idle_oneUser (i : ℕ) : oneUser.tables.Idle i := by
  intro lock hlock
  cases hlock

/-- A reset every five minutes. -/
def fiveMinutes : AuthTokenType → ℕ := fun _ ↦ 300000

def resetToken : ℕ → IssueAuthTokenData
  | 0 => ⟨member, .passwordReset, "first", 3600000000, 300000⟩
  | 1 => ⟨member, .passwordReset, "second", 3600000000, 300000⟩
  | _ => ⟨member, .passwordReset, "third", 3900000000, 300000⟩

/-- A number of calls of a caller. -/
def callsOf (caller count : ℕ) : List (Move ℕ Reply AuthError) :=
  List.replicate count (.mk caller {} (.returned ()))

/-- The second transaction takes the lock from the first, and a third starts five minutes after it. -/
def overtaking : List (Move ℕ Reply AuthError) :=
  callsOf 0 1 ++ [.mk 1 { elapsed := 5 } (.returned ())] ++ callsOf 1 5 ++ callsOf 0 3 ++
    [.mk 2 { elapsed := 300000000 } (.returned ())] ++ callsOf 2 5

def response (config : AuthConfig ℕ) (i : ℕ) : Option Response :=
  match config.threads i with
  | .pure value => some value
  | _ => none

theorem threads_of_response {config : AuthConfig ℕ} {i : ℕ} {value : Response}
    (h : response config i = some value) : config.threads i = .pure value := by
  unfold response at h
  split at h
  · next hthread =>
    cases h
    exact hthread
  · cases h

theorem responses_overtaking :
    ((sessions ℕ).replay (Config.initial oneUser fun i ↦ (Request.issue (resetToken i)).program fun _ ↦ 0)
      overtaking).map (fun config ↦ [0, 1, 2].map (response config)) =
        some [some (.issued false), some (.issued true), some (.issued true)] := by
  decide +kernel

theorem issues_spaced_overtaking : ∃ config : AuthConfig ℕ,
    SpacedOut fiveMinutes config.shared.tables ∧ IssueOutcome config 0 (resetToken 0) false ∧
      IssueOutcome config 1 (resetToken 1) true ∧ IssueOutcome config 2 (resetToken 2) true := by
  obtain ⟨config, reachable, hview⟩ := (sessions ℕ).exists_reachable responses_overtaking
  obtain ⟨hfirst, hrest⟩ := List.cons.inj hview
  obtain ⟨hsecond, hrest⟩ := List.cons.inj hrest
  obtain ⟨hthird, -⟩ := List.cons.inj hrest
  have hpaced : ∀ i data, Request.issue (resetToken i) = .issue data →
      data.minIntervalMs = fiveMinutes data.type := by
    rintro i _ ⟨⟩
    unfold resetToken
    split <;> rfl
  have hspaced : SpacedOut fiveMinutes oneUser.tables := by
    intro hash hash' row row' hne hrow
    cases hrow
  obtain ⟨hapart, houtcome⟩ := issues_spaced (fun _ ↦ 0) fiveMinutes (fun i ↦ .issue (resetToken i)) hpaced
    idle_oneUser hspaced reachable
  exact ⟨config, hapart, houtcome 0 _ _ rfl (threads_of_response hfirst),
    houtcome 1 _ _ rfl (threads_of_response hsecond), houtcome 2 _ _ rfl (threads_of_response hthird)⟩

end MemoFlowApi.Auth.Tokens
