import MemoFlowApi.Auth.TokenStore
import MemoFlowApi.Concurrency.Typestate

/-!
# Phases of Token Transactions

What each request may call next, and what it has done when it ends.  A request that returns has
committed, and a request that throws has either committed or changed nothing.
-/

namespace MemoFlowApi.Auth.Tokens

open Concurrency Sql

/-- What a transaction does to the tokens of a user whose row it holds. -/
structure Work where
  userId : UserId
  consumed : Option (TokenHash × AuthTokenType)
  /-- The tokens that its update of all tokens has found. -/
  found : Option (List TokenHash)
  remaining : List TokenHash

/-- How far a request has come. -/
inductive Phase where
  | idle
  | opened
  | serialized (data : IssueAuthTokenData)
  | recent (data : IssueAuthTokenData)
  | clear (data : IssueAuthTokenData)
  | inserted (data : IssueAuthTokenData)
  | referenced (data : IssueAuthTokenData)
  | owned (hash : TokenHash) (type : AuthTokenType) (userId : UserId)
  | enabled (hash : TokenHash) (type : AuthTokenType) (userId : UserId)
  | working (work : Work)
  /-- The transaction has nothing to write. -/
  | nothing
  | failed
  | stored (data : IssueAuthTokenData)
  | refused (data : IssueAuthTokenData)
  | unchanged
  | done (work : Work)
  | finished

namespace Phase

/-- What a commit ends in. -/
def commit : Phase → Option Phase
  | recent data => some (refused data)
  | referenced data => some (stored data)
  | working work => if work.remaining = [] then some (done work) else none
  | nothing => some unchanged
  | _ => none

/-- A transaction has been committed. -/
def Committed (φ : Phase) : Prop := ∃ before : Phase, before.commit = some φ

/-- The statements of a phase. -/
def May : Phase → Op → Prop
  | idle, .startTransaction => True
  | opened, .advisoryLock _ => True
  | opened, .findOwner _ _ => True
  | opened, .changePassword _ _ => True
  | serialized data, .existsRecent userId type minIntervalMs =>
      userId = data.userId ∧ type = data.type ∧ minIntervalMs = data.minIntervalMs
  | clear data, .insertToken other => other = data
  | inserted data, .referenceUser userId => userId = data.userId
  | owned _ _ userId, .lockUser other => other = userId
  | enabled hash type _, .consume other otherType => other = hash ∧ otherType = type
  | working work, .verifyEmail userId _ => work.consumed ≠ none ∧ userId = work.userId
  | working work, .resetPassword userId _ _ => work.consumed ≠ none ∧ userId = work.userId
  | working work, .findOpen userId => userId = work.userId
  | working work, .spend userId hash _ => userId = work.userId ∧ hash ∈ work.remaining
  | _, _ => False

end Phase

section Moves

variable (hashtext : String → ℤ) (allowed : IssueAuthTokenData → Prop)

/-- The calls of a request, which issues only tokens that are allowed. -/
inductive Moves : Phase → (op : Op) → Outcome AuthError (Ans op) → Phase → Prop
  | start : Moves .idle .startTransaction (.returned ()) .opened
  | serialize {data : IssueAuthTokenData} (allows : allowed data) :
      Moves .opened (.advisoryLock (data.lockNumber hashtext)) (.returned ()) (.serialized data)
  | recent {data : IssueAuthTokenData} :
      Moves (.serialized data) (.existsRecent data.userId data.type data.minIntervalMs)
        (.returned true) (.recent data)
  | clear {data : IssueAuthTokenData} :
      Moves (.serialized data) (.existsRecent data.userId data.type data.minIntervalMs)
        (.returned false) (.clear data)
  | insert {data} : Moves (.clear data) (.insertToken data) (.returned true) (.inserted data)
  | taken {data} : Moves (.clear data) (.insertToken data) (.returned false) .failed
  | reference {data : IssueAuthTokenData} :
      Moves (.inserted data) (.referenceUser data.userId) (.returned true) (.referenced data)
  | orphan {data : IssueAuthTokenData} :
      Moves (.inserted data) (.referenceUser data.userId) (.returned false) .failed
  | findOwner {hash type userId} :
      Moves .opened (.findOwner hash type) (.returned (some userId)) (.owned hash type userId)
  | findNobody {hash type} : Moves .opened (.findOwner hash type) (.returned none) .nothing
  | lockUser {hash type userId} :
      Moves (.owned hash type userId) (.lockUser userId) (.returned (some none))
        (.enabled hash type userId)
  | lockNobody {hash type userId answer} :
      Moves (.owned hash type userId) (.lockUser userId) (.returned answer) .nothing
  | consume {hash type userId owner} :
      Moves (.enabled hash type userId) (.consume hash type) (.returned (some owner))
        (.working ⟨owner, some (hash, type), none, []⟩)
  | consumeNothing {hash type userId} :
      Moves (.enabled hash type userId) (.consume hash type) (.returned none) .nothing
  | changePassword {id passwordHash version} :
      Moves .opened (.changePassword id passwordHash) (.returned (some version))
        (.working ⟨id, none, none, []⟩)
  | changeNobody {id passwordHash} :
      Moves .opened (.changePassword id passwordHash) (.returned none) .failed
  | verifyEmail {work : Work} {at'} (consumed : work.consumed ≠ none) :
      Moves (.working work) (.verifyEmail work.userId at') (.returned ()) (.working work)
  | resetPassword {work : Work} {passwordHash at'} (consumed : work.consumed ≠ none) :
      Moves (.working work) (.resetPassword work.userId passwordHash at') (.returned ())
        (.working work)
  | findOpen {work : Work} {hashes} (first : work.found = none) :
      Moves (.working work) (.findOpen work.userId) (.returned hashes)
        (.working { work with found := some hashes, remaining := hashes })
  | spend {work : Work} {hash hashes at'} (remaining : work.remaining = hash :: hashes) :
      Moves (.working work) (.spend work.userId hash at') (.returned ())
        (.working { work with remaining := hashes })
  | commit {φ φ' : Phase} {o} (commits : φ.commit = some φ') (took : o.TookEffect) :
      Moves φ .commitTransaction o φ'
  | commitLost {φ φ' : Phase} {error} (commits : φ.commit = some φ') :
      Moves φ .commitTransaction (.lost error) .failed
  | fail {φ : Phase} {op o} (may : φ.May op) (failed : o.Failed) : Moves φ op o .failed
  | rollback : Moves .failed .rollbackTransaction (.returned ()) .finished
  | rollbackCommitted {φ : Phase} (committed : φ.Committed) :
      Moves φ .rollbackTransaction (.returned ()) φ
  | setDisabledAt {id disabledAt o} : Moves .idle (.setDisabledAt id disabledAt) o .finished
  | revokeSessions {id o} : Moves .idle (.revokeSessions id) o .finished

end Moves

/-- The token that a request has to issue. -/
def Phase.data? : Phase → Option IssueAuthTokenData
  | serialized data | recent data | clear data | inserted data | referenced data | stored data
  | refused data => some data
  | _ => none

/-- What a request has done that ends with a response. -/
def Request.Ends : Request → Response → Phase → Prop
  | issue data, .issued stored, φ => φ = if stored then .stored data else .refused data
  | verifyEmail hash _, .owner userId, φ =>
      φ = userId.elim .unchanged fun id ↦ .done ⟨id, some (hash, .emailVerification), none, []⟩
  | resetPassword hash _ _, .owner userId, φ =>
      ∃ found, φ = userId.elim .unchanged fun id ↦ .done ⟨id, some (hash, .passwordReset), some found, []⟩
  | changePassword id _, .tokenVersion _, φ => ∃ found, φ = .done ⟨id, none, some found, []⟩
  | setDisabledAt _ _, .done, φ => φ = .finished
  | revokeSessions _, .tokenVersion _, φ => φ = .finished
  | _, _, _ => False

section Conformance

variable {ι : Type} [DecidableEq ι] {i : ι} {hashtext : String → ℤ}
  {allowed : IssueAuthTokenData → Prop}

def moves (hashtext : String → ℤ) (allowed : IssueAuthTokenData → Prop) :
    Typestate Ans AuthError Phase := ⟨Moves hashtext allowed⟩

/-- The calls that are possible. -/
abbrev Answered (i : ι) := (world ι).Possible AuthError i

/-- Within a transaction a statement that fails ends the work. -/
theorem wp_statement {op : Op} {Q : Ans op → Phase → Prop} {φ : Phase} (may : φ.May op)
    (returned : ∀ answer, ∃ φ', Moves hashtext allowed φ op (.returned answer) φ' ∧ Q answer φ') :
    (await op).wp ((moves hashtext allowed).spec (Answered i)) Q (fun _ φ ↦ φ = .failed) φ :=
  Typestate.wp_perform (fun answer _ ↦ returned answer) (fun _ _ ↦ ⟨_, .fail may trivial, rfl⟩)
    (fun _ _ ↦ ⟨_, .fail may trivial, rfl⟩)

/-- A transaction commits what it has come to, and rolls back otherwise. -/
theorem transaction_follows {α : Type} {run : Async α} {Q : α → Phase → Prop}
    (h : run.wp ((moves hashtext allowed).spec (Answered i))
      (fun value φ ↦ ∃ φ', φ.commit = some φ' ∧ Q value φ') (fun _ φ ↦ φ = .failed) .opened) :
    (boundary.transaction fun _ ↦ run).wp ((moves hashtext allowed).spec (Answered i)) Q
      (fun _ φ ↦ φ = .finished ∨ φ.Committed) .idle := by
  refine Boundary.wp_transaction (F := fun _ φ ↦ φ = .failed ∨ φ.Committed) ?_ fun error φ hφ ↦ ?_
  · refine Program.wp_mono (fun _ _ hφ ↦ hφ) (fun _ _ ↦ .inl) (wp_statement trivial fun _ ↦ ⟨_, .start, ?_⟩)
    refine Program.wp_mono (fun value φ hφ ↦ ?_) (fun _ _ ↦ .inl) h
    obtain ⟨φ', hcommit, hvalue⟩ := hφ
    exact Typestate.wp_perform (fun _ _ ↦ ⟨_, .commit hcommit trivial, hvalue⟩)
      (fun _ _ ↦ ⟨_, .commitLost hcommit, .inl rfl⟩)
      (fun _ _ ↦ ⟨_, .commit hcommit trivial, .inr ⟨φ, hcommit⟩⟩)
  · rcases hφ with rfl | hcommitted
    · exact World.wp_answered Bool.false_ne_true fun _ ↦ ⟨_, .rollback, .inl rfl⟩
    · exact World.wp_answered Bool.false_ne_true fun _ ↦ ⟨_, .rollbackCommitted hcommitted, .inr hcommitted⟩

theorem issueInTransaction_follows {data : IssueAuthTokenData} (allows : allowed data) :
    (issueInTransaction hashtext data).wp ((moves hashtext allowed).spec (Answered i))
      (fun stored φ ↦ φ = if stored then .referenced data else .recent data) (fun _ φ ↦ φ = .failed)
      .opened := by
  unfold issueInTransaction
  rw [Program.wp_bind]
  refine wp_statement trivial fun _ ↦ ⟨_, .serialize allows, ?_⟩
  rw [Program.wp_bind]
  refine wp_statement ⟨rfl, rfl, rfl⟩ fun found ↦ ?_
  cases found with
  | true => exact ⟨_, .recent, rfl⟩
  | false =>
    refine ⟨_, .clear, ?_⟩
    simp only [Bool.false_eq_true, if_false]
    rw [Program.wp_bind]
    refine wp_statement rfl fun inserted ↦ ?_
    cases inserted with
    | false => exact ⟨_, .taken, rfl⟩
    | true =>
      refine ⟨_, .insert, ?_⟩
      simp only [if_true]
      rw [Program.wp_bind]
      refine wp_statement rfl fun referenced ↦ ?_
      cases referenced with
      | false => exact ⟨_, .orphan, rfl⟩
      | true => exact ⟨_, .reference, rfl⟩

/-- A transaction that has consumed a token works on, and one that has not has nothing to write. -/
theorem lockOwnerAndConsume_follows (hash : TokenHash) (type : AuthTokenType) :
    (lockOwnerAndConsume hash type).wp ((moves hashtext allowed).spec (Answered i))
      (fun owner φ ↦ φ = owner.elim .nothing fun id ↦ .working ⟨id, some (hash, type), none, []⟩)
      (fun _ φ ↦ φ = .failed) .opened := by
  unfold lockOwnerAndConsume
  rw [Program.wp_bind]
  refine wp_statement trivial fun owner ↦ ?_
  cases owner with
  | none => exact ⟨_, .findNobody, rfl⟩
  | some userId =>
    refine ⟨_, .findOwner, ?_⟩
    dsimp only
    rw [Program.wp_bind]
    refine wp_statement rfl fun user ↦ ?_
    cases user with
    | none => exact ⟨_, .lockNobody, rfl⟩
    | some disabledAt =>
      cases disabledAt with
      | some instant => exact ⟨_, .lockNobody, rfl⟩
      | none =>
        refine ⟨_, .lockUser, wp_statement ⟨rfl, rfl⟩ fun consumed ↦ ?_⟩
        cases consumed with
        | none => exact ⟨_, .consumeNothing, rfl⟩
        | some owner => exact ⟨_, .consume, rfl⟩

theorem spendAll_follows (work : Work) (at' : Option ℕ) (hashes : List TokenHash) :
    (spendAll work.userId at' hashes).wp ((moves hashtext allowed).spec (Answered i))
      (fun _ φ ↦ φ = .working { work with remaining := [] }) (fun _ φ ↦ φ = .failed)
      (.working { work with remaining := hashes }) := by
  induction hashes with
  | nil => rfl
  | cons hash hashes ih =>
    unfold spendAll
    rw [Program.wp_bind]
    exact wp_statement ⟨rfl, List.mem_cons_self⟩ fun _ ↦ ⟨_, .spend rfl, ih⟩

theorem spendTokens_follows {work : Work} (first : work.found = none) (at' : Option ℕ) :
    (spendTokens work.userId at').wp ((moves hashtext allowed).spec (Answered i))
      (fun _ φ ↦ ∃ found, φ = .working { work with found := some found, remaining := [] })
      (fun _ φ ↦ φ = .failed) (.working work) := by
  unfold spendTokens
  rw [Program.wp_bind]
  refine wp_statement rfl fun hashes ↦ ⟨_, .findOpen first, ?_⟩
  exact Program.wp_mono (fun _ _ hφ ↦ ⟨hashes, hφ⟩) (fun _ _ hφ ↦ hφ)
    (spendAll_follows { work with found := some hashes } at' hashes)

/-- A request that returns has done what its response says, and one that throws has committed or has
rolled back. -/
theorem program_follows {request : Request} (allows : ∀ data, request = .issue data → allowed data) :
    (request.program hashtext).wp ((moves hashtext allowed).spec (Answered i))
      (fun response ↦ request.Ends response) (fun _ φ ↦ φ = .finished ∨ φ.Committed) .idle := by
  cases request with
  | issue data =>
    unfold Request.program issue
    rw [Program.wp_bind]
    refine transaction_follows (Program.wp_mono (fun stored φ hφ ↦ ?_) (fun _ _ hφ ↦ hφ)
      (issueInTransaction_follows (allows data rfl)))
    subst hφ
    cases stored with
    | false => exact ⟨_, rfl, rfl⟩
    | true => exact ⟨_, rfl, rfl⟩
  | verifyEmail hash at' =>
    unfold Request.program verifyEmailWithToken
    rw [Program.wp_bind]
    refine transaction_follows ?_
    rw [Program.wp_bind]
    refine Program.wp_mono (fun owner φ hφ ↦ ?_) (fun _ _ hφ ↦ hφ) (lockOwnerAndConsume_follows hash _)
    subst hφ
    cases owner with
    | none => exact ⟨_, rfl, rfl⟩
    | some userId =>
      dsimp only
      rw [Program.wp_bind]
      exact wp_statement ⟨by rintro ⟨⟩, rfl⟩ fun _ ↦ ⟨_, .verifyEmail (by rintro ⟨⟩), _, rfl, rfl⟩
  | resetPassword hash passwordHash at' =>
    unfold Request.program resetPasswordWithToken
    rw [Program.wp_bind]
    refine transaction_follows ?_
    rw [Program.wp_bind]
    refine Program.wp_mono (fun owner φ hφ ↦ ?_) (fun _ _ hφ ↦ hφ) (lockOwnerAndConsume_follows hash _)
    subst hφ
    cases owner with
    | none => exact ⟨_, rfl, [], rfl⟩
    | some userId =>
      dsimp only
      rw [Program.wp_bind]
      refine wp_statement ⟨by rintro ⟨⟩, rfl⟩ fun _ ↦ ⟨_, .resetPassword (by rintro ⟨⟩), ?_⟩
      rw [Program.wp_bind]
      refine Program.wp_mono (fun _ φ hφ ↦ ?_) (fun _ _ hφ ↦ hφ) (spendTokens_follows rfl (some at'))
      obtain ⟨found, rfl⟩ := hφ
      exact ⟨_, rfl, found, rfl⟩
  | changePassword id passwordHash =>
    unfold Request.program changePassword
    rw [Program.wp_bind]
    refine transaction_follows ?_
    rw [Program.wp_bind]
    refine wp_statement trivial fun version ↦ ?_
    cases version with
    | none => exact ⟨_, .changeNobody, rfl⟩
    | some version =>
      refine ⟨_, .changePassword, ?_⟩
      dsimp only
      rw [Program.wp_bind]
      refine Program.wp_mono (fun _ φ hφ ↦ ?_) (fun _ _ hφ ↦ hφ) (spendTokens_follows rfl none)
      obtain ⟨found, rfl⟩ := hφ
      exact ⟨_, rfl, found, rfl⟩
  | setDisabledAt id disabledAt =>
    unfold Request.program
    rw [Program.wp_bind]
    exact Typestate.wp_perform (fun _ _ ↦ ⟨_, .setDisabledAt, rfl⟩) (fun _ _ ↦ ⟨_, .setDisabledAt, .inl rfl⟩)
      (fun _ _ ↦ ⟨_, .setDisabledAt, .inl rfl⟩)
  | revokeSessions id =>
    unfold Request.program revokeSessions
    rw [Program.wp_bind, Program.wp_bind]
    refine Typestate.wp_perform (fun version _ ↦ ⟨_, .revokeSessions, ?_⟩)
      (fun _ _ ↦ ⟨_, .revokeSessions, .inl rfl⟩) (fun _ _ ↦ ⟨_, .revokeSessions, .inl rfl⟩)
    cases version with
    | none => exact .inl rfl
    | some version => rfl

end Conformance

end MemoFlowApi.Auth.Tokens
