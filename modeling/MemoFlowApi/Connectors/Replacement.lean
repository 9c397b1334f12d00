import MemoFlowApi.Connectors.Reads

/-!
# Replaced Accounts

A connect revokes the account it found before its own upsert.  When all connects of a user and
provider have returned, an account they created is orphaned exactly if it is not bound to the row and
no connect found it first (`no_orphan_iff`); two first connects at the same time leave one.
-/

namespace MemoFlowApi.Connectors

open Concurrency

/-- How far a connect has come. -/
structure Connect where
  /-- What its first query found. -/
  previous : Option (Option ConnectorConnection) := none
  /-- The account that Composio created for it. -/
  account : Option AccountId := none
  /-- The account it passed to `revoke`. -/
  revoked : Option AccountId := none

/-- The moves of a connect. -/
inductive Connects : Connect → (op : Op) → Outcome ConnectorError (Ans op) → Connect → Prop
  | look {φ criteria found} (new : φ.previous = none) (unconnected : φ.account = none) :
      Connects φ (.findOne criteria) (.returned found) { φ with previous := some found }
  | again {φ criteria found} (looked : φ.previous.isSome) :
      Connects φ (.findOne criteria) (.returned found) φ
  | create {φ input result} (new : φ.account = none) :
      Connects φ (.initiateConnection input) (.returned result)
        { φ with account := some result.composioAccountId }
  | insert {φ} {data : UpsertInitiatedData} {o : Outcome ConnectorError (Option ConnectorConnection)}
      (own : φ.account = some data.composioAccountId) : Connects φ (.insert data) o φ
  | reset {φ id} {data : UpsertInitiatedData} {o : Outcome ConnectorError Unit}
      (own : φ.account = some data.composioAccountId) :
      Connects φ (.update .upsertInitiated id data.patch) o φ
  | emit {φ event} {o : Outcome ConnectorError Unit} : Connects φ (.emit event) o φ
  | revoke {φ previous account old} {o : Outcome ConnectorError Unit}
      (looked : φ.previous = some previous) (created : φ.account = some account)
      (replaced : replacedAccount previous account = some old) :
      Connects φ (.revoke old) o { φ with revoked := some old }
  | failQuery {φ criteria} {o : Outcome ConnectorError (Option ConnectorConnection)}
      (failed : o.Failed) : Connects φ (.findOne criteria) o φ
  | failCreate {φ input} {o : Outcome ConnectorError InitiateConnectionResult}
      (failed : o.Failed) : Connects φ (.initiateConnection input) o φ

/-- The typestate of a connect. -/
def connects : Typestate Ans ConnectorError Connect := ⟨Connects⟩

abbrev connectSpec {ι : Type} (i : ι) : CallSpec Ans ConnectorError Connect :=
  connects.spec ((world ι).Possible ConnectorError i)

/-- A connect that has returned has revoked the account it replaced. -/
def Connect.Through (φ : Connect) : Prop :=
  ∃ previous account, φ.previous = some previous ∧ φ.account = some account ∧
    ∀ old, replacedAccount previous account = some old → φ.revoked = some old

section Programs

variable {ι : Type} {i : ι} {φ : Connect}

/-- A query after the first. -/
theorem wp_again {criteria : Criteria} {Q : Option ConnectorConnection → Connect → Prop}
    {E : ConnectorError → Connect → Prop} (looked : φ.previous.isSome) (hQ : ∀ found, Q found φ)
    (hE : ∀ e, E e φ) : (await (.findOne criteria)).wp (connectSpec i) Q E φ :=
  Typestate.wp_perform (fun found _ ↦ ⟨φ, .again looked, hQ found⟩)
    (fun e _ ↦ ⟨φ, .failQuery trivial, hE e⟩) fun e _ ↦ ⟨φ, .failQuery trivial, hE e⟩

theorem upsertInitiated_connects {data : UpsertInitiatedData}
    {Q : Option ConnectorConnection → Connect → Prop} {E : ConnectorError → Connect → Prop}
    (looked : φ.previous.isSome) (own : φ.account = some data.composioAccountId)
    (hQ : ∀ found, Q found φ) (hE : ∀ e, E e φ) :
    (upsertInitiated data).wp (connectSpec i) Q E φ := by
  have hreset : ∀ id, (resetInitiated id data).wp (connectSpec i) Q E φ := by
    intro id
    unfold resetInitiated findById
    rw [Program.wp_bind]
    exact Typestate.wp_perform (fun _ _ ↦ ⟨φ, .reset own, wp_again looked hQ hE⟩)
      (fun e _ ↦ ⟨φ, .reset own, hE e⟩) fun e _ ↦ ⟨φ, .reset own, hE e⟩
  unfold upsertInitiated findByUserAndProvider
  rw [Program.wp_bind]
  refine wp_again looked (fun existing ↦ ?_) hE
  cases existing with
  | some existing => exact hreset existing.id
  | none =>
    dsimp only
    rw [Program.wp_bind]
    refine Typestate.wp_perform (fun saved _ ↦ ⟨φ, .insert own, ?_⟩)
      (fun e _ ↦ ⟨φ, .insert own, hE e⟩) fun e _ ↦ ⟨φ, .insert own, hE e⟩
    cases saved with
    | some saved => exact hQ _
    | none =>
      dsimp only
      rw [Program.wp_bind]
      refine wp_again looked (fun winner ↦ ?_) hE
      cases winner with
      | none => exact hE _
      | some winner => exact hreset winner.id

theorem initiateConnection_connects {input : InitiateConnectionInput} :
    (initiateConnection input).wp (connectSpec i) (fun _ φ ↦ φ.Through) (fun _ _ ↦ True) {} := by
  unfold initiateConnection findByUserAndProvider
  rw [Program.wp_bind]
  refine Typestate.wp_perform (fun previous _ ↦ ⟨_, .look rfl rfl, ?_⟩)
    (fun e _ ↦ ⟨_, .failQuery trivial, trivial⟩) fun e _ ↦ ⟨_, .failQuery trivial, trivial⟩
  rw [Program.wp_bind]
  refine Typestate.wp_perform (fun initiated _ ↦ ⟨_, .create rfl, ?_⟩)
    (fun e _ ↦ ⟨_, .failCreate trivial, trivial⟩) fun e _ ↦ ⟨_, .failCreate trivial, trivial⟩
  rw [Program.wp_bind]
  refine upsertInitiated_connects rfl rfl (fun row ↦ ?_) fun _ ↦ trivial
  rw [Program.wp_bind]
  refine Typestate.wp_perform (fun _ _ ↦ ⟨_, .emit, ?_⟩) (fun e _ ↦ ⟨_, .emit, trivial⟩)
    fun e _ ↦ ⟨_, .emit, trivial⟩
  cases row with
  | none => trivial
  | some row =>
    dsimp only
    rw [Program.wp_bind]
    unfold revokeReplacedAccount
    split
    · next hnone =>
      refine ⟨previous, initiated.composioAccountId, rfl, rfl, fun old hold ↦ ?_⟩
      exact nomatch hnone.symm.trans hold
    · next old hold =>
      have hthrough : Connect.Through ⟨some previous, some initiated.composioAccountId, some old⟩ :=
        ⟨previous, _, rfl, rfl, fun old' hold' ↦ hold.symm.trans hold'⟩
      rw [Program.wp_bind, Program.wp_attempt]
      exact Typestate.wp_perform (fun _ _ ↦ ⟨_, .revoke rfl rfl hold, hthrough⟩)
        (fun e _ ↦ ⟨_, .revoke rfl rfl hold, hthrough⟩)
        fun e _ ↦ ⟨_, .revoke rfl rfl hold, hthrough⟩

end Programs

/-! ## Connects of one user and provider -/

section Runs

variable {ι : Type} {s s' state : ConnectorState} {φ : ι → Connect} {trace : List (Call ι)} {i : ι}
  {op : Op} {o : Outcome ConnectorError (Ans op)}

/-- What a query found. -/
def foundBy (call : Call ι) : Option ConnectorConnection :=
  match call with
  | ⟨_, _, .findOne _, .returned found⟩ => found
  | _ => none

/-- The account was passed to `connectorGateway.revoke`. -/
def PassedToRevoke (account : AccountId) (trace : List (Call ι)) : Prop :=
  ∃ call ∈ trace, call.op = .revoke account

/-- The row of the user and provider is bound to the account. -/
def BoundTo (s : ConnectorState) (input : InitiateConnectionInput) (account : AccountId) : Prop :=
  ∃ row ∈ s.table.rows, row.userProvider = (input.userId, input.provider) ∧
    row.composioAccountId = some account

instance (s : ConnectorState) (input : InitiateConnectionInput) (account : AccountId) :
    Decidable (BoundTo s input account) :=
  inferInstanceAs (Decidable (∃ row ∈ s.table.rows, _ ∧ _))

/-- What a move of a connect does to what it first found. -/
theorem Connects.look_cases {φ φ' : Connect} (h : Connects φ op o φ') :
    φ'.previous = φ.previous ∧ (Answered (⟨s, i, op, o⟩ : Call ι) = true → φ.previous.isSome) ∨
      φ.previous = none ∧ φ.account = none ∧ φ'.account = none ∧
        Answered (⟨s, i, op, o⟩ : Call ι) = true ∧ ∃ criteria found, φ'.previous = some found ∧
          (⟨op, o⟩ : (op : Op) × Outcome ConnectorError (Ans op)) =
            ⟨.findOne criteria, .returned found⟩ := by
  cases h with
  | look new unconnected =>
    exact .inr ⟨new, unconnected, unconnected, rfl, _, _, rfl, rfl⟩
  | again looked => exact .inl ⟨rfl, fun _ ↦ looked⟩
  | failQuery failed =>
    refine .inl ⟨rfl, fun answered ↦ ?_⟩
    exact (of_decide_eq_true (Bool.and_eq_true_iff.mp answered).2 failed).elim
  | _ => exact .inl ⟨rfl, fun answered ↦ nomatch answered⟩

/-- What a move of a connect does to its account. -/
theorem Connects.account_cases {φ φ' : Connect} (h : Connects φ op o φ') :
    φ'.account = φ.account ∨ φ.account = none ∧ ∃ input result,
      φ'.account = some result.composioAccountId ∧
        (⟨op, o⟩ : (op : Op) × Outcome ConnectorError (Ans op)) =
          ⟨.initiateConnection input, .returned result⟩ := by
  cases h with
  | create new => exact .inr ⟨new, _, _, rfl, rfl⟩
  | _ => exact .inl rfl

/-- What a move of a connect revokes. -/
theorem Connects.revoke_cases {φ φ' : Connect} (h : Connects φ op o φ') :
    φ'.revoked = φ.revoked ∧ (∀ old, op ≠ .revoke old) ∨
      ∃ previous account old, op = .revoke old ∧ φ.previous = some previous ∧
        φ.account = some account ∧ replacedAccount previous account = some old ∧
        φ' = { φ with revoked := some old } := by
  cases h with
  | revoke looked created replaced => exact .inr ⟨_, _, _, rfl, looked, created, replaced, rfl⟩
  | _ => exact .inl ⟨rfl, by rintro old ⟨⟩⟩

theorem passedToRevoke_cons {call : Call ι} {old : AccountId} :
    PassedToRevoke old (call :: trace) ↔ call.op = .revoke old ∨ PassedToRevoke old trace := by
  unfold PassedToRevoke
  rw [List.exists_mem_cons_iff]

theorem foundBy_of_not_answered {call : Call ι} (h : Answered call = false) :
    foundBy call = none := by
  obtain ⟨s, i, op, o⟩ := call
  unfold foundBy
  split
  · next heq =>
    cases heq
    cases h
  · rfl

variable [DecidableEq ι]

/-- The rows that the first queries of requests found. -/
def firstFound : List (Call ι) → List ConnectorConnection
  | [] => []
  | call :: earlier =>
      if hasRead call.caller earlier then firstFound earlier
      else (foundBy call).toList ++ firstFound earlier

theorem firstFound_cons_of_read {call : Call ι} (h : hasRead call.caller trace = true) :
    firstFound (call :: trace) = firstFound trace := if_pos h

theorem firstFound_cons_of_not_read {call : Call ι} (h : hasRead call.caller trace = false) :
    firstFound (call :: trace) = (foundBy call).toList ++ firstFound trace :=
  if_neg (by simp [h])

/-- What holds along a run of connects that started with the accounts of `state`. -/
structure Connecting (state s : ConnectorState) (φ : ι → Connect) (trace : List (Call ι)) :
    Prop where
  read : ∀ i, (φ i).previous.isSome = hasRead i trace
  found : ∀ {row}, row ∈ firstFound trace ↔ ∃ i, (φ i).previous = some (some row)
  revoked : ∀ {old}, PassedToRevoke old trace ↔ ∃ i, (φ i).revoked = some old
  replaced : ∀ {i old}, (φ i).revoked = some old → ∃ previous account,
    (φ i).previous = some previous ∧ (φ i).account = some account ∧
      replacedAccount previous account = some old
  stored : ∀ {id row account}, s.row? id = some row → row.composioAccountId = some account →
    account ∈ s.accounts ∧ (account ∉ state.accounts → row.status = .initiated)
  looked : ∀ {i row account}, (φ i).previous = some (some row) →
    row.composioAccountId = some account →
    account ∈ s.accounts ∧ (account ∉ state.accounts → row.status = .initiated) ∧
      (φ i).account ≠ some account
  created : ∀ {i account}, (φ i).account = some account → account ∈ s.accounts
  nonempty : ∀ {account}, account ∈ s.accounts → account ∉ state.accounts → account ≠ ""

theorem Connecting.found_step (h : Connecting state s φ trace) {φ' : Connect}
    (moves : Connects (φ i) op o φ') {row : ConnectorConnection} :
    row ∈ firstFound (⟨s, i, op, o⟩ :: trace) ↔
      ∃ k, (Function.update φ i φ' k).previous = some (some row) := by
  rcases moves.look_cases (s := s) (i := i) with
    ⟨hsame, hanswered⟩ | ⟨hnone, -, -, -, criteria, found, hsome, heq⟩
  · have hfirst : firstFound (⟨s, i, op, o⟩ :: trace) = firstFound trace := by
      cases hread : hasRead i trace with
      | true => exact firstFound_cons_of_read hread
      | false =>
        have hnot : Answered (⟨s, i, op, o⟩ : Call ι) = false := by
          refine Bool.eq_false_iff.mpr fun hcall ↦ ?_
          have hsome := hanswered hcall
          rw [h.read i, hread] at hsome
          cases hsome
        rw [firstFound_cons_of_not_read hread, foundBy_of_not_answered hnot]
        rfl
    rw [hfirst, h.found]
    refine exists_congr fun k ↦ ?_
    by_cases hk : k = i
    · rw [hk, Function.update_self, hsame]
    · rw [Function.update_of_ne hk]
  · cases heq
    have hread : hasRead i trace = false := by rw [← h.read i, hnone]; rfl
    rw [firstFound_cons_of_not_read hread, List.mem_append, h.found]
    change row ∈ found.toList ∨ _ ↔ _
    rw [Option.mem_toList]
    constructor
    · rintro (hfound | ⟨k, hk⟩)
      · refine ⟨i, ?_⟩
        rw [Function.update_self, hsome, hfound]
      · have hne : k ≠ i := by
          rintro rfl
          exact nomatch hnone.symm.trans hk
        exact ⟨k, by rw [Function.update_of_ne hne, hk]⟩
    · rintro ⟨k, hk⟩
      by_cases hne : k = i
      · subst hne
        rw [Function.update_self, hsome] at hk
        exact .inl (Option.some.inj hk)
      · rw [Function.update_of_ne hne] at hk
        exact .inr ⟨k, hk⟩

theorem Connecting.revoked_step (h : Connecting state s φ trace) {φ' : Connect}
    (moves : Connects (φ i) op o φ') {old : AccountId} :
    PassedToRevoke old (⟨s, i, op, o⟩ :: trace) ↔
      ∃ k, (Function.update φ i φ' k).revoked = some old := by
  rw [passedToRevoke_cons, h.revoked]
  rcases moves.revoke_cases with ⟨hsame, hother⟩ |
    ⟨previous, account, new, rfl, hlook, hown, hreplaced, rfl⟩
  · rw [or_iff_right (hother old)]
    refine exists_congr fun k ↦ ?_
    by_cases hk : k = i
    · rw [hk, Function.update_self, hsame]
    · rw [Function.update_of_ne hk]
  · constructor
    · rintro (heq | ⟨k, hk⟩)
      · cases heq
        exact ⟨i, by rw [Function.update_self]⟩
      · by_cases hne : k = i
        · subst hne
          obtain ⟨previous', account', hlook', hown', hreplaced'⟩ := h.replaced hk
          obtain rfl := Option.some.inj (hlook.symm.trans hlook')
          obtain rfl := Option.some.inj (hown.symm.trans hown')
          exact ⟨k, by rw [Function.update_self, ← hreplaced, hreplaced']⟩
        · exact ⟨k, by rw [Function.update_of_ne hne, hk]⟩
    · rintro ⟨k, hk⟩
      by_cases hne : k = i
      · subst hne
        rw [Function.update_self] at hk
        exact .inl (congrArg Op.revoke (Option.some.inj hk))
      · rw [Function.update_of_ne hne] at hk
        exact .inr ⟨k, hk⟩

theorem Connecting.read_step (h : Connecting state s φ trace) {φ' : Connect}
    (moves : Connects (φ i) op o φ') (k : ι) :
    (Function.update φ i φ' k).previous.isSome = hasRead k (⟨s, i, op, o⟩ :: trace) := by
  by_cases hk : k = i
  · subst hk
    have hcons : hasRead k (⟨s, k, op, o⟩ :: trace) = (Answered ⟨s, k, op, o⟩ || hasRead k trace) :=
      hasRead_cons_self rfl
    rw [Function.update_self, hcons]
    rcases moves.look_cases (s := s) (i := k) with
      ⟨hsame, hanswered⟩ | ⟨hnone, -, -, hanswered, _, found, hsome, -⟩
    · rw [hsame, ← h.read k]
      cases hcall : Answered (⟨s, k, op, o⟩ : Call ι) with
      | false => rfl
      | true => rw [hanswered hcall]; rfl
    · rw [hsome, hanswered]
      rfl
  · rw [Function.update_of_ne hk, hasRead_cons_of_ne (Ne.symm hk), h.read k]

theorem Connecting.replaced_step (h : Connecting state s φ trace) {φ' : Connect}
    (moves : Connects (φ i) op o φ') {k : ι} {old : AccountId}
    (hold : (Function.update φ i φ' k).revoked = some old) :
    ∃ previous account, (Function.update φ i φ' k).previous = some previous ∧
      (Function.update φ i φ' k).account = some account ∧
        replacedAccount previous account = some old := by
  by_cases hk : k = i
  · subst hk
    rw [Function.update_self] at hold ⊢
    rcases moves.revoke_cases with ⟨hsame, -⟩ | ⟨previous, account, old', rfl, hlook, hown, hold', rfl⟩
    · obtain ⟨previous, account, hlook, hown, hreplaced⟩ := h.replaced (hsame ▸ hold)
      refine ⟨previous, account, ?_, ?_, hreplaced⟩
      · rcases moves.look_cases (s := s) (i := k) with ⟨hkept, -⟩ | ⟨hnone, -⟩
        · rw [hkept, hlook]
        · exact nomatch hnone.symm.trans hlook
      · rcases moves.account_cases with hkept | ⟨hnone, -⟩
        · rw [hkept, hown]
        · exact nomatch hnone.symm.trans hown
    · obtain rfl := Option.some.inj hold
      exact ⟨previous, account, hlook, hown, hold'⟩
  · rw [Function.update_of_ne hk] at hold ⊢
    exact h.replaced hold

omit [DecidableEq ι] in
theorem accounts_step {account : AccountId} (answers : (world ι).Answers ConnectorError i op s o s')
    (hmem : account ∈ s.accounts) : account ∈ s'.accounts := by
  rcases accounts_after answers with hsame | ⟨new, -, -, hnew⟩
  · rwa [hsame]
  · rw [hnew]
    exact List.mem_cons_of_mem _ hmem

theorem Connecting.stored_step (h : Connecting state s φ trace) {φ' : Connect}
    (answers : (world ι).Answers ConnectorError i op s o s') (moves : Connects (φ i) op o φ')
    {id : ConnectionId} {row : ConnectorConnection} {account : AccountId}
    (hrow : s'.row? id = some row) (haccount : row.composioAccountId = some account) :
    account ∈ s'.accounts ∧ (account ∉ state.accounts → row.status = .initiated) := by
  rcases row_before answers hrow with ⟨row, hold, rfl⟩ | ⟨-, data, rfl, rfl⟩
  · unfold rowAfter at haccount ⊢
    cases hpatch : patchOn id (⟨s, i, op, o⟩ : Call ι) with
    | none =>
      rw [hpatch] at haccount
      obtain ⟨hmem, hstatus⟩ := h.stored hold haccount
      exact ⟨accounts_step answers hmem, hstatus⟩
    | some patch =>
      rw [hpatch] at haccount
      obtain ⟨writer, hop, -⟩ := patchOn_eq_some hpatch
      obtain rfl : op = .update writer id patch := hop
      cases moves with
      | reset own =>
        obtain rfl := Option.some.inj haccount
        exact ⟨accounts_step answers (h.created own), fun _ ↦ rfl⟩
  · cases moves with
    | insert own =>
      obtain rfl := Option.some.inj haccount
      exact ⟨accounts_step answers (h.created own), fun _ ↦ rfl⟩

theorem Connecting.looked_step (h : Connecting state s φ trace) {φ' : Connect}
    (answers : (world ι).Answers ConnectorError i op s o s') (moves : Connects (φ i) op o φ')
    {k : ι} {row : ConnectorConnection} {account : AccountId}
    (hlook : (Function.update φ i φ' k).previous = some (some row))
    (haccount : row.composioAccountId = some account) :
    account ∈ s'.accounts ∧ (account ∉ state.accounts → row.status = .initiated) ∧
      (Function.update φ i φ' k).account ≠ some account := by
  by_cases hk : k = i
  · subst hk
    rw [Function.update_self] at hlook ⊢
    rcases moves.look_cases (s := s) (i := k) with
      ⟨hsame, -⟩ | ⟨hnone, -, hunconnected, -, criteria, found, hsome, heq⟩
    · obtain ⟨hmem, hstatus, hne⟩ := h.looked (hsame ▸ hlook) haccount
      refine ⟨accounts_step answers hmem, hstatus, ?_⟩
      rcases moves.account_cases with hkept | ⟨-, input, result, hnew, heq⟩
      · rwa [hkept]
      · cases heq
        rw [hnew, Ne, Option.some.injEq]
        rintro rfl
        exact (created_of_initiateConnection answers).1 hmem
    · cases heq
      obtain rfl : found = some row := Option.some.inj (hsome.symm.trans hlook)
      obtain ⟨hrow, -, rfl⟩ := found_of_findOne answers
      obtain ⟨hmem, hstatus⟩ := h.stored hrow haccount
      exact ⟨hmem, hstatus, by rw [hunconnected]; nofun⟩
  · rw [Function.update_of_ne hk] at hlook ⊢
    obtain ⟨hmem, hstatus, hne⟩ := h.looked hlook haccount
    exact ⟨accounts_step answers hmem, hstatus, hne⟩

theorem Connecting.created_step (h : Connecting state s φ trace) {φ' : Connect}
    (answers : (world ι).Answers ConnectorError i op s o s') (moves : Connects (φ i) op o φ')
    {k : ι} {account : AccountId} (hown : (Function.update φ i φ' k).account = some account) :
    account ∈ s'.accounts := by
  by_cases hk : k = i
  · subst hk
    rw [Function.update_self] at hown
    rcases moves.account_cases with hkept | ⟨-, input, result, hnew, heq⟩
    · exact accounts_step answers (h.created (hkept ▸ hown))
    · cases heq
      obtain rfl := Option.some.inj (hnew.symm.trans hown)
      exact (created_of_initiateConnection answers).2
  · rw [Function.update_of_ne hk] at hown
    exact accounts_step answers (h.created hown)

theorem Connecting.nonempty_step (h : Connecting state s φ trace)
    (answers : (world ι).Answers ConnectorError i op s o s') {account : AccountId}
    (hmem : account ∈ s'.accounts) (hnew : account ∉ state.accounts) : account ≠ "" := by
  rcases accounts_after answers with hsame | ⟨new, hempty, -, hcons⟩
  · exact h.nonempty (hsame ▸ hmem) hnew
  · rw [hcons] at hmem
    rcases List.mem_cons.mp hmem with rfl | hold
    · exact hempty
    · exact h.nonempty hold hnew

/-- Every call of a connect keeps the invariant. -/
theorem Connecting.step (h : Connecting state s φ trace) {φ' : Connect}
    (answers : (world ι).Answers ConnectorError i op s o s') (moves : Connects (φ i) op o φ') :
    Connecting state s' (Function.update φ i φ') (⟨s, i, op, o⟩ :: trace) := by
  constructor
  case read => exact h.read_step moves
  case found => exact h.found_step moves
  case revoked => exact h.revoked_step moves
  case replaced => exact h.replaced_step moves
  case stored => exact h.stored_step answers moves
  case looked => exact h.looked_step answers moves
  case created => exact h.created_step answers moves
  case nonempty => exact h.nonempty_step answers

/-- Before its first call no connect has found, created or revoked anything. -/
theorem Connecting.start (state : ConnectorState)
    (known : ∀ row ∈ state.table.rows, ∀ account, row.composioAccountId = some account →
      account ∈ state.accounts) : Connecting state state (fun _ : ι ↦ {}) [] := by
  constructor
  case read => exact fun _ ↦ rfl
  case found =>
    intro row
    refine iff_of_false List.not_mem_nil ?_
    rintro ⟨_, h⟩
    cases h
  case revoked =>
    intro old
    refine iff_of_false ?_ ?_
    · rintro ⟨_, hmem, -⟩
      cases hmem
    · rintro ⟨_, h⟩
      cases h
  case replaced => exact fun h ↦ nomatch h
  case stored =>
    intro id row account hrow haccount
    have hmem := known row (ConnectionTable.row?_eq_some.mp hrow).1 account haccount
    exact ⟨hmem, fun hnew ↦ (hnew hmem).elim⟩
  case looked => exact fun h ↦ nomatch h
  case created => exact fun h ↦ nomatch h
  case nonempty => exact fun hmem hnew ↦ (hnew hmem).elim

/-- A connect that is through and found an account that was created in the run has revoked it. -/
theorem Connecting.revoked_of_through (h : Connecting state s φ trace) (through : (φ i).Through)
    {row : ConnectorConnection} {account : AccountId} (found : (φ i).previous = some (some row))
    (bound : row.composioAccountId = some account) (new : account ∉ state.accounts) :
    PassedToRevoke account trace := by
  obtain ⟨hmem, hstatus, hne⟩ := h.looked found bound
  obtain ⟨previous, own, hlook, hown, hrevoked⟩ := through
  obtain rfl : previous = some row := Option.some.inj (hlook.symm.trans found)
  have haccount : row.account? = some account := by
    unfold ConnectorConnection.account?
    rw [bound, Option.filter_some, if_pos (by simp [h.nonempty hmem new])]
  have hdistinct : ¬ (account = own ∨ row.status = .revoked) := by
    rw [hstatus new]
    rintro (rfl | hstatus)
    · exact hne hown
    · cases hstatus
  have hreplaced : replacedAccount (some row) own = some account := by
    unfold replacedAccount
    dsimp only
    rw [haccount]
    exact if_neg hdistinct
  exact h.revoked.mpr ⟨i, hrevoked account hreplaced⟩

/-- When all connects of a run have returned, the accounts they created are bound to the row or
revoked, if and only if every such account that is not bound was found by the first query of one. -/
theorem no_orphan_iff {inputs : ι → InitiateConnectionInput} {config : System ι}
    (h : System.Reaches state (fun i ↦ .connect (inputs i)) config)
    (known : ∀ row ∈ state.table.rows, ∀ account, row.composioAccountId = some account →
      account ∈ state.accounts)
    (returned : ∀ i, config.Started i → config.threads i = .pure ())
    (input : InitiateConnectionInput) :
    (∀ account ∈ config.shared.accounts, account ∉ state.accounts →
      BoundTo config.shared input account ∨ PassedToRevoke account config.trace) ↔
    ∀ account ∈ config.shared.accounts, account ∉ state.accounts →
      BoundTo config.shared input account ∨
        ∃ row ∈ firstFound config.trace, row.composioAccountId = some account := by
  have hfollows : ∀ i, (Request.connect (inputs i)).program.wp
      (connects.spec ((world ι).Possible ConnectorError i)) (fun _ φ ↦ φ.Through)
      (fun _ _ ↦ True) {} := by
    intro i
    unfold Request.program
    rw [Program.wp_bind]
    exact initiateConnection_connects
  obtain ⟨φ, hrun, hconform⟩ :=
    World.exists_tracked (T := fun _ ↦ connects) rfl hfollows h
  have hinv : Connecting state config.shared φ config.trace := by
    refine hrun.invariant (fun s φ trace ↦ Connecting state s φ trace) (fun _ ↦ True)
      (Connecting.start state known) ?_ fun _ _ ↦ trivial
    intro s φ trace i op o s' φ' hinv _ answers moves
    exact hinv.step answers moves
  have hthrough : ∀ i row, (φ i).previous = some (some row) → (φ i).Through := by
    intro i row hfound
    by_cases hstarted : config.Started i
    · have hend := hconform i
      rw [returned i hstarted] at hend
      exact hend
    · have hphase := hrun.phase_of_not_started fun event hevent hcaller ↦
        hstarted ⟨event, hevent, hcaller⟩
      rw [hphase] at hfound
      cases hfound
  refine forall₃_congr fun account _ hnew ↦ or_congr_right ?_
  constructor
  · intro hpassed
    obtain ⟨i, hrevoked⟩ := hinv.revoked.mp hpassed
    obtain ⟨previous, own, hlook, -, hreplaced⟩ := hinv.replaced hrevoked
    unfold replacedAccount at hreplaced
    split at hreplaced
    · cases hreplaced
    · next row =>
      split at hreplaced
      · cases hreplaced
      · next old hold =>
        split at hreplaced
        · cases hreplaced
        · obtain rfl := Option.some.inj hreplaced
          refine ⟨row, hinv.found.mpr ⟨i, hlook⟩, ?_⟩
          exact (Option.filter_eq_some_iff.mp hold).1
  · rintro ⟨row, hfirst, hbound⟩
    obtain ⟨i, hlook⟩ := hinv.found.mp hfirst
    exact hinv.revoked_of_through (hthrough i row hlook) hlook hbound hnew

end Runs

/-! ## Two connects -/

/-- A user without connections. -/
def noConnection : ConnectorState where
  table := ⟨[], by decide, by decide⟩
  accounts := []

def notion : InitiateConnectionInput := ⟨"user", .notion⟩

def twoConnects : Fin 2 → Request := fun _ ↦ .connect notion

/-- A connect makes its next calls; its account is named after it. -/
def connectCalls (i : Fin 2) (count : ℕ) : List (Move (Fin 2) Reply ConnectorError) :=
  let account := if i = 0 then "first" else "second"
  List.replicate count ⟨i, { id := "connection", account }, .returned ()⟩

/-- The accounts that calls revoked. -/
def revokedAccounts {ι : Type} (trace : List (Call ι)) : List AccountId :=
  trace.filterMap fun call ↦ match call.op with
    | .revoke account => some account
    | _ => none

theorem mem_revokedAccounts {ι : Type} {trace : List (Call ι)} {account : AccountId}
    (h : PassedToRevoke account trace) : account ∈ revokedAccounts trace := by
  obtain ⟨call, hmem, hop⟩ := h
  refine List.mem_filterMap.mpr ⟨call, hmem, ?_⟩
  rw [hop]

/-- Both connects have returned. -/
def bothReturned (config : System (Fin 2)) : Bool :=
  [0, 1].all fun i ↦ match config.threads i with
    | .pure _ => true
    | _ => false

theorem returned_of_bothReturned {config : System (Fin 2)} (h : bothReturned config = true)
    (i : Fin 2) : config.threads i = .pure () := by
  have hi : i ∈ [0, 1] := by
    revert i
    decide
  have hreturned := List.all_eq_true.mp h i hi
  split at hreturned
  · next heq => exact heq
  · cases hreturned

/-- Both connects find no row.  The second binds the row of the first to its own account. -/
theorem not_no_orphan_concurrent :
    ∃ config, System.Reaches noConnection twoConnects config ∧
      (∀ i, config.threads i = .pure ()) ∧
      ¬ ∀ account ∈ config.shared.accounts, account ∉ noConnection.accounts →
        BoundTo config.shared notion account ∨ PassedToRevoke account config.trace := by
  have hreplay : (machine.replay (System.start noConnection twoConnects) (connectCalls 0 1 ++
      connectCalls 1 1 ++ connectCalls 0 4 ++ connectCalls 1 5)).map (fun config ↦
        (bothReturned config, config.shared.accounts,
          config.shared.table.rows.map (·.composioAccountId), revokedAccounts config.trace)) =
      some (true, ["second", "first"], [some "second"], []) := by decide
  obtain ⟨config, hreach, hview⟩ := machine.exists_reachable hreplay
  simp only [Prod.mk.injEq] at hview
  obtain ⟨hreturned, haccounts, hrows, hrevoked⟩ := hview
  refine ⟨config, hreach, returned_of_bothReturned hreturned, fun horphan ↦ ?_⟩
  rcases horphan "first" (by rw [haccounts]; decide) (by decide) with ⟨row, hmem, -, hbound⟩ | hpassed
  · have hsecond := List.mem_map_of_mem (f := (·.composioAccountId)) hmem
    rw [hrows, hbound] at hsecond
    revert hsecond
    decide
  · have hmem := mem_revokedAccounts hpassed
    rw [hrevoked] at hmem
    cases hmem

/-- A connect after the other revokes its account. -/
theorem no_orphan_sequential :
    ∃ config, System.Reaches noConnection twoConnects config ∧
      config.shared.accounts = ["second", "first"] ∧
      ∀ account ∈ config.shared.accounts, account ∉ noConnection.accounts →
        BoundTo config.shared notion account ∨ PassedToRevoke account config.trace := by
  have hreplay : (machine.replay (System.start noConnection twoConnects)
      (connectCalls 0 5 ++ connectCalls 1 7)).map (fun config ↦
        (bothReturned config, config.shared.accounts,
          decide (BoundTo config.shared notion "second"),
          (firstFound config.trace).map (·.composioAccountId))) =
      some (true, ["second", "first"], true, [some "first"]) := by decide
  obtain ⟨config, hreach, hview⟩ := machine.exists_reachable hreplay
  simp only [Prod.mk.injEq] at hview
  obtain ⟨hreturned, haccounts, hbound, hfound⟩ := hview
  refine ⟨config, hreach, haccounts, ?_⟩
  refine (no_orphan_iff hreach (fun row hrow ↦ nomatch hrow)
    (fun i _ ↦ returned_of_bothReturned hreturned i) notion).mpr ?_
  intro account hmem _
  rw [haccounts] at hmem
  rcases List.mem_cons.mp hmem with rfl | hmem
  · exact .inl (of_decide_eq_true hbound)
  · right
    obtain rfl := List.mem_singleton.mp hmem
    obtain ⟨row, hrow, heq⟩ := List.mem_map.mp (hfound ▸ List.mem_cons_self)
    exact ⟨row, hrow, heq⟩

end MemoFlowApi.Connectors
