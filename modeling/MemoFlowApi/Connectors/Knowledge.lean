import MemoFlowApi.Connectors.Effects

/-!
# What a Request Knows

A request decides what to write from the rows it read first and from what Composio reported to it.
This typestate of all requests keeps both, and says which updates each function makes: a webhook or a
reconcile writes a status that was reported for the account of a row that was not terminal when it
was read.
-/

namespace MemoFlowApi.Connectors

open Concurrency

/-- The rows of a request's first query, and what Composio reported to it. -/
structure Knowledge where
  read : Option (List ConnectorConnection) := none
  reports : List (AccountId × ConnectorStatus) := []

/-- The first query that answers decides. -/
def Knowledge.learn (φ : Knowledge) (rows : List ConnectorConnection) : Knowledge :=
  { φ with read := φ.read <|> some rows }

def Knowledge.hear (φ : Knowledge) (account : AccountId) (status : ConnectorStatus) : Knowledge :=
  { φ with reports := (account, status) :: φ.reports }

/-- The calls that teach a request nothing. -/
def Op.Silent : Op → Bool
  | .insert _ | .initiateConnection _ | .revoke _ | .now | .emit _ => true
  | _ => false

/-- The moves of a request. -/
inductive Knows : Knowledge → (op : Op) → Outcome ConnectorError (Ans op) → Knowledge → Prop
  | findOne {φ criteria found} :
      Knows φ (.findOne criteria) (.returned found) (φ.learn found.toList)
  | find {φ userId found} : Knows φ (.find userId) (.returned found) (φ.learn found)
  | ignore {φ rawBody headers} : Knows φ (.verifyWebhook rawBody headers) (.returned none) φ
  | webhook {φ rawBody headers event} :
      Knows φ (.verifyWebhook rawBody headers) (.returned (some event))
        (φ.hear event.composioAccountId event.status)
  | lookup {φ account status} :
      Knows φ (.getConnectionStatus account) (.returned status) (φ.hear account status)
  | apply {φ rows connection account patch} {o : Outcome ConnectorError Unit} (read : φ.read = some rows)
      (mem : connection ∈ rows) (going : ¬ connection.status.Terminal)
      (bound : connection.composioAccountId = some account)
      (reported : (account, patch.status) ∈ φ.reports) (kept : patch.composioAccountId = none) :
      Knows φ (.update .applyStatus connection.id patch) o φ
  | reset {φ id} {data : UpsertInitiatedData} {o : Outcome ConnectorError Unit} :
      Knows φ (.update .upsertInitiated id data.patch) o φ
  | revoke {φ id} {o : Outcome ConnectorError Unit} :
      Knows φ (.update .revokeConnection id { status := .revoked }) o φ
  | silent {φ op o} (silent : op.Silent = true) : Knows φ op o φ
  | fail {φ op o} (failed : o.Failed) (reads : ∀ writer id patch, op ≠ .update writer id patch) :
      Knows φ op o φ

/-- The typestate of every request. -/
def knowledge : Typestate Ans ConnectorError Knowledge := ⟨Knows⟩

/-- Following what a request knows. -/
abbrev knowledgeSpec {ι : Type} (i : ι) : CallSpec Ans ConnectorError Knowledge :=
  knowledge.spec ((world ι).Possible ConnectorError i)

/-- Two states of a request that has read: the second knows more. -/
def Knowledge.Le (φ ψ : Knowledge) : Prop :=
  φ.read.isSome ∧ φ.read = ψ.read ∧ φ.reports ⊆ ψ.reports

theorem Knowledge.learn_of_read {φ : Knowledge} {rows : List ConnectorConnection}
    (h : φ.read.isSome) : φ.learn rows = φ := by
  obtain ⟨read, reports⟩ := φ
  cases read with
  | none => cases h
  | some rows' => rfl

theorem knowledge_monotone {ι : Type} (i : ι) : (knowledgeSpec i).Monotone Knowledge.Le := by
  refine Typestate.monotone_spec (fun {φ op o φ'} hle next ↦ ?_) fun {φ ψ op o φ'} hle next ↦ ?_
  · obtain ⟨hread, -, -⟩ := hle
    have hself : φ.Le φ ∧ φ.Le φ := ⟨⟨hread, rfl, List.Subset.refl _⟩, hread, rfl, List.Subset.refl _⟩
    cases next with
    | findOne => rwa [φ.learn_of_read hread]
    | find => rwa [φ.learn_of_read hread]
    | webhook =>
      exact ⟨⟨hread, rfl, List.subset_cons_self _ _⟩, hread, rfl, List.Subset.refl _⟩
    | lookup => exact ⟨⟨hread, rfl, List.subset_cons_self _ _⟩, hread, rfl, List.Subset.refl _⟩
    | _ => exact hself
  · obtain ⟨hread, hsame, hreports⟩ := hle
    have hread' : ψ.read.isSome := hsame ▸ hread
    cases next with
    | findOne =>
      rw [φ.learn_of_read hread]
      exact ⟨_, .findOne, by rw [ψ.learn_of_read hread']; exact ⟨hread, hsame, hreports⟩⟩
    | find =>
      rw [φ.learn_of_read hread]
      exact ⟨_, .find, by rw [ψ.learn_of_read hread']; exact ⟨hread, hsame, hreports⟩⟩
    | ignore => exact ⟨_, .ignore, hread, hsame, hreports⟩
    | webhook => exact ⟨_, .webhook, hread, hsame, List.cons_subset_cons _ hreports⟩
    | lookup => exact ⟨_, .lookup, hread, hsame, List.cons_subset_cons _ hreports⟩
    | apply read mem going bound reported kept =>
      exact ⟨_, .apply (hsame ▸ read) mem going bound (hreports reported) kept, hread, hsame, hreports⟩
    | reset => exact ⟨_, .reset, hread, hsame, hreports⟩
    | revoke => exact ⟨_, .revoke, hread, hsame, hreports⟩
    | silent silent => exact ⟨_, .silent silent, hread, hsame, hreports⟩
    | fail failed reads => exact ⟨_, .fail failed reads, hread, hsame, hreports⟩

section Programs

variable {ι : Type} {i : ι} {φ : Knowledge} {rows : List ConnectorConnection}
  {connection : ConnectorConnection}

/-- A call that teaches nothing. -/
theorem wp_silent {op : Op} {Q : Ans op → Knowledge → Prop}
    {E : ConnectorError → Knowledge → Prop} (silent : op.Silent = true) (hQ : ∀ a, Q a φ)
    (hE : ∀ e, E e φ) : (await op).wp (knowledgeSpec i) Q E φ :=
  Typestate.wp_perform (fun a _ ↦ ⟨φ, .silent silent, hQ a⟩) (fun e _ ↦ ⟨φ, .silent silent, hE e⟩)
    fun e _ ↦ ⟨φ, .silent silent, hE e⟩

/-- A query. -/
theorem wp_findOne {criteria : Criteria} {Q : Option ConnectorConnection → Knowledge → Prop}
    {E : ConnectorError → Knowledge → Prop}
    (hQ : ∀ found, (∀ row ∈ found, criteria.Matches row = true) → Q found (φ.learn found.toList))
    (hE : ∀ e, E e φ) : (await (.findOne criteria)).wp (knowledgeSpec i) Q E φ := by
  refine Typestate.wp_perform (fun found hpossible ↦ ⟨_, .findOne, hQ found ?_⟩)
    (fun e _ ↦ ⟨φ, .fail trivial nofun, hE e⟩) fun e _ ↦ ⟨φ, .fail trivial nofun, hE e⟩
  rintro row ⟨⟩
  obtain ⟨s, s', answers⟩ := hpossible
  exact (found_of_findOne answers).2.1

/-- A query of a request that has read before. -/
theorem wp_findOne_again {criteria : Criteria} {Q : Option ConnectorConnection → Knowledge → Prop}
    {E : ConnectorError → Knowledge → Prop} (read : φ.read.isSome) (hQ : ∀ found, Q found φ)
    (hE : ∀ e, E e φ) : (await (.findOne criteria)).wp (knowledgeSpec i) Q E φ := by
  refine wp_findOne (fun found _ ↦ ?_) hE
  rw [φ.learn_of_read read]
  exact hQ found

/-- An update that a request may make, whatever becomes of it. -/
theorem wp_update {writer : Writer} {id : ConnectionId} {patch : UpdateConnectorStatusData}
    {Q : Unit → Knowledge → Prop} {E : ConnectorError → Knowledge → Prop}
    (allowed : ∀ o, Knows φ (.update writer id patch) o φ) (hQ : Q () φ) (hE : ∀ e, E e φ) :
    (await (.update writer id patch)).wp (knowledgeSpec i) Q E φ :=
  Typestate.wp_perform (fun _ _ ↦ ⟨φ, allowed _, hQ⟩) (fun e _ ↦ ⟨φ, allowed _, hE e⟩)
    fun e _ ↦ ⟨φ, allowed _, hE e⟩

theorem updateStatus_knows {writer : Writer} {id : ConnectionId}
    {patch : UpdateConnectorStatusData} {Q : Option ConnectorConnection → Knowledge → Prop}
    {E : ConnectorError → Knowledge → Prop} (read : φ.read.isSome)
    (allowed : ∀ o, Knows φ (.update writer id patch) o φ) (hQ : ∀ found, Q found φ)
    (hE : ∀ e, E e φ) : (updateStatus writer id patch).wp (knowledgeSpec i) Q E φ := by
  unfold updateStatus
  rw [Program.wp_bind]
  refine wp_findOne_again read (fun found ↦ ?_) hE
  cases found with
  | none => exact hQ none
  | some row =>
    dsimp only
    rw [Program.wp_bind]
    exact wp_update allowed (wp_findOne_again read hQ hE) hE

/-- A status that was reported for the account of a row that was read. -/
theorem connectedAtPatch_knows {status : ConnectorStatus}
    {Q : Option (Option Time) → Knowledge → Prop} {E : ConnectorError → Knowledge → Prop}
    (hQ : ∀ connectedAt, Q connectedAt φ) (hE : ∀ e, E e φ) :
    (connectedAtPatch connection status).wp (knowledgeSpec i) Q E φ := by
  unfold connectedAtPatch
  split
  · rw [Program.wp_bind]
    exact wp_silent rfl (fun time ↦ hQ _) hE
  · exact hQ none

theorem applyStatus_knows {status : ConnectorStatus} {account : AccountId}
    {Q : ConnectorConnection → Knowledge → Prop} {E : ConnectorError → Knowledge → Prop}
    (read : φ.read = some rows) (mem : connection ∈ rows)
    (bound : connection.composioAccountId = some account)
    (reported : (account, status) ∈ φ.reports) (hQ : ∀ row, Q row φ) (hE : ∀ e, E e φ) :
    (applyStatus connection status).wp (knowledgeSpec i) Q E φ := by
  have hread : φ.read.isSome := by rw [read]; rfl
  unfold applyStatus
  split
  · exact hQ _
  · split
    · exact hQ _
    · next going =>
      rw [Program.wp_bind]
      refine connectedAtPatch_knows (fun connectedAt ↦ ?_) hE
      rw [Program.wp_bind]
      refine updateStatus_knows hread (fun o ↦ .apply read mem going bound reported rfl)
        (fun found ↦ ?_) hE
      cases found with
      | none => exact hQ _
      | some updated =>
        dsimp only
        rw [Program.wp_bind]
        exact wp_silent rfl (fun _ ↦ hQ _) hE

theorem reconcile_knows {Q : ConnectorConnection → Knowledge → Prop}
    {E : ConnectorError → Knowledge → Prop} (read : φ.read = some rows) (mem : connection ∈ rows)
    (hQ : ∀ row ψ, ψ.read = some rows → Q row ψ) (hE : ∀ e ψ, ψ.read = some rows → E e ψ) :
    (reconcile connection).wp (knowledgeSpec i) Q E φ := by
  unfold reconcile
  split
  · exact hQ _ _ read
  · split
    · exact hQ _ _ read
    · next account haccount =>
      have hbound : connection.composioAccountId = some account :=
        (Option.filter_eq_some_iff.mp haccount).1
      rw [Program.wp_bind, Program.wp_attempt]
      refine Typestate.wp_perform (fun status _ ↦ ⟨_, .lookup, ?_⟩)
        (fun e _ ↦ ⟨φ, .fail trivial nofun, hQ _ _ read⟩)
        fun e _ ↦ ⟨φ, .fail trivial nofun, hQ _ _ read⟩
      dsimp only
      split
      · exact hQ _ _ read
      · exact applyStatus_knows read mem hbound List.mem_cons_self (fun row ↦ hQ row _ read)
          fun e ↦ hE e _ read

theorem verifyAndApply_knows {rawBody : String} {headers : ConnectorWebhookHeaders} :
    (verifyAndApply rawBody headers).Follows (knowledgeSpec i) {} := by
  unfold verifyAndApply Program.Follows
  rw [Program.wp_bind, Program.wp_attempt]
  refine Typestate.wp_perform (fun event _ ↦ ?_) (fun e _ ↦ ⟨_, .fail trivial nofun, trivial⟩)
    fun e _ ↦ ⟨_, .fail trivial nofun, trivial⟩
  cases event with
  | none => exact ⟨_, .ignore, trivial⟩
  | some event =>
    refine ⟨_, .webhook, ?_⟩
    dsimp only
    unfold applyEvent findByComposioAccountId
    rw [Program.wp_bind]
    refine wp_findOne (fun found matching ↦ ?_) fun _ ↦ trivial
    cases found with
    | none => trivial
    | some connection =>
      have hbound : connection.composioAccountId = some event.composioAccountId :=
        of_decide_eq_true (matching connection rfl)
      dsimp only
      rw [Program.wp_bind]
      exact applyStatus_knows rfl (List.mem_singleton.mpr rfl) hbound (List.mem_singleton.mpr rfl)
        (fun _ ↦ trivial) fun _ ↦ trivial

theorem getConnection_knows {connectionId : ConnectionId} {userId : UserId}
    {Q : ConnectorConnection → Knowledge → Prop} {E : ConnectorError → Knowledge → Prop}
    (hQ : ∀ row ψ, ψ.read.isSome → Q row ψ) (hE : ∀ e ψ, E e ψ) :
    (getConnection connectionId userId).wp (knowledgeSpec i) Q E {} := by
  unfold getConnection findById
  rw [Program.wp_bind]
  refine wp_findOne (fun found _ ↦ ?_) fun e ↦ hE e _
  cases found with
  | none => exact hE _ _
  | some connection =>
    dsimp only
    split
    · exact hE _ _
    · refine reconcile_knows rfl (List.mem_singleton.mpr rfl) (fun row ψ hread ↦ hQ row ψ ?_)
        fun e ψ _ ↦ hE e ψ
      rw [hread]
      rfl

theorem listConnections_knows {userId : UserId} {schedule : List ℕ} :
    (listConnections userId schedule).Follows (knowledgeSpec i) {} := by
  unfold listConnections findAllByUser Program.Follows
  rw [Program.wp_bind]
  refine Typestate.wp_perform (fun rows _ ↦ ⟨_, .find, ?_⟩)
    (fun e _ ↦ ⟨_, .fail trivial nofun, trivial⟩) fun e _ ↦ ⟨_, .fail trivial nofun, trivial⟩
  refine Program.Follows.all (knowledge_monotone i) schedule ⟨rfl, rfl, List.Subset.refl _⟩ ?_
  intro program hprogram
  obtain ⟨connection, hmem, rfl⟩ := List.mem_map.mp hprogram
  split
  · exact reconcile_knows rfl hmem (fun _ _ _ ↦ trivial) fun _ _ _ ↦ trivial
  · trivial

theorem revokeConnection_knows {connectionId : ConnectionId} {userId : UserId} :
    (revokeConnection connectionId userId).Follows (knowledgeSpec i) {} := by
  unfold revokeConnection Program.Follows
  rw [Program.wp_bind]
  refine getConnection_knows (fun connection ψ hread ↦ ?_) fun _ _ ↦ trivial
  split
  · trivial
  · rw [Program.wp_bind]
    have hupdate : (do
        let updated ← updateStatus .revokeConnection connection.id { status := .revoked }
        let result := updated.getD connection
        await (.emit (.revoked userId result.id result.provider))
        return result : Async ConnectorConnection).wp (knowledgeSpec i) (fun _ _ ↦ True)
          (fun _ _ ↦ True) ψ := by
      rw [Program.wp_bind]
      refine updateStatus_knows hread (fun _ ↦ .revoke) (fun found ↦ ?_) fun _ ↦ trivial
      dsimp only
      rw [Program.wp_bind]
      exact wp_silent rfl (fun _ ↦ trivial) fun _ ↦ trivial
    unfold revokeAccount
    split
    · exact hupdate
    · exact wp_silent rfl (fun _ ↦ hupdate) fun _ ↦ trivial

theorem upsertInitiated_knows {data : UpsertInitiatedData}
    {Q : Option ConnectorConnection → Knowledge → Prop} {E : ConnectorError → Knowledge → Prop}
    (hread : φ.read.isSome) (hQ : ∀ found, Q found φ) (hE : ∀ e, E e φ) :
    (upsertInitiated data).wp (knowledgeSpec i) Q E φ := by
  have hreset : ∀ id, (resetInitiated id data).wp (knowledgeSpec i) Q E φ := by
    intro id
    unfold resetInitiated findById
    rw [Program.wp_bind]
    exact wp_update (fun _ ↦ .reset) (wp_findOne_again hread hQ hE) hE
  unfold upsertInitiated findByUserAndProvider
  rw [Program.wp_bind]
  refine wp_findOne_again hread (fun existing ↦ ?_) hE
  cases existing with
  | some existing => exact hreset existing.id
  | none =>
    dsimp only
    rw [Program.wp_bind]
    refine wp_silent rfl (fun saved ↦ ?_) hE
    cases saved with
    | some saved => exact hQ _
    | none =>
      dsimp only
      rw [Program.wp_bind]
      refine wp_findOne_again hread (fun winner ↦ ?_) hE
      cases winner with
      | none => exact hE _
      | some winner => exact hreset winner.id

theorem initiateConnection_knows {input : InitiateConnectionInput} :
    (initiateConnection input).Follows (knowledgeSpec i) {} := by
  unfold initiateConnection findByUserAndProvider Program.Follows
  rw [Program.wp_bind]
  refine wp_findOne (fun previous _ ↦ ?_) fun _ ↦ trivial
  rw [Program.wp_bind]
  refine wp_silent rfl (fun initiated ↦ ?_) fun _ ↦ trivial
  rw [Program.wp_bind]
  refine upsertInitiated_knows rfl (fun row ↦ ?_) fun _ ↦ trivial
  rw [Program.wp_bind]
  refine wp_silent rfl (fun _ ↦ ?_) fun _ ↦ trivial
  cases row with
  | none => trivial
  | some row =>
    dsimp only
    rw [Program.wp_bind]
    unfold revokeReplacedAccount
    split
    · trivial
    · rw [Program.wp_bind, Program.wp_attempt]
      exact wp_silent rfl (fun _ ↦ trivial) fun _ ↦ trivial

/-- Every request follows what it knows. -/
theorem program_knows (request : Request) : request.program.Follows (knowledgeSpec i) {} := by
  have hdiscard : ∀ {α : Type} {program : Async α}, program.Follows (knowledgeSpec i) {} →
      (do
        let _ ← program : Async Unit).Follows (knowledgeSpec i) {} := by
    intro α program h
    unfold Program.Follows
    rw [Program.wp_bind]
    exact h
  cases request with
  | webhook rawBody headers => exact verifyAndApply_knows
  | getById connectionId userId =>
    exact hdiscard (getConnection_knows (fun _ _ _ ↦ trivial) fun _ _ ↦ trivial)
  | list userId schedule => exact hdiscard listConnections_knows
  | revoke connectionId userId => exact hdiscard revokeConnection_knows
  | connect input => exact hdiscard initiateConnection_knows

end Programs

/-! ## Runs -/

section Runs

variable {ι : Type} [DecidableEq ι]

/-- Runs in which every request is known by what it knows. -/
abbrev KnowledgeRun (state : ConnectorState) :
    ConnectorState → (ι → Knowledge) → List (Call ι) → Prop :=
  (world ι).Tracked (fun _ ↦ knowledge) state fun _ ↦ {}

theorem System.Reaches.exists_knowledgeRun {state : ConnectorState} {requests : ι → Request}
    {config : System ι} (h : System.Reaches state requests config) :
    ∃ φ, KnowledgeRun state config.shared φ config.trace := by
  have hfollows : ∀ i, ((System.start state requests).threads i).wp
      (knowledge.spec ((world ι).Possible ConnectorError i)) (fun _ _ ↦ True) (fun _ _ ↦ True) {} :=
    fun i ↦ program_knows (requests i)
  obtain ⟨φ, hrun, -⟩ := World.exists_tracked (T := fun _ ↦ knowledge) rfl hfollows h
  exact ⟨φ, hrun⟩

end Runs

end MemoFlowApi.Connectors
