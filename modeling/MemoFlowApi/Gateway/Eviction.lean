import MemoFlowApi.Concurrency.Typestate
import MemoFlowApi.Gateway.Sockets

/-!
# No Socket Survives Revocation

A socket joins its room before its account is read, so whoever changes the account afterwards finds it
there.  While a socket is connected, its session is the current one of an enabled account, or the
operation that changed the account has not yet evicted the room (`Fine`).
-/

namespace MemoFlowApi.Gateway

open Concurrency

variable {ι : Type}

/-! ## Phases -/

/-- How far a handshake or an operation has come. -/
inductive Phase where
  | idle
  | connected
  | verified (payload : JwtPayload)
  | joined (payload : JwtPayload)
  | read (payload : JwtPayload) (account : Account)
  /-- The handshake is refused, and its socket is about to be disconnected. -/
  | refused
  /-- The handshake has ended. -/
  | ended
  /-- An operation has changed an account, and its event is due. -/
  | written (userId : UserId)
  /-- An operation has evicted a room. -/
  | evicted

/-- No phase of a handshake that has begun. -/
def Phase.Outside : Phase → Prop
  | idle => True
  | written _ => True
  | evicted => True
  | _ => False

/-- The calls of a caller. -/
inductive Moves (i : ι) : Phase → (op : Op ι) → Outcome GatewayError (Ans op) → Phase → Prop
  | connect : Moves i .idle .connect (.returned ()) .connected
  | verify {token payload} : Moves i .connected (.verify token) (.returned payload) (.verified payload)
  | verifyFails {token o} (failed : o.Failed) : Moves i .connected (.verify token) o .refused
  | join {payload} : Moves i (.verified payload) (.join payload.sub) (.returned ()) (.joined payload)
  | findUser {payload account} :
      Moves i (.joined payload) (.findUser payload.sub) (.returned (some account)) (.read payload account)
  | findNobody {payload} : Moves i (.joined payload) (.findUser payload.sub) (.returned none) .refused
  | findFails {payload o} (failed : o.Failed) : Moves i (.joined payload) (.findUser payload.sub) o .refused
  | refuse {payload account} : Moves i (.read payload account) (.disconnect i) (.returned ()) .ended
  | accept {payload account} (enabled : account.isDisabled = false)
      (current : payload.version = account.tokenVersion) :
      Moves i (.read payload account) (.accept payload) (.returned ()) .ended
  | drop : Moves i .refused (.disconnect i) (.returned ()) .ended
  | dropAtOnce : Moves i .connected (.disconnect i) (.returned ()) .ended
  | leave {socket} : Moves i .idle (.disconnect socket) (.returned ()) .idle
  | expire {socket} : Moves i .idle (.expire socket) (.returned ()) .idle
  | look {id o} : Moves i .idle (.findUser id) o .idle
  | lost {op error} (writes : op.account ≠ none) : Moves i .idle op (.lost error) .idle
  | missing {id} : Moves i .idle (.raiseTokenVersion id) (.returned none) .idle
  | enable {id o} : Moves i .idle (.enable id) o .idle
  | write {op id o} (writes : op.account = some id) (took : o.TookEffect) : Moves i .idle op o (.written id)
  | sign {id id' tokenVersion o} : Moves i (.written id) (.sign id' tokenVersion) o (.written id)
  | lookAgain {id id' o} : Moves i (.written id) (.findUser id') o (.written id)
  | evict {id} : Moves i (.written id) (.evict id) (.returned ()) .evicted
  | evictAgain {id} : Moves i .idle (.evict id) (.returned ()) .evicted

def moves (i : ι) : Typestate (Ans (ι := ι)) GatewayError Phase := ⟨Moves i⟩

section Conformance

variable [DecidableEq ι] {i : ι}

abbrev Answered (i : ι) := (sessions ι).world.Possible GatewayError i

/-- A handshake that has ended, or has not begun. -/
abbrev Follows (i : ι) (program : Async ι Unit) (φ : Phase) (ending : Phase → Prop) : Prop :=
  program.wp ((moves i).spec (Answered i)) (fun _ ↦ ending) (fun _ ↦ ending) φ

theorem admitToken_follows (token : String) :
    (admitToken i token).wp ((moves i).spec (Answered i)) (fun _ φ ↦ φ = .ended)
      (fun _ φ ↦ φ = .refused) .connected := by
  unfold admitToken
  rw [Program.wp_bind]
  refine Typestate.wp_perform (fun payload _ ↦ ⟨_, .verify, ?_⟩) (fun _ _ ↦ ⟨_, .verifyFails trivial, rfl⟩)
    (fun _ _ ↦ ⟨_, .verifyFails trivial, rfl⟩)
  rw [Program.wp_bind]
  refine World.wp_answered Bool.false_ne_true fun _ ↦ ⟨_, .join, ?_⟩
  rw [Program.wp_bind]
  refine Typestate.wp_perform (fun account _ ↦ ?_) (fun _ _ ↦ ⟨_, .findFails trivial, rfl⟩)
    (fun _ _ ↦ ⟨_, .findFails trivial, rfl⟩)
  cases account with
  | none => exact ⟨_, .findNobody, rfl⟩
  | some account =>
    refine ⟨_, .findUser, ?_⟩
    by_cases hrefused : account.isDisabled = true ∨ payload.version ≠ account.tokenVersion
    · simp only [if_pos hrefused]
      exact World.wp_answered Bool.false_ne_true fun _ ↦ ⟨_, .refuse, rfl⟩
    · simp only [if_neg hrefused]
      obtain ⟨henabled, hcurrent⟩ := not_or.mp hrefused
      exact World.wp_answered Bool.false_ne_true fun _ ↦
        ⟨_, .accept (Bool.eq_false_iff.mpr henabled) (not_not.mp hcurrent), rfl⟩

/-- A handshake ends. -/
theorem handleConnection_follows (token : Option String) :
    Follows i (handleConnection i token) .idle (· = .ended) := by
  unfold Follows handleConnection
  rw [Program.wp_bind]
  refine World.wp_answered Bool.false_ne_true fun _ ↦ ⟨_, .connect, ?_⟩
  cases token with
  | none => exact World.wp_answered Bool.false_ne_true fun _ ↦ ⟨_, .dropAtOnce, rfl⟩
  | some token =>
    dsimp only
    rw [Program.wp_bind, Program.wp_attempt]
    refine Program.wp_mono (fun _ φ hφ ↦ hφ) (fun _ φ hφ ↦ ?_) (admitToken_follows token)
    subst hφ
    exact World.wp_answered Bool.false_ne_true fun _ ↦ ⟨_, .drop, rfl⟩

/-- The event of a change is due until it evicts the room. -/
theorem evict_follows (id : UserId) :
    Follows i (await (.evict id)) (.written id) Phase.Outside :=
  World.wp_answered Bool.false_ne_true fun _ ↦ ⟨_, .evict, trivial⟩

theorem disableUser_follows (input : ActorInput) (now : ℕ) :
    Follows i (disableUser input now) .idle Phase.Outside := by
  unfold Follows disableUser
  split
  · trivial
  · split
    · trivial
    · rw [Program.wp_bind]
      refine Typestate.wp_perform (fun account _ ↦ ⟨_, .look, ?_⟩) (fun _ _ ↦ ⟨_, .look, trivial⟩)
        (fun _ _ ↦ ⟨_, .look, trivial⟩)
      cases account with
      | none => trivial
      | some account =>
        by_cases hdisabled : (!account.isDisabled) = true
        · simp only [if_pos hdisabled]
          rw [Program.wp_bind]
          exact Typestate.wp_perform (fun _ _ ↦ ⟨_, .write rfl trivial, evict_follows _⟩)
            (fun _ _ ↦ ⟨_, .lost (Option.some_ne_none _), trivial⟩)
            (fun _ _ ↦ ⟨_, .write rfl trivial, trivial⟩)
        · simp only [if_neg hdisabled]
          exact World.wp_answered Bool.false_ne_true fun _ ↦ ⟨_, .evictAgain, trivial⟩

theorem enableUser_follows (input : ActorInput) :
    Follows i (enableUser input) .idle Phase.Outside := by
  unfold Follows enableUser
  split
  · trivial
  · rw [Program.wp_bind]
    refine Typestate.wp_perform (fun account _ ↦ ⟨_, .look, ?_⟩) (fun _ _ ↦ ⟨_, .look, trivial⟩)
      (fun _ _ ↦ ⟨_, .look, trivial⟩)
    cases account with
    | none => trivial
    | some account =>
      by_cases hdisabled : (!account.isDisabled) = true
      · simp only [if_pos hdisabled]
        trivial
      · simp only [if_neg hdisabled]
        exact Typestate.wp_perform (fun _ _ ↦ ⟨_, .enable, trivial⟩) (fun _ _ ↦ ⟨_, .enable, trivial⟩)
          (fun _ _ ↦ ⟨_, .enable, trivial⟩)

/-- Raising the version of a session is a change whose event is due. -/
theorem raiseTokenVersion_follows {id : UserId} {rest : Option ℕ → Async ι Unit}
    (hnone : Follows i (rest none) .idle Phase.Outside)
    (hsome : ∀ tokenVersion, Follows i (rest (some tokenVersion)) (.written id) Phase.Outside) :
    Follows i (await (.raiseTokenVersion id) >>= rest) .idle Phase.Outside := by
  unfold Follows
  rw [Program.wp_bind]
  refine Typestate.wp_perform (fun tokenVersion _ ↦ ?_) (fun _ _ ↦ ⟨_, .lost (Option.some_ne_none _), trivial⟩)
    (fun _ _ ↦ ⟨_, .write rfl trivial, trivial⟩)
  cases tokenVersion with
  | none => exact ⟨_, .missing, hnone⟩
  | some tokenVersion => exact ⟨_, .write rfl trivial, hsome tokenVersion⟩

/-- A caller follows its phases, and ends its handshake when it has begun one. -/
theorem program_follows (request : Request ι) :
    Follows i (request.program i) .idle fun φ ↦ φ = .ended ∨ φ.Outside := by
  have houtside : ∀ {program : Async ι Unit}, Follows i program .idle Phase.Outside →
      Follows i program .idle fun φ ↦ φ = .ended ∨ φ.Outside :=
    Program.wp_mono (fun _ _ ↦ .inr) fun _ _ ↦ .inr
  cases request with
  | connect token =>
    exact Program.wp_mono (fun _ _ ↦ .inl) (fun _ _ ↦ .inl) (handleConnection_follows token)
  | leave socket => exact World.wp_answered Bool.false_ne_true fun _ ↦ ⟨_, .leave, .inr trivial⟩
  | expire socket => exact World.wp_answered Bool.false_ne_true fun _ ↦ ⟨_, .expire, .inr trivial⟩
  | disable input now => exact houtside (disableUser_follows input now)
  | enable input => exact houtside (enableUser_follows input)
  | logout id => exact houtside (raiseTokenVersion_follows trivial fun _ ↦ evict_follows id)
  | changePassword id =>
    refine houtside (raiseTokenVersion_follows trivial fun tokenVersion ↦ ?_)
    unfold Follows
    dsimp only
    rw [Program.wp_bind]
    exact Typestate.wp_perform (fun _ _ ↦ ⟨_, .sign, evict_follows id⟩) (fun _ _ ↦ ⟨_, .sign, trivial⟩)
      (fun _ _ ↦ ⟨_, .sign, trivial⟩)
  | resetPassword id =>
    refine houtside (raiseTokenVersion_follows trivial fun tokenVersion ↦ ?_)
    unfold Follows
    dsimp only
    rw [Program.wp_bind, Program.wp_attempt]
    exact Typestate.wp_perform (fun _ _ ↦ ⟨_, .lookAgain, evict_follows id⟩)
      (fun _ _ ↦ ⟨_, .lookAgain, evict_follows id⟩) (fun _ _ ↦ ⟨_, .lookAgain, evict_follows id⟩)

end Conformance

/-! ## Sockets -/

section Sound

variable {client : Client} {timer : Option Timer} {phase : Phase}
  {present present' : UserId → Prop} {fine fine' : UserId → ℕ → Prop}

/-- A socket in a phase of its handshake: which accounts are there, and which sessions are fine, is
given. -/
structure Sound (client : Client) (timer : Option Timer) (phase : Phase) (present : UserId → Prop)
    (fine : UserId → ℕ → Prop) : Prop where
  closed : client.connected = false → client.room = none ∧ timer = none
  timed : timer ≠ none → phase = .ended ∧ client.data ≠ none
  outside : phase.Outside → client.connected = false
  joined : ∀ payload, phase = .joined payload → client.connected = true →
    client.room = some payload.sub
  read : ∀ payload account, phase = .read payload account → client.connected = true →
    client.room = some payload.sub ∧ present payload.sub ∧
      (account.isDisabled = false → payload.version = account.tokenVersion →
        fine payload.sub payload.version)
  admitted : phase = .ended → client.connected = true → ∃ data, client.data = some data ∧
    client.room = some data.userId ∧ present data.userId ∧ timer ≠ none ∧
      fine data.userId data.tokenVersion

/-- Nothing is asked of a socket that is disconnected. -/
theorem Sound.of_disconnected (hclosed : client.connected = false) (hroom : client.room = none)
    (phase : Phase) (present : UserId → Prop) (fine : UserId → ℕ → Prop) :
    Sound client none phase present fine where
  closed _ := ⟨hroom, rfl⟩
  timed h := (h rfl).elim
  outside _ := hclosed
  joined _ _ h := by
    rw [hclosed] at h
    cases h
  read _ _ _ h := by
    rw [hclosed] at h
    cases h
  admitted _ h := by
    rw [hclosed] at h
    cases h

/-- What the room of a socket asks of the accounts is all that it asks of them. -/
theorem Sound.mono (h : Sound client timer phase present fine) (hpresent : ∀ id, present id → present' id)
    (hfine : ∀ id version, client.room = some id → fine id version → fine' id version) :
    Sound client timer phase present' fine' where
  closed := h.closed
  timed := h.timed
  outside := h.outside
  joined := h.joined
  read payload account hphase hconnected := by
    obtain ⟨hroom, hpayload, haccount⟩ := h.read payload account hphase hconnected
    exact ⟨hroom, hpresent _ hpayload, fun henabled hcurrent ↦ hfine _ _ hroom (haccount henabled hcurrent)⟩
  admitted hphase hconnected := by
    obtain ⟨data, hdata, hroom, hthere, htimer, hsession⟩ := h.admitted hphase hconnected
    exact ⟨data, hdata, hroom, hpresent _ hthere, htimer, hfine _ _ hroom hsession⟩

/-- A socket in a phase of its handshake that asks for nothing more. -/
theorem Sound.of_early (h : Sound client timer phase present fine) {phase' : Phase}
    (houtside : ¬phase'.Outside) (hended : phase ≠ .ended) (hended' : phase' ≠ .ended)
    (hjoined : ∀ payload, phase' = .joined payload → client.connected = true →
      client.room = some payload.sub)
    (hread : ∀ payload account, phase' = .read payload account → client.connected = true →
      client.room = some payload.sub ∧ present payload.sub ∧
        (account.isDisabled = false → payload.version = account.tokenVersion →
          fine payload.sub payload.version)) : Sound client timer phase' present fine where
  closed := h.closed
  timed htimer := (hended (h.timed htimer).1).elim
  outside h := (houtside h).elim
  joined := hjoined
  read := hread
  admitted h := (hended' h).elim

end Sound

section Good

variable {s s' : State ι} {φ : ι → Phase} {i : ι}

/-- The session is the current one of an enabled account, or an event that ends it is due. -/
def Fine (s : State ι) (φ : ι → Phase) (id : UserId) (version : ℕ) : Prop :=
  (∃ account, s.users id = some account ∧ account.isDisabled = false ∧ account.tokenVersion = version) ∨
    ∃ j, φ j = .written id

/-- All sockets are sound. -/
def Good (s : State ι) (φ : ι → Phase) : Prop :=
  ∀ socket, Sound (s.clients socket) (s.expiryTimers socket) (φ socket) (fun id ↦ s.users id ≠ none)
    (Fine s φ)

variable [DecidableEq ι]

/-- No event that is due is forgotten by a move from another phase. -/
theorem Fine.update {φ' : Phase} (h : ∀ id, φ i = .written id → φ' = .written id)
    (husers : s'.users = s.users) {id : UserId} {version : ℕ} (hfine : Fine s φ id version) :
    Fine s' (Function.update φ i φ') id version := by
  refine hfine.imp (fun haccount ↦ by rwa [husers]) ?_
  rintro ⟨j, hj⟩
  refine ⟨j, ?_⟩
  by_cases hji : j = i
  · subst hji
    rw [Function.update_self]
    exact h id hj
  · rwa [Function.update_of_ne hji]

omit [DecidableEq ι] in
/-- Each socket is sound anew, or nothing has changed that it depends on. -/
theorem Good.of_each (h : Good s φ) {ψ : ι → Phase} (hpresent : ∀ id, s.users id ≠ none → s'.users id ≠ none)
    (each : ∀ socket,
      Sound (s'.clients socket) (s'.expiryTimers socket) (ψ socket) (fun id ↦ s'.users id ≠ none)
          (Fine s' ψ) ∨
        s'.clients socket = s.clients socket ∧ s'.expiryTimers socket = s.expiryTimers socket ∧
          ψ socket = φ socket ∧ ∀ id version, (s.clients socket).room = some id →
            Fine s φ id version → Fine s' ψ id version) : Good s' ψ := by
  intro socket
  rcases each socket with hsound | ⟨hclient, htimer, hphase, hfine⟩
  · exact hsound
  · rw [hclient, htimer, hphase]
    exact (h socket).mono hpresent hfine

/-- Only the caller's socket changes, and its phase. -/
theorem Good.own (h : Good s φ) {φ' : Phase} (hwritten : ∀ id, φ i = .written id → φ' = .written id)
    (husers : s'.users = s.users) (hclients : ∀ j, j ≠ i → s'.clients j = s.clients j)
    (htimers : ∀ j, j ≠ i → s'.expiryTimers j = s.expiryTimers j)
    (hown : Sound (s'.clients i) (s'.expiryTimers i) φ' (fun id ↦ s'.users id ≠ none)
      (Fine s' (Function.update φ i φ'))) : Good s' (Function.update φ i φ') := by
  refine h.of_each (fun id hid ↦ by rwa [husers]) fun socket ↦ ?_
  by_cases hsocket : socket = i
  · subst hsocket
    rw [Function.update_self]
    exact .inl hown
  · exact .inr ⟨hclients socket hsocket, htimers socket hsocket, Function.update_of_ne hsocket _ _,
      fun id version _ hfine ↦ hfine.update hwritten husers⟩

/-- The caller's phase changes, and its socket does not. -/
theorem Good.phase (h : Good s φ) {φ' : Phase} (hwritten : ∀ id, φ i = .written id → φ' = .written id)
    (hown : Sound (s.clients i) (s.expiryTimers i) φ' (fun id ↦ s.users id ≠ none) (Fine s φ)) :
    Good s (Function.update φ i φ') := by
  refine h.own hwritten rfl (fun _ _ ↦ rfl) (fun _ _ ↦ rfl) ?_
  exact hown.mono (fun _ hid ↦ hid) fun id version _ hfine ↦ hfine.update hwritten rfl

/-- One socket changes. -/
theorem Good.socket (h : Good s φ) {k : ι} (husers : s'.users = s.users)
    (hclients : ∀ j, j ≠ k → s'.clients j = s.clients j)
    (htimers : ∀ j, j ≠ k → s'.expiryTimers j = s.expiryTimers j)
    (hsound : Sound (s'.clients k) (s'.expiryTimers k) (φ k) (fun id ↦ s.users id ≠ none) (Fine s φ)) :
    Good s' φ := by
  have hsame : ∀ id version, Fine s φ id version → Fine s' φ id version := by
    intro id version hfine
    unfold Fine
    rwa [husers]
  refine h.of_each (fun id hid ↦ by rwa [husers]) fun socket ↦ ?_
  by_cases hsocket : socket = k
  · subst hsocket
    refine .inl (hsound.mono (fun id hid ↦ by rwa [husers]) fun id version _ ↦ hsame id version)
  · exact .inr ⟨hclients socket hsocket, htimers socket hsocket, rfl, fun id version _ ↦ hsame id version⟩

omit [DecidableEq ι] in
/-- Callers outside of a handshake have no connected socket. -/
theorem Good.outside (h : Good s φ) (houtside : (φ i).Outside) {ψ : ι → Phase} (phase : Phase) :
    Sound (s.clients i) (s.expiryTimers i) phase (fun id ↦ s'.users id ≠ none) (Fine s' ψ) := by
  have hdisconnected := (h i).outside houtside
  obtain ⟨hroom, htimer⟩ := (h i).closed hdisconnected
  rw [htimer]
  exact .of_disconnected hdisconnected hroom _ _ _

theorem clients_disconnect_of_ne {k j : ι} (h : j ≠ k) : (s.disconnect k).clients j = s.clients j :=
  Function.update_of_ne h _ _

theorem expiryTimers_disconnect_of_ne {k j : ι} (h : j ≠ k) :
    (s.disconnect k).expiryTimers j = s.expiryTimers j := Function.update_of_ne h _ _

/-- A socket that is disconnected is sound. -/
theorem sound_disconnect (s : State ι) (k : ι) (phase : Phase) (present : UserId → Prop)
    (fine : UserId → ℕ → Prop) :
    Sound ((s.disconnect k).clients k) ((s.disconnect k).expiryTimers k) phase present fine := by
  have hclient : (s.disconnect k).clients k = { s.clients k with connected := false, room := none } :=
    Function.update_self _ _ _
  have htimer : (s.disconnect k).expiryTimers k = none := Function.update_self _ _ _
  rw [hclient, htimer]
  exact .of_disconnected rfl rfl _ _ _

/-- The two ways of setting a timer. -/
theorem scheduleExpiry_cases (s : State ι) (k : ι) (expiresAt : ℕ) :
    s.scheduleExpiry k expiresAt = s.disconnect k ∨ ∃ timer, s.scheduleExpiry k expiresAt =
      { s with expiryTimers := Function.update s.expiryTimers k (some timer) } := by
  unfold State.scheduleExpiry
  split
  · exact .inl rfl
  · exact .inr ⟨_, rfl⟩

/-! ## Steps of a handshake -/

omit [DecidableEq ι] in
/-- What is due stays due while a handshake moves on. -/
theorem not_written {phase : Phase} (φ' : Phase) (hphase : φ i = phase) (h : ∀ id, phase ≠ .written id) :
    ∀ id, φ i = .written id → φ' = .written id :=
  fun id hwritten ↦ (h id (hphase.symm.trans hwritten)).elim

theorem Good.connect (h : Good s φ) (hidle : φ i = .idle) :
    Good { s with
      clients := Function.update s.clients i { connected := true }
      expiryTimers := Function.update s.expiryTimers i none } (Function.update φ i .connected) := by
  refine h.own (not_written _ hidle (by rintro _ ⟨⟩)) rfl (fun j hj ↦ Function.update_of_ne hj _ _)
    (fun j hj ↦ Function.update_of_ne hj _ _) ?_
  dsimp only
  rw [Function.update_self, Function.update_self]
  refine ⟨by rintro ⟨⟩, fun h ↦ (h rfl).elim, False.elim, ?_, ?_, ?_⟩
  · rintro _ ⟨⟩
  · rintro _ _ ⟨⟩
  · rintro ⟨⟩

/-- A handshake that asks for nothing yet. -/
theorem Good.early (h : Good s φ) {phase φ' : Phase} (hphase : φ i = phase)
    (hwritten : ∀ id, phase ≠ .written id) (hended : phase ≠ .ended)
    (hearly : φ' = .refused ∨ ∃ payload, φ' = .verified payload) : Good s (Function.update φ i φ') := by
  refine h.phase (not_written _ hphase hwritten) ?_
  rcases hearly with rfl | ⟨payload, rfl⟩
  · exact (h i).of_early id (hphase ▸ hended) (by rintro ⟨⟩) (by rintro _ ⟨⟩) (by rintro _ _ ⟨⟩)
  · exact (h i).of_early id (hphase ▸ hended) (by rintro ⟨⟩) (by rintro _ ⟨⟩) (by rintro _ _ ⟨⟩)

theorem Good.join (h : Good s φ) {payload : JwtPayload} (hphase : φ i = .verified payload) {reply : Reply}
    (heffect : answer i reply (.join payload.sub) s = some ((), s')) :
    Good s' (Function.update φ i (.joined payload)) := by
  have hended : φ i ≠ .ended := by
    rw [hphase]
    rintro ⟨⟩
  have hwritten := not_written (.joined payload) hphase (by rintro _ ⟨⟩)
  unfold answer at heffect
  by_cases hconnected : (s.clients i).connected = true
  · simp only [if_pos hconnected] at heffect
    cases heffect
    refine h.own hwritten rfl (fun j hj ↦ Function.update_of_ne hj _ _) (fun _ _ ↦ rfl) ?_
    dsimp only
    rw [Function.update_self]
    refine ⟨fun hclosed ↦ ?_, fun htimer ↦ (hended ((h i).timed htimer).1).elim, False.elim, ?_, ?_, ?_⟩
    · rw [hconnected] at hclosed
      cases hclosed
    · rintro _ ⟨⟩ -
      rfl
    · rintro _ _ ⟨⟩
    · rintro ⟨⟩
  · simp only [if_neg hconnected] at heffect
    cases heffect
    refine h.phase hwritten ((h i).of_early id hended (by rintro ⟨⟩) ?_ (by rintro _ _ ⟨⟩))
    exact fun _ _ hopen ↦ (hconnected hopen).elim

theorem Good.findUser (h : Good s φ) {payload : JwtPayload} {account : Account}
    (hphase : φ i = .joined payload) (haccount : s.users payload.sub = some account) :
    Good s (Function.update φ i (.read payload account)) := by
  have hended : φ i ≠ .ended := by
    rw [hphase]
    rintro ⟨⟩
  refine h.phase (not_written _ hphase (by rintro _ ⟨⟩)) ((h i).of_early id hended (by rintro ⟨⟩)
    (by rintro _ ⟨⟩) ?_)
  rintro _ _ ⟨⟩ hconnected
  refine ⟨(h i).joined payload hphase hconnected, ?_, fun henabled hcurrent ↦ ?_⟩
  · rw [haccount]
    exact Option.some_ne_none account
  · exact .inl ⟨account, haccount, henabled, hcurrent.symm⟩

theorem Good.refuse (h : Good s φ) {phase : Phase} (hphase : φ i = phase)
    (hwritten : ∀ id, phase ≠ .written id) : Good (s.disconnect i) (Function.update φ i .ended) :=
  h.own (not_written _ hphase hwritten) rfl (fun _ hj ↦ clients_disconnect_of_ne hj)
    (fun _ hj ↦ expiryTimers_disconnect_of_ne hj) (sound_disconnect s i _ _ _)

omit [DecidableEq ι] in
/-- Waiting changes nothing but the clock. -/
theorem Good.wait (h : Good s φ) (elapsed : ℕ) : Good (s.wait elapsed) φ := h

theorem Good.accept (h : Good s φ) {payload : JwtPayload} {account : Account}
    (hphase : φ i = .read payload account) (henabled : account.isDisabled = false)
    (hcurrent : payload.version = account.tokenVersion) :
    Good (s.accept i payload) (Function.update φ i .ended) := by
  have hwritten := not_written .ended hphase (by rintro _ ⟨⟩)
  unfold State.accept
  split
  · next exp _ hconnected =>
    obtain ⟨hroom, hpresent, hfine⟩ := (h i).read payload account hphase hconnected
    rcases scheduleExpiry_cases s i (exp * 1000) with hschedule | ⟨timer, hschedule⟩
    · rw [hschedule]
      refine h.own hwritten rfl (fun j hj ↦ ?_) (fun j hj ↦ expiryTimers_disconnect_of_ne hj) ?_
      · exact (Function.update_of_ne hj _ _).trans (clients_disconnect_of_ne hj)
      · dsimp only
        have hclient : (s.disconnect i).clients i =
            { s.clients i with connected := false, room := none } := Function.update_self _ _ _
        have htimer : (s.disconnect i).expiryTimers i = none := Function.update_self _ _ _
        rw [Function.update_self, hclient, htimer]
        exact .of_disconnected rfl rfl _ _ _
    · rw [hschedule]
      refine h.own hwritten rfl (fun j hj ↦ Function.update_of_ne hj _ _)
        (fun j hj ↦ Function.update_of_ne hj _ _) ?_
      dsimp only
      rw [Function.update_self, Function.update_self]
      refine ⟨fun hclosed ↦ ?_, fun _ ↦ ⟨rfl, Option.some_ne_none _⟩, False.elim, ?_, ?_, fun _ _ ↦ ?_⟩
      · rw [hconnected] at hclosed
        cases hclosed
      · rintro _ ⟨⟩
      · rintro _ _ ⟨⟩
      · exact ⟨_, rfl, hroom, hpresent, Option.some_ne_none _,
          (hfine henabled hcurrent).update hwritten rfl⟩
  · exact h.refuse hphase (by rintro _ ⟨⟩)

/-! ## Clients that leave, and timers -/

theorem Good.leave (h : Good s φ) (k : ι) : Good (s.disconnect k) φ :=
  h.socket rfl (fun _ hj ↦ clients_disconnect_of_ne hj) (fun _ hj ↦ expiryTimers_disconnect_of_ne hj)
    (sound_disconnect s k _ _ _)

theorem Good.expire (h : Good s φ) {k : ι} (heffect : s.expire k = some s') : Good s' φ := by
  unfold State.expire at heffect
  split at heffect
  · cases heffect
  · next timer htimer =>
    split at heffect
    · obtain rfl := Option.some.inj heffect
      have hcleared : ∀ j, j ≠ k → Function.update s.expiryTimers k none j = s.expiryTimers j :=
        fun j hj ↦ Function.update_of_ne hj _ _
      rcases scheduleExpiry_cases { s with expiryTimers := Function.update s.expiryTimers k none } k
        timer.expiresAt with hschedule | ⟨again, hschedule⟩
      · rw [hschedule]
        refine h.socket rfl (fun j hj ↦ clients_disconnect_of_ne hj) (fun j hj ↦ ?_)
          (sound_disconnect _ k _ _ _)
        exact (expiryTimers_disconnect_of_ne hj).trans (hcleared j hj)
      · rw [hschedule]
        refine h.socket (k := k) rfl (fun _ _ ↦ rfl) (fun j hj ↦ ?_) ?_
        · exact (Function.update_of_ne hj _ _).trans (hcleared j hj)
        · have hset : s.expiryTimers k ≠ none := by
            rw [htimer]
            exact Option.some_ne_none timer
          dsimp only
          rw [Function.update_self]
          refine ⟨fun hclosed ↦ (hset ((h k).closed hclosed).2).elim, fun _ ↦ (h k).timed hset,
            (h k).outside, (h k).joined, (h k).read, fun hended hconnected ↦ ?_⟩
          obtain ⟨data, hdata, hroom, hpresent, -, hfine⟩ := (h k).admitted hended hconnected
          exact ⟨data, hdata, hroom, hpresent, Option.some_ne_none _, hfine⟩
    · cases heffect

/-! ## Operations -/

omit [DecidableEq ι] in
theorem setAccount_users_ne_none {id id' : UserId} {change : Account → Account}
    (h : s.users id' ≠ none) : (s.setAccount id change).users id' ≠ none := by
  unfold State.setAccount
  dsimp only
  by_cases hid : id' = id
  · subst hid
    rw [Function.update_self]
    exact fun hnone ↦ h (Option.map_eq_none_iff.mp hnone)
  · rwa [Function.update_of_ne hid]

omit [DecidableEq ι] in
/-- The sessions of enabled accounts are not touched by enabling an account. -/
theorem Good.enable (h : Good s φ) (id : UserId) :
    Good (s.setAccount id fun account ↦ { account with disabledAt := none }) φ := by
  refine h.of_each (fun id' hid' ↦ setAccount_users_ne_none hid') fun socket ↦ .inr ⟨rfl, rfl, rfl, ?_⟩
  rintro id' version - (⟨account, haccount, henabled, hversion⟩ | hdue)
  · refine .inl ?_
    by_cases hid : id' = id
    · subst hid
      refine ⟨{ account with disabledAt := none }, ?_, rfl, hversion⟩
      unfold State.setAccount
      dsimp only
      rw [Function.update_self, haccount, Option.map_some]
    · exact ⟨account, (Function.update_of_ne hid _ _).trans haccount, henabled, hversion⟩
  · exact .inr hdue

/-- From the change of an account until its event, no session of the account is asked to be current. -/
theorem Good.write (h : Good s φ) (hidle : φ i = .idle) (id : UserId) (change : Account → Account) :
    Good (s.setAccount id change) (Function.update φ i (.written id)) := by
  refine h.of_each (fun id' hid' ↦ setAccount_users_ne_none hid') fun socket ↦ ?_
  by_cases hsocket : socket = i
  · subst hsocket
    rw [Function.update_self]
    exact .inl (h.outside (by rw [hidle]; trivial) _)
  · refine .inr ⟨rfl, rfl, Function.update_of_ne hsocket _ _, fun id' version _ hfine ↦ ?_⟩
    by_cases hid : id' = id
    · subst hid
      exact .inr ⟨i, Function.update_self _ _ _⟩
    · have hsame : Fine s (Function.update φ i (.written id)) id' version :=
        hfine.update (not_written _ hidle (by rintro _ ⟨⟩)) rfl
      rcases hsame with ⟨account, haccount, hsession⟩ | hdue
      · exact .inl ⟨account, (Function.update_of_ne hid _ _).trans haccount, hsession⟩
      · exact .inr hdue

/-- The event of a change disconnects whoever it concerns. -/
theorem Good.evict (h : Good s φ) {id : UserId} (hphase : φ i = .idle ∨ φ i = .written id) :
    Good (s.evict id) (Function.update φ i .evicted) := by
  have houtside : (φ i).Outside := by
    rcases hphase with hphase | hphase <;> rw [hphase] <;> trivial
  refine h.of_each (fun _ hid' ↦ hid') fun socket ↦ ?_
  unfold State.evict
  dsimp only
  by_cases hroom : (s.clients socket).room = some id
  · rw [if_pos hroom, if_pos hroom]
    exact .inl (.of_disconnected rfl rfl _ _ _)
  · rw [if_neg hroom, if_neg hroom]
    by_cases hsocket : socket = i
    · subst hsocket
      exact .inl (h.outside houtside _)
    · refine .inr ⟨rfl, rfl, Function.update_of_ne hsocket _ _, fun id' version hroom' hfine ↦ ?_⟩
      refine hfine.imp_right ?_
      rintro ⟨j, hj⟩
      refine ⟨j, ?_⟩
      rwa [Function.update_of_ne]
      rintro rfl
      rcases hphase with hphase | hphase
      · cases hphase.symm.trans hj
      · obtain rfl := Phase.written.inj (hphase.symm.trans hj)
        exact hroom hroom'

end Good

/-! ## Runs -/

section Runs

variable [DecidableEq ι]

abbrev GatewayEvent (ι : Type) := Event ι (State ι) (Ans (ι := ι)) GatewayError

omit [DecidableEq ι] in
/-- The call has changed an account and ends its sessions. -/
def writes (event : GatewayEvent ι) : Bool :=
  event.outcome.TookEffect ∧ event.op.account.any fun id ↦ (event.before.users id).isSome

omit [DecidableEq ι] in
/-- The call is an event that evicts a room. -/
def Op.evicts : Op ι → Bool
  | .evict _ => true
  | _ => false

variable {s s' start : State ι} {φ : ι → Phase} {trace : List (GatewayEvent ι)}

section Step

variable {i : ι} {op : Op ι} {o : Outcome GatewayError (Ans op)} {φ' : Phase}

/-- A call that only reads. -/
theorem eq_of_reads (answers : (sessions ι).world.Answers GatewayError i op s o s')
    (reads : ∀ reply answer after, Gateway.answer i reply op s = some (answer, after) → after = s) :
    s' = s := by
  rcases answers.unchanged_or_effect with rfl | ⟨answer, reply, heffect⟩
  · rfl
  · exact reads reply answer s' heffect

theorem eq_of_verify {token : String} {o : Outcome GatewayError JwtPayload}
    (answers : (sessions ι).world.Answers GatewayError i (.verify token) s o s') : s' = s :=
  eq_of_reads answers (by rintro _ _ _ ⟨⟩; rfl)

theorem eq_of_findUser {id : UserId} {o : Outcome GatewayError (Option Account)}
    (answers : (sessions ι).world.Answers GatewayError i (.findUser id) s o s') : s' = s :=
  eq_of_reads answers (by rintro _ _ _ ⟨⟩; rfl)

theorem eq_of_disconnect {socket : ι}
    (answers : (sessions ι).world.Answers GatewayError i (.disconnect socket) s (.returned ()) s') :
    s' = s.disconnect socket := by
  obtain ⟨reply, heffect⟩ := answers.effect_of_returned
  cases heffect
  rfl

theorem eq_of_evict {id : UserId}
    (answers : (sessions ι).world.Answers GatewayError i (.evict id) s (.returned ()) s') :
    s' = s.evict id := by
  obtain ⟨reply, heffect⟩ := answers.effect_of_returned
  cases heffect
  rfl

/-- A version is raised of no account that is missing. -/
theorem eq_of_missing {id : UserId}
    (answers : (sessions ι).world.Answers GatewayError i (.raiseTokenVersion id) s (.returned none) s') :
    s' = s := by
  obtain ⟨reply, heffect⟩ := answers.effect_of_returned
  obtain ⟨hnone, rfl⟩ := Prod.mk.inj (Option.some.inj heffect)
  have hmissing := Option.map_eq_none_iff.mp hnone
  unfold State.setAccount
  rw [hmissing, Option.map_none, ← hmissing, Function.update_eq_self]

theorem Good.timer {socket : ι} (h : Good s φ)
    (answers : (sessions ι).world.Answers GatewayError i (.expire socket) s (.returned ()) s') :
    Good s' φ := by
  obtain ⟨reply, heffect⟩ := answers.effect_of_returned
  obtain ⟨after, heffect, heq⟩ := Option.map_eq_some_iff.mp heffect
  cases heq
  exact (h.wait reply.elapsed).expire heffect

theorem Good.enabling {id : UserId} {o : Outcome GatewayError Unit} (h : Good s φ)
    (answers : (sessions ι).world.Answers GatewayError i (.enable id) s o s') : Good s' φ := by
  rcases answers.unchanged_or_effect with rfl | ⟨answer, reply, heffect⟩
  · exact h
  · cases heffect
    exact h.enable _

theorem Good.writing {id : UserId} (h : Good s φ) (hidle : φ i = .idle) (writes : op.account = some id)
    (took : o.TookEffect) (answers : (sessions ι).world.Answers GatewayError i op s o s') :
    Good s' (Function.update φ i (.written id)) := by
  obtain ⟨answer, reply, heffect⟩ := answers.effect_of_tookEffect took
  cases op with
  | setDisabledAt id at' =>
    cases writes
    cases heffect
    exact h.write hidle _ _
  | raiseTokenVersion id =>
    cases writes
    cases heffect
    exact h.write hidle _ _
  | _ => cases writes

theorem good_step (h : Good s φ) (answers : (sessions ι).world.Answers GatewayError i op s o s')
    (next : Moves i (φ i) op o φ') : Good s' (Function.update φ i φ') := by
  generalize hphase : φ i = phase at next
  have hstay : phase = φ' → Good s' φ → Good s' (Function.update φ i φ') := by
    rintro rfl hgood
    rwa [← hphase, Function.update_eq_self]
  cases next with
  | connect =>
    obtain ⟨reply, heffect⟩ := answers.effect_of_returned
    cases heffect
    exact h.connect hphase
  | verify =>
    obtain rfl := eq_of_verify answers
    exact h.early hphase (by rintro _ ⟨⟩) (by rintro ⟨⟩) (.inr ⟨_, rfl⟩)
  | verifyFails failed =>
    obtain rfl := eq_of_verify answers
    exact h.early hphase (by rintro _ ⟨⟩) (by rintro ⟨⟩) (.inl rfl)
  | join =>
    obtain ⟨reply, heffect⟩ := answers.effect_of_returned
    have hjoin : Gateway.answer i reply (.join _) s = some ((), s') := heffect
    exact h.join hphase hjoin
  | findUser =>
    obtain ⟨reply, heffect⟩ := answers.effect_of_returned
    obtain ⟨haccount, rfl⟩ := Prod.mk.inj (Option.some.inj heffect)
    exact h.findUser hphase haccount
  | findNobody =>
    obtain rfl := eq_of_findUser answers
    exact h.early hphase (by rintro _ ⟨⟩) (by rintro ⟨⟩) (.inl rfl)
  | findFails failed =>
    obtain rfl := eq_of_findUser answers
    exact h.early hphase (by rintro _ ⟨⟩) (by rintro ⟨⟩) (.inl rfl)
  | refuse =>
    obtain rfl := eq_of_disconnect answers
    exact h.refuse hphase (by rintro _ ⟨⟩)
  | drop =>
    obtain rfl := eq_of_disconnect answers
    exact h.refuse hphase (by rintro _ ⟨⟩)
  | dropAtOnce =>
    obtain rfl := eq_of_disconnect answers
    exact h.refuse hphase (by rintro _ ⟨⟩)
  | accept enabled current =>
    obtain ⟨reply, heffect⟩ := answers.effect_of_returned
    cases heffect
    exact (h.wait reply.elapsed).accept hphase enabled current
  | leave =>
    obtain rfl := eq_of_disconnect answers
    exact hstay rfl (h.leave _)
  | expire => exact hstay rfl (h.timer answers)
  | look =>
    obtain rfl := eq_of_findUser answers
    exact hstay rfl h
  | lost writes =>
    cases answers with
    | lost error mayFail => exact hstay rfl h
  | missing =>
    obtain rfl := eq_of_missing answers
    exact hstay rfl h
  | enable => exact hstay rfl (h.enabling answers)
  | write writes took => exact h.writing hphase writes took answers
  | sign =>
    obtain rfl := eq_of_reads answers (by rintro _ _ _ ⟨⟩; rfl)
    exact hstay rfl h
  | lookAgain =>
    obtain rfl := eq_of_findUser answers
    exact hstay rfl h
  | evict =>
    obtain rfl := eq_of_evict answers
    exact h.evict (.inr hphase)
  | evictAgain =>
    obtain rfl := eq_of_evict answers
    exact h.evict (.inl hphase)

end Step

/-- A handshake has begun with a connection, what is due has been written, and nothing is due after an
eviction. -/
structure Due (s : State ι) (φ : ι → Phase) (trace : List (GatewayEvent ι)) : Prop where
  begun : ∀ j, ¬(φ j).Outside → ∃ event ∈ trace, event.caller = j ∧ event.op = .connect
  written : ∀ j id, φ j = .written id →
    s.users id = none ∨ ∃ event ∈ trace, event.caller = j ∧ writes event = true
  evicted : ∀ event ∈ trace, event.op.evicts = true → φ event.caller = .evicted

omit [DecidableEq ι] in
/-- Once every change has had its event, only current sessions are fine. -/
theorem Fine.current {id : UserId} {version : ℕ} (h : Fine s φ id version) (hdue : Due s φ trace)
    (hpresent : s.users id ≠ none)
    (settled : ∀ event ∈ trace, writes event = true →
      ∃ later ∈ trace, later.caller = event.caller ∧ later.op.evicts = true) :
    ∃ account, s.users id = some account ∧ account.isDisabled = false ∧
      account.tokenVersion = version := by
  rcases h with haccount | ⟨j, hj⟩
  · exact haccount
  · rcases hdue.written j id hj with hnone | ⟨event, hevent, hcaller, hwrites⟩
    · exact (hpresent hnone).elim
    · obtain ⟨later, hlater, hsame, hevicts⟩ := settled event hevent hwrites
      have hphase : φ j = .evicted := by
        rw [← hcaller, ← hsame]
        exact hdue.evicted later hlater hevicts
      rw [hj] at hphase
      cases hphase

end Runs

/-! ## A session that is revoked during its handshake -/

def account : State ℕ where
  clock := 0
  users id := if id = "u" then some ⟨0, none⟩ else none
  clients _ := {}
  expiryTimers _ := none

end MemoFlowApi.Gateway
