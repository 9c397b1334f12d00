import MemoFlowApi.Auth.Passwords
import MemoFlowApi.Concurrency.Typestate

/-!
# Superseded Passwords

Whoever has read an account before another request replaced its password knows the earlier password
only.  A change of the password is to be refused then, and so is the access token of a login or of a
change.  The update of a change asks nothing about the hash that its check has read, so all this rests
on the order of the calls (`Unchanged`).
-/

namespace MemoFlowApi.Auth.Passwords

open Concurrency

variable {ι : Type}

/-! ## Traces -/

abbrev AuthEvent (ι : Type) := Event ι (State ι) (Ans (ι := ι)) AuthError

abbrev AuthConfig (ι : Type) := Config ι (State ι) (Ans (ι := ι)) AuthError (Option JwtPayload)

/-- A reset or a change of the password has committed. -/
def commits (event : AuthEvent ι) : Bool :=
  match event.op with
  | .changePassword _ => event.outcome.TookEffect ∧ event.before.user.isSome
  | .resetPassword tokenHash _ => event.outcome.TookEffect ∧ event.before.consumes tokenHash
  | _ => false

def reads (event : AuthEvent ι) : Bool :=
  match event.op with
  | .findUser => true
  | _ => false

section Traces

variable [DecidableEq ι]

/-- The caller has read the account. -/
def hasRead (i : ι) (trace : List (AuthEvent ι)) : Bool :=
  trace.any fun event ↦ event.caller = i && reads event

/-- Another request has replaced the password since the caller has read the account. -/
def overtaken (i : ι) : List (AuthEvent ι) → Bool
  | [] => false
  | event :: earlier =>
    overtaken i earlier || (commits event && event.caller ≠ i && hasRead i earlier)

/-- The account as the caller has read it last. -/
def seen (i : ι) : List (AuthEvent ι) → Option (User ι)
  | [] => none
  | event :: earlier =>
    if event.caller = i then
      match event.op, event.outcome.result with
      | .findUser, .ok user => user
      | _, _ => seen i earlier
    else seen i earlier

/-- `JwtStrategy.validate` accepts the access token. -/
def State.Accepts {ι : Type} (s : State ι) (token : JwtPayload) : Prop :=
  ∃ user, check token s.user = .ok user

/-- A commit is of a caller that was not overtaken. -/
def InTime (event : AuthEvent ι) (earlier : List (AuthEvent ι)) : Prop :=
  commits event = true → overtaken event.caller earlier = false

/-- Who was overtaken replaces no password and returns no access token that is accepted. -/
structure Powerless (config : AuthConfig ι) : Prop where
  passwords : EachCall InTime config.trace
  tokens : ∀ i token, config.threads i = .pure (some token) → overtaken i config.trace = true →
    ¬config.shared.Accepts token

/-- A change of the password finds the hash that the check of its access token has read. -/
def Unchanged (event : AuthEvent ι) (earlier : List (AuthEvent ι)) : Prop :=
  match event.op with
  | .changePassword _ =>
    event.before.user.map (·.passwordHash) = (seen event.caller earlier).map (·.passwordHash)
  | _ => True

instance (event : AuthEvent ι) (earlier : List (AuthEvent ι)) :
    Decidable (Unchanged event earlier) := by
  unfold Unchanged
  split <;> infer_instance

variable {event : AuthEvent ι} {trace : List (AuthEvent ι)} {i : ι}

theorem hasRead_cons (event : AuthEvent ι) (trace : List (AuthEvent ι)) :
    hasRead i (event :: trace) = (event.caller = i && reads event || hasRead i trace) := rfl

/-- Only a caller's own reads change what it has read. -/
theorem hasRead_cons_of (h : event.caller = i → reads event = false) :
    hasRead i (event :: trace) = hasRead i trace := by
  rw [hasRead_cons]
  by_cases hi : event.caller = i
  · rw [h hi, Bool.and_false, Bool.false_or]
  · rw [decide_eq_false hi, Bool.false_and, Bool.false_or]

theorem overtaken_cons_of_not_commits (h : commits event = false) :
    overtaken i (event :: trace) = overtaken i trace := by
  rw [overtaken, h, Bool.false_and, Bool.false_and, Bool.or_false]

/-- No caller overtakes itself. -/
theorem overtaken_cons_self {s : State ι} {op : Op ι} {o : Outcome AuthError (Ans op)} :
    overtaken i (⟨s, i, op, o⟩ :: trace) = overtaken i trace := by
  rw [overtaken, decide_eq_false (not_not.mpr rfl), Bool.and_false, Bool.false_and, Bool.or_false]

/-- Nothing was read that could be out of date. -/
theorem not_overtaken_of_not_read (h : hasRead i trace = false) : overtaken i trace = false := by
  induction trace with
  | nil => rfl
  | cons event trace ih =>
    rw [hasRead_cons, Bool.or_eq_false_iff] at h
    rw [overtaken, h.2, Bool.and_false, Bool.or_false]
    exact ih h.2

theorem seen_cons_of (h : event.caller = i → reads event = false) :
    seen i (event :: trace) = seen i trace := by
  rw [seen]
  split
  · next hi =>
    split
    · next hop _ =>
      have hread := h hi
      unfold reads at hread
      rw [hop] at hread
      cases hread
    · rfl
  · rfl

end Traces

/-! ## Phases -/

inductive Phase (ι : Type) where
  | idle
  | read (user : User ι)
  | hashed (user : User ι) (hash : PasswordHash ι)
  | resetting (hash : PasswordHash ι)
  | changed (tokenVersion : ℕ)
  | ended

/-- The account as it was read. -/
def Phase.user : Phase ι → Option (User ι)
  | read user | hashed user _ => some user
  | _ => none

/-- The caller may still store the hash that it draws. -/
def Phase.Unwritten : Phase ι → Prop
  | changed _ | ended => False
  | _ => True

/-- The call concerns no row of the user. -/
def Op.quiet : Op ι → Bool
  | registerAttempt | clearAttempts | updateLastActiveAt | compare _ _ | sign _ => true
  | _ => false

/-- The hash that a call may store. -/
def Op.stores : Op ι → Option (PasswordHash ι)
  | changePassword passwordHash | resetPassword _ passwordHash => some passwordHash
  | _ => none

/-- The calls of a request. -/
inductive Moves : Phase ι → (op : Op ι) → Outcome AuthError (Ans op) → Phase ι → Prop
  | quiet {φ op answer} (quiet : op.quiet = true) : Moves φ op (.returned answer) φ
  | missing : Moves .idle .findUser (.returned none) .ended
  | read {user} : Moves .idle .findUser (.returned (some user)) (.read user)
  | hash {user password hash} :
      Moves (.read user) (.hash password) (.returned hash) (.hashed user hash)
  | draw {password hash} : Moves .idle (.hash password) (.returned hash) (.resetting hash)
  | change {user hash tokenVersion} :
      Moves (.hashed user hash) (.changePassword hash) (.returned (some tokenVersion))
        (.changed tokenVersion)
  | unknown {user hash o} : Moves (.hashed user hash) (.changePassword hash) o .ended
  | reset {hash tokenHash o} : Moves (.resetting hash) (.resetPassword tokenHash hash) o .ended
  | ended {φ op o} (keeps : op.stores = none) : Moves φ op o .ended

def moves : Typestate (Ans (ι := ι)) AuthError (Phase ι) := ⟨Moves⟩

/-- What the access token of a response says. -/
def Issues : Option JwtPayload → Phase ι → Prop
  | none, _ => True
  | some token, φ =>
    (∃ user, φ = .read user ∧ token.version = user.tokenVersion) ∨ φ = .changed token.version

section Conformance

variable {i : ι} {φ : Phase ι}

abbrev Answered (i : ι) :=
  ((sessions ι).world : World ι (State ι) (Ans (ι := ι))).Possible AuthError i

abbrev Follows (i : ι) {α : Type} (program : Async ι α) (Q : α → Phase ι → Prop) (φ : Phase ι) :
    Prop :=
  program.wp (moves.spec (Answered i)) Q (fun _ _ ↦ True) φ

/-- A call that stores no hash may end the request. -/
theorem follows_call {op : Op ι} {Q : Ans op → Phase ι → Prop} (keeps : op.stores = none)
    (returned : ∀ answer, Answered i op (.returned answer) →
      ∃ φ', Moves φ op (.returned answer) φ' ∧ Q answer φ') :
    Follows i (await op) Q φ :=
  Typestate.wp_perform returned (fun _ _ ↦ ⟨.ended, .ended keeps, trivial⟩)
    (fun _ _ ↦ ⟨.ended, .ended keeps, trivial⟩)

theorem Op.stores_of_quiet {op : Op ι} (quiet : op.quiet = true) : op.stores = none := by
  cases op <;> first | rfl | cases quiet

theorem follows_quiet {op : Op ι} {Q : Ans op → Phase ι → Prop} (quiet : op.quiet = true)
    (hQ : ∀ answer, Answered i op (.returned answer) → Q answer φ) : Follows i (await op) Q φ :=
  follows_call (Op.stores_of_quiet quiet) fun answer possible ↦
    ⟨φ, .quiet quiet, hQ answer possible⟩

/-- An access token says what was signed. -/
theorem answer_sign {payload token : JwtPayload}
    (possible : Answered i (.sign payload) (.returned token)) : token = payload := by
  obtain ⟨s, s', answers⟩ := possible
  cases answers with
  | returned effect =>
    obtain ⟨reply, heffect⟩ := effect
    exact (congrArg Prod.fst (Option.some.inj heffect)).symm

theorem ok_of_check {payload : JwtPayload} {stored : Option (User ι)} {user : User ι}
    (h : check payload stored = .ok user) :
    stored = some user ∧ user.isDisabled = false ∧ payload.version = user.tokenVersion := by
  unfold check at h
  split at h
  · cases h
  · next stored =>
    split at h
    · cases h
    · next henabled =>
      split at h
      · cases h
      · next hversion =>
        cases h
        exact ⟨rfl, Bool.eq_false_iff.mpr henabled, not_not.mp hversion⟩

theorem validate_follows (payload : JwtPayload) :
    Follows i (validate payload) (fun user φ ↦ φ = .read user) .idle := by
  unfold Follows validate
  rw [Program.wp_bind]
  apply follows_call rfl
  intro answer _
  cases answer with
  | none => exact ⟨_, .missing, trivial⟩
  | some user =>
    refine ⟨_, .read, ?_⟩
    cases hcheck : check payload (some user) with
    | error error => exact trivial
    | ok user' =>
      have hsame : some user = some user' := (ok_of_check hcheck).1
      exact congrArg Phase.read (Option.some.inj hsame)

theorem login_follows (password : String) :
    Follows i (login password) (fun token ↦ Issues (some token)) .idle := by
  unfold Follows login
  rw [Program.wp_bind]
  apply follows_quiet rfl
  intro allowed _
  split
  · exact trivial
  · rw [Program.wp_bind]
    apply follows_call rfl
    intro answer _
    cases answer with
    | none =>
      refine ⟨_, .missing, ?_⟩
      rw [Program.wp_bind]
      exact follows_quiet rfl fun _ _ ↦ trivial
    | some user =>
      refine ⟨_, .read, ?_⟩
      rw [Program.wp_bind]
      apply follows_quiet rfl
      intro passwordMatches _
      split
      · exact trivial
      · rw [Program.wp_bind]
        apply follows_quiet rfl
        intro _ _
        rw [Program.wp_bind]
        apply follows_quiet rfl
        intro _ _
        apply follows_quiet rfl
        intro token possible
        exact .inl ⟨user, rfl, congrArg JwtPayload.version (answer_sign possible)⟩

theorem changePassword_follows (user : User ι) (currentPassword newPassword : String) :
    Follows i (changePassword user currentPassword newPassword) (fun token ↦ Issues (some token))
      (.read user) := by
  unfold Follows changePassword
  rw [Program.wp_bind]
  apply follows_quiet rfl
  intro passwordMatches _
  split
  · exact trivial
  · rw [Program.wp_bind]
    apply follows_call rfl
    intro hash _
    refine ⟨_, .hash, ?_⟩
    rw [Program.wp_bind]
    apply Typestate.wp_perform
    · intro answer _
      cases answer with
      | none => exact ⟨_, .unknown, trivial⟩
      | some tokenVersion =>
        refine ⟨_, .change, ?_⟩
        apply follows_quiet rfl
        intro token possible
        have htoken : token.version = tokenVersion :=
          congrArg JwtPayload.version (answer_sign possible)
        exact .inr (congrArg Phase.changed htoken.symm)
    · exact fun _ _ ↦ ⟨_, .unknown, trivial⟩
    · exact fun _ _ ↦ ⟨_, .unknown, trivial⟩

theorem clearLoginCounter_follows : Follows i clearLoginCounter (fun _ _ ↦ True) .ended := by
  unfold Follows clearLoginCounter
  rw [Program.wp_bind, Program.wp_attempt, Program.wp_bind]
  apply follows_call rfl
  intro user _
  refine ⟨_, .ended rfl, ?_⟩
  cases user with
  | none => exact trivial
  | some user => exact follows_quiet rfl fun _ _ ↦ trivial

theorem resetPassword_follows (tokenHash newPassword : String) :
    Follows i (resetPassword tokenHash newPassword) (fun _ _ ↦ True) .idle := by
  unfold Follows resetPassword
  rw [Program.wp_bind]
  apply follows_call rfl
  intro hash _
  refine ⟨_, .draw, ?_⟩
  rw [Program.wp_bind]
  apply Typestate.wp_perform
  · intro consumed _
    refine ⟨_, .reset, ?_⟩
    split
    · exact trivial
    · exact clearLoginCounter_follows
  · exact fun _ _ ↦ ⟨_, .reset, trivial⟩
  · exact fun _ _ ↦ ⟨_, .reset, trivial⟩

theorem logout_follows {user : User ι} : Follows i logout (fun _ _ ↦ True) (.read user) := by
  unfold Follows logout
  rw [Program.wp_bind]
  apply follows_call rfl
  intro answer _
  refine ⟨_, .ended rfl, ?_⟩
  cases answer <;> exact trivial

theorem program_follows (request : Request) : Follows i request.program Issues .idle := by
  unfold Follows Request.program
  cases request with
  | login password =>
    rw [Program.wp_bind]
    exact login_follows password
  | changePassword token currentPassword newPassword =>
    rw [Program.wp_bind]
    refine Program.wp_mono (fun user φ hφ ↦ ?_) (fun _ _ _ ↦ trivial) (validate_follows token)
    subst hφ
    rw [Program.wp_bind]
    exact changePassword_follows user currentPassword newPassword
  | resetPassword tokenHash newPassword =>
    rw [Program.wp_bind]
    exact resetPassword_follows tokenHash newPassword
  | logout token =>
    rw [Program.wp_bind]
    refine Program.wp_mono (fun user φ hφ ↦ ?_) (fun _ _ _ ↦ trivial) (validate_follows token)
    subst hφ
    rw [Program.wp_bind]
    exact logout_follows

end Conformance

/-! ## Accounts along a run -/

section Steps

variable {i : ι} {s s' : State ι} {op : Op ι} {o : Outcome AuthError (Ans op)} {before : User ι}

/-- The row of the user keeps its password, and its version does not decrease. -/
def Advances (s s' : State ι) : Prop :=
  ∀ user', s'.user = some user' → ∃ user, s.user = some user ∧
    user'.passwordHash = user.passwordHash ∧ user.tokenVersion ≤ user'.tokenVersion

theorem Advances.of_eq (h : s'.user = s.user) : Advances s s' :=
  fun user' huser' ↦ ⟨user', h ▸ huser', rfl, Nat.le_refl _⟩

theorem Advances.revokeSessions (s : State ι) : Advances s s.revokeSessions := by
  intro user' huser'
  obtain ⟨user, huser, rfl⟩ := Option.map_eq_some_iff.mp huser'
  exact ⟨user, huser, rfl, Nat.le_succ _⟩

/-- A password is stored over that of a user who is there. -/
theorem user_replacePassword {hash : PasswordHash ι} {user : User ι} (h : s.user = some user)
    (elapsed : ℕ) : ((s.replacePassword hash).wait elapsed).user = some (user.replace hash) :=
  congrArg (Option.map (User.replace · hash)) h

/-- A call that has no effect commits nothing. -/
theorem not_commits_of_lost (ho : ¬o.TookEffect) :
    commits (⟨s, i, op, o⟩ : AuthEvent ι) = false := by
  cases op with
  | changePassword hash => exact decide_eq_false fun h ↦ ho h.1
  | resetPassword tokenHash hash => exact decide_eq_false fun h ↦ ho h.1
  | _ => rfl

theorem exists_user_of_consumes {tokenHash : String} (h : s.consumes tokenHash = true) :
    ∃ user, s.user = some user := by
  obtain ⟨huser, -⟩ := Bool.and_eq_true_iff.mp h
  cases hstored : s.user with
  | none =>
    rw [hstored] at huser
    cases huser
  | some user => exact ⟨user, rfl⟩

/-- What any call does to the row of the user. -/
theorem user_of_answers (answers : (sessions ι).world.Answers AuthError i op s o s') :
    (commits (⟨s, i, op, o⟩ : AuthEvent ι) = true ∧ ∃ user hash, op.stores = some hash ∧
        s.user = some user ∧ s'.user = some (user.replace hash)) ∨
      commits (⟨s, i, op, o⟩ : AuthEvent ι) = false ∧ Advances s s' := by
  by_cases ho : o.TookEffect
  · obtain ⟨answer, reply, heffect⟩ := answers.effect_of_tookEffect ho
    have hstate : s' = (effect i reply op s).2.wait reply.elapsed :=
      (congrArg Prod.snd (Option.some.inj heffect)).symm
    subst hstate
    cases op with
    | changePassword hash =>
      cases huser : s.user with
      | none =>
        refine .inr ⟨decide_eq_false fun h ↦ ?_, .of_eq ?_⟩
        · rw [huser] at h
          exact Bool.false_ne_true h.2
        · exact (congrArg (Option.map (User.replace · hash)) huser).trans huser.symm
      | some user =>
        refine .inl ⟨decide_eq_true ⟨ho, ?_⟩, user, hash, rfl, rfl, user_replacePassword huser _⟩
        rw [huser]
        rfl
    | resetPassword tokenHash hash =>
      by_cases hconsumes : s.consumes tokenHash
      · obtain ⟨user, huser⟩ := exists_user_of_consumes hconsumes
        refine .inl ⟨decide_eq_true ⟨ho, hconsumes⟩, user, hash, rfl, huser, ?_⟩
        simp only [effect, if_pos hconsumes]
        exact user_replacePassword huser _
      · refine .inr ⟨decide_eq_false fun h ↦ hconsumes h.2, .of_eq ?_⟩
        simp only [effect, if_neg hconsumes]
        rfl
    | revokeSessions => exact .inr ⟨rfl, .revokeSessions s⟩
    | _ => exact .inr ⟨rfl, .of_eq rfl⟩
  · refine .inr ⟨not_commits_of_lost ho, ?_⟩
    cases answers with
    | returned effect => exact (ho trivial).elim
    | lost error mayFail => exact .of_eq rfl
    | applied error mayFail effect => exact (ho trivial).elim

theorem advances_of_answers (keeps : op.stores = none)
    (answers : (sessions ι).world.Answers AuthError i op s o s') :
    commits (⟨s, i, op, o⟩ : AuthEvent ι) = false ∧ Advances s s' := by
  rcases user_of_answers answers with ⟨-, user, hash, hstores, -⟩ | hkeeps
  · rw [keeps] at hstores
    cases hstores
  · exact hkeeps

end Steps

/-! ## The invariant -/

section Good

variable [DecidableEq ι] {s s' : State ι} {φ : ι → Phase ι} {trace : List (AuthEvent ι)} {i : ι}

/-- An account that was read is out of date once its caller was overtaken. -/
def Snapshot (s : State ι) (trace : List (AuthEvent ι)) (i : ι) (user : User ι) : Prop :=
  seen i trace = some user ∧ ∀ stored, s.user = some stored →
    user.tokenVersion ≤ stored.tokenVersion ∧
      (overtaken i trace = true → user.tokenVersion < stored.tokenVersion ∧
        stored.passwordHash ≠ user.passwordHash)

/-- What a phase says about the row of the user. -/
def Sound (s : State ι) (trace : List (AuthEvent ι)) (i : ι) : Phase ι → Prop
  | .idle => hasRead i trace = false
  | .read user => Snapshot s trace i user
  | .hashed user hash => Snapshot s trace i user ∧ hash.salt = some i
  | .resetting hash => hasRead i trace = false ∧ hash.salt = some i
  | .changed tokenVersion => ∀ stored, s.user = some stored → tokenVersion ≤ stored.tokenVersion ∧
      (overtaken i trace = true → tokenVersion < stored.tokenVersion)
  | .ended => True

/-- A caller that has not stored its hash is alone with its salt. -/
def Fresh (s : State ι) (φ : ι → Phase ι) (i : ι) : Prop :=
  (∀ stored, s.user = some stored → stored.passwordHash.salt ≠ some i) ∧
    ∀ j user, (φ j).user = some user → user.passwordHash.salt ≠ some i

structure Good (s : State ι) (φ : ι → Phase ι) (trace : List (AuthEvent ι)) : Prop where
  sound : ∀ i, Sound s trace i (φ i)
  fresh : ∀ i, (φ i).Unwritten → Fresh s φ i
  passwords : EachCall InTime trace

theorem Snapshot.keep {user : User ι} (h : Snapshot s trace i user) (advances : Advances s s')
    {event : AuthEvent ι} (hcommits : commits event = false)
    (hi : event.caller = i → reads event = false) : Snapshot s' (event :: trace) i user := by
  refine ⟨(seen_cons_of hi).trans h.1, fun stored' hstored' ↦ ?_⟩
  obtain ⟨stored, hbefore, hhash, hversion⟩ := advances stored' hstored'
  obtain ⟨hle, hbehind⟩ := h.2 stored hbefore
  rw [overtaken_cons_of_not_commits hcommits, hhash]
  exact ⟨Nat.le_trans hle hversion, fun hovertaken ↦
    ⟨Nat.lt_of_lt_of_le (hbehind hovertaken).1 hversion, (hbehind hovertaken).2⟩⟩

/-- A step that commits nothing, unless the caller reads. -/
theorem Sound.keep {φ : Phase ι} (h : Sound s trace i φ) (advances : Advances s s')
    {event : AuthEvent ι} (hcommits : commits event = false)
    (hi : event.caller = i → reads event = false) : Sound s' (event :: trace) i φ := by
  cases φ with
  | idle => exact (hasRead_cons_of hi).trans h
  | read user => exact Snapshot.keep h advances hcommits hi
  | hashed user hash => exact ⟨h.1.keep advances hcommits hi, h.2⟩
  | resetting hash => exact ⟨(hasRead_cons_of hi).trans h.1, h.2⟩
  | changed tokenVersion =>
    intro stored' hstored'
    obtain ⟨stored, hbefore, -, hversion⟩ := advances stored' hstored'
    obtain ⟨hle, hbehind⟩ := h stored hbefore
    rw [overtaken_cons_of_not_commits hcommits]
    exact ⟨Nat.le_trans hle hversion, fun hovertaken ↦
      Nat.lt_of_lt_of_le (hbehind hovertaken) hversion⟩
  | ended => trivial

/-- A step of another caller that replaces the password with a hash that no one has read. -/
theorem Sound.replace {φ : Phase ι} (h : Sound s trace i φ) {stored : User ι}
    (hstored : s.user = some stored) {hash : PasswordHash ι}
    (hstored' : s'.user = some (stored.replace hash))
    (hash_new : ∀ user, φ.user = some user → hash ≠ user.passwordHash) {event : AuthEvent ι}
    (hne : event.caller ≠ i) : Sound s' (event :: trace) i φ := by
  have hi : event.caller = i → reads event = false := fun heq ↦ (hne heq).elim
  have hversion : stored.tokenVersion < (stored.replace hash).tokenVersion := Nat.lt_succ_self _
  have hsnapshot : ∀ {user}, hash ≠ user.passwordHash → Snapshot s trace i user →
      Snapshot s' (event :: trace) i user := by
    rintro user hnew ⟨hseen, hbefore⟩
    refine ⟨(seen_cons_of hi).trans hseen, fun stored' hafter ↦ ?_⟩
    obtain rfl := Option.some.inj (hstored'.symm.trans hafter)
    have hlt := Nat.lt_of_le_of_lt (hbefore stored hstored).1 hversion
    exact ⟨Nat.le_of_lt hlt, fun _ ↦ ⟨hlt, hnew⟩⟩
  cases φ with
  | idle => exact (hasRead_cons_of hi).trans h
  | read user => exact hsnapshot (hash_new user rfl) h
  | hashed user drawn => exact ⟨hsnapshot (hash_new user rfl) h.1, h.2⟩
  | resetting drawn => exact ⟨(hasRead_cons_of hi).trans h.1, h.2⟩
  | changed tokenVersion =>
    intro stored' hafter
    obtain rfl := Option.some.inj (hstored'.symm.trans hafter)
    have hlt := Nat.lt_of_le_of_lt (h stored hstored).1 hversion
    exact ⟨Nat.le_of_lt hlt, fun _ ↦ hlt⟩
  | ended => trivial

/-- A step that commits nothing. -/
theorem Good.keep (h : Good s φ trace) {φ' : Phase ι} {event : AuthEvent ι}
    (advances : Advances s s') (hcommits : commits event = false)
    (sound : Sound s' (event :: trace) event.caller φ')
    (unwritten : φ'.Unwritten → (φ event.caller).Unwritten)
    (read : ∀ user, φ'.user = some user → (φ event.caller).user = some user ∨ s.user = some user) :
    Good s' (Function.update φ event.caller φ') (event :: trace) := by
  refine ⟨fun j ↦ ?_, fun j hj ↦ ?_, fun hcommit ↦ ?_, h.passwords⟩
  · by_cases hij : j = event.caller
    · subst hij
      rw [Function.update_self]
      exact sound
    · rw [Function.update_of_ne hij]
      exact (h.sound j).keep advances hcommits fun heq ↦ (hij heq.symm).elim
  · have hfresh : Fresh s φ j := by
      apply h.fresh
      by_cases hij : j = event.caller
      · subst hij
        rw [Function.update_self] at hj
        exact unwritten hj
      · rwa [Function.update_of_ne hij] at hj
    refine ⟨fun stored' hstored' ↦ ?_, fun k user huser ↦ ?_⟩
    · obtain ⟨stored, hstored, hhash, -⟩ := advances stored' hstored'
      rw [hhash]
      exact hfresh.1 stored hstored
    · by_cases hk : k = event.caller
      · subst hk
        rw [Function.update_self] at huser
        rcases read user huser with hbefore | hbefore
        · exact hfresh.2 _ user hbefore
        · exact hfresh.1 user hbefore
      · rw [Function.update_of_ne hk] at huser
        exact hfresh.2 k user huser
  · rw [hcommits] at hcommit
    cases hcommit

/-- A commit of a caller that was not overtaken. -/
theorem Good.replace (h : Good s φ trace) {op : Op ι} {o : Outcome AuthError (Ans op)}
    {φ' : Phase ι} {stored : User ι} {hash : PasswordHash ι} (hstored : s.user = some stored)
    (hstored' : s'.user = some (stored.replace hash)) (hsalt : hash.salt = some i)
    (hwriter : (φ i).Unwritten) (hcurrent : overtaken i trace = false)
    (sound : Sound s' (⟨s, i, op, o⟩ :: trace) i φ') (hdone : ¬φ'.Unwritten) :
    Good s' (Function.update φ i φ') (⟨s, i, op, o⟩ :: trace) := by
  have hnew : ∀ j user, (φ j).user = some user → hash ≠ user.passwordHash := by
    intro j user huser heq
    apply (h.fresh i hwriter).2 j user huser
    rw [← heq, hsalt]
  have hnoUser : φ'.user = none := by
    cases φ' <;> first | rfl | exact (hdone trivial).elim
  refine ⟨fun j ↦ ?_, fun j hj ↦ ?_, fun _ ↦ hcurrent, h.passwords⟩
  · by_cases hij : j = i
    · subst hij
      rw [Function.update_self]
      exact sound
    · rw [Function.update_of_ne hij]
      exact (h.sound j).replace hstored hstored' (hnew j) (Ne.symm hij)
  · have hij : j ≠ i := by
      rintro rfl
      rw [Function.update_self] at hj
      exact hdone hj
    rw [Function.update_of_ne hij] at hj
    refine ⟨fun stored' hafter ↦ ?_, fun k user huser ↦ ?_⟩
    · obtain rfl := Option.some.inj (hstored'.symm.trans hafter)
      change hash.salt ≠ some j
      rw [hsalt]
      exact fun heq ↦ hij (Option.some.inj heq).symm
    · by_cases hk : k = i
      · subst hk
        rw [Function.update_self, hnoUser] at huser
        cases huser
      · rw [Function.update_of_ne hk] at huser
        exact (h.fresh j hj).2 k user huser

/-- The account that was read is the stored one, so no one has replaced its password. -/
theorem Snapshot.not_overtaken {user stored : User ι} (h : Snapshot s trace i user)
    (hstored : s.user = some stored) (hsame : stored.passwordHash = user.passwordHash) :
    overtaken i trace = false := by
  by_contra hovertaken
  exact ((h.2 stored hstored).2 (Bool.of_not_eq_false hovertaken)).2 hsame

omit [DecidableEq ι] in
theorem effect_of_returned {op : Op ι} {answer : Ans op}
    (answers : (sessions ι).world.Answers AuthError i op s (.returned answer) s') :
    ∃ reply, answer = (effect i reply op s).1 ∧
      s' = (effect i reply op s).2.wait reply.elapsed := by
  cases answers with
  | returned heffect =>
    obtain ⟨reply, heffect⟩ := heffect
    obtain ⟨hanswer, hstate⟩ := Prod.mk.inj (Option.some.inj heffect)
    exact ⟨reply, hanswer.symm, hstate.symm⟩

/-- A change that finds what it has read. -/
theorem Snapshot.same_of_unchanged {user stored : User ι} {hash : PasswordHash ι}
    {o : Outcome AuthError (Option ℕ)} (h : Snapshot s trace i user)
    (unchanged : Unchanged (⟨s, i, .changePassword hash, o⟩ : AuthEvent ι) trace)
    (hstored : s.user = some stored) : stored.passwordHash = user.passwordHash := by
  unfold Unchanged at unchanged
  dsimp only at unchanged
  rw [hstored, h.1] at unchanged
  exact Option.some.inj unchanged

omit [DecidableEq ι] in
theorem not_reads_of_quiet {op : Op ι} {o : Outcome AuthError (Ans op)} (quiet : op.quiet = true) :
    reads (⟨s, i, op, o⟩ : AuthEvent ι) = false := by
  cases op <;> first | rfl | cases quiet

/-- Every move keeps what is good, as long as changes find what they have read. -/
theorem Good.step (h : Good s φ trace) {op : Op ι} {o : Outcome AuthError (Ans op)} {φ' : Phase ι}
    (unchanged : Unchanged (⟨s, i, op, o⟩ : AuthEvent ι) trace)
    (answers : (sessions ι).world.Answers AuthError i op s o s') (next : Moves (φ i) op o φ') :
    Good s' (Function.update φ i φ') (⟨s, i, op, o⟩ :: trace) := by
  have hsound := h.sound i
  generalize hphase : φ i = phase at next hsound
  have hunwritten : phase.Unwritten → (φ i).Unwritten := by
    rw [hphase]
    exact id
  have huser : ∀ user, phase.user = some user → (φ i).user = some user := by
    rw [hphase]
    exact fun _ ↦ id
  cases next with
  | quiet quiet =>
    obtain ⟨hcommits, hadvances⟩ := advances_of_answers (Op.stores_of_quiet quiet) answers
    refine h.keep hadvances hcommits ?_ hunwritten fun user hread ↦ .inl (huser user hread)
    exact hsound.keep hadvances hcommits fun _ ↦ not_reads_of_quiet quiet
  | missing =>
    obtain ⟨hcommits, hadvances⟩ := advances_of_answers rfl answers
    exact h.keep hadvances hcommits trivial False.elim (by rintro _ ⟨⟩)
  | @read user =>
    obtain ⟨hcommits, hadvances⟩ := advances_of_answers rfl answers
    obtain ⟨reply, hanswer, hstate⟩ := effect_of_returned answers
    have hstored : s.user = some user := hanswer.symm
    have hstored' : s'.user = some user := (congrArg State.user hstate).trans hstored
    refine h.keep hadvances hcommits ⟨if_pos rfl, fun stored hafter ↦ ?_⟩
      (fun _ ↦ hunwritten trivial) fun user' huser' ↦ .inr (hstored.trans huser')
    obtain rfl := Option.some.inj (hstored'.symm.trans hafter)
    refine ⟨Nat.le_refl _, fun hovertaken ↦ ?_⟩
    rw [overtaken_cons_of_not_commits hcommits, not_overtaken_of_not_read hsound] at hovertaken
    cases hovertaken
  | hash =>
    obtain ⟨hcommits, hadvances⟩ := advances_of_answers rfl answers
    obtain ⟨reply, hanswer, hstate⟩ := effect_of_returned answers
    refine h.keep hadvances hcommits ⟨?_, congrArg PasswordHash.salt hanswer⟩
      (fun _ ↦ hunwritten trivial) fun user' huser' ↦ .inl (huser user' huser')
    exact Snapshot.keep hsound hadvances hcommits fun _ ↦ rfl
  | draw =>
    obtain ⟨hcommits, hadvances⟩ := advances_of_answers rfl answers
    obtain ⟨reply, hanswer, hstate⟩ := effect_of_returned answers
    refine h.keep hadvances hcommits ⟨?_, congrArg PasswordHash.salt hanswer⟩
      (fun _ ↦ hunwritten trivial) (by rintro _ ⟨⟩)
    exact (hasRead_cons_of fun _ ↦ rfl).trans hsound
  | @change user hash tokenVersion =>
    obtain ⟨reply, hanswer, hstate⟩ := effect_of_returned answers
    obtain ⟨stored, hstored, hversion⟩ := Option.map_eq_some_iff.mp hanswer.symm
    have hcurrent := hsound.1.not_overtaken hstored (hsound.1.same_of_unchanged unchanged hstored)
    have hstored' : s'.user = some (stored.replace hash) := by
      rw [hstate]
      exact user_replacePassword hstored _
    refine h.replace hstored hstored' hsound.2 (hunwritten trivial) hcurrent
      (fun stored' hafter ↦ ?_) ?_
    · obtain rfl := Option.some.inj (hstored'.symm.trans hafter)
      refine ⟨Nat.le_of_eq hversion.symm, fun hovertaken ↦ ?_⟩
      have hnone := hcurrent.symm.trans (overtaken_cons_self.symm.trans hovertaken)
      exact (Bool.false_ne_true hnone).elim
    · exact id
  | unknown =>
    rcases user_of_answers answers with
      ⟨-, stored, hash, hstores, hstored, hstored'⟩ | ⟨hcommits, hadvances⟩
    · obtain rfl := Option.some.inj hstores
      have hcurrent := hsound.1.not_overtaken hstored (hsound.1.same_of_unchanged unchanged hstored)
      refine h.replace hstored hstored' hsound.2 (hunwritten trivial) hcurrent ?_ ?_
      · trivial
      · exact id
    · exact h.keep hadvances hcommits trivial False.elim (by rintro _ ⟨⟩)
  | reset =>
    rcases user_of_answers answers with
      ⟨-, stored, hash, hstores, hstored, hstored'⟩ | ⟨hcommits, hadvances⟩
    · obtain rfl := Option.some.inj hstores
      have hcurrent := not_overtaken_of_not_read hsound.1
      refine h.replace hstored hstored' hsound.2 (hunwritten trivial) hcurrent ?_ ?_
      · trivial
      · exact id
    · exact h.keep hadvances hcommits trivial False.elim (by rintro _ ⟨⟩)
  | ended keeps =>
    obtain ⟨hcommits, hadvances⟩ := advances_of_answers keeps answers
    exact h.keep hadvances hcommits trivial False.elim (by rintro _ ⟨⟩)

end Good

/-! ## Runs -/

section Runs

variable [DecidableEq ι] {start : State ι} {config : AuthConfig ι}

theorem good_of_tracked {s : State ι} {φ : ι → Phase ι} {trace : List (AuthEvent ι)}
    (salts : ∀ user, start.user = some user → user.passwordHash.salt = none)
    (h : (sessions ι).world.Tracked (fun _ ↦ moves) start (fun _ ↦ .idle) s φ trace) :
    EachCall Unchanged trace → Good s φ trace := by
  refine h.invariant (fun s φ trace ↦ EachCall Unchanged trace → Good s φ trace) (fun _ ↦ True)
    (fun _ ↦ ?_) ?_ fun _ _ ↦ trivial
  · refine ⟨fun _ ↦ rfl, fun i _ ↦ ⟨fun stored hstored ↦ ?_, by rintro _ _ ⟨⟩⟩, trivial⟩
    rw [salts stored hstored]
    exact (Option.some_ne_none i).symm
  · intro s φ trace i op o s' φ' hI _ answers next hunchanged
    exact (hI hunchanged.2).step hunchanged.1 answers next

/-- Where every change of the password finds the hash that its check has read, a superseded password
has no power. -/
theorem superseded_powerless (requests : ι → Request)
    (salts : ∀ user, start.user = some user → user.passwordHash.salt = none)
    (reachable : (sessions ι).world.Reachable
      (Config.initial start fun i ↦ (requests i).program) config)
    (unchanged : EachCall Unchanged config.trace) : Powerless config := by
  obtain ⟨φ, htracked, hends⟩ := World.exists_tracked (T := fun _ ↦ moves) rfl
    (fun i ↦ program_follows (requests i)) reachable
  have hgood := good_of_tracked salts htracked unchanged
  refine ⟨hgood.passwords, fun i token hthread hovertaken haccepts ↦ ?_⟩
  obtain ⟨stored, hcheck⟩ := haccepts
  obtain ⟨hstored, -, hversion⟩ := ok_of_check hcheck
  have hend := hends i
  rw [hthread] at hend
  have hsound := hgood.sound i
  have hlt : token.version < stored.tokenVersion := by
    rcases hend with ⟨user, hphase, htoken⟩ | hphase
    · rw [hphase] at hsound
      rw [htoken]
      exact ((hsound.2 stored hstored).2 hovertaken).1
    · rw [hphase] at hsound
      exact (hsound stored hstored).2 hovertaken
  exact Nat.ne_of_lt hlt hversion

end Runs

/-! ## A reset during a change -/

def user : User ℕ := ⟨⟨"old", none⟩, 3, none⟩

/-- The user has one reset token. -/
def account : State ℕ where
  clock := 0
  user := some user
  resetTokens := fun hash ↦ if hash = "emailed" then some ⟨100, none⟩ else none

/-- The first caller changes the password, the second one resets it. -/
def competing (caller : ℕ) : Request :=
  if caller = 0 then .changePassword ⟨some 3⟩ "old" "intruder's"
  else .resetPassword "emailed" "owner's"

def call (caller : ℕ) : Move ℕ Reply AuthError := .mk caller {} (.returned ())

/-- The access token that the first caller has returned. -/
def issued (config : AuthConfig ℕ) : Option JwtPayload :=
  match config.threads 0 with
  | .pure token => token
  | _ => none

theorem thread_of_issued {config : AuthConfig ℕ} {token : JwtPayload}
    (h : issued config = some token) : config.threads 0 = .pure (some token) := by
  unfold issued at h
  split at h
  · next hthread =>
    rw [hthread, h]
  · cases h

/-- The stored password, the access token of the first caller and whether it is accepted, and
whether the first caller was overtaken. -/
def outcome (config : AuthConfig ℕ) :
    Option String × Option JwtPayload × Bool × Bool :=
  (config.shared.user.map (·.passwordHash.password), issued config,
    (issued config).any fun token ↦ (check token config.shared.user).isOk, overtaken 0 config.trace)

/-- The reset stands between the check of the first caller and its update. -/
theorem outcome_overtaken :
    ((sessions ℕ).replay (Config.initial account fun i ↦ (competing i).program)
      [call 0, call 0, call 1, call 1, call 0, call 0, call 0]).map outcome =
      some (some "intruder's", some ⟨some 5⟩, true, true) := by
  decide +kernel

theorem accepts_of_isOk {s : State ι} {token : JwtPayload} (h : (check token s.user).isOk = true) :
    s.Accepts token := by
  unfold State.Accepts
  cases hcheck : check token s.user with
  | ok user => exact ⟨user, rfl⟩
  | error error =>
    rw [hcheck] at h
    cases h

theorem not_powerless_overtaken :
    ∃ config : AuthConfig ℕ,
      (sessions ℕ).world.Reachable (Config.initial account fun i ↦ (competing i).program) config ∧
        config.shared.user.map (·.passwordHash.password) = some "intruder's" ∧
          ¬Powerless config := by
  obtain ⟨config, reachable, hview⟩ := (sessions ℕ).exists_reachable outcome_overtaken
  have hissued : issued config = some ⟨some 5⟩ := congrArg (fun view ↦ view.2.1) hview
  have haccepted : ((issued config).any fun token ↦ (check token config.shared.user).isOk) = true :=
    congrArg (fun view ↦ view.2.2.1) hview
  have hovertaken : overtaken 0 config.trace = true := congrArg (fun view ↦ view.2.2.2) hview
  refine ⟨config, reachable, congrArg Prod.fst hview, fun hpowerless ↦ ?_⟩
  rw [hissued] at haccepted
  exact hpowerless.tokens 0 _ (thread_of_issued hissued) hovertaken (accepts_of_isOk haccepted)

/-- The first caller logs in, the second one resets the password. -/
def loggingIn (caller : ℕ) : Request :=
  if caller = 0 then .login "old" else .resetPassword "emailed" "owner's"

/-- The reset stands between the comparison of a login and its access token. -/
theorem outcome_login :
    ((sessions ℕ).replay (Config.initial account fun i ↦ (loggingIn i).program)
      [call 0, call 0, call 0, call 1, call 1, call 0, call 0, call 0]).map
        (fun config ↦ (outcome config, decide (EachCall Unchanged config.trace))) =
      some ((some "owner's", some ⟨some 3⟩, false, true), true) := by
  decide +kernel

theorem superseded_powerless_login :
    ∃ config : AuthConfig ℕ,
      issued config = some ⟨some 3⟩ ∧ overtaken 0 config.trace = true ∧ Powerless config := by
  obtain ⟨config, reachable, hview⟩ := (sessions ℕ).exists_reachable outcome_login
  have houtcome := congrArg Prod.fst hview
  have hunchanged : EachCall Unchanged config.trace := of_decide_eq_true (congrArg Prod.snd hview)
  refine ⟨config, congrArg (fun view ↦ view.2.1) houtcome,
    congrArg (fun view ↦ view.2.2.2) houtcome, ?_⟩
  refine superseded_powerless loggingIn (fun user huser ↦ ?_) reachable hunchanged
  obtain rfl := Option.some.inj huser
  rfl

end MemoFlowApi.Auth.Passwords
