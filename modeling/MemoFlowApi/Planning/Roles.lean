import MemoFlowApi.Concurrency.Typestate
import MemoFlowApi.Planning.Effects

/-!
# Roles of Planning Handlers

What a handler may do to its job at each point, as a typestate.  A handler becomes the owner of a
job by winning `claimForProcessing` or `claimForPlanning`; only an owner may call the planner, and
only while its last reading of the user allows it; only an owner makes the guarded final write, and
the outcome of a job is announced by the handler that wrote it.

The typestate says nothing about the stored jobs.  That every handler follows it is proved from its
program alone.
-/

namespace MemoFlowApi.Planning

open Concurrency

/-- What a handler holds of a job. -/
inductive Role where
  | idle
  /-- It won `claimForGathering`. -/
  | gathering (id : JobId)
  /-- It won `claimForProcessing` or `claimForPlanning`. -/
  | owner (id : JobId) (userId : UserId)
  /-- It ended the job and has not announced it. -/
  | settled (id : JobId) (status : JobStatus)

/-- What a handler knows of the job's user since it last claimed, gathered or retrieved. -/
inductive Gate where
  | unread
  | passed
  /-- An owner's reading found the user gone, disabled or without consent. -/
  | refused
  /-- That refusal was recorded on the job. -/
  | recorded (id : JobId)
  /-- The planner was called. -/
  | called
  deriving DecidableEq

structure Phase where
  role : Role := .idle
  gate : Gate := .unread
  /-- A call threw out of an attempt of the worker. -/
  thrown : Bool := false
  /-- A call whose failure is recorded by an unguarded write threw. -/
  disturbed : Bool := false

/-- The user may have AI used on their behalf. -/
def User.mayUseAi (user : User) : Bool := !user.isDisabled && user.hasCurrentAiConsent

/-- What a reading of the user says. -/
def readGate : Outcome AppError (Option User) → Gate
  | .returned (some user) => if user.mayUseAi then .passed else .refused
  | .returned none => .refused
  | .lost _ | .applied _ => .unread

/-- The codes of a failure for the user's sake. -/
def refusalCodes : List String := [userInactiveErrorCode, aiConsentRequiredCode]

/-- The job whose outcome an event announces. -/
def PlanningEvent.outcome? : PlanningEvent → Option (JobId × JobStatus)
  | completed id _ _ _ => some (id, .completed)
  | failed id _ _ _ _ => some (id, .failed)
  | status _ _ _ | chunk _ => none

/-- A failure write that records no prompt version.  Unlike the final write of an owner it is made
by callers that hold no claim on the running job. -/
def UpdatePlanningJobStatusData.Unguarded (patch : UpdatePlanningJobStatusData) : Prop :=
  patch.promptVersion = none

/-- Calls that change no role. -/
def Op.Neutral : (op : Op) → Outcome AppError (Ans op) → Prop
  | .updateStatus _ _, _ | .findUserById _, _ | .gather _ _ _, _ | .search _, _ | .plan _, _ =>
      False
  | .claimForProcessing _, o | .claimForGathering _, o | .claimForPlanning _ _, o
  | .failIfStillGathering _ _ _, o => ∀ job, o ≠ .returned (some job)
  | .emit event, _ => event.outcome? = none
  | _, _ => True

/-- Calls of a worker's attempt that its use case does not catch. -/
def Op.uncaught (publisher : Bool) : Op → Bool
  | .claimForProcessing _ | .claimForGathering _ | .claimForPlanning _ _ | .findById _
  | .updateStatus _ _ | .findActiveByUser _ | .scheduleTimeout _ _ => true
  | .findActiveByFeatureType => !publisher
  | _ => false

/-- Calls whose failure a caller without claim records on the job. -/
def Op.disturbing : Op → Bool
  | .findUserById _ | .publishGatherRequest _ | .enqueue _ _ => true
  | _ => false

/-- A reading that found no job. -/
def missingJob : (op : Op) → Outcome AppError (Ans op) → Bool
  | .findById _, .returned none => true
  | _, _ => false

/-- The outcome of this call throws out of the handler's attempt at the job. -/
def Handler.ThrowsOut : Handler → (op : Op) → Outcome AppError (Ans op) → Prop
  | worker config _, op, o =>
      op.uncaught config.publisher = true ∧ o.Failed ∨ missingJob op o = true
  | _, _, _ => False

instance (handler : Handler) (op : Op) (o : Outcome AppError (Ans op)) :
    Decidable (handler.ThrowsOut op o) :=
  match handler with
  | .worker config _ => inferInstanceAs
      (Decidable (op.uncaught config.publisher = true ∧ o.Failed ∨ missingJob op o = true))
  | .submit _ | .message _ | .gatherTimeout _ | .storeUser _ _ => isFalse id

/-- The handler is a worker. -/
def Handler.isWorker : Handler → Bool
  | worker _ _ => true
  | _ => false

/-- The role after a final write: a caller whose write threw does not know its job. -/
def roleAfter {α : Type} (id : JobId) (status : JobStatus) : Outcome AppError α → Role
  | .returned _ => .settled id status
  | .lost _ | .applied _ => .idle

theorem roleAfter_cases {α : Type} (id : JobId) (status : JobStatus) (o : Outcome AppError α) :
    (∃ a, o = .returned a) ∧ roleAfter id status o = .settled id status ∨
      roleAfter id status o = .idle := by
  cases o with
  | returned a => exact .inl ⟨⟨a, rfl⟩, rfl⟩
  | lost error => exact .inr rfl
  | applied error => exact .inr rfl

/-- The flag after a final write. -/
def Phase.thrownAfter {α : Type} (φ : Phase) (handler : Handler) : Outcome AppError α → Bool
  | .returned _ => φ.thrown
  | .lost _ | .applied _ => φ.thrown || handler.isWorker

/-- The moves of a handler. -/
inductive Moves (handler : Handler) : Phase → (op : Op) → Outcome AppError (Ans op) → Phase → Prop
  | neutral {φ op o} (neutral : op.Neutral o) : Moves handler φ op o φ
  | thrown {φ op o} (neutral : op.Neutral o) (throwsOut : handler.ThrowsOut op o) :
      Moves handler φ op o { φ with thrown := true }
  | claimForProcessing {φ id job} (own : handler.jobId? = some id) :
      Moves handler φ (.claimForProcessing id) (.returned (some job))
        { φ with role := .owner id job.userId, gate := .unread }
  | claimForPlanning {φ id contextUsed job} (own : handler.jobId? = some id) :
      Moves handler φ (.claimForPlanning id contextUsed) (.returned (some job))
        { φ with role := .owner id job.userId, gate := .unread }
  | claimForGathering {φ id job} (own : handler.jobId? = some id) :
      Moves handler φ (.claimForGathering id) (.returned (some job))
        { φ with role := .gathering id, gate := .unread }
  | failIfStillGathering {φ id errorCode errorMessage job} (gate : φ.gate ≠ .refused) :
      Moves handler φ (.failIfStillGathering id errorCode errorMessage) (.returned (some job))
        { φ with role := .settled id .failed }
  | disturb {φ op o} (neutral : op.Neutral o) (disturbing : op.disturbing = true) (failed : o.Failed) :
      Moves handler φ op o { φ with disturbed := true }
  | findUser {φ id userId o} (role : φ.role = .owner id userId) (gate : φ.gate ≠ .called) :
      Moves handler φ (.findUserById userId) o { φ with gate := readGate o }
  | findUserEarly {φ id userId o} (role : φ.role = .gathering id) :
      Moves handler φ (.findUserById userId) o { φ with gate := .unread }
  | findUserFailed {φ id userId o} (role : φ.role = .gathering id) (failed : o.Failed) :
      Moves handler φ (.findUserById userId) o { φ with gate := .unread, disturbed := true }
  | gather {φ id userId owner connectors prompt o} (role : φ.role = .owner id userId)
      (gate : φ.gate = .unread ∨ φ.gate = .passed) :
      Moves handler φ (.gather owner connectors prompt) o { φ with gate := .unread }
  | search {φ id userId input o} (role : φ.role = .owner id userId)
      (gate : φ.gate = .unread ∨ φ.gate = .passed) :
      Moves handler φ (.search input) o { φ with gate := .unread }
  | plan {φ id userId input o} (role : φ.role = .owner id userId) (gate : φ.gate = .passed) :
      Moves handler φ (.plan input) o { φ with gate := .called }
  | finish {φ id userId patch o} (role : φ.role = .owner id userId) (gate : φ.gate ≠ .refused)
      (guarded : ¬ patch.Unguarded) (terminal : patch.status.Terminal) :
      Moves handler φ (.updateStatus id patch) o
        { φ with role := roleAfter id patch.status o, thrown := φ.thrownAfter handler o }
  | refuse {φ id userId patch o code} (role : φ.role = .owner id userId) (gate : φ.gate = .refused)
      (guarded : ¬ patch.Unguarded) (status : patch.status = .failed)
      (errorCode : patch.errorCode = some (some code)) (refusal : code ∈ refusalCodes) :
      Moves handler φ (.updateStatus id patch) o
        { φ with role := roleAfter id .failed o, gate := .recorded id,
                 thrown := φ.thrownAfter handler o }
  | giveUp {φ id patch o} (role : φ.role = .gathering id) (unguarded : patch.Unguarded)
      (status : patch.status = .failed)
      (reason : φ.disturbed = true ∨ ∃ code ∈ refusalCodes, patch.errorCode = some (some code)) :
      Moves handler φ (.updateStatus id patch) o
        { φ with role := roleAfter id .failed o, thrown := φ.thrownAfter handler o }
  | withdraw {φ id patch o} (submit : handler.jobId? = none) (unguarded : patch.Unguarded)
      (status : patch.status = .failed) (reason : φ.disturbed = true) :
      Moves handler φ (.updateStatus id patch) o φ
  | announce {φ id status event o} (role : φ.role = .settled id status)
      (announces : event.outcome? = some (id, status)) :
      Moves handler φ (.emit event) o { φ with role := .idle }
  | alarm {φ id event o} (thrown : φ.thrown = true) (own : handler.jobId? = some id)
      (announces : event.outcome? = some (id, .failed)) : Moves handler φ (.emit event) o φ

/-- The typestate of a handler. -/
def roles (handler : Handler) : Typestate Ans AppError Phase := ⟨Moves handler⟩

end MemoFlowApi.Planning
