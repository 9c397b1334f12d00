import MemoFlowApi.Concurrency.Line
import MemoFlowApi.Planning.Conformance

/-!
# Passes of Messages

How the consumer handles one delivery, as a typestate.  A message waits in the line of its job; while
it is inside, it looks its job up, records its chunk, and finalizes the job if its chunk is terminal;
it is acked or nacked before it leaves.  Every call that can throw has its place here, so a claim
about lost chunks or about the order of chunks is a claim about these passes.
-/

namespace MemoFlowApi.Planning

open Concurrency

/-- How far the work on a chunk has come. -/
inductive Work where
  | fresh
  /-- Its own job was found in a state that is not terminal. -/
  | looked
  /-- It was appended; the job then had these chunks. -/
  | recorded (dataChunks : List AccumulatedDataChunk)
  /-- Its sequence was there already. -/
  | unmatched
  /-- It won `claimForPlanning`. -/
  | owning
  /-- The finalization was won and done, or lost. -/
  | decided
  /-- There is no such job of this user. -/
  | rejected
  /-- The job was found in a terminal state. -/
  | ended
  /-- An exception will requeue the message. -/
  | failing

/-- The pass of one message. -/
structure Pass where
  place : Place := .waiting
  work : Work := .fresh
  acked : Bool := false

/-- A status chunk with phase `completed`. -/
def ContextResultChunk.Completes (chunk : ContextResultChunk) : Prop :=
  ∃ status, chunk.body = .status status ∧ status.phase = .completed

/-- The calls of an owner besides its final write. -/
def Op.OfOwner : Op → Bool
  | .findActiveByFeatureType | .findUserById _ | .search _ | .randomBytes | .plan _ | .now => true
  | _ => false

/-- The writes that finalize a job. -/
def Op.Deciding : Op → Bool
  | .claimForPlanning _ _ | .failIfStillGathering _ _ _ | .updateStatus _ _ => true
  | _ => false

/-- Calls that tell others about a job. -/
def Op.Telling : Op → Bool
  | .emit _ | .captureException _ _ => true
  | _ => false

/-- The work on a chunk, call by call. -/
inductive Works (chunk : ContextResultChunk) :
    Work → (op : Op) → Outcome AppError (Ans op) → Work → Prop
  | look {job} (own : job.userId = chunk.userId) (going : ¬ job.status.Terminal) :
      Works chunk .fresh (.findById chunk.jobId) (.returned (some job)) .looked
  | ended {job} (own : job.userId = chunk.userId) (terminal : job.status.Terminal) :
      Works chunk .fresh (.findById chunk.jobId) (.returned (some job)) .ended
  | reject {found} (foreign : ∀ job ∈ found, job.userId ≠ chunk.userId) :
      Works chunk .fresh (.findById chunk.jobId) (.returned found) .rejected
  | record {job} :
      Works chunk .looked (.pushResultChunk chunk.jobId chunk.appendData) (.returned (some job))
        (.recorded job.dataChunks)
  | unmatch :
      Works chunk .looked (.pushResultChunk chunk.jobId chunk.appendData) (.returned none) .unmatched
  | reread {id found} : Works chunk .unmatched (.findById id) (.returned found) .unmatched
  | claim {dataChunks job} (completes : chunk.Completes) :
      Works chunk (.recorded dataChunks) (.claimForPlanning chunk.jobId (assembleContext dataChunks))
        (.returned (some job)) .owning
  | lose {dataChunks contextUsed} (completes : chunk.Completes) :
      Works chunk (.recorded dataChunks) (.claimForPlanning chunk.jobId contextUsed)
        (.returned none) .decided
  | giveUp {dataChunks errorCode errorMessage found} (terminal : chunk.Terminal) :
      Works chunk (.recorded dataChunks) (.failIfStillGathering chunk.jobId errorCode errorMessage)
        (.returned found) .decided
  | plan {op o} (ofOwner : op.OfOwner = true) : Works chunk .owning op o .owning
  | finish {patch found} (terminal : patch.status.Terminal) :
      Works chunk .owning (.updateStatus chunk.jobId patch) (.returned found) .decided
  | tell {work op o} (telling : op.Telling = true) : Works chunk work op o work
  | fail {work op o} (early : work = .fresh ∨ work = .looked ∨ work = .unmatched)
      (failed : o.Failed) : Works chunk work op o .failing
  | failLate {work op o} (deciding : op.Deciding = true) (failed : o.Failed) :
      Works chunk work op o .failing

/-- The work on a chunk is over. -/
def Work.Done (chunk : ContextResultChunk) : Work → Prop
  | .fresh | .looked | .owning => False
  | .recorded _ => ¬ chunk.Terminal
  | .unmatched | .decided | .rejected | .ended | .failing => True

/-- Work that ends in an ack. -/
def Work.Ackable (chunk : ContextResultChunk) : Work → Prop
  | .recorded _ => ¬ chunk.Terminal
  | .unmatched | .decided | .ended => True
  | .fresh | .looked | .owning | .rejected | .failing => False

/-- What the handlers besides the messages do while the consumer runs. -/
def Op.Aside : Op → Bool
  | .failIfStillGathering _ _ _ | .findById _ | .captureException _ _ | .emit _ | .storeUser _ _
  | .nack _ => true
  | _ => false

/-- The handlers of a consumer's run: messages, gather timeouts and changes of users. -/
def Handler.Consuming : Handler → Bool
  | message _ | gatherTimeout _ | storeUser _ _ => true
  | submit _ | worker _ _ => false

/-- The chunk a handler handles. -/
def Handler.chunk? : Handler → Option ContextResultChunk
  | message chunk => chunk
  | _ => none

/-- Handler `k` handles a chunk of a job. -/
def Handles {ι : Type} (handlers : ι → Handler) (id : JobId) (k : ι) (chunk : ContextResultChunk) :
    Prop :=
  (handlers k).chunk? = some chunk ∧ chunk.jobId = id

/-- The moves of a pass. -/
inductive Passes (handler : Handler) : Pass → (op : Op) → Outcome AppError (Ans op) → Pass → Prop
  | aside {φ op o} (noChunk : handler.chunk? = none) (aside : op.Aside = true) :
      Passes handler φ op o φ
  | arrive {φ chunk previous task} (own : handler.chunk? = some chunk)
      (waiting : φ.place = .waiting) :
      Passes handler φ (.chain chunk.jobId) (.returned (previous, task))
        { φ with place := .queued previous task }
  | enter {φ chunk previous task} (own : handler.chunk? = some chunk)
      (queued : φ.place = .queued previous task) :
      Passes handler φ (.awaitTask previous) (.returned ()) { φ with place := .inside task }
  | work {φ chunk task op o work} (own : handler.chunk? = some chunk)
      (inside : φ.place = .inside task) (unacked : φ.acked = false)
      (works : Works chunk φ.work op o work) : Passes handler φ op o { φ with work := work }
  | ack {φ chunk task} (own : handler.chunk? = some chunk) (inside : φ.place = .inside task)
      (ackable : φ.work.Ackable chunk) :
      Passes handler φ .ack (.returned ()) { φ with acked := true }
  | nack {φ chunk task requeue} (own : handler.chunk? = some chunk)
      (inside : φ.place = .inside task) : Passes handler φ (.nack requeue) (.returned ()) φ
  | leave {φ chunk task} (own : handler.chunk? = some chunk) (inside : φ.place = .inside task)
      (done : φ.work.Done chunk) :
      Passes handler φ (.settleTask chunk.jobId task) (.returned ()) { φ with place := .left }

/-- The typestate of a handler's pass. -/
def passes (handler : Handler) : Typestate Ans AppError Pass := ⟨Passes handler⟩

/-- Following the pass of a handler. -/
abbrev passSpec {ι : Type} (i : ι) (handler : Handler) : CallSpec Ans AppError Pass :=
  (passes handler).spec ((world ι).Possible AppError i)

section Message

variable {ι : Type} {i : ι} {texts : PlanningTexts} {handler : Handler}
  {chunk : ContextResultChunk} {task : TaskId} {w : Work}

/-- Inside, at some work. -/
abbrev Pass.at (task : TaskId) (w : Work) : Pass := ⟨.inside task, w, false⟩

/-- A call of a pass that cannot throw. -/
theorem wp_sure_passes {op : Op} {Q : Ans op → Pass → Prop} {E : AppError → Pass → Prop} {φ : Pass}
    (sure : mayFail op = false)
    (hQ : ∀ a, ∃ φ', Passes handler φ op (.returned a) φ' ∧ Q a φ') :
    (await op).wp (passSpec i handler) Q E φ := by
  refine Typestate.wp_perform (fun a _ ↦ hQ a) (fun e h ↦ ?_) fun e h ↦ ?_
  · cases sure.symm.trans (mayFail_of_possible h trivial)
  · cases sure.symm.trans (mayFail_of_possible h trivial)

/-- A call of the work on a chunk. -/
theorem wp_works {op : Op} {Q : Ans op → Pass → Prop} {E : AppError → Pass → Prop}
    (own : handler.chunk? = some chunk)
    (hreturned : ∀ a, (world ι).Possible AppError i op (.returned a) →
      ∃ w', Works chunk w op (.returned a) w' ∧ Q a (.at task w'))
    (hfailed : mayFail op = true → ∃ w', (∀ o, o.Failed → Works chunk w op o w') ∧
      ∀ e, E e (.at task w')) :
    (await op).wp (passSpec i handler) Q E (.at task w) := by
  refine Typestate.wp_perform (fun a h ↦ ?_) (fun e h ↦ ?_) (fun e h ↦ ?_)
  · obtain ⟨w', hworks, hQ⟩ := hreturned a h
    exact ⟨_, .work own rfl rfl hworks, hQ⟩
  · obtain ⟨w', hworks, hE⟩ := hfailed (mayFail_of_possible h trivial)
    exact ⟨_, .work own rfl rfl (hworks _ trivial), hE e⟩
  · obtain ⟨w', hworks, hE⟩ := hfailed (mayFail_of_possible h trivial)
    exact ⟨_, .work own rfl rfl (hworks _ trivial), hE e⟩

/-- A block of an owner's calls keeps its work. -/
theorem wp_owning {α : Type} {program : Async α} {Q : Except AppError α → Pass → Prop}
    {E : AppError → Pass → Prop} (own : handler.chunk? = some chunk)
    (only : program.Only fun op ↦ op.OfOwner = true) (hQ : ∀ r, Q r (.at task .owning)) :
    program.attempt.wp (passSpec i handler) Q E (.at task .owning) := by
  have hkept : program.wp (passSpec i handler) (fun _ φ ↦ φ = .at task .owning)
      (fun _ φ ↦ φ = .at task .owning) (.at task .owning) := by
    refine Program.wp_of_only only ?_ rfl
    rintro op hofOwner φ o rfl -
    exact ⟨_, .work own rfl rfl (.plan hofOwner), rfl⟩
  rw [Program.wp_attempt]
  refine Program.wp_mono ?_ ?_ hkept
  · rintro value φ rfl
    exact hQ _
  · rintro error φ rfl
    exact hQ _

/-- The final write of an owner. -/
theorem updateStatus_passes {patch : UpdatePlanningJobStatusData}
    {Q : Option PlanningJob → Pass → Prop} {E : AppError → Pass → Prop}
    (own : handler.chunk? = some chunk) (terminal : patch.status.Terminal)
    (hQ : ∀ found, Q found (.at task .decided)) (hE : ∀ e, E e (.at task .failing)) :
    (await (.updateStatus chunk.jobId patch)).wp (passSpec i handler) Q E (.at task .owning) :=
  wp_works own (fun _ _ ↦ ⟨_, .finish terminal, hQ _⟩)
    fun _ ↦ ⟨_, fun _ ↦ .failLate rfl, hE⟩

/-- A read of the clock between planning and the final write. -/
theorem now_passes {Q : Time → Pass → Prop} {E : AppError → Pass → Prop}
    (own : handler.chunk? = some chunk) (hQ : ∀ time, Q time (.at task .owning)) :
    (await .now).wp (passSpec i handler) Q E (.at task .owning) :=
  wp_works own (fun time _ ↦ ⟨_, .plan rfl, hQ time⟩) fun hfail ↦ by cases hfail

theorem recordFailure_passes {Q : PlanningJob → Pass → Prop} {E : AppError → Pass → Prop}
    {claimed : PlanningJob} (own : handler.chunk? = some chunk) (job : claimed.id = chunk.jobId)
    (promptVersion : Option String) (contextUsed : Option JsonObject) (error : AppError)
    (hQ : ∀ job, Q job (.at task .decided)) (hE : ∀ e, E e (.at task .failing)) :
    (recordFailure claimed promptVersion contextUsed error).wp (passSpec i handler) Q E
      (.at task .owning) := by
  unfold recordFailure
  rw [Program.wp_bind, job]
  refine now_passes own fun finishedAt ↦ ?_
  rw [Program.wp_bind]
  exact updateStatus_passes own (.inr rfl) (fun found ↦ hQ _) hE

theorem recordResult_passes {Q : PlanningJob → Pass → Prop} {E : AppError → Pass → Prop}
    {claimed : PlanningJob} (own : handler.chunk? = some chunk) (job : claimed.id = chunk.jobId)
    (promptVersion : Option String) (contextUsed : JsonObject) (result : ValidatedPlanningResult)
    (hQ : ∀ job, Q job (.at task .decided)) (hE : ∀ e, E e (.at task .failing)) :
    (recordResult claimed promptVersion contextUsed result).wp (passSpec i handler) Q E
      (.at task .owning) := by
  unfold recordResult
  rw [Program.wp_bind, job]
  refine now_passes own fun finishedAt ↦ ?_
  rw [Program.wp_bind]
  exact updateStatus_passes own (.inl rfl) (fun found ↦ hQ _) hE

/-- Only the final write of the planning phase can throw. -/
theorem runClaimedPlanning_passes {Q : PlanningJob → Pass → Prop} {E : AppError → Pass → Prop}
    {claimed : PlanningJob} (own : handler.chunk? = some chunk) (job : claimed.id = chunk.jobId)
    (connectorContext : JsonObject) (hQ : ∀ job, Q job (.at task .decided))
    (hE : ∀ e, E e (.at task .failing)) :
    (runClaimedPlanning texts claimed connectorContext).wp (passSpec i handler) Q E
      (.at task .owning) := by
  unfold runClaimedPlanning
  rw [Program.wp_bind]
  refine wp_owning own (resolvePlanningPrompt_only texts rfl) fun resolved ↦ ?_
  cases resolved with
  | error error => exact recordFailure_passes own job _ _ _ hQ hE
  | ok resolvedPrompt =>
    dsimp only
    rw [Program.wp_bind]
    refine wp_owning own (Program.Only.bind (assertJobUserActive_only _ rfl) fun _ ↦
      prepare_only _ _ _ fun _ ↦ rfl) fun prepared ↦ ?_
    cases prepared with
    | error error => exact recordFailure_passes own job _ _ _ hQ hE
    | ok prepared =>
      dsimp only
      rw [Program.wp_bind]
      refine wp_owning own (Program.Only.bind (assertJobUserActive_only _ rfl) fun _ ↦
        plan_only _ _ _ _ rfl fun _ ↦ rfl) fun planned ↦ ?_
      cases planned with
      | error error => exact recordFailure_passes own job _ _ _ hQ hE
      | ok result => exact recordResult_passes own job _ _ _ hQ hE

theorem finalizeCompleted_passes {Q : Option PlanningJob → Pass → Prop}
    {E : AppError → Pass → Prop} {job : PlanningJob} (own : handler.chunk? = some chunk)
    (hid : job.id = chunk.jobId) (completes : chunk.Completes)
    (hQ : ∀ finished, Q finished (.at task .decided)) (hE : ∀ e, E e (.at task .failing)) :
    (finalizeCompleted texts job).wp (passSpec i handler) Q E
      (.at task (.recorded job.dataChunks)) := by
  unfold finalizeCompleted
  dsimp only
  rw [Program.wp_bind, hid]
  refine wp_works own (fun found hpossible ↦ ?_) fun _ ↦ ⟨_, fun _ ↦ .failLate rfl, hE⟩
  cases found with
  | none => exact ⟨_, .lose completes, hQ none⟩
  | some claimed =>
    refine ⟨_, .claim completes, ?_⟩
    dsimp only
    rw [Program.wp_bind]
    exact runClaimedPlanning_passes own (id_of_claimForPlanning hpossible) _ (fun _ ↦ hQ _) hE

theorem finalizeFailed_passes {Q : Option PlanningJob → Pass → Prop}
    {E : AppError → Pass → Prop} {job : PlanningJob} {status : ChunkStatus}
    (own : handler.chunk? = some chunk) (hid : job.id = chunk.jobId) (terminal : chunk.Terminal)
    (hQ : ∀ finished, Q finished (.at task .decided)) (hE : ∀ e, E e (.at task .failing)) :
    (finalizeFailed job status).wp (passSpec i handler) Q E
      (.at task (.recorded job.dataChunks)) := by
  unfold finalizeFailed
  rw [hid]
  exact wp_works own (fun found _ ↦ ⟨_, .giveUp terminal, hQ found⟩)
    fun _ ↦ ⟨_, fun _ ↦ .failLate rfl, hE⟩

/-- What handling a chunk leaves: unless it is dead-lettered, its message is acked. -/
def Handled (chunk : ContextResultChunk) (result : HandleContextResultChunkResult) (w : Work) :
    Prop :=
  w = .rejected ∧ (result.outcome = .unknownJob ∨ result.outcome = .ownershipMismatch) ∨
    w.Ackable chunk ∧ result.outcome ≠ .unknownJob ∧ result.outcome ≠ .ownershipMismatch

theorem finishChunk_passes {Q : HandleContextResultChunkResult → Pass → Prop}
    {E : AppError → Pass → Prop} {current : PlanningJob} (own : handler.chunk? = some chunk)
    (hid : current.id = chunk.jobId)
    (hQ : ∀ result w, Handled chunk result w → Q result (.at task w))
    (hE : ∀ e, E e (.at task .failing)) :
    (finishChunk texts current chunk.body).wp (passSpec i handler) Q E
      (.at task (.recorded current.dataChunks)) := by
  have hdecided : ∀ result : HandleContextResultChunkResult, result.outcome ≠ .unknownJob →
      result.outcome ≠ .ownershipMismatch → Q result (.at task .decided) :=
    fun result hknown howned ↦ hQ result .decided (.inr ⟨trivial, hknown, howned⟩)
  have hkept : ¬ chunk.Terminal → Q { outcome := .applied, job := some current, terminal := false }
      (.at task (.recorded current.dataChunks)) :=
    fun hterminal ↦ hQ _ _ (.inr ⟨hterminal, by rintro ⟨⟩, by rintro ⟨⟩⟩)
  cases hbody : chunk.body with
  | data data =>
    refine hkept ?_
    rintro ⟨status, hstatus, -⟩
    simp [hbody] at hstatus
  | status status =>
    rw [finishChunk]
    split
    · next hphase =>
      refine hkept ?_
      rintro ⟨status', hstatus, hterminal⟩
      obtain rfl : status = status' := by simpa [hbody] using hstatus
      exact hphase hterminal
    · next hphase =>
      have hterminal : chunk.Terminal := ⟨status, hbody, by simpa using hphase⟩
      dsimp only
      split
      · next hcompleted =>
        rw [Program.wp_bind]
        refine finalizeCompleted_passes own hid ⟨status, hbody, hcompleted⟩ (fun finished ↦ ?_) hE
        cases finished with
        | none => exact hdecided _ (by rintro ⟨⟩) (by rintro ⟨⟩)
        | some finished => exact hdecided _ (by rintro ⟨⟩) (by rintro ⟨⟩)
      · rw [Program.wp_bind]
        refine finalizeFailed_passes own hid hterminal (fun finished ↦ ?_) hE
        cases finished with
        | none => exact hdecided _ (by rintro ⟨⟩) (by rintro ⟨⟩)
        | some finished => exact hdecided _ (by rintro ⟨⟩) (by rintro ⟨⟩)

theorem handleContextResultChunk_passes {Q : HandleContextResultChunkResult → Pass → Prop}
    {E : AppError → Pass → Prop} (own : handler.chunk? = some chunk)
    (hQ : ∀ result w, Handled chunk result w → Q result (.at task w))
    (hE : ∀ e, E e (.at task .failing)) :
    (handleContextResultChunk texts chunk).wp (passSpec i handler) Q E (.at task .fresh) := by
  unfold handleContextResultChunk
  rw [Program.wp_bind]
  refine wp_works own (fun found hfound ↦ ?_) fun _ ↦ ⟨_, fun _ ↦ .fail (.inl rfl), hE⟩
  cases found with
  | none => exact ⟨_, .reject (by rintro _ ⟨⟩), hQ _ _ (.inl ⟨rfl, .inl rfl⟩)⟩
  | some job =>
    have hid : job.id = chunk.jobId := id_of_findById hfound
    dsimp only
    split
    · next hforeign =>
      exact ⟨_, .reject (by rintro _ ⟨⟩; exact hforeign), hQ _ _ (.inl ⟨rfl, .inr rfl⟩)⟩
    · next hown =>
      have hown : job.userId = chunk.userId := by simpa using hown
      split
      · next hterminal =>
        exact ⟨_, .ended hown hterminal, hQ _ _ (.inr ⟨trivial, by rintro ⟨⟩, by rintro ⟨⟩⟩)⟩
      · next hgoing =>
        refine ⟨_, .look hown hgoing, ?_⟩
        rw [Program.wp_bind, appendResultChunk, Program.wp_bind, hid]
        refine wp_works own (fun pushed hpushed ↦ ?_)
          fun _ ↦ ⟨_, fun _ ↦ .fail (.inr (.inl rfl)), hE⟩
        cases pushed with
        | some updated =>
          exact ⟨_, .record, finishChunk_passes own (id_of_pushResultChunk hpushed) hQ hE⟩
        | none =>
          refine ⟨_, .unmatch, ?_⟩
          dsimp only
          rw [Program.wp_bind]
          exact wp_works own
            (fun existing _ ↦ ⟨_, .reread, hQ _ _ (.inr ⟨trivial, by rintro ⟨⟩, by rintro ⟨⟩⟩)⟩)
            fun _ ↦ ⟨_, fun _ ↦ .fail (.inr (.inr rfl)), hE⟩

theorem mayFail_of_telling {op : Op} (telling : op.Telling = true) : mayFail op = false := by
  cases op <;> first | rfl | cases telling

/-- Telling others keeps the work. -/
theorem wp_tell {op : Op} {Q : Ans op → Pass → Prop} {E : AppError → Pass → Prop}
    (own : handler.chunk? = some chunk) (telling : op.Telling = true) (hQ : ∀ a, Q a (.at task w)) :
    (await op).wp (passSpec i handler) Q E (.at task w) :=
  wp_works own (fun a _ ↦ ⟨w, .tell telling, hQ a⟩)
    fun hfail ↦ nomatch (mayFail_of_telling telling).symm.trans hfail

theorem relay_passes {Q : Unit → Pass → Prop} {E : AppError → Pass → Prop}
    (own : handler.chunk? = some chunk) (result : HandleContextResultChunkResult)
    (hQ : Q () (.at task w)) : (relay chunk result).wp (passSpec i handler) Q E (.at task w) := by
  rw [relay]
  split
  · exact hQ
  · next job hjob =>
    have houtcome : (if job.status = .completed then
          await (.emit (.completed job.id job.userId job.status job.result))
        else if job.status = .failed then
          await (.emit (.failed job.id job.userId job.status job.errorCode job.errorMessage))
        else pure ()).wp (passSpec i handler) Q E (.at task w) := by
      split
      · exact wp_tell own rfl fun _ ↦ hQ
      · split
        · exact wp_tell own rfl fun _ ↦ hQ
        · exact hQ
    split
    · exact wp_tell own rfl fun _ ↦ hQ
    · dsimp only
      split
      · split
        · rw [Program.wp_bind]
          exact wp_tell own rfl fun _ ↦ houtcome
        · exact houtcome
      · exact houtcome

/-- A handled message is acked or dead-lettered. -/
theorem settleMessage_passes {Q : Unit → Pass → Prop} {E : AppError → Pass → Prop}
    {result : HandleContextResultChunkResult} (own : handler.chunk? = some chunk)
    (handled : Handled chunk result w) (hrejected : w = .rejected → Q () (.at task w))
    (hacked : w.Ackable chunk → Q () ⟨.inside task, w, true⟩) :
    (settleMessage chunk result).wp (passSpec i handler) Q E (.at task w) := by
  have hack : w.Ackable chunk → (await .ack).wp (passSpec i handler) Q E (.at task w) := by
    intro hackable
    exact wp_sure_passes rfl fun _ ↦ ⟨_, .ack own rfl hackable, hacked hackable⟩
  have hrest : (if result.outcome = .unknownJob ∨ result.outcome = .ownershipMismatch then
        await (.nack false)
      else do
        if result.outcome = .applied then
          relay chunk result
        await .ack).wp (passSpec i handler) Q E (.at task w) := by
    rcases handled with ⟨hw, houtcome⟩ | ⟨hackable, hknown, howned⟩
    · rw [if_pos houtcome]
      exact wp_sure_passes rfl fun _ ↦ ⟨_, .nack own rfl, hrejected hw⟩
    · rw [if_neg (not_or.mpr ⟨hknown, howned⟩)]
      dsimp only
      split
      · rw [Program.wp_bind]
        exact relay_passes own result (hack hackable)
      · exact hack hackable
  rw [settleMessage, Program.wp_bind, reportFailed]
  split
  · exact hrest
  · split
    · exact wp_tell own rfl fun _ ↦ hrest
    · exact hrest

theorem Work.Ackable.done {w : Work} (h : w.Ackable chunk) : w.Done chunk := by
  cases w <;> first | exact h | trivial

theorem handleParsedChunk_passes {Q : Unit → Pass → Prop} {E : AppError → Pass → Prop}
    (own : handler.chunk? = some chunk)
    (hQ : ∀ w acked, w.Done chunk → Q () ⟨.inside task, w, acked⟩) :
    (handleParsedChunk texts chunk).wp (passSpec i handler) Q E (.at task .fresh) := by
  rw [handleParsedChunk, Program.wp_bind, Program.wp_attempt, Program.wp_bind]
  refine handleContextResultChunk_passes own (fun result w handled ↦ ?_) fun error ↦ ?_
  · refine settleMessage_passes own handled ?_ fun hackable ↦ hQ w true hackable.done
    rintro rfl
    exact hQ .rejected false trivial
  · exact wp_sure_passes rfl fun _ ↦ ⟨_, .nack own rfl, hQ .failing false trivial⟩

/-- A message whose handler is through has done its work and left. -/
theorem runInJobOrder_passes {Q : Unit → Pass → Prop} {E : AppError → Pass → Prop}
    (own : handler.chunk? = some chunk)
    (hQ : ∀ w acked, w.Done chunk → Q () ⟨.left, w, acked⟩) :
    (runInJobOrder chunk.jobId (handleParsedChunk texts chunk)).wp (passSpec i handler) Q E {} := by
  unfold runInJobOrder
  rw [Program.wp_bind]
  refine wp_sure_passes rfl fun chained ↦ ⟨_, .arrive own rfl, ?_⟩
  rw [Program.wp_bind]
  refine wp_sure_passes rfl fun _ ↦ ⟨_, .enter own rfl, ?_⟩
  rw [Program.wp_bind, Program.wp_attempt]
  refine handleParsedChunk_passes own fun w acked hdone ↦ ?_
  exact wp_sure_passes rfl fun _ ↦ ⟨_, .leave own rfl hdone, hQ w acked hdone⟩

end Message

/-! ## The handlers of a consumer's run -/

section Handlers

variable {ι : Type} {i : ι} {texts : PlanningTexts} {handler : Handler}

/-- The handler has never started, or is through. -/
def Handler.Through (handler : Handler) (φ : Pass) : Prop :=
  ∀ chunk, handler.chunk? = some chunk → φ.work.Done chunk

theorem bullmqAttempts_only {allowed : Op → Prop} {process : Async Unit}
    (hprocess : process.Only allowed) (attempts : ℕ) :
    (bullmqAttempts attempts process).Only allowed := by
  induction attempts with
  | zero => trivial
  | succ attempts ih =>
    refine Program.Only.bind hprocess.attempt fun attempted ↦ ?_
    cases attempted with
    | ok done => trivial
    | error error => exact ih

theorem gatherTimeoutProcessor_only (jobId : JobId) :
    (gatherTimeoutProcessor jobId).Only fun op ↦ op.Aside = true := by
  have hhandle : (handleGatherTimeout jobId).Only fun op ↦ op.Aside = true := by
    refine Program.Only.bind ((Program.only_perform _).mpr rfl) fun failed ↦ ?_
    cases failed with
    | none => exact Program.Only.bind ((Program.only_perform _).mpr rfl) fun _ ↦ trivial
    | some job => trivial
  refine Program.Only.bind hhandle fun result ↦ ?_
  split
  · exact Program.Only.bind ((Program.only_perform _).mpr rfl) fun _ ↦
      (Program.only_perform _).mpr rfl
  · trivial

/-- The handlers without a chunk. -/
theorem program_only_aside (consuming : handler.Consuming = true) (noChunk : handler.chunk? = none) :
    (handler.program texts).Only fun op ↦ op.Aside = true := by
  cases handler with
  | submit input => cases consuming
  | worker config job => cases consuming
  | message chunk =>
    obtain rfl : chunk = none := noChunk
    exact (Program.only_perform _).mpr rfl
  | gatherTimeout jobId => exact bullmqAttempts_only (gatherTimeoutProcessor_only jobId) _
  | storeUser id user => exact (Program.only_perform _).mpr rfl

/-- Every handler of a consumer's run follows its pass. -/
theorem program_passes (texts : PlanningTexts) (i : ι) (consuming : handler.Consuming = true) :
    (handler.program texts).wp (passSpec i handler) (fun _ φ ↦ handler.Through φ)
      (fun _ φ ↦ handler.Through φ) {} := by
  cases hchunk : handler.chunk? with
  | none =>
    refine Program.wp_of_only (program_only_aside consuming hchunk) ?_ ?_
    · rintro op haside φ o hthrough -
      exact ⟨φ, .aside hchunk haside, hthrough⟩
    · rintro chunk hsome
      simp [hchunk] at hsome
  | some chunk =>
    obtain rfl : handler = .message (some chunk) := by
      cases handler with
      | message message => exact congrArg Handler.message hchunk
      | _ => cases hchunk
    refine runInJobOrder_passes rfl fun w acked hdone ↦ ?_
    rintro chunk' ⟨⟩
    exact hdone

end Handlers

/-! ## What a pass does to a job -/

/-- How a call of a consumer's run changes a stored job, with the pass of its handler before and
after. -/
inductive JobMove (handler : Handler) (id : JobId) (doc : PlanningJobDocument) :
    Pass → Pass → PlanningJobDocument → Prop
  | kept {φ φ'} : JobMove handler id doc φ φ' doc
  | recorded {φ chunk task} (own : handler.chunk? = some chunk) (job : chunk.jobId = id)
      (inside : φ.place = .inside task) (looked : φ.work = .looked)
      (fresh : chunk.sequence ∉ doc.chunkSequences) :
      JobMove handler id doc φ
        { φ with work := .recorded (doc.push chunk.appendData).dataChunks }
        (doc.push chunk.appendData)
  | claimed {φ chunk dataChunks doc'} (own : handler.chunk? = some chunk) (job : chunk.jobId = id)
      (recorded : φ.work = .recorded dataChunks) (gathering : doc.status = .gathering)
      (claimed : doc' = doc.update {
        status := .planning
        contextUsed := some (some (assembleContext dataChunks)) }) :
      JobMove handler id doc φ { φ with work := .owning } doc'
  | failed {φ φ' doc'} (gathering : doc.status = .gathering) (status : doc'.status = .failed)
      (userId : doc'.userId = doc.userId) : JobMove handler id doc φ φ' doc'
  | finished {φ chunk patch} (own : handler.chunk? = some chunk) (job : chunk.jobId = id)
      (owning : φ.work = .owning) (terminal : patch.status.Terminal) :
      JobMove handler id doc φ { φ with work := .decided } (doc.update patch)

section Effects

variable {ι : Type} {i : ι} {s s' : PlanningState} {handler : Handler} {φ φ' : Pass} {op : Op}
  {o : Outcome AppError (Ans op)} {id : JobId} {doc : PlanningJobDocument}

/-- A call of a pass leaves its work, or is part of it. -/
theorem Passes.work_cases (moves : Passes handler φ op o φ') :
    φ'.work = φ.work ∨ ∃ chunk task, handler.chunk? = some chunk ∧ φ.place = .inside task ∧
      Works chunk φ.work op o φ'.work := by
  cases moves with
  | work own inside unacked works => exact .inr ⟨_, _, own, inside, works⟩
  | _ => exact .inl rfl

section Works

variable {chunk : ContextResultChunk} {w w' : Work}

theorem Works.of_updateStatus {patch : UpdatePlanningJobStatusData}
    {o : Outcome AppError (Ans (.updateStatus id patch))}
    (h : Works chunk w (.updateStatus id patch) o w') (returned : ¬ o.Failed) :
    w = .owning ∧ chunk.jobId = id ∧ patch.status.Terminal ∧ w' = .decided := by
  cases h with
  | finish terminal => exact ⟨rfl, rfl, terminal, rfl⟩
  | plan ofOwner => cases ofOwner
  | tell telling => cases telling
  | fail early failed => exact (returned failed).elim
  | failLate deciding failed => exact (returned failed).elim

theorem Works.of_pushResultChunk {push : AppendResultChunkData} {job : PlanningJob}
    (h : Works chunk w (.pushResultChunk id push) (.returned (some job)) w') :
    w = .looked ∧ chunk.jobId = id ∧ push = chunk.appendData ∧ w' = .recorded job.dataChunks := by
  cases h with
  | record => exact ⟨rfl, rfl, rfl, rfl⟩
  | plan ofOwner => cases ofOwner
  | tell telling => cases telling
  | fail early failed => exact failed.elim
  | failLate deciding failed => exact failed.elim

theorem Works.of_claimForPlanning {contextUsed : JsonObject} {job : PlanningJob}
    (h : Works chunk w (.claimForPlanning id contextUsed) (.returned (some job)) w') :
    chunk.jobId = id ∧ chunk.Completes ∧ w' = .owning ∧
      ∃ dataChunks, w = .recorded dataChunks ∧ contextUsed = assembleContext dataChunks := by
  cases h with
  | claim completes => exact ⟨rfl, completes, rfl, _, rfl, rfl⟩
  | plan ofOwner => cases ofOwner
  | tell telling => cases telling
  | fail early failed => exact failed.elim
  | failLate deciding failed => exact failed.elim

/-- The claims of a pending job are no part of the work on a chunk. -/
theorem Works.not_claim (h : Works chunk w op o w') (effective : ¬ o.Failed) (id : JobId) :
    op ≠ .claimForProcessing id ∧ op ≠ .claimForGathering id := by
  cases h with
  | plan ofOwner => constructor <;> rintro rfl <;> cases ofOwner
  | tell telling => constructor <;> rintro rfl <;> cases telling
  | fail early failed => exact (effective failed).elim
  | failLate deciding failed => exact (effective failed).elim
  | _ => exact ⟨by rintro ⟨⟩, by rintro ⟨⟩⟩

end Works

/-- Where calls that throw have no effect, a call changes a job by one of the moves above. -/
theorem Passes.jobMove (moves : Passes handler φ op o φ')
    (answers : (world ι).Answers AppError i op s o s') (lost : o.Failed → ¬ o.TookEffect)
    (found : s.jobs id = some doc) :
    ∃ doc', s'.jobs id = some doc' ∧ JobMove handler id doc φ φ' doc' := by
  rcases job_after answers found with hsame | ⟨answer, doc', hdoc', hrewrites, heffect, hanswer⟩
  · exact ⟨doc, hsame, .kept⟩
  refine ⟨doc', hdoc', ?_⟩
  obtain ⟨a, rfl⟩ : ∃ a, o = .returned a := by
    cases o with
    | returned a => exact ⟨a, rfl⟩
    | lost error => exact heffect.elim
    | applied error => exact (lost trivial heffect).elim
  obtain rfl := hanswer a rfl
  cases hrewrites with
  | updateStatus patch =>
    cases moves with
    | aside _ aside => cases aside
    | work own inside unacked works =>
      obtain ⟨hwork, hjob, hterminal, rfl⟩ := works.of_updateStatus fun hfailed ↦ hfailed
      exact .finished own hjob hwork hterminal
  | claimForProcessing time pending claimed =>
    cases moves with
    | aside _ aside => cases aside
    | work own inside unacked works => exact ((works.not_claim (fun hfailed ↦ hfailed) id).1 rfl).elim
  | claimForGathering time pending claimed =>
    cases moves with
    | aside _ aside => cases aside
    | work own inside unacked works => exact ((works.not_claim (fun hfailed ↦ hfailed) id).2 rfl).elim
  | pushResultChunk push fresh =>
    cases moves with
    | aside _ aside => cases aside
    | work own inside unacked works =>
      obtain ⟨hwork, hjob, rfl, rfl⟩ := works.of_pushResultChunk
      exact .recorded own hjob inside hwork fresh
  | claimForPlanning contextUsed gathering claimed =>
    cases moves with
    | aside _ aside => cases aside
    | work own inside unacked works =>
      obtain ⟨hjob, -, rfl, dataChunks, hwork, rfl⟩ := works.of_claimForPlanning
      exact .claimed own hjob hwork gathering claimed
  | failIfStillGathering errorCode errorMessage time gathering failed =>
    exact .failed gathering (failed ▸ rfl) (failed ▸ rfl)

end Effects

/-! ## Runs of a consumer -/

section Runs

variable {ι : Type} [DecidableEq ι]

/-- Runs of a consumer in which every handler is known by its pass only. -/
abbrev ConsumerRun (handlers : ι → Handler) (state : PlanningState) :
    PlanningState → (ι → Pass) → List (Call ι) → Prop :=
  (world ι).Tracked (fun i ↦ passes (handlers i)) state fun _ ↦ {}

/-- Every run of a consumer is a run of its handlers' passes, and a handler that has finished is
through. -/
theorem System.Reaches.exists_consumerRun {texts : PlanningTexts} {handlers : ι → Handler}
    {state : PlanningState} {config : System ι} (h : System.Reaches texts state handlers config)
    (consuming : ∀ i, (handlers i).Consuming = true) :
    ∃ φ, ConsumerRun handlers state config.shared φ config.trace ∧
      ∀ i, (config.threads i).Finished → (handlers i).Through (φ i) := by
  obtain ⟨φ, hrun, hconform⟩ :=
    World.exists_tracked rfl (fun i ↦ program_passes texts i (consuming i)) h
  refine ⟨φ, hrun, fun i hfinished ↦ ?_⟩
  have hprogram := hconform i
  cases hthread : config.threads i with
  | pure value => simpa [hthread] using hprogram
  | throw error => simpa [hthread] using hprogram
  | call op next => simp [hthread] at hfinished

end Runs

end MemoFlowApi.Planning
