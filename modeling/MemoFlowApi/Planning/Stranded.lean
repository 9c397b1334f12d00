import MemoFlowApi.Concurrency.View
import MemoFlowApi.Planning.Effects

/-!
# Jobs Left in Flight

A claim is never taken back, so a call that throws after it must be recorded on the job: retries of
the attempt find the job claimed and do nothing.  This module determines which calls are not
recorded.  When all attempts of a worker are over, its job is left in `running`, `planning`, or
`gathering` with nothing outstanding, exactly if one of the calls outside the `try` blocks threw
after the claim (`stranded_iff_interrupted`).
-/

namespace MemoFlowApi.Planning

open Concurrency

variable {ι : Type}

/-- A gather timeout is scheduled for the job, or a gather request is published. -/
def PlanningState.Awaited (s : PlanningState) (id : JobId) : Prop :=
  id ∈ s.timeouts ∨ id ∈ s.requests

/-- The job is in flight and nothing outstanding can move it. -/
def PlanningState.Stranded (s : PlanningState) (id : JobId) : Prop :=
  s.status id = some .running ∨ s.status id = some .planning ∨
    s.status id = some .gathering ∧ ¬ s.Awaited id

/-- A call of a worker whose exception nothing records on the claimed job: the claim itself, where
it took effect, and the calls between a claim and the `try` blocks after it. -/
def Interrupts (config : WorkerConfig) (id : JobId) (call : Call ι) : Prop :=
  match call.op with
  | .claimForProcessing _ | .claimForGathering _ =>
      call.outcome.Failed ∧ call.outcome.TookEffect ∧ call.before.status id = some .pending
  | .findActiveByFeatureType => config.publisher = false ∧ call.outcome.Failed
  | .findActiveByUser _ | .claimForPlanning _ _ => call.outcome.Failed
  | _ => False

/-- A write of a job's status that threw. -/
def Unwritten (call : Call ι) : Prop :=
  match call.op with
  | .updateStatus _ _ => call.outcome.Failed
  | _ => False

instance (s : PlanningState) (id : JobId) : Decidable (s.Awaited id) :=
  inferInstanceAs (Decidable (id ∈ s.timeouts ∨ id ∈ s.requests))

instance (s : PlanningState) (id : JobId) : Decidable (s.Stranded id) :=
  inferInstanceAs (Decidable (s.status id = some .running ∨ s.status id = some .planning ∨
    s.status id = some .gathering ∧ ¬ s.Awaited id))

instance (config : WorkerConfig) (id : JobId) : DecidablePred (Interrupts (ι := ι) config id) := by
  intro call
  unfold Interrupts
  split <;> infer_instance

instance : DecidablePred (Unwritten (ι := ι)) := by
  intro call
  unfold Unwritten
  split <;> infer_instance

/-! ## The view of a worker -/

/-- What a worker's job has come to in a run. -/
structure Standing where
  status : Option JobStatus
  awaited : Prop
  interrupted : Prop
  unwritten : Prop

/-- The standing of a job in a state, after a trace. -/
def standing (config : WorkerConfig) (id : JobId) (s : PlanningState) (trace : List (Call ι)) :
    Standing where
  status := s.status id
  awaited := s.Awaited id
  interrupted := ∃ call ∈ trace, Interrupts config id call
  unwritten := ∃ call ∈ trace, Unwritten call

namespace Standing

/-- `PlanningState.Stranded`, of a standing. -/
def Stranded (v : Standing) : Prop :=
  v.status = some .running ∨ v.status = some .planning ∨
    v.status = some .gathering ∧ ¬ v.awaited

/-- Between attempts: an unclaimed job awaits nothing, and a job is stranded if an attempt was
interrupted. -/
def Settled (v : Standing) : Prop :=
  (v.status = some .pending → ¬ v.awaited) ∧ (v.Stranded ↔ v.interrupted)

/-- A claimed job whose attempt was not interrupted. -/
def Held (status : JobStatus) (v : Standing) : Prop :=
  v.status = some status ∧ ¬ v.interrupted

/-- How an attempt ends. -/
def Ended (v : Standing) : Prop :=
  v.unwritten ∨ v.Settled

theorem Settled.not_interrupted {v : Standing} (h : v.Settled) (hpending : v.status = some .pending) :
    ¬ v.interrupted := by
  intro hinterrupted
  rcases h.2.mpr hinterrupted with hrunning | hplanning | ⟨hgathering, -⟩
  · simp [hpending] at hrunning
  · simp [hpending] at hplanning
  · simp [hpending] at hgathering

/-- A job in a terminal state is not stranded. -/
theorem Held.settled_of_terminal {v : Standing} {status : JobStatus} (h : v.Held status)
    (terminal : status.Terminal) : v.Settled := by
  obtain ⟨hstatus, hinterrupted⟩ := h
  unfold Settled Stranded
  rcases terminal with rfl | rfl
  · simp [hstatus, hinterrupted]
  · simp [hstatus, hinterrupted]

/-- A gathering job that awaits a result is not stranded. -/
theorem Held.settled_of_awaited {v : Standing} (h : v.Held .gathering) (awaited : v.awaited) :
    v.Settled := by
  obtain ⟨hstatus, hinterrupted⟩ := h
  unfold Settled Stranded
  simp [hstatus, hinterrupted, awaited]

/-- A claimed job that awaits nothing is stranded. -/
theorem stranded_of_claimed {v : Standing} (hawaited : ¬ v.awaited)
    (hstatus : v.status = some .running ∨ v.status = some .gathering ∨ v.status = some .planning) :
    v.Stranded := by
  unfold Stranded
  rcases hstatus with hrunning | hgathering | hplanning
  · exact .inl hrunning
  · exact .inr (.inr ⟨hgathering, hawaited⟩)
  · exact .inr (.inl hplanning)

/-- An interrupted attempt leaves a claimed job stranded. -/
theorem settled_of_interrupted {v : Standing} (hinterrupted : v.interrupted)
    (hawaited : ¬ v.awaited)
    (hstatus : v.status = some .running ∨ v.status = some .gathering ∨ v.status = some .planning) :
    v.Settled :=
  ⟨fun _ ↦ hawaited, fun _ ↦ hinterrupted, fun _ ↦ stranded_of_claimed hawaited hstatus⟩

end Standing

/-- The calls of a worker that neither change the job nor leave it stranded by throwing. -/
def Op.Quiet (publisher : Bool) : Op → Prop
  | .findById _ | .findUserById _ | .storeUser _ _ | .gather _ _ _ | .search _ | .plan _
  | .randomBytes | .now | .emit _ | .captureException _ _ => True
  | .findActiveByFeatureType => publisher = true
  | _ => False

section Calls

variable {config : WorkerConfig} {id : JobId} {s s' : PlanningState} {i : ι}
  {trace : List (Call ι)}

/-- The standing after a call. -/
theorem standing_cons (call : Call ι) :
    standing config id s (call :: trace) =
      { standing config id s trace with
        interrupted := Interrupts config id call ∨ (standing config id s trace).interrupted
        unwritten := Unwritten call ∨ (standing config id s trace).unwritten } := by
  simp [standing]

/-- The standing depends on the job's status and on what is outstanding. -/
theorem standing_congr (hstatus : s'.status id = s.status id) (htimeouts : s'.timeouts = s.timeouts)
    (hrequests : s'.requests = s.requests) :
    standing config id s' trace = standing config id s trace := by
  simp [standing, PlanningState.Awaited, hstatus, htimeouts, hrequests]

/-- Quiet calls leave everything a standing shows. -/
theorem state_of_quiet {op : Op} {o : Outcome AppError (Ans op)} (quiet : op.Quiet config.publisher)
    (answers : (world ι).Answers AppError i op s o s') :
    s'.jobs = s.jobs ∧ s'.timeouts = s.timeouts ∧ s'.requests = s.requests := by
  rcases answers.unchanged_or_effect with rfl | ⟨a, reply, heffect⟩
  · exact ⟨rfl, rfl, rfl⟩
  · cases op
    all_goals first
      | exact quiet.elim
      | obtain ⟨rfl, rfl⟩ := Prod.mk.inj (Option.some.inj heffect)
        exact ⟨rfl, rfl, rfl⟩

theorem standing_of_quiet {op : Op} {o : Outcome AppError (Ans op)}
    (quiet : op.Quiet config.publisher) (answers : (world ι).Answers AppError i op s o s') :
    standing config id s' (⟨s, i, op, o⟩ :: trace) = standing config id s trace := by
  obtain ⟨hjobs, htimeouts, hrequests⟩ := state_of_quiet quiet answers
  have hinterrupts : ¬ Interrupts config id (⟨s, i, op, o⟩ : Call ι) := by
    cases op <;> simp_all [Interrupts, Op.Quiet]
  have hunwritten : ¬ Unwritten (⟨s, i, op, o⟩ : Call ι) := by
    cases op <;> simp_all [Unwritten, Op.Quiet]
  rw [standing_cons, standing_congr (by simp [PlanningState.status, hjobs]) htimeouts hrequests]
  simp [hinterrupts, hunwritten]

end Calls

/-- The meaning of a worker's calls, as far as its job's standing goes. -/
abbrev standingSpec (i : ι) (config : WorkerConfig) (id : JobId) :
    CallSpec Ans AppError Standing :=
  (world ι).viewSpec (standing config id) i

section Rules

variable {config : WorkerConfig} {id : JobId} {i : ι} {v : Standing}

theorem wp_quiet {op : Op} {Q : Ans op → Standing → Prop} {E : AppError → Standing → Prop}
    (quiet : op.Quiet config.publisher) (hQ : ∀ a, Q a v) (hE : ∀ e, mayFail op = true → E e v) :
    (await op).wp (standingSpec i config id) Q E v := by
  rw [Program.wp_perform]
  rintro o s trace s' rfl answers
  rw [standing_of_quiet quiet answers]
  cases answers with
  | returned effect => exact hQ _
  | lost error hfail => exact hE error hfail
  | applied error hfail effect => exact hE error hfail

/-- A block of quiet calls keeps the standing. -/
theorem wp_of_only_quiet {α : Type} {program : Async α}
    (only : program.Only (Op.Quiet config.publisher)) {I : Standing → Prop} (hv : I v) :
    program.wp (standingSpec i config id) (fun _ ↦ I) (fun _ ↦ I) v := by
  refine Program.wp_of_only only ?_ hv
  rintro op quiet v o hI s trace s' rfl answers
  rwa [standing_of_quiet quiet answers]

/-- Once a final write threw, nothing is claimed of the job. -/
theorem wp_of_unwritten {α : Type} (program : Async α) (hv : v.unwritten) :
    program.wp (standingSpec i config id) (fun _ ↦ Standing.Ended) (fun _ ↦ Standing.Ended) v := by
  have hkept : program.wp (standingSpec i config id) (fun _ ↦ Standing.unwritten)
      (fun _ ↦ Standing.unwritten) v := by
    refine Program.wp_of_kept program ?_ hv
    rintro op v o hunwritten s trace s' rfl answers
    rw [standing_cons]
    exact .inr hunwritten
  exact Program.wp_mono (fun _ _ h ↦ .inl h) (fun _ _ h ↦ .inl h) hkept

/-- A claim of a pending job that awaits nothing. -/
theorem claim_cases {s s' : PlanningState} {trace : List (Call ι)} {status : JobStatus}
    {update : PlanningJobDocument → PlanningJobDocument} {found : Option PlanningJob}
    (h : s.findOneAndUpdate id (·.status = .pending) update = (found, s'))
    (hupdate : ∀ doc, (update doc).status = status) (hv : (standing config id s trace).Settled) :
    (∃ job, found = some job ∧ job.id = id ∧ s.status id = some .pending ∧
      (standing config id s' trace).Held status ∧ ¬ (standing config id s' trace).awaited) ∨
    (found = none ∧ s' = s ∧ s.status id ≠ some .pending) := by
  rcases PlanningState.transition_cases h (fun doc ↦ decide_eq_true_iff) hupdate with
    ⟨job, hfound, hid, hbefore, hafter, htimeouts, hrequests⟩ | hnone
  · have hinterrupted := hv.not_interrupted hbefore
    have hawaited := hv.1 hbefore
    refine .inl ⟨job, hfound, hid, hbefore, ⟨hafter, hinterrupted⟩, ?_⟩
    simpa [standing, PlanningState.Awaited, htimeouts, hrequests] using hawaited
  · exact .inr hnone

theorem claimForProcessing_wp {Q : Option PlanningJob → Standing → Prop}
    {E : AppError → Standing → Prop} (hv : v.Settled) (hnone : ∀ v', v'.Settled → Q none v')
    (hsome : ∀ job v', job.id = id → v'.Held .running → ¬ v'.awaited → Q (some job) v')
    (hE : ∀ e v', v'.Settled → E e v') :
    (await (.claimForProcessing id)).wp (standingSpec i config id) Q E v := by
  rw [Program.wp_perform]
  rintro o s trace s' rfl answers
  rw [standing_cons]
  cases answers with
  | returned effect =>
    obtain ⟨reply, heffect⟩ := effect
    rcases claim_cases (Option.some.inj heffect) (fun _ ↦ rfl) hv with
      ⟨job, rfl, hid, -, hheld, hawaited⟩ | ⟨rfl, rfl, -⟩
    · refine hsome job _ hid ?_ hawaited
      simpa [Standing.Held, Interrupts] using hheld
    · refine hnone _ ?_
      simpa [Interrupts, Unwritten] using hv
  | lost error hfail =>
    refine hE error _ ?_
    simpa [Interrupts, Unwritten] using hv
  | applied error hfail effect =>
    obtain ⟨reply, heffect⟩ := effect
    refine hE error _ ?_
    rcases claim_cases (Option.some.inj heffect) (fun _ ↦ rfl) hv with
      ⟨job, -, -, hbefore, hheld, hawaited⟩ | ⟨-, rfl, hnotpending⟩
    · exact Standing.settled_of_interrupted (.inl ⟨trivial, trivial, hbefore⟩) hawaited
        (.inl hheld.1)
    · simpa [Interrupts, Unwritten, hnotpending] using hv

theorem claimForGathering_wp {Q : Option PlanningJob → Standing → Prop}
    {E : AppError → Standing → Prop} (hv : v.Settled) (hnone : ∀ v', v'.Settled → Q none v')
    (hsome : ∀ job v', job.id = id → v'.Held .gathering → ¬ v'.awaited → Q (some job) v')
    (hE : ∀ e v', v'.Settled → E e v') :
    (await (.claimForGathering id)).wp (standingSpec i config id) Q E v := by
  rw [Program.wp_perform]
  rintro o s trace s' rfl answers
  rw [standing_cons]
  cases answers with
  | returned effect =>
    obtain ⟨reply, heffect⟩ := effect
    rcases claim_cases (Option.some.inj heffect) (fun _ ↦ rfl) hv with
      ⟨job, rfl, hid, -, hheld, hawaited⟩ | ⟨rfl, rfl, -⟩
    · refine hsome job _ hid ?_ hawaited
      simpa [Standing.Held, Interrupts] using hheld
    · refine hnone _ ?_
      simpa [Interrupts, Unwritten] using hv
  | lost error hfail =>
    refine hE error _ ?_
    simpa [Interrupts, Unwritten] using hv
  | applied error hfail effect =>
    obtain ⟨reply, heffect⟩ := effect
    refine hE error _ ?_
    rcases claim_cases (Option.some.inj heffect) (fun _ ↦ rfl) hv with
      ⟨job, -, -, hbefore, hheld, hawaited⟩ | ⟨-, rfl, hnotpending⟩
    · exact Standing.settled_of_interrupted (.inl ⟨trivial, trivial, hbefore⟩) hawaited
        (.inr (.inl hheld.1))
    · simpa [Interrupts, Unwritten, hnotpending] using hv

/-- The claim of a gathering job always matches; an exception of it strands the job. -/
theorem claimForPlanning_wp {contextUsed : JsonObject} {Q : Option PlanningJob → Standing → Prop}
    {E : AppError → Standing → Prop} (hv : v.Held .gathering) (hawaited : ¬ v.awaited)
    (hsome : ∀ job v', job.id = id → v'.Held .planning → Q (some job) v')
    (hE : ∀ e v', v'.Settled → E e v') :
    (await (.claimForPlanning id contextUsed)).wp (standingSpec i config id) Q E v := by
  rw [Program.wp_perform]
  rintro o s trace s' rfl answers
  rw [standing_cons]
  obtain ⟨hstatus, hinterrupted⟩ := hv
  cases answers with
  | returned effect =>
    obtain ⟨reply, heffect⟩ := effect
    rcases PlanningState.transition_cases (Option.some.inj heffect) (fun doc ↦ decide_eq_true_iff)
      (fun _ ↦ rfl) with ⟨job, rfl, hid, -, hafter, -, -⟩ | ⟨-, -, hnot⟩
    · refine hsome job _ hid ⟨hafter, ?_⟩
      simpa [standing, Interrupts] using hinterrupted
    · exact (hnot hstatus).elim
  | lost error hfail =>
    exact hE error _ (Standing.settled_of_interrupted (.inl trivial) hawaited (.inr (.inl hstatus)))
  | applied error hfail effect =>
    obtain ⟨reply, heffect⟩ := effect
    refine hE error _ ?_
    rcases PlanningState.transition_cases (Option.some.inj heffect) (fun doc ↦ decide_eq_true_iff)
      (fun _ ↦ rfl) with ⟨job, -, -, -, hafter, htimeouts, hrequests⟩ | ⟨-, -, hnot⟩
    · refine Standing.settled_of_interrupted (.inl trivial) ?_ (.inr (.inr hafter))
      simpa [standing, PlanningState.Awaited, htimeouts, hrequests] using hawaited
    · exact (hnot hstatus).elim

/-- A final write ends the job, or throws. -/
theorem updateStatus_wp {patch : UpdatePlanningJobStatusData} {status : JobStatus}
    {Q : Option PlanningJob → Standing → Prop} {E : AppError → Standing → Prop}
    (hv : v.Held status) (terminal : patch.status.Terminal)
    (hQ : ∀ job v', v'.Settled → Q job v') (hE : ∀ e v', v'.unwritten → E e v') :
    (await (.updateStatus id patch)).wp (standingSpec i config id) Q E v := by
  rw [Program.wp_perform]
  rintro o s trace s' rfl answers
  rw [standing_cons]
  obtain ⟨hstatus, hinterrupted⟩ := hv
  cases answers with
  | returned effect =>
    obtain ⟨reply, heffect⟩ := effect
    refine hQ _ _ ?_
    rcases PlanningState.findOneAndUpdate_cases (Option.some.inj heffect) with
      ⟨doc, hdoc, -, -, rfl⟩ | ⟨-, -, hnone⟩
    · refine Standing.Held.settled_of_terminal ⟨?_, ?_⟩ terminal
      · simp [standing, PlanningState.status, PlanningJobDocument.update]
      · simpa [standing, Interrupts] using hinterrupted
    · obtain ⟨doc, hdoc, -⟩ := Option.map_eq_some_iff.mp hstatus
      cases hnone doc hdoc
  | lost error hfail => exact hE error _ (.inl trivial)
  | applied error hfail effect => exact hE error _ (.inl trivial)

/-- A published request may be answered, whether or not its publication threw. -/
theorem publishGatherRequest_wp {input : GatherRequestInput} {Q : Unit → Standing → Prop}
    {E : AppError → Standing → Prop} (hv : v.Held .gathering) (job : input.jobId = id)
    (hQ : ∀ v', v'.Held .gathering → v'.awaited → Q () v')
    (hE : ∀ e v', v'.Held .gathering → E e v') :
    (await (.publishGatherRequest input)).wp (standingSpec i config id) Q E v := by
  rw [Program.wp_perform]
  rintro o s trace s' rfl answers
  rw [standing_cons]
  cases answers with
  | returned effect =>
    obtain ⟨reply, heffect⟩ := effect
    obtain ⟨-, rfl⟩ := Prod.mk.inj (Option.some.inj heffect)
    refine hQ _ ?_ (.inr ?_)
    · simpa [standing, Standing.Held, Interrupts, PlanningState.status] using hv
    · simp [job]
  | lost error hfail =>
    refine hE error _ ?_
    simpa [Standing.Held, Interrupts] using hv
  | applied error hfail effect =>
    obtain ⟨reply, heffect⟩ := effect
    obtain ⟨-, rfl⟩ := Prod.mk.inj (Option.some.inj heffect)
    refine hE error _ ?_
    simpa [standing, Standing.Held, Interrupts, PlanningState.status] using hv

/-- A job that awaits a result keeps awaiting it while its timeout is scheduled. -/
theorem scheduleTimeout_wp {jobId : JobId} {delayMs : ℕ} {Q : Unit → Standing → Prop}
    {E : AppError → Standing → Prop} (hv : v.Held .gathering) (hawaited : v.awaited)
    (hQ : ∀ v', v'.Settled → Q () v') (hE : ∀ e v', v'.Settled → E e v') :
    (await (.scheduleTimeout jobId delayMs)).wp (standingSpec i config id) Q E v := by
  rw [Program.wp_perform]
  rintro o s trace s' rfl answers
  have hsettled : (standing config id s'
      (⟨s, i, .scheduleTimeout jobId delayMs, o⟩ :: trace)).Settled := by
    refine Standing.Held.settled_of_awaited ?_ ?_
    · rw [standing_cons]
      rcases answers.unchanged_or_effect with rfl | ⟨a, reply, heffect⟩
      · simpa [Standing.Held, Interrupts] using hv
      · obtain ⟨-, rfl⟩ := Prod.mk.inj (Option.some.inj heffect)
        simpa [standing, Standing.Held, Interrupts, PlanningState.status] using hv
    · rcases answers.unchanged_or_effect with rfl | ⟨a, reply, heffect⟩
      · exact hawaited
      · obtain ⟨-, rfl⟩ := Prod.mk.inj (Option.some.inj heffect)
        exact hawaited.imp_left (List.mem_cons_of_mem _)
  cases answers with
  | returned effect => exact hQ _ hsettled
  | lost error hfail => exact hE error _ hsettled
  | applied error hfail effect => exact hE error _ hsettled

/-- The reads of the active prompt and of the connections: an exception strands the job. -/
theorem wp_exposed_read {op : Op} {status : JobStatus} {Q : Ans op → Standing → Prop}
    {E : AppError → Standing → Prop} (hv : v.Held status) (hawaited : ¬ v.awaited)
    (hstatus : status = .running ∨ status = .gathering)
    (hop : op = .findActiveByFeatureType ∧ config.publisher = false ∨
      ∃ userId, op = .findActiveByUser userId)
    (hQ : ∀ a, Q a v) (hE : ∀ e v', v'.Settled → E e v') :
    (await op).wp (standingSpec i config id) Q E v := by
  rw [Program.wp_perform]
  rintro o s trace s' rfl answers
  have hs' : s' = s := by
    rcases answers.unchanged_or_effect with rfl | ⟨a, reply, heffect⟩
    · rfl
    · rcases hop with ⟨rfl, -⟩ | ⟨userId, rfl⟩
      · exact (Prod.mk.inj (Option.some.inj heffect)).2.symm
      · exact (Prod.mk.inj (Option.some.inj heffect)).2.symm
  subst hs'
  have hinterrupts : Interrupts config id (⟨s', i, op, o⟩ : Call ι) ↔ o.Failed := by
    rcases hop with ⟨rfl, hlegacy⟩ | ⟨userId, rfl⟩ <;> simp [Interrupts, *]
  have hunwritten : ¬ Unwritten (⟨s', i, op, o⟩ : Call ι) := by
    rcases hop with ⟨rfl, -⟩ | ⟨userId, rfl⟩ <;> simp [Unwritten]
  have hclaimed : s'.status id = some .running ∨ s'.status id = some .gathering ∨
      s'.status id = some .planning := by
    rcases hstatus with rfl | rfl
    · exact .inl hv.1
    · exact .inr (.inl hv.1)
  rw [standing_cons]
  cases answers with
  | returned effect => simpa [hinterrupts, hunwritten] using hQ _
  | lost error hfail =>
    exact hE error _ (Standing.settled_of_interrupted (.inl (hinterrupts.mpr trivial)) hawaited
      hclaimed)
  | applied error hfail effect =>
    exact hE error _ (Standing.settled_of_interrupted (.inl (hinterrupts.mpr trivial)) hawaited
      hclaimed)

end Rules

/-! ## The attempts of a worker -/

section Attempts

variable {texts : PlanningTexts} {config : WorkerConfig} {id : JobId} {i : ι} {v : Standing}
  {status : JobStatus}

/-- Both ways out of a block leave the job ended. -/
abbrev Ends {α : Type} (i : ι) (config : WorkerConfig) (id : JobId) (program : Async α)
    (v : Standing) : Prop :=
  program.wp (standingSpec i config id) (fun _ ↦ Standing.Ended) (fun _ ↦ Standing.Ended) v

/-- The clock is read before a final write. -/
theorem now_wp {Q : Time → Standing → Prop} {E : AppError → Standing → Prop}
    (hQ : ∀ time, Q time v) : (await .now).wp (standingSpec i config id) Q E v :=
  wp_quiet trivial hQ fun _ hfail ↦ by simp [mayFail] at hfail

theorem recordFailure_ends {claimed : PlanningJob} (hv : v.Held status) (job : claimed.id = id)
    (promptVersion : Option String) (contextUsed : Option JsonObject) (error : AppError) :
    Ends i config id (recordFailure claimed promptVersion contextUsed error) v := by
  subst job
  unfold recordFailure
  rw [Ends, Program.wp_bind]
  refine now_wp fun finishedAt ↦ ?_
  rw [Program.wp_bind]
  exact updateStatus_wp hv (.inr rfl) (fun _ _ h ↦ .inr h) fun _ _ h ↦ .inl h

theorem recordResult_ends {claimed : PlanningJob} (hv : v.Held status) (job : claimed.id = id)
    (promptVersion : Option String) (contextUsed : JsonObject) (result : ValidatedPlanningResult) :
    Ends i config id (recordResult claimed promptVersion contextUsed result) v := by
  subst job
  unfold recordResult
  rw [Ends, Program.wp_bind]
  refine now_wp fun finishedAt ↦ ?_
  rw [Program.wp_bind]
  exact updateStatus_wp hv (.inl rfl) (fun _ _ h ↦ .inr h) fun _ _ h ↦ .inl h

theorem recordUnstarted_ends {claimed : PlanningJob} (hv : v.Held status) (job : claimed.id = id)
    (errorCode errorMessage : String) :
    Ends i config id (recordUnstarted claimed errorCode errorMessage) v := by
  subst job
  unfold recordUnstarted
  rw [Ends, Program.wp_bind]
  refine now_wp fun finishedAt ↦ ?_
  rw [Program.wp_bind]
  exact updateStatus_wp hv (.inr rfl) (fun _ _ h ↦ .inr h) fun _ _ h ↦ .inl h

theorem notClaimed_ends (hv : v.Settled) : Ends i config id (notClaimed id) v := by
  unfold notClaimed
  rw [Ends, Program.wp_bind]
  refine wp_quiet trivial (fun found ↦ ?_) fun _ _ ↦ .inr hv
  cases found with
  | none => exact .inr hv
  | some existing => exact .inr hv

/-- A `try` block of quiet calls, whatever it computes. -/
theorem wp_attempt_quiet {α : Type} {program : Async α} {Q : Except AppError α → Standing → Prop}
    {E : AppError → Standing → Prop} (only : program.Only (Op.Quiet config.publisher))
    (hQ : ∀ r, Q r v) : program.attempt.wp (standingSpec i config id) Q E v := by
  rw [Program.wp_attempt]
  refine Program.wp_mono ?_ ?_ (wp_of_only_quiet only (I := fun v' ↦ v' = v) rfl)
  · rintro value v' rfl
    exact hQ _
  · rintro error v' rfl
    exact hQ _

/-- After the prompt is resolved, whatever throws is recorded. -/
theorem runClaimedPlanning_ends {claimed : PlanningJob} (hpublisher : config.publisher = true)
    (hv : v.Held status) (job : claimed.id = id) (connectorContext : JsonObject) :
    Ends i config id (runClaimedPlanning texts claimed connectorContext) v := by
  unfold runClaimedPlanning
  rw [Ends, Program.wp_bind]
  refine wp_attempt_quiet (resolvePlanningPrompt_only _ hpublisher) fun resolved ↦ ?_
  cases resolved with
  | error error => exact recordFailure_ends hv job _ _ _
  | ok resolvedPrompt =>
    dsimp only
    rw [Program.wp_bind]
    refine wp_attempt_quiet ((assertJobUserActive_only _ trivial).bind fun _ ↦
      prepare_only _ _ _ fun _ ↦ trivial)
      fun prepared ↦ ?_
    cases prepared with
    | error error => exact recordFailure_ends hv job _ _ _
    | ok prepared =>
      dsimp only
      rw [Program.wp_bind]
      refine wp_attempt_quiet ((assertJobUserActive_only _ trivial).bind fun _ ↦
        plan_only _ _ _ _ trivial fun _ ↦ trivial)
        fun planned ↦ ?_
      cases planned with
      | error error => exact recordFailure_ends hv job _ _ _
      | ok result => exact recordResult_ends hv job _ _ _

/-- The legacy branch looks the prompt up between the claim and the first `try`. -/
theorem resolvePlanningPrompt_wp_exposed {Q : ResolvedPlanningPrompt → Standing → Prop}
    {E : AppError → Standing → Prop} (hpublisher : config.publisher = false)
    (hv : v.Held .running) (hawaited : ¬ v.awaited) (hQ : ∀ resolved, Q resolved v)
    (hE : ∀ e v', v'.Settled → E e v') :
    (resolvePlanningPrompt texts).wp (standingSpec i config id) Q E v := by
  unfold resolvePlanningPrompt
  rw [Program.wp_bind]
  refine wp_exposed_read hv hawaited (.inl rfl) (.inl ⟨rfl, hpublisher⟩) (fun active ↦ ?_) hE
  cases active with
  | none => exact hQ _
  | some active => exact hQ _

theorem executeLegacy_ends (hpublisher : config.publisher = false) (hv : v.Settled) :
    Ends i config id (executeLegacy texts id) v := by
  unfold executeLegacy
  rw [Ends, Program.wp_bind]
  refine claimForProcessing_wp hv (fun v hv ↦ notClaimed_ends hv) ?_ fun _ _ h ↦ .inr h
  intro claimed v job hheld hawaited
  dsimp only
  rw [Program.wp_bind]
  refine resolvePlanningPrompt_wp_exposed hpublisher hheld hawaited (fun resolvedPrompt ↦ ?_)
    fun _ _ h ↦ .inr h
  rw [Program.wp_bind]
  refine wp_attempt_quiet ((assertJobUserActive_only _ trivial).bind fun _ ↦
    ((Program.only_perform _).mpr trivial).bind fun _ ↦ prepare_only _ _ _ fun _ ↦ trivial) fun prepared ↦ ?_
  cases prepared with
  | error error =>
    dsimp only
    rw [Program.wp_bind]
    exact recordFailure_ends hheld job _ _ _
  | ok prepared =>
    dsimp only
    rw [Program.wp_bind]
    refine wp_attempt_quiet ((assertJobUserActive_only _ trivial).bind fun _ ↦
        plan_only _ _ _ _ trivial fun _ ↦ trivial)
      fun planned ↦ ?_
    cases planned with
    | error error =>
      dsimp only
      rw [Program.wp_bind]
      exact recordFailure_ends hheld job _ _ _
    | ok result =>
      dsimp only
      rw [Program.wp_bind]
      exact recordResult_ends hheld job _ _ _

theorem planWithoutGathering_ends {claimed : PlanningJob} (hpublisher : config.publisher = true)
    (hv : v.Held .gathering) (hawaited : ¬ v.awaited) (job : claimed.id = id) :
    Ends i config id (planWithoutGathering texts claimed) v := by
  subst job
  unfold planWithoutGathering
  rw [Ends, Program.wp_bind]
  refine claimForPlanning_wp hv hawaited (fun planning v' job hheld ↦ ?_) fun _ _ h ↦ .inr h
  dsimp only
  rw [Program.wp_bind]
  exact runClaimedPlanning_ends hpublisher hheld job _

theorem requestGather_ends {claimed : PlanningJob} (hv : v.Held .gathering)
    (job : claimed.id = id) (connectors : List ConnectorMcpReference) :
    Ends i config id (requestGather config claimed connectors) v := by
  unfold requestGather
  rw [Ends, Program.wp_bind]
  refine now_wp fun requestedAt ↦ ?_
  rw [Program.wp_bind, Program.wp_attempt]
  refine publishGatherRequest_wp hv job (fun v' hheld hawaited ↦ ?_) fun e v' hheld ↦ ?_
  · dsimp only
    split
    · rw [Program.wp_bind]
      exact scheduleTimeout_wp hheld hawaited (fun _ h ↦ .inr h) fun _ _ h ↦ .inr h
    · exact .inr (hheld.settled_of_awaited hawaited)
  · exact recordUnstarted_ends hheld job _ _

theorem executeViaTransport_ends (hpublisher : config.publisher = true) (hv : v.Settled) :
    Ends i config id (executeViaTransport texts config id) v := by
  unfold executeViaTransport
  rw [Ends, Program.wp_bind]
  refine claimForGathering_wp hv (fun v hv ↦ notClaimed_ends hv) ?_ fun _ _ h ↦ .inr h
  intro claimed v job hheld hawaited
  dsimp only
  rw [Program.wp_bind]
  refine wp_attempt_quiet (assertJobUserActive_only _ trivial) fun active ↦ ?_
  cases active with
  | error error => exact recordUnstarted_ends hheld job _ _
  | ok done =>
    have hplan : ∀ connectors : List ConnectorMcpReference, Ends i config id
        (if connectors.isEmpty then planWithoutGathering texts claimed
          else requestGather config claimed connectors) v := by
      intro connectors
      split
      · exact planWithoutGathering_ends hpublisher hheld hawaited job
      · exact requestGather_ends hheld job connectors
    dsimp only
    split
    · unfold resolveActiveConnectorReferences
      rw [Program.wp_bind, Program.wp_bind]
      exact wp_exposed_read hheld hawaited (.inr rfl) (.inr ⟨_, rfl⟩) (fun active ↦ hplan _)
        fun _ _ h ↦ .inr h
    · exact hplan []

theorem processPlanningJob_ends (hv : v.Settled) :
    Ends i config id (processPlanningJob texts config id) v := by
  unfold processPlanningJob
  split
  · next hpublisher => exact executeViaTransport_ends hpublisher hv
  · next hpublisher => exact executeLegacy_ends (Bool.eq_false_iff.mpr hpublisher) hv

theorem announceProcessed_only {publisher : Bool} (job : QueueJob)
    (result : ProcessPlanningJobResult) :
    (announceProcessed job result).Only (Op.Quiet publisher) := by
  unfold announceProcessed
  split
  · refine Program.Only.bind ((Program.only_perform _).mpr trivial) fun _ ↦ ?_
    unfold announceOutcome
    split
    · exact (Program.only_perform _).mpr trivial
    · split
      · split
        · exact Program.Only.bind ((Program.only_perform _).mpr trivial) fun _ ↦
            (Program.only_perform _).mpr trivial
        · exact (Program.only_perform _).mpr trivial
      · trivial
  · trivial

/-- One attempt of the worker. -/
theorem planningProcessor_ends {job : QueueJob} (hv : v.Ended) :
    Ends i config job.jobId (planningProcessor texts config job) v := by
  rcases hv with hunwritten | hsettled
  · exact wp_of_unwritten _ hunwritten
  · unfold planningProcessor
    rw [Ends, Program.wp_bind, Program.wp_attempt, Program.wp_bind]
    refine Program.wp_mono (fun result v' hended ↦ ?_) (fun error v' hended ↦ ?_)
      (processPlanningJob_ends hsettled)
    · refine Program.wp_mono (fun _ _ h ↦ h) (fun error v'' h ↦ ?_)
        (wp_of_only_quiet (announceProcessed_only job result) hended)
      rw [Program.wp_bind]
      exact wp_quiet trivial (fun _ ↦ h) fun _ _ ↦ h
    · rw [Program.wp_bind]
      exact wp_quiet trivial (fun _ ↦ hended) fun _ _ ↦ hended

/-- All attempts of the worker, by induction on their number. -/
theorem bullmqAttempts_ends {job : QueueJob} (attempts : ℕ) (hv : v.Ended) :
    Ends i config job.jobId (bullmqAttempts attempts (planningProcessor texts config job)) v := by
  induction attempts generalizing v with
  | zero => exact hv
  | succ attempts ih =>
    unfold bullmqAttempts
    rw [Ends, Program.wp_bind, Program.wp_attempt]
    exact Program.wp_mono (fun _ _ h ↦ h) (fun _ _ h ↦ ih h) (planningProcessor_ends hv)

end Attempts

/-! ## Stranded jobs -/

section Systems

variable [DecidableEq ι] {texts : PlanningTexts} {handlers : ι → Handler}
  {state : PlanningState} {config : System ι} {k : ι} {workerConfig : WorkerConfig}
  {job : QueueJob}

/-- The endpoints that change users leave every job's standing. -/
theorem storeUser_only {publisher : Bool} (userId : UserId) (user : Option User) :
    ((Handler.storeUser userId user).program texts).Only (Op.Quiet publisher) :=
  (Program.only_perform _).mpr trivial

/-- In every run, a worker that is through with its attempts leaves its job ended. -/
theorem System.Reaches.ended (h : System.Reaches texts state handlers config)
    (worker : handlers k = .worker workerConfig job)
    (others : ∀ j, j ≠ k → ∃ userId user, handlers j = .storeUser userId user)
    (unclaimed : state.status job.jobId = some .pending → ¬ state.Awaited job.jobId)
    (unstranded : ¬ state.Stranded job.jobId) (finished : (config.threads k).Finished) :
    (standing workerConfig job.jobId config.shared config.trace).Ended := by
  have hstart : (standing workerConfig job.jobId state ([] : List (Call ι))).Ended := by
    refine .inr ⟨unclaimed, fun h ↦ (unstranded h).elim, fun h ↦ ?_⟩
    obtain ⟨call, hcall, -⟩ := h
    cases hcall
  have hends : Ends k workerConfig job.jobId ((handlers k).program texts)
      (standing workerConfig job.jobId state ([] : List (Call ι))) := by
    rw [worker]
    exact bullmqAttempts_ends planningAttempts hstart
  have honly : ∀ j, j ≠ k → ((System.start texts state handlers).threads j).Only
      (Op.Quiet workerConfig.publisher) := by
    intro j hj
    obtain ⟨userId, user, hj⟩ := others j hj
    simpa [System.start, Config.initial, hj] using storeUser_only userId user
  have hwp := World.wp_of_reachable honly
    (fun j op quiet s o s' trace answers ↦ standing_of_quiet quiet answers) hends h
  cases hthread : config.threads k with
  | pure value => simpa [hthread] using hwp
  | throw error => simpa [hthread] using hwp
  | call op next => simp [hthread] at finished

/-- When all attempts of a worker are over and no final write threw, its job is stranded if and
only if a call outside the `try` blocks threw once the job was claimed. -/
theorem stranded_iff_interrupted (h : System.Reaches texts state handlers config)
    (worker : handlers k = .worker workerConfig job)
    (others : ∀ j, j ≠ k → ∃ userId user, handlers j = .storeUser userId user)
    (unclaimed : state.status job.jobId = some .pending → ¬ state.Awaited job.jobId)
    (unstranded : ¬ state.Stranded job.jobId) (finished : (config.threads k).Finished)
    (written : ∀ call ∈ config.trace, ¬ Unwritten call) :
    config.shared.Stranded job.jobId ↔
      ∃ call ∈ config.trace, Interrupts workerConfig job.jobId call := by
  rcases h.ended worker others unclaimed unstranded finished with ⟨call, hcall, hunwritten⟩ | hsettled
  · exact (written call hcall hunwritten).elim
  · exact hsettled.2

end Systems

theorem stranded_iff_interrupted_worker :
    ∃ config, System.Reaches .withoutSources queuedJob oneWorker config ∧
      (config.threads ()).Finished ∧ ¬ config.shared.Stranded "job" := by
  have hreplay : (machine.replay (System.start .withoutSources queuedJob oneWorker)
      (List.replicate 12 ⟨(), {}, .returned ()⟩)).map (fun config ↦
        (decide (config.threads ()).Finished, decide (∀ call ∈ config.trace, ¬ Unwritten call),
          decide (∃ call ∈ config.trace, Interrupts ⟨false, true, true, none⟩ "job" call))) =
      some (true, true, false) := by decide
  obtain ⟨config, hreach, hview⟩ := machine.exists_reachable hreplay
  simp only [Prod.mk.injEq] at hview
  obtain ⟨hover, hwritten, hinterrupted⟩ := hview
  refine ⟨config, hreach, of_decide_eq_true hover, ?_⟩
  rw [stranded_iff_interrupted hreach (k := ()) rfl (fun j hj ↦ (hj rfl).elim) (by decide)
    (by decide) (of_decide_eq_true hover) (of_decide_eq_true hwritten)]
  exact of_decide_eq_false hinterrupted

/-- The prompt lookup throws once, after the claim, and the retry finds the job running. -/
def failedLookup : List (Move Unit Reply AppError) :=
  [⟨(), {}, .returned ()⟩, ⟨(), {}, .lost ⟨.other, "connection"⟩⟩, ⟨(), {}, .returned ()⟩,
    ⟨(), {}, .returned ()⟩, ⟨(), {}, .returned ()⟩]

/-- One exception of the prompt repository leaves the job running for ever. -/
theorem stranded_of_failed_lookup :
    ∃ config, System.Reaches .withoutSources queuedJob oneWorker config ∧
      (config.threads ()).Finished ∧ (∀ call ∈ config.trace, ¬ Unwritten call) ∧
      (config.trace.filter fun call ↦ call.outcome.Failed).length = 1 ∧
      config.shared.Stranded "job" := by
  have hreplay : (machine.replay (System.start .withoutSources queuedJob oneWorker)
      failedLookup).map (fun config ↦
        (decide (config.threads ()).Finished, decide (∀ call ∈ config.trace, ¬ Unwritten call),
          (config.trace.filter fun call ↦ call.outcome.Failed).length,
          decide (config.shared.Stranded "job"))) = some (true, true, 1, true) := by decide
  obtain ⟨config, hreach, hview⟩ := machine.exists_reachable hreplay
  simp only [Prod.mk.injEq] at hview
  obtain ⟨hover, hwritten, hfailures, hstranded⟩ := hview
  exact ⟨config, hreach, of_decide_eq_true hover, of_decide_eq_true hwritten, hfailures,
    of_decide_eq_true hstranded⟩

end MemoFlowApi.Planning
