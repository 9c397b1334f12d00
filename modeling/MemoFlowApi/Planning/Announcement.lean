import MemoFlowApi.Planning.Lifecycle

/-!
# Announced Outcomes

Which `planning.completed` and `planning.failed` events reach clients.  In runs in which no call
throws out of an attempt of the worker, and unguarded writes find their job pending or gathering,
each job is announced at most once and with the status it has.  An attempt that throws announces a
failure of a job that has not failed, and its retry announces it again.
-/

namespace MemoFlowApi.Planning

open Concurrency

variable {ι : Type}

/-- The outcome a call announces. -/
def Op.outcome? : Op → Option (JobId × JobStatus)
  | .emit event => event.outcome?
  | _ => none

/-- The calls that announce an outcome of a job. -/
def announcements (id : JobId) (trace : List (Call ι)) : List (Call ι) :=
  trace.filter fun call ↦ call.op.outcome?.map Prod.fst = some id

/-- At most one outcome is announced for each job, and only while the job has that status. -/
def AnnouncesOutcomes (trace : List (Call ι)) : Prop :=
  (∀ id, (announcements id trace).length ≤ 1) ∧
    ∀ call ∈ trace, ∀ id status, call.op.outcome? = some (id, status) →
      call.before.status id = some status

section Moves

variable {handlers : ι → Handler} {handler : Handler} {φ φ' : Phase} {op : Op}
  {o : Outcome AppError (Ans op)}

/-- A worker knows of a failed attempt only from a call that threw out of it. -/
theorem Moves.thrown_cases (h : Moves handler φ op o φ') (thrown : φ'.thrown = true) :
    φ.thrown = true ∨ handler.ThrowsOut op o := by
  have hwrite : ∀ {id patch} {o : Outcome AppError (Ans (.updateStatus id patch))},
      φ.thrownAfter handler o = true →
      φ.thrown = true ∨ handler.ThrowsOut (.updateStatus id patch) o := by
    intro id patch o hthrown
    cases handler with
    | worker config job =>
      cases o with
      | returned answer => exact .inl hthrown
      | lost error => exact .inr (.inl ⟨rfl, trivial⟩)
      | applied error => exact .inr (.inl ⟨rfl, trivial⟩)
    | _ =>
      left
      cases o <;> simpa [Phase.thrownAfter, Handler.isWorker] using hthrown
  cases h with
  | thrown _ throwsOut => exact .inr throwsOut
  | finish | refuse | giveUp => exact hwrite thrown
  | _ => exact .inl thrown

/-- A status write that its handler knows to have ended the job. -/
inductive EndsJob (id : JobId) (φ : Phase) : JobStatus → (op : Op) → Outcome AppError (Ans op) → Prop
  | failIfStillGathering {errorCode errorMessage job} :
      EndsJob id φ .failed (.failIfStillGathering id errorCode errorMessage) (.returned (some job))
  | updateStatus {patch answer} (terminal : patch.status.Terminal)
      (role : φ.role = .gathering id ∨ ∃ userId, φ.role = .owner id userId) :
      EndsJob id φ patch.status (.updateStatus id patch) (.returned answer)

/-- A handler that has ended a job ended it before, or has just written it. -/
theorem Moves.settled_cases {id : JobId} {status : JobStatus} (h : Moves handler φ op o φ')
    (role : φ'.role = .settled id status) :
    φ.role = .settled id status ∨ EndsJob id φ status op o := by
  cases h with
  | claimForGathering | claimForProcessing | claimForPlanning | announce => cases role
  | failIfStillGathering =>
    obtain ⟨rfl, rfl⟩ := Role.settled.inj role
    exact .inr .failIfStillGathering
  | @finish id' _ patch o hrole _ _ terminal =>
    obtain ⟨⟨answer, rfl⟩, -⟩ | hidle := roleAfter_cases id' patch.status o
    · obtain ⟨rfl, rfl⟩ := Role.settled.inj role
      exact .inr (.updateStatus terminal (.inr ⟨_, hrole⟩))
    · cases hidle.symm.trans role
  | @refuse id' _ patch o _ hrole _ _ hfailed =>
    obtain ⟨⟨answer, rfl⟩, -⟩ | hidle := roleAfter_cases id' .failed o
    · obtain ⟨rfl, rfl⟩ := Role.settled.inj role
      exact .inr (hfailed ▸ .updateStatus (.inr hfailed) (.inr ⟨_, hrole⟩))
    · cases hidle.symm.trans role
  | @giveUp id' patch o hrole _ hfailed =>
    obtain ⟨⟨answer, rfl⟩, -⟩ | hidle := roleAfter_cases id' .failed o
    · obtain ⟨rfl, rfl⟩ := Role.settled.inj role
      exact .inr (hfailed ▸ .updateStatus (.inr hfailed) (.inl hrole))
    · cases hidle.symm.trans role
  | _ => exact .inl role

end Moves

section Run

variable {handlers : ι → Handler} {state s s' : PlanningState} {φ : ι → Phase}
  {trace : List (Call ι)}

/-- What a run announces, and what is left to announce. -/
structure Announced (handlers : ι → Handler) (s : PlanningState) (φ : ι → Phase)
    (trace : List (Call ι)) : Prop where
  ownership : Ownership handlers s φ trace
  working : Working s φ
  stored : ∀ k id, (φ k).role = .gathering id → (s.jobs id).isSome = true
  thrown : ∀ k, (φ k).thrown = false
  settled : ∀ k id status, (φ k).role = .settled id status →
    s.status id = some status ∧ status.Terminal
  single : ∀ k k' id status status', (φ k).role = .settled id status →
    (φ k').role = .settled id status' → k = k'
  announced : ∀ call ∈ trace, ∀ id status, call.op.outcome? = some (id, status) →
    (∃ doc, s.jobs id = some doc ∧ doc.status.Terminal) ∧
      ∀ k status', (φ k).role ≠ .settled id status'
  truthful : AnnouncesOutcomes trace

section Step

variable {i : ι} {op : Op} {o : Outcome AppError (Ans op)} {φ' : Phase}

/-- A write that ends a job finds it unfinished and gives it its last status. -/
theorem status_of_endsJob {id : JobId} {status : JobStatus} (h : Announced handlers s φ trace)
    (early : UnguardedEarly (⟨s, i, op, o⟩ : Call ι))
    (answers : (world ι).Answers AppError i op s o s')
    (moves : Moves (handlers i) (φ i) op o φ') (ends : EndsJob id (φ i) status op o) :
    (∃ doc, s.jobs id = some doc ∧ ¬ doc.status.Terminal) ∧ s'.status id = some status ∧
      status.Terminal := by
  cases ends with
  | failIfStillGathering =>
    obtain ⟨_, doc, doc', hdoc, hrewrites, rfl⟩ := rewrites_of_returned answers rfl
    cases hrewrites with
    | failIfStillGathering _ _ time gathering failed =>
      refine ⟨⟨doc, hdoc, by simp [JobStatus.Terminal, gathering]⟩, ?_, .inr rfl⟩
      rw [PlanningState.status, s.store_jobs_self, failed]; rfl
  | @updateStatus patch answer terminal role =>
    have hfound : ∃ doc, s.jobs id = some doc := by
      obtain hrole | ⟨userId, hrole⟩ := role
      · exact Option.isSome_iff_exists.mp (h.stored i id hrole)
      · obtain ⟨doc, hdoc, -⟩ := h.working i id userId hrole
        exact ⟨doc, hdoc⟩
    obtain ⟨doc, hdoc⟩ := hfound
    cases answers with
    | returned effect =>
      obtain ⟨reply, heffect⟩ := effect
      have hstored : s' = s.store id (doc.update patch) := by
        have hquery := congrArg Prod.snd (Option.some.inj heffect)
        simpa [PlanningState.findOneAndUpdate, hdoc] using hquery.symm
      subst hstored
      have hedge := edge_of_rewrites h.working early moves trivial hdoc (.updateStatus patch)
        (by rintro _ ⟨⟩)
      refine ⟨⟨doc, hdoc, hedge.not_terminal⟩, ?_, terminal⟩
      rw [PlanningState.status, s.store_jobs_self]; rfl

/-- A handler that knows of no failed attempt announces what it has just ended. -/
theorem Moves.announce_cases {handler : Handler} {φ : Phase} {id : JobId} {status : JobStatus}
    (h : Moves handler φ op o φ') (announces : op.outcome? = some (id, status))
    (thrown : φ.thrown = false) : φ.role = .settled id status ∧ φ'.role = .idle := by
  cases h with
  | announce hrole hevent =>
    obtain ⟨rfl, rfl⟩ := Prod.mk.inj (Option.some.inj (hevent.symm.trans announces))
    exact ⟨hrole, rfl⟩
  | alarm hthrown => exact (Bool.false_ne_true (thrown.symm.trans hthrown)).elim
  | neutral neutral | thrown neutral | disturb neutral =>
    cases op with
    | emit event => cases Eq.trans (Eq.symm announces) neutral
    | _ => cases announces
  | _ => cases announces

theorem Frozen.status_eq {id : JobId} {status : JobStatus} (h : Frozen s s')
    (hstatus : s.status id = some status) (terminal : status.Terminal) :
    s'.status id = some status := by
  obtain ⟨doc, hdoc, rfl⟩ := Option.map_eq_some_iff.mp hstatus
  obtain ⟨doc', hdoc', hsame, -⟩ := h id doc hdoc terminal
  rw [PlanningState.status, hdoc', Option.map_some, hsame]

/-- A job is stored from its creation on. -/
theorem isSome_after {id : JobId} (answers : (world ι).Answers AppError i op s o s')
    (h : (s.jobs id).isSome = true) : (s'.jobs id).isSome = true := by
  obtain ⟨doc, hdoc⟩ := Option.isSome_iff_exists.mp h
  obtain hsame | ⟨_, doc', hdoc', -⟩ := job_after answers hdoc
  · exact Option.isSome_iff_exists.mpr ⟨doc, hsame⟩
  · exact Option.isSome_iff_exists.mpr ⟨doc', hdoc'⟩

theorem not_terminal_of_endsJob {id : JobId} {status status' : JobStatus}
    (h : Announced handlers s φ trace) (early : UnguardedEarly (⟨s, i, op, o⟩ : Call ι))
    (answers : (world ι).Answers AppError i op s o s')
    (moves : Moves (handlers i) (φ i) op o φ') (ends : EndsJob id (φ i) status op o)
    (hstatus : s.status id = some status') : ¬status'.Terminal := by
  obtain ⟨⟨doc, hdoc, hnot⟩, -⟩ := status_of_endsJob h early answers moves ends
  rw [PlanningState.status, hdoc, Option.map_some, Option.some.injEq] at hstatus
  exact hstatus ▸ hnot

/-- A handler that announces has ended the job and knows of no failed attempt. -/
theorem Announced.quiet {id : JobId} {status : JobStatus} (h : Announced handlers s φ trace)
    (moves : Moves (handlers i) (φ i) op o φ') (announces : op.outcome? = some (id, status)) :
    (φ i).role = .settled id status ∧ φ'.role = .idle :=
  moves.announce_cases announces (h.thrown i)

variable [DecidableEq ι] {k : ι} {id : JobId} {status : JobStatus}

theorem Moves.settled_update (moves : Moves (handlers i) (φ i) op o φ')
    (hrole : (Function.update φ i φ' k).role = .settled id status) :
    (φ k).role = .settled id status ∨ k = i ∧ EndsJob id (φ i) status op o := by
  by_cases hk : k = i
  · subst hk
    rw [Function.update_self] at hrole
    exact (moves.settled_cases hrole).imp_right fun hends ↦ ⟨rfl, hends⟩
  · rw [Function.update_of_ne hk] at hrole
    exact .inl hrole

theorem Announced.stored_step (h : Announced handlers s φ trace)
    (answers : (world ι).Answers AppError i op s o s')
    (moves : Moves (handlers i) (φ i) op o φ')
    (hrole : (Function.update φ i φ' k).role = .gathering id) : (s'.jobs id).isSome = true := by
  by_cases hk : k = i
  · subst hk
    rw [Function.update_self] at hrole
    obtain hbefore | ⟨-, hclaimable⟩ := moves.gathering_cases hrole
    · exact isSome_after answers (h.stored k id hbefore)
    · exact (hclaimable s s' k answers).2
  · rw [Function.update_of_ne hk] at hrole
    exact isSome_after answers (h.stored k id hrole)

theorem Announced.thrown_step (h : Announced handlers s φ trace)
    (caught : ¬ (handlers i).ThrowsOut op o) (moves : Moves (handlers i) (φ i) op o φ') (k : ι) :
    (Function.update φ i φ' k).thrown = false := by
  by_cases hk : k = i
  · subst hk
    rw [Function.update_self]
    by_contra hthrown
    obtain hbefore | hthrows := moves.thrown_cases (Bool.not_eq_false _ ▸ hthrown)
    · exact Bool.false_ne_true ((h.thrown k).symm.trans hbefore)
    · exact caught hthrows
  · rw [Function.update_of_ne hk]
    exact h.thrown k

theorem Announced.settled_step (h : Announced handlers s φ trace)
    (early : UnguardedEarly (⟨s, i, op, o⟩ : Call ι))
    (answers : (world ι).Answers AppError i op s o s')
    (moves : Moves (handlers i) (φ i) op o φ')
    (hrole : (Function.update φ i φ' k).role = .settled id status) :
    s'.status id = some status ∧ status.Terminal := by
  obtain hbefore | ⟨rfl, hends⟩ := moves.settled_update hrole
  · obtain ⟨hstatus, hterminal⟩ := h.settled k id status hbefore
    have hfrozen : Frozen s s' := frozen_step h.working early answers moves
    exact ⟨hfrozen.status_eq hstatus hterminal, hterminal⟩
  · exact (status_of_endsJob h early answers moves hends).2

theorem Announced.single_step {k' : ι} {status' : JobStatus} (h : Announced handlers s φ trace)
    (early : UnguardedEarly (⟨s, i, op, o⟩ : Call ι))
    (answers : (world ι).Answers AppError i op s o s')
    (moves : Moves (handlers i) (φ i) op o φ')
    (hrole : (Function.update φ i φ' k).role = .settled id status)
    (hrole' : (Function.update φ i φ' k').role = .settled id status') : k = k' := by
  obtain hbefore | ⟨rfl, hends⟩ := moves.settled_update hrole <;>
    obtain hbefore' | ⟨rfl, hends'⟩ := moves.settled_update hrole'
  · exact h.single k k' id status status' hbefore hbefore'
  · obtain ⟨hstatus, hterminal⟩ := h.settled k id status hbefore
    exact (not_terminal_of_endsJob h early answers moves hends' hstatus hterminal).elim
  · obtain ⟨hstatus, hterminal⟩ := h.settled k' id status' hbefore'
    exact (not_terminal_of_endsJob h early answers moves hends hstatus hterminal).elim
  · rfl

/-- What a call announces is over, and nobody is left to announce it. -/
theorem Announced.announced_new (h : Announced handlers s φ trace)
    (early : UnguardedEarly (⟨s, i, op, o⟩ : Call ι))
    (answers : (world ι).Answers AppError i op s o s')
    (moves : Moves (handlers i) (φ i) op o φ') (hout : op.outcome? = some (id, status)) :
    (∃ doc, s'.jobs id = some doc ∧ doc.status.Terminal) ∧
      ∀ k status', (Function.update φ i φ' k).role ≠ .settled id status' := by
  obtain ⟨hrole, hidle⟩ := h.quiet moves hout
  obtain ⟨hstatus, hterminal⟩ := h.settled i id status hrole
  have hfrozen : Frozen s s' := frozen_step h.working early answers moves
  obtain ⟨doc, hdoc, rfl⟩ := Option.map_eq_some_iff.mp (hfrozen.status_eq hstatus hterminal)
  refine ⟨⟨doc, hdoc, hterminal⟩, fun k status' hrole' ↦ ?_⟩
  by_cases hk : k = i
  · subst hk
    rw [Function.update_self, hidle] at hrole'
    cases hrole'
  · rw [Function.update_of_ne hk] at hrole'
    exact hk (h.single k i id status' _ hrole' hrole)

/-- What was announced before stays over. -/
theorem Announced.announced_old (h : Announced handlers s φ trace)
    (early : UnguardedEarly (⟨s, i, op, o⟩ : Call ι))
    (answers : (world ι).Answers AppError i op s o s')
    (moves : Moves (handlers i) (φ i) op o φ') {call : Call ι} (hcall : call ∈ trace)
    (hout : call.op.outcome? = some (id, status)) :
    (∃ doc, s'.jobs id = some doc ∧ doc.status.Terminal) ∧
      ∀ k status', (Function.update φ i φ' k).role ≠ .settled id status' := by
  obtain ⟨⟨doc, hdoc, hterminal⟩, hnone⟩ := h.announced call hcall id status hout
  have hfrozen : Frozen s s' := frozen_step h.working early answers moves
  obtain ⟨doc', hdoc', hsame, -⟩ := hfrozen id doc hdoc hterminal
  refine ⟨⟨doc', hdoc', hsame ▸ hterminal⟩, fun k status' hrole ↦ ?_⟩
  obtain hbefore | ⟨rfl, hends⟩ := moves.settled_update hrole
  · exact hnone k status' hbefore
  · have hstatus : s.status id = some doc.status := by simp [PlanningState.status, hdoc]
    exact not_terminal_of_endsJob h early answers moves hends hstatus hterminal

omit [DecidableEq ι] in
/-- A call that announces a job is the first one. -/
theorem Announced.announcements_eq_nil (h : Announced handlers s φ trace)
    (moves : Moves (handlers i) (φ i) op o φ') (hout : op.outcome? = some (id, status)) :
    announcements id trace = [] := by
  refine List.filter_eq_nil_iff.mpr fun call hcall hold ↦ ?_
  obtain ⟨⟨id', status'⟩, hout', hid⟩ := Option.map_eq_some_iff.mp (of_decide_eq_true hold)
  obtain rfl : id' = id := hid
  exact (h.announced call hcall _ status' hout').2 i status (h.quiet moves hout).1

omit [DecidableEq ι] in
theorem Announced.truthful_step (h : Announced handlers s φ trace)
    (moves : Moves (handlers i) (φ i) op o φ') :
    AnnouncesOutcomes (⟨s, i, op, o⟩ :: trace) := by
  constructor
  · intro id
    rw [announcements, List.filter_cons]
    split
    · next hnew =>
      obtain ⟨⟨id', status⟩, hout, hid⟩ := Option.map_eq_some_iff.mp (of_decide_eq_true hnew)
      obtain rfl : id' = id := hid
      have hnone := h.announcements_eq_nil moves hout
      rw [announcements] at hnone
      simp [hnone]
    · exact h.truthful.1 id
  · intro call hcall id status hout
    obtain rfl | hold := List.mem_cons.mp hcall
    · exact (h.settled i id status (h.quiet moves hout).1).1
    · exact h.truthful.2 call hold id status hout

theorem Announced.step (h : Announced handlers s φ trace)
    (early : UnguardedEarly (⟨s, i, op, o⟩ : Call ι)) (caught : ¬ (handlers i).ThrowsOut op o)
    (answers : (world ι).Answers AppError i op s o s')
    (moves : Moves (handlers i) (φ i) op o φ') :
    Announced handlers s' (Function.update φ i φ') (⟨s, i, op, o⟩ :: trace) := by
  constructor
  case ownership => exact h.ownership.step answers moves
  case working => exact h.working.step h.ownership early answers moves
  case stored => exact fun k id ↦ h.stored_step answers moves
  case thrown => exact h.thrown_step caught moves
  case settled => exact fun k id status ↦ h.settled_step early answers moves
  case single => exact fun k k' id status status' ↦ h.single_step early answers moves
  case announced =>
    intro call hcall id status hout
    obtain rfl | hold := List.mem_cons.mp hcall
    · exact h.announced_new early answers moves hout
    · exact h.announced_old early answers moves hold hout
  case truthful => exact h.truthful_step moves

end Step

variable [DecidableEq ι]

theorem Run.announced (h : Run handlers state s φ trace)
    (calm : ∀ call ∈ trace, UnguardedEarly call ∧
      ¬ (handlers call.caller).ThrowsOut call.op call.outcome) :
    Announced handlers s φ trace := by
  refine h.invariant (Announced handlers)
    (fun call ↦ UnguardedEarly call ∧ ¬ (handlers call.caller).ThrowsOut call.op call.outcome)
    ?_ (fun hinv hcalm answers moves ↦ hinv.step hcalm.1 hcalm.2 answers moves) calm
  refine ⟨by constructor <;> simp [Claimed], by simp [Working], ?_, ?_, ?_, ?_, ?_, ?_⟩ <;>
    simp [AnnouncesOutcomes, announcements]

/-- If no call throws out of an attempt of the worker and unguarded writes find their job pending
or gathering, each job is announced at most once, and with the status it has. -/
theorem announces_outcomes {texts : PlanningTexts} {config : System ι}
    (h : System.Reaches texts state handlers config)
    (early : ∀ call ∈ config.trace, UnguardedEarly call)
    (caught : ∀ call ∈ config.trace, ¬ (handlers call.caller).ThrowsOut call.op call.outcome) :
    AnnouncesOutcomes config.trace := by
  obtain ⟨φ, hrun, -⟩ := h.exists_run
  exact (hrun.announced fun call hcall ↦ ⟨early call hcall, caught call hcall⟩).truthful

end Run

/-! ## A worker whose claims throw -/

/-- An attempt whose claim throws. -/
def failedAttempt : List (Move Unit Reply AppError) :=
  [⟨(), {}, .lost ⟨.other, "connection"⟩⟩, ⟨(), {}, .returned ()⟩]

theorem announces_outcomes_worker :
    ∃ config, System.Reaches .withoutSources queuedJob oneWorker config ∧
      (config.trace.any fun call ↦ call.op.outcome? = some ("job", .completed)) = true ∧
      AnnouncesOutcomes config.trace := by
  have hreplay : (machine.replay (System.start .withoutSources queuedJob oneWorker)
      (List.replicate 12 ⟨(), {}, .returned ()⟩)).map (fun config ↦
        (decide (∀ call ∈ config.trace, UnguardedEarly call),
          decide (∀ call ∈ config.trace, ¬ (oneWorker call.caller).ThrowsOut call.op call.outcome),
          config.trace.any fun call ↦ call.op.outcome? = some ("job", .completed))) =
      some (true, true, true) := by decide
  obtain ⟨config, hreach, hview⟩ := machine.exists_reachable hreplay
  simp only [Prod.mk.injEq] at hview
  obtain ⟨hearly, hcaught, hcompleted⟩ := hview
  exact ⟨config, hreach, hcompleted,
    announces_outcomes hreach (of_decide_eq_true hearly) (of_decide_eq_true hcaught)⟩

/-- Three failed attempts announce three failures of a job that is still pending. -/
theorem not_announces_outcomes_retried :
    ∃ config, System.Reaches .withoutSources queuedJob oneWorker config ∧
      config.shared.status "job" = some .pending ∧ ¬ AnnouncesOutcomes config.trace := by
  have hreplay : (machine.replay (System.start .withoutSources queuedJob oneWorker)
      (failedAttempt ++ failedAttempt ++ failedAttempt)).map (fun config ↦
        (config.shared.status "job", (announcements "job" config.trace).length)) =
      some (some .pending, 3) := by
    decide
  obtain ⟨config, hreach, hview⟩ := machine.exists_reachable hreplay
  obtain ⟨hstatus, hcount⟩ := Prod.mk.inj hview
  refine ⟨config, hreach, hstatus, fun h ↦ ?_⟩
  have hle := h.1 "job"
  omega

end MemoFlowApi.Planning
