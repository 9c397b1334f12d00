import MemoFlowApi.Concurrency.Replay
import MemoFlowApi.Planning.Passes

/-!
# Redelivered Terminal Chunks

Recording a chunk and finalizing its job are separate calls, and a message whose handler throws is
requeued.  A terminal chunk whose message was acked has finalized its job if the calls that finalize
do not throw and no other chunk takes its sequence number (`terminal_chunk_finalizes`).  If the
claim throws once, the redelivered chunk is taken for a duplicate and the job gathers for ever
(`terminal_chunk_swallowed`).
-/

namespace MemoFlowApi.Planning

open Concurrency

section Work

variable {ι : Type} {i : ι} {s s' : PlanningState} {op : Op} {o : Outcome AppError (Ans op)}
  {chunk : ContextResultChunk} {w w' : Work} {handler : Handler} {φ φ' : Pass}

/-- A recorded terminal chunk stays so until its job is not gathering. -/
theorem Works.of_recorded {dataChunks : List AccumulatedDataChunk}
    (h : Works chunk (.recorded dataChunks) op o w')
    (answers : (world ι).Answers AppError i op s o s')
    (decided : op.Deciding = true → ¬ o.Failed) :
    w' = .recorded dataChunks ∨ s'.status chunk.jobId ≠ some .gathering := by
  cases h with
  | claim completes => exact .inr (not_gathering_of_claimForPlanning answers)
  | lose completes => exact .inr (not_gathering_of_claimForPlanning answers)
  | giveUp terminal => exact .inr (not_gathering_of_failIfStillGathering answers)
  | tell telling => exact .inl rfl
  | fail early failed => simp at early
  | failLate deciding failed => exact (decided deciding failed).elim

/-- An owner stays one until its job is not planning. -/
theorem Works.of_owning (h : Works chunk .owning op o w')
    (answers : (world ι).Answers AppError i op s o s')
    (decided : op.Deciding = true → ¬ o.Failed) :
    w' = .owning ∨ s'.status chunk.jobId ≠ some .planning := by
  cases h with
  | plan ofOwner => exact .inl rfl
  | finish terminal =>
    refine .inr fun hplanning ↦ ?_
    exact terminal.ne_planning (status_of_updateStatus answers hplanning).symm
  | tell telling => exact .inl rfl
  | fail early failed => simp at early
  | failLate deciding failed => exact (decided deciding failed).elim

/-- Where the job of a terminal chunk is still gathering, the chunk comes to be acked only because
its sequence was recorded before. -/
theorem Works.ackable_cases (h : Works chunk w op o w')
    (answers : (world ι).Answers AppError i op s o s') (terminal : chunk.Terminal)
    (ackable : w'.Ackable chunk) (gathering : s'.status chunk.jobId = some .gathering) :
    w.Ackable chunk ∨
      ∃ doc, s.jobs chunk.jobId = some doc ∧ chunk.sequence ∈ doc.chunkSequences := by
  cases h with
  | look own going => exact ackable.elim
  | ended own terminal' =>
    obtain ⟨doc, hdoc, rfl, rfl⟩ := found_of_findById answers
    have hstatus : doc.status = .gathering := by simpa [PlanningState.status, hdoc] using gathering
    exact (terminal'.ne_gathering hstatus).elim
  | reject foreign => exact ackable.elim
  | record => exact (ackable terminal).elim
  | unmatch =>
    cases answers with
    | returned effect =>
      have hjob : (s.jobs chunk.jobId).isSome = true := by
        obtain ⟨reply, heffect⟩ := effect
        rcases PlanningState.findOneAndUpdate_cases (Option.some.inj heffect) with
          ⟨doc, hdoc, -⟩ | ⟨-, rfl, -⟩
        · simp [hdoc]
        · obtain ⟨doc, hdoc, -⟩ := Option.map_eq_some_iff.mp gathering
          simp [hdoc]
      obtain ⟨doc, hdoc⟩ := Option.isSome_iff_exists.mp hjob
      exact .inr ⟨doc, hdoc, recorded_of_pushResultChunk (.returned effect) hdoc⟩
  | reread => exact .inl ackable
  | claim completes => exact ackable.elim
  | lose completes => exact (not_gathering_of_claimForPlanning answers gathering).elim
  | giveUp terminal' => exact (not_gathering_of_failIfStillGathering answers gathering).elim
  | plan ofOwner => exact ackable.elim
  | finish terminal' =>
    exact (terminal'.ne_gathering (status_of_updateStatus answers gathering).symm).elim
  | tell telling => exact .inl ackable
  | fail early failed => exact ackable.elim
  | failLate deciding failed => exact ackable.elim

/-- An ack is no part of the work on a chunk. -/
theorem Works.ne_ack (h : Works chunk w op o w')
    (answers : (world ι).Answers AppError i op s o s') : op ≠ .ack := by
  cases h with
  | plan ofOwner => rintro rfl; cases ofOwner
  | tell telling => rintro rfl; cases telling
  | fail early failed => rintro rfl; cases answers.mayFail_of_failed failed
  | failLate deciding failed => rintro rfl; cases deciding
  | _ => nofun

end Work

/-! ## The finalization that is due -/

section Due

variable {ι : Type} {handlers : ι → Handler} {id : JobId} {s s' : PlanningState} {φ : ι → Pass}

/-- A terminal chunk of the job is recorded and about to finalize it. -/
def FinalizationDue (handlers : ι → Handler) (id : JobId) (φ : ι → Pass) : Prop :=
  ∃ k chunk dataChunks, Handles handlers id k chunk ∧ chunk.Terminal ∧
    (φ k).work = .recorded dataChunks

/-- A terminal chunk that does not finalize its job is preceded by one that will. -/
structure Finalizing (handlers : ι → Handler) (id : JobId) (s : PlanningState) (φ : ι → Pass) :
    Prop where
  planning : s.status id = some .planning →
    ∃ k chunk, Handles handlers id k chunk ∧ (φ k).work = .owning
  recorded : ∀ {doc k chunk}, s.jobs id = some doc → doc.status = .gathering →
    Handles handlers id k chunk → chunk.Terminal → chunk.sequence ∈ doc.chunkSequences →
    FinalizationDue handlers id φ
  ackable : s.status id = some .gathering → ∀ {k chunk}, Handles handlers id k chunk →
    chunk.Terminal → (φ k).work.Ackable chunk → FinalizationDue handlers id φ

/-- A terminal chunk shares its sequence number with terminal chunks of its job only. -/
def SeparateTerminals (handlers : ι → Handler) (id : JobId) : Prop :=
  ∀ k k' chunk chunk', Handles handlers id k chunk → Handles handlers id k' chunk' →
    chunk.Terminal → chunk'.sequence = chunk.sequence → chunk'.Terminal

/-- A call that throws has no effect, and in the handler of a message it does not finalize. -/
def Harmless (handlers : ι → Handler) (call : Call ι) : Prop :=
  call.outcome.Failed → ¬ call.outcome.TookEffect ∧
    (call.op.Deciding = true → (handlers call.caller).chunk? = none)

section Step

variable {i : ι} {op : Op} {o : Outcome AppError (Ans op)} {φ' : Pass}

theorem Passes.work_of_recorded (moves : Passes (handlers i) (φ i) op o φ')
    (answers : (world ι).Answers AppError i op s o s')
    (harmless : Harmless handlers ⟨s, i, op, o⟩) {chunk : ContextResultChunk}
    {dataChunks : List AccumulatedDataChunk} (handles : Handles handlers id i chunk)
    (recorded : (φ i).work = .recorded dataChunks) (gathering : s'.status id = some .gathering) :
    φ'.work = .recorded dataChunks := by
  obtain ⟨hown, rfl⟩ := handles
  rcases moves.work_cases with hsame | ⟨chunk', _, hown', -, hworks⟩
  · rw [hsame, recorded]
  · obtain rfl : chunk = chunk' := Option.some.inj (hown.symm.trans hown')
    rw [recorded] at hworks
    refine (hworks.of_recorded answers fun hdeciding hfailed ↦ ?_).resolve_right fun h ↦ h gathering
    cases ((harmless hfailed).2 hdeciding).symm.trans hown

variable [DecidableEq ι]

/-- While the job gathers, the finalization stays due. -/
theorem FinalizationDue.step (h : FinalizationDue handlers id φ)
    (moves : Passes (handlers i) (φ i) op o φ')
    (answers : (world ι).Answers AppError i op s o s')
    (harmless : Harmless handlers ⟨s, i, op, o⟩) (gathering : s'.status id = some .gathering) :
    FinalizationDue handlers id (Function.update φ i φ') := by
  obtain ⟨k, chunk, dataChunks, handles, terminal, hrecorded⟩ := h
  refine ⟨k, chunk, dataChunks, handles, terminal, ?_⟩
  by_cases hk : k = i
  · subst hk
    rw [Function.update_self]
    exact moves.work_of_recorded answers harmless handles hrecorded gathering
  · rw [Function.update_of_ne hk, hrecorded]

theorem Finalizing.step (h : Finalizing handlers id s φ)
    (separate : SeparateTerminals handlers id) (stored : (s.jobs id).isSome = true)
    (harmless : Harmless handlers ⟨s, i, op, o⟩)
    (answers : (world ι).Answers AppError i op s o s')
    (moves : Passes (handlers i) (φ i) op o φ') :
    Finalizing handlers id s' (Function.update φ i φ') := by
  obtain ⟨doc, hdoc⟩ := Option.isSome_iff_exists.mp stored
  obtain ⟨doc', hdoc', hmove⟩ :=
    moves.jobMove answers (fun hfailed ↦ (harmless hfailed).1) hdoc
  have hstatus' : s'.status id = some doc'.status := by simp [PlanningState.status, hdoc']
  have hstatus : s.status id = some doc.status := by simp [PlanningState.status, hdoc]
  have hgathering : doc'.status = .gathering → doc.status = .gathering := by
    intro hafter
    cases hmove with
    | kept => exact hafter
    | recorded => exact hafter
    | claimed _ _ _ gathering => exact gathering
    | failed gathering => exact gathering
    | finished _ _ _ terminal => exact (terminal.ne_gathering hafter).elim
  have hdue : s'.status id = some .gathering → FinalizationDue handlers id φ →
      FinalizationDue handlers id (Function.update φ i φ') :=
    fun hafter hdue ↦ hdue.step moves answers harmless hafter
  constructor
  case planning =>
    intro hafter
    have hkeeps : doc.status = .planning →
        ∃ k chunk, Handles handlers id k chunk ∧ (Function.update φ i φ' k).work = .owning := by
      intro hbefore
      obtain ⟨k, chunk, handles, howning⟩ := h.planning (by rw [hstatus, hbefore])
      refine ⟨k, chunk, handles, ?_⟩
      by_cases hk : k = i
      · subst hk
        rw [Function.update_self]
        rcases moves.work_cases with hsame | ⟨chunk', _, hown, -, hworks⟩
        · rw [hsame, howning]
        · obtain ⟨hown', rfl⟩ := handles
          obtain rfl : chunk = chunk' := Option.some.inj (hown'.symm.trans hown)
          rw [howning] at hworks
          refine (hworks.of_owning answers fun hdeciding hfailed ↦ ?_).resolve_right
            fun hne ↦ hne hafter
          cases ((harmless hfailed).2 hdeciding).symm.trans hown
      · rw [Function.update_of_ne hk, howning]
    rw [hstatus', Option.some.injEq] at hafter
    cases hmove with
    | kept => exact hkeeps hafter
    | recorded => exact hkeeps hafter
    | claimed own job => exact ⟨i, _, ⟨own, job⟩, by rw [Function.update_self]⟩
    | failed _ status => cases hafter.symm.trans status
    | finished _ _ _ terminal => exact (terminal.ne_planning hafter).elim
  case recorded =>
    intro doc₁ k chunk hdoc₁ hafter handles terminal hmem
    obtain rfl : doc' = doc₁ := Option.some.inj (hdoc'.symm.trans hdoc₁)
    have hafter' : s'.status id = some .gathering := by rw [hstatus', hafter]
    have hbefore := hgathering hafter
    cases hmove with
    | kept => exact hdue hafter' (h.recorded hdoc hbefore handles terminal hmem)
    | recorded own job inside looked fresh =>
      rcases List.mem_append.mp hmem with hmem | hmem
      · exact hdue hafter' (h.recorded hdoc hbefore handles terminal hmem)
      · have hterminal := separate k i _ _ handles ⟨own, job⟩ terminal
          (List.mem_singleton.mp hmem).symm
        exact ⟨i, _, _, ⟨own, job⟩, hterminal, by rw [Function.update_self]⟩
    | claimed _ _ _ _ claimed => simp [claimed, PlanningJobDocument.update] at hafter
    | failed _ status => cases hafter.symm.trans status
    | finished _ _ _ terminal' => exact (terminal'.ne_gathering hafter).elim
  case ackable =>
    intro hafter k chunk handles terminal hackable
    refine hdue hafter ?_
    have hbefore : doc.status = .gathering := by
      rw [hstatus', Option.some.injEq] at hafter
      exact hgathering hafter
    have hbefore' : s.status id = some .gathering := by rw [hstatus, hbefore]
    by_cases hk : k = i
    · subst hk
      rw [Function.update_self] at hackable
      rcases moves.work_cases with hsame | ⟨chunk', _, hown, -, hworks⟩
      · exact h.ackable hbefore' handles terminal (hsame ▸ hackable)
      · obtain ⟨hown', rfl⟩ := handles
        obtain rfl : chunk = chunk' := Option.some.inj (hown'.symm.trans hown)
        rcases hworks.ackable_cases answers terminal hackable hafter with hold | ⟨doc₁, hdoc₁, hmem⟩
        · exact h.ackable hbefore' ⟨hown, rfl⟩ terminal hold
        · obtain rfl : doc = doc₁ := Option.some.inj (hdoc.symm.trans hdoc₁)
          exact h.recorded hdoc hbefore ⟨hown, rfl⟩ terminal hmem
    · rw [Function.update_of_ne hk] at hackable
      exact h.ackable hbefore' handles terminal hackable

/-- What is known of the passes of a run: messages are acked for their work. -/
structure Acked (handlers : ι → Handler) (φ : ι → Pass) (trace : List (Call ι)) : Prop where
  ackable : ∀ {k}, (φ k).acked = true →
    ∃ chunk, (handlers k).chunk? = some chunk ∧ (φ k).work.Ackable chunk
  traced : ∀ call ∈ trace, call.op = .ack → (φ call.caller).acked = true

theorem Acked.step {trace : List (Call ι)} (h : Acked handlers φ trace)
    (answers : (world ι).Answers AppError i op s o s')
    (moves : Passes (handlers i) (φ i) op o φ') :
    Acked handlers (Function.update φ i φ') (⟨s, i, op, o⟩ :: trace) := by
  have hkeeps : (φ i).acked = true → φ'.acked = true := by
    intro hacked
    cases moves with
    | work own inside unacked works => cases hacked.symm.trans unacked
    | ack => rfl
    | _ => exact hacked
  constructor
  · intro k hacked
    by_cases hk : k = i
    · subst hk
      rw [Function.update_self] at hacked ⊢
      cases moves with
      | work own inside unacked works => cases hacked.symm.trans unacked
      | ack own inside ackable => exact ⟨_, own, ackable⟩
      | _ => exact h.ackable hacked
    · rw [Function.update_of_ne hk] at hacked ⊢
      exact h.ackable hacked
  · intro call hcall hack
    rcases List.mem_cons.mp hcall with rfl | hcall
    · rw [Function.update_self]
      cases moves with
      | aside _ aside => subst hack; cases aside
      | work own inside unacked works => exact (works.ne_ack answers hack).elim
      | ack => rfl
      | arrive => cases hack
      | enter => cases hack
      | nack => cases hack
      | leave => cases hack
    · have hold := h.traced call hcall hack
      by_cases hk : call.caller = i
      · rw [hk, Function.update_self]
        exact hkeeps (hk ▸ hold)
      · rwa [Function.update_of_ne hk]

/-- What holds throughout a run whose calls are harmless. -/
structure Redelivers (handlers : ι → Handler) (id : JobId) (s : PlanningState) (φ : ι → Pass)
    (trace : List (Call ι)) : Prop where
  stored : (s.jobs id).isSome = true
  finalizing : Finalizing handlers id s φ
  acked : Acked handlers φ trace

theorem ConsumerRun.redelivers {state : PlanningState} {trace : List (Call ι)}
    {doc : PlanningJobDocument} (h : ConsumerRun handlers state s φ trace)
    (stored : state.jobs id = some doc) (notPlanning : doc.status ≠ .planning)
    (unrecorded : doc.status = .gathering → ∀ k chunk, Handles handlers id k chunk →
      chunk.Terminal → chunk.sequence ∉ doc.chunkSequences)
    (separate : SeparateTerminals handlers id) (harmless : ∀ call ∈ trace, Harmless handlers call) :
    Redelivers handlers id s φ trace := by
  refine h.invariant (Redelivers handlers id) (Harmless handlers) ?_ ?_ harmless
  · refine ⟨by simp [stored], ⟨fun hplanning ↦ ?_, ?_, ?_⟩, ⟨by simp, by simp⟩⟩
    · exact (notPlanning (by simpa [PlanningState.status, stored] using hplanning)).elim
    · intro doc' k chunk hdoc' gathering handles terminal hmem
      obtain rfl : doc = doc' := Option.some.inj (stored.symm.trans hdoc')
      exact (unrecorded gathering k chunk handles terminal hmem).elim
    · exact fun _ _ _ _ _ hackable ↦ hackable.elim
  · intro s φ trace i op o s' φ' hinv hharmless answers moves
    obtain ⟨doc, hdoc⟩ := Option.isSome_iff_exists.mp hinv.stored
    obtain ⟨doc', hdoc', -⟩ :=
      Passes.jobMove moves answers (fun hfailed ↦ (hharmless hfailed).1) hdoc
    exact ⟨by simp [hdoc'], hinv.finalizing.step separate hinv.stored hharmless answers moves,
      hinv.acked.step answers moves⟩

end Step

/-- A terminal chunk whose message was acked has finalized its job: when no handler of the job is in
flight, it is neither gathering nor planning. -/
theorem terminal_chunk_finalizes [DecidableEq ι] {texts : PlanningTexts} {state : PlanningState}
    {config : System ι} {doc : PlanningJobDocument} {call : Call ι} {chunk : ContextResultChunk}
    (h : System.Reaches texts state handlers config)
    (consuming : ∀ i, (handlers i).Consuming = true) (stored : state.jobs id = some doc)
    (notPlanning : doc.status ≠ .planning)
    (unrecorded : doc.status = .gathering → ∀ k chunk, Handles handlers id k chunk →
      chunk.Terminal → chunk.sequence ∉ doc.chunkSequences)
    (separate : SeparateTerminals handlers id)
    (harmless : ∀ call ∈ config.trace, Harmless handlers call)
    (acked : call ∈ config.trace ∧ call.op = .ack) (handles : Handles handlers id call.caller chunk)
    (terminal : chunk.Terminal)
    (rest : ∀ k, (handlers k).jobId? = some id → ¬ config.InFlight k) :
    config.shared.status id ≠ some .gathering ∧ config.shared.status id ≠ some .planning := by
  obtain ⟨φ, hrun, hthrough⟩ := h.exists_consumerRun consuming
  have hinv := hrun.redelivers stored notPlanning unrecorded separate harmless
  have hdone : ∀ k chunk, Handles handlers id k chunk → (φ k).work ≠ .fresh →
      (φ k).work.Done chunk := by
    rintro k chunk ⟨hown, hjob⟩ hbegun
    refine hthrough k ?_ chunk hown
    by_contra hunfinished
    have hjobId : (handlers k).jobId? = some id := by
      cases hhandler : handlers k with
      | message message =>
        rw [hhandler] at hown
        obtain rfl : message = some chunk := hown
        exact congrArg some hjob
      | _ => simp [hhandler, Handler.chunk?] at hown
    refine rest k hjobId ⟨?_, hunfinished⟩
    by_contra hstarted
    refine hbegun ?_
    rw [hrun.phase_of_not_started fun event hevent hcaller ↦ hstarted ⟨event, hevent, hcaller⟩]
  constructor
  · intro hgathering
    obtain ⟨chunk', hown, hackable⟩ := hinv.acked.ackable (hinv.acked.traced call acked.1 acked.2)
    obtain rfl : chunk = chunk' := Option.some.inj (handles.1.symm.trans hown)
    obtain ⟨k, chunk', dataChunks, handles', terminal', hrecorded⟩ :=
      hinv.finalizing.ackable hgathering handles terminal hackable
    have hover := hdone k chunk' handles' (by rw [hrecorded]; rintro ⟨⟩)
    rw [hrecorded] at hover
    exact hover terminal'
  · intro hplanning
    obtain ⟨k, chunk', handles', howning⟩ := hinv.finalizing.planning hplanning
    have hover := hdone k chunk' handles' (by rw [howning]; rintro ⟨⟩)
    rw [howning] at hover
    exact hover

end Due

/-! ## One terminal chunk, delivered twice -/

/-- A delivery and a redelivery of a `completed` chunk. -/
def deliveries : Fin 2 → Handler := fun _ ↦ .message (some (completedChunk 1))

/-- A delivery makes a call that succeeds. -/
def succeeds (k : Fin 2) : Move (Fin 2) Reply AppError := ⟨k, {}, .returned ()⟩

/-- No handler is between its first call and its end. -/
def AtRest (config : System (Fin 2)) : Bool :=
  decide (∀ k, (config.threads k).Finished ∨ ∀ call ∈ config.trace, call.caller ≠ k)

theorem not_inFlight_of_atRest {config : System (Fin 2)} (h : AtRest config = true) (k : Fin 2) :
    ¬ config.InFlight k := by
  rintro ⟨⟨call, hcall, hcaller⟩, hunfinished⟩
  rcases of_decide_eq_true h k with hfinished | hidle
  · exact hunfinished hfinished
  · exact hidle call hcall hcaller

/-- Some message was acked, and by whom. -/
def ackedBy (config : System (Fin 2)) : Option (Fin 2) :=
  config.trace.findSome? fun call ↦ match call.op with
    | .ack => some call.caller
    | _ => none

theorem exists_ack_of_ackedBy {config : System (Fin 2)} {k : Fin 2}
    (h : ackedBy config = some k) : ∃ call ∈ config.trace, call.op = .ack ∧ call.caller = k := by
  obtain ⟨call, hcall, hack⟩ := List.exists_of_findSome?_eq_some h
  refine ⟨call, hcall, ?_⟩
  split at hack
  · next hop => exact ⟨hop, Option.some.inj hack⟩
  · cases hack

instance (handlers : Fin 2 → Handler) (call : Call (Fin 2)) : Decidable (Harmless handlers call) :=
  inferInstanceAs (Decidable (call.outcome.Failed → ¬ call.outcome.TookEffect ∧
    (call.op.Deciding = true → (handlers call.caller).chunk? = none)))

/-- The append of the first delivery throws without effect, and the redelivery is handled. -/
def appendThrowsOnce : List (Move (Fin 2) Reply AppError) :=
  List.replicate 3 (succeeds 0) ++ [⟨0, {}, .lost ⟨.other, "connection"⟩⟩] ++
    List.replicate 2 (succeeds 0) ++ List.replicate 17 (succeeds 1)

theorem terminal_chunk_finalizes_delivered :
    ∃ config, System.Reaches .withoutSources gatheringJob deliveries config ∧
      (config.trace.filter fun call ↦ call.outcome.Failed).length = 1 ∧
      config.shared.status "job" ≠ some .gathering ∧
      config.shared.status "job" ≠ some .planning := by
  have hreplay : (machine.replay (System.start .withoutSources gatheringJob deliveries)
      appendThrowsOnce).map (fun config ↦ (AtRest config, ackedBy config,
        decide (∀ call ∈ config.trace, Harmless deliveries call),
        (config.trace.filter fun call ↦ call.outcome.Failed).length)) =
      some (true, some 1, true, 1) := by decide
  obtain ⟨config, hreach, hview⟩ := machine.exists_reachable hreplay
  simp only [Prod.mk.injEq] at hview
  obtain ⟨hrest, hacked, hharmless, hfailures⟩ := hview
  obtain ⟨call, hcall, hack, hcaller⟩ := exists_ack_of_ackedBy hacked
  have hchunk : ∀ k chunk, Handles deliveries "job" k chunk → chunk = completedChunk 1 :=
    fun k chunk handles ↦ (Option.some.inj handles.1).symm
  have hstored : gatheringJob.jobs "job" = some (queuedDocument.update { status := .gathering }) :=
    PlanningState.store_jobs_self _ _ _
  refine ⟨config, hreach, hfailures, terminal_chunk_finalizes hreach (fun _ ↦ rfl) hstored
    (by decide) ?_ ?_ (of_decide_eq_true hharmless) ⟨hcall, hack⟩ ⟨rfl, rfl⟩ ⟨_, rfl, rfl⟩
    fun k _ ↦ not_inFlight_of_atRest hrest k⟩
  · exact fun _ _ _ _ _ ↦ List.not_mem_nil
  · rintro k k' chunk chunk' handles handles' terminal -
    rw [hchunk k' chunk' handles', ← hchunk k chunk handles]
    exact terminal

/-- The claim throws once, without effect: the first delivery is requeued. -/
def claimThrowsOnce : List (Move (Fin 2) Reply AppError) :=
  List.replicate 4 (succeeds 0) ++ [⟨0, {}, .lost ⟨.other, "connection"⟩⟩] ++
    List.replicate 2 (succeeds 0) ++ List.replicate 7 (succeeds 1)

/-- The redelivery is acked as a duplicate, and the job gathers for ever. -/
theorem terminal_chunk_swallowed :
    ∃ config, System.Reaches .withoutSources gatheringJob deliveries config ∧
      (∃ call ∈ config.trace, call.op = .ack ∧
        ∃ chunk, Handles deliveries "job" call.caller chunk ∧ chunk.Terminal) ∧
      (∀ k, ¬ config.InFlight k) ∧
      (config.trace.filter fun call ↦ call.outcome.Failed).length = 1 ∧
      config.shared.status "job" = some .gathering := by
  have hreplay : (machine.replay (System.start .withoutSources gatheringJob deliveries)
      claimThrowsOnce).map (fun config ↦ (AtRest config, ackedBy config,
        (config.trace.filter fun call ↦ call.outcome.Failed).length,
        config.shared.status "job")) = some (true, some 1, 1, some .gathering) := by decide
  obtain ⟨config, hreach, hview⟩ := machine.exists_reachable hreplay
  simp only [Prod.mk.injEq] at hview
  obtain ⟨hrest, hacked, hfailures, hstatus⟩ := hview
  obtain ⟨call, hcall, hack, hcaller⟩ := exists_ack_of_ackedBy hacked
  exact ⟨config, hreach, ⟨call, hcall, hack, completedChunk 1, ⟨rfl, rfl⟩, _, rfl, rfl⟩,
    not_inFlight_of_atRest hrest, hfailures, hstatus⟩

end MemoFlowApi.Planning
