import Mathlib.Data.List.TakeWhile
import MemoFlowApi.Concurrency.Replay
import MemoFlowApi.Lists.FirstByKey
import MemoFlowApi.Planning.JobOrder

/-!
# Assembly of the Context

The context that a `completed` chunk records is assembled from the state its own append returned.
Because a job's messages are handled in the order of their delivery and an append is refused when its
sequence is there, that state holds the first chunk of every sequence number among those delivered
before (`chunk_assembly`).
-/

namespace MemoFlowApi.Planning

open Concurrency MemoFlowApi.Lists

/-- What a chunk adds to the data chunks of its job. -/
def ContextResultChunk.accumulated (chunk : ContextResultChunk) : Option AccumulatedDataChunk :=
  chunk.appendData.data.map fun data ↦
    ⟨chunk.sequence, data.provider, data.content, data.tokenEstimate⟩

/-- The data chunks recorded from a delivery sequence. -/
def recordedData (delivered : List ContextResultChunk) : List AccumulatedDataChunk :=
  (firstByKey (·.sequence) delivered).filterMap (·.accumulated)

/-- A context lists, in strictly ascending order, the bodies of the data chunks that are the first
delivered chunk of their sequence number. -/
def AssembledFrom (delivered : List ContextResultChunk) (context : JsonObject) : Prop :=
  ∃ assembled : List AccumulatedDataChunk,
    context = [("chunks", .arr (assembled.map chunkEntry))] ∧
    assembled.Pairwise (fun a b ↦ a.sequence < b.sequence) ∧
    ∀ entry, entry ∈ assembled ↔ ∃ before chunk after, delivered = before ++ chunk :: after ∧
      chunk.sequence ∉ before.map (·.sequence) ∧ chunk.accumulated = some entry

/-- Chunks of the same sequence are equal. -/
def EqualBySequence (delivered : List ContextResultChunk) : Prop :=
  ∀ a ∈ delivered, ∀ b ∈ delivered, a.sequence = b.sequence → a = b

theorem sequence_of_accumulated {chunk : ContextResultChunk} {entry : AccumulatedDataChunk}
    (h : chunk.accumulated = some entry) : entry.sequence = chunk.sequence := by
  obtain ⟨data, -, rfl⟩ := Option.map_eq_some_iff.mp h
  rfl

theorem mem_recordedData {delivered : List ContextResultChunk} {entry : AccumulatedDataChunk} :
    entry ∈ recordedData delivered ↔ ∃ before chunk after, delivered = before ++ chunk :: after ∧
      chunk.sequence ∉ before.map (·.sequence) ∧ chunk.accumulated = some entry := by
  unfold recordedData
  rw [List.mem_filterMap]
  constructor
  · rintro ⟨chunk, hchunk, hentry⟩
    obtain ⟨before, after, hdelivered, hfirst⟩ := (mem_firstByKey _).mp hchunk
    exact ⟨before, chunk, after, hdelivered, hfirst, hentry⟩
  · rintro ⟨before, chunk, after, hdelivered, hfirst, hentry⟩
    exact ⟨chunk, (mem_firstByKey _).mpr ⟨before, after, hdelivered, hfirst⟩, hentry⟩

/-- Sorting the recorded data assembles it. -/
theorem assembledFrom_recordedData (delivered : List ContextResultChunk) :
    AssembledFrom delivered (assembleContext (recordedData delivered)) := by
  refine ⟨_, rfl, pairwise_lt_mergeSort AccumulatedDataChunk.sequence ?_, fun entry ↦ ?_⟩
  · exact nodup_map_filterMap (fun _ _ ↦ sequence_of_accumulated) (nodup_map_firstByKey _ delivered)
  · rw [List.mem_mergeSort, mem_recordedData]

/-- A context is determined by the delivered chunks alone where equal sequences mean equal chunks. -/
theorem AssembledFrom.eq_of_perm {delivered delivered' : List ContextResultChunk}
    {context context' : JsonObject} (h : AssembledFrom delivered context)
    (h' : AssembledFrom delivered' context') (perm : delivered'.Perm delivered)
    (equal : EqualBySequence delivered) : context' = context := by
  obtain ⟨assembled, rfl, hsorted, hmem⟩ := h
  obtain ⟨assembled', rfl, hsorted', hmem'⟩ := h'
  have hequal' : EqualBySequence delivered' :=
    fun a ha b hb ↦ equal a (perm.subset ha) b (perm.subset hb)
  have hsame : ∀ entry, entry ∈ assembled' ↔ entry ∈ assembled := by
    intro entry
    rw [hmem, hmem', ← mem_recordedData, ← mem_recordedData]
    unfold recordedData
    simp only [List.mem_filterMap, mem_firstByKey_of_injOn _ equal,
      mem_firstByKey_of_injOn _ hequal', perm.mem_iff]
  rw [eq_of_pairwise_lt AccumulatedDataChunk.sequence hsorted' hsorted hsame]

/-- Recording one more chunk. -/
theorem recordedData_concat_of_mem {delivered : List ContextResultChunk} {chunk : ContextResultChunk}
    (h : chunk.sequence ∈ delivered.map (·.sequence)) :
    recordedData (delivered ++ [chunk]) = recordedData delivered := by
  unfold recordedData
  rw [firstByKey_concat_of_mem ContextResultChunk.sequence h]

theorem recordedData_concat_of_not_mem {delivered : List ContextResultChunk}
    {chunk : ContextResultChunk} (h : chunk.sequence ∉ delivered.map (·.sequence)) :
    recordedData (delivered ++ [chunk]) = recordedData delivered ++ chunk.accumulated.toList := by
  unfold recordedData
  rw [firstByKey_concat_of_not_mem ContextResultChunk.sequence h, List.filterMap_append]
  cases hchunk : chunk.accumulated <;> simp [hchunk]

/-- A chunk without data adds nothing to the context. -/
theorem recordedData_concat_of_none {delivered : List ContextResultChunk}
    {chunk : ContextResultChunk} (h : chunk.accumulated = none) :
    recordedData (delivered ++ [chunk]) = recordedData delivered := by
  by_cases hseen : chunk.sequence ∈ delivered.map (·.sequence)
  · exact recordedData_concat_of_mem hseen
  · rw [recordedData_concat_of_not_mem hseen, h]
    exact List.append_nil _

/-! ## The recorded chunks of a run -/

/-- The chunk was appended, or its sequence was there. -/
def Work.Pushed : Work → Bool
  | .recorded _ | .unmatched | .owning | .decided => true
  | .fresh | .looked | .rejected | .ended | .failing => false

/-- The work ended without a push. -/
def Work.Astray : Work → Bool
  | .rejected | .ended | .failing => true
  | .fresh | .looked | .recorded _ | .unmatched | .owning | .decided => false

section Work

variable {ι : Type} {i : ι} {s s' : PlanningState} {op : Op} {o : Outcome AppError (Ans op)}
  {chunk : ContextResultChunk} {w w' : Work}

/-- Work that is over without going astray has pushed its chunk. -/
theorem Work.Done.pushed (h : w.Done chunk) (astray : w.Astray = false) : w.Pushed = true := by
  cases w with
  | fresh | looked | owning => exact h.elim
  | rejected | ended | failing => cases astray
  | recorded | unmatched | decided => rfl

/-- A `completed` chunk has no data. -/
theorem ContextResultChunk.Completes.accumulated (h : chunk.Completes) :
    chunk.accumulated = none := by
  obtain ⟨status, hbody, -⟩ := h
  unfold ContextResultChunk.accumulated ContextResultChunk.appendData
  rw [hbody]
  rfl

/-- Only a push makes a chunk pushed; its sequence is new, or was there. -/
theorem Works.pushed_cases (h : Works chunk w op o w')
    (answers : (world ι).Answers AppError i op s o s') (returned : ¬ o.Failed) :
    w'.Pushed = w.Pushed ∨ w = .looked ∧ w'.Pushed = true ∧
      ∀ doc, s.jobs chunk.jobId = some doc →
        chunk.sequence ∉ doc.chunkSequences ∧
            s'.jobs chunk.jobId = some (doc.push chunk.appendData) ∨
          chunk.sequence ∈ doc.chunkSequences ∧ s'.jobs chunk.jobId = some doc := by
  cases h with
  | record => exact .inr ⟨rfl, rfl, fun doc hdoc ↦ pushed_of_pushResultChunk answers hdoc⟩
  | unmatch => exact .inr ⟨rfl, rfl, fun doc hdoc ↦ pushed_of_pushResultChunk answers hdoc⟩
  | fail early failed => exact (returned failed).elim
  | failLate deciding failed => exact (returned failed).elim
  | _ => exact .inl rfl

/-- A chunk that was found to be its job's own names the user of the job. -/
theorem Works.own_cases (h : Works chunk w op o w')
    (answers : (world ι).Answers AppError i op s o s')
    (own : w' = .looked ∨ w'.Pushed = true) :
    (w = .looked ∨ w.Pushed = true) ∨
      ∃ doc, s.jobs chunk.jobId = some doc ∧ doc.userId = chunk.userId := by
  cases h with
  | look hown going =>
    obtain ⟨doc, hdoc, rfl, -⟩ := found_of_findById answers
    exact .inr ⟨doc, hdoc, hown⟩
  | record | unmatch => exact .inl (.inl rfl)
  | reread | claim | lose | giveUp | plan | finish => exact .inl (.inr rfl)
  | tell telling => exact .inl own
  | ended | reject | fail | failLate => simp [Work.Pushed] at own

/-- The work on a chunk of a gathering job's user does not go astray. -/
theorem Works.astray_cases (h : Works chunk w op o w')
    (answers : (world ι).Answers AppError i op s o s') (returned : ¬ o.Failed)
    (astray : w'.Astray = true) :
    w.Astray = true ∨ s'.status chunk.jobId ≠ some .gathering ∨ s.jobs chunk.jobId = none ∨
      ∃ doc, s.jobs chunk.jobId = some doc ∧ doc.userId ≠ chunk.userId := by
  cases h with
  | ended hown terminal =>
    obtain ⟨doc, hdoc, rfl, rfl⟩ := found_of_findById answers
    have hterminal : doc.status.Terminal := terminal
    refine .inr (.inl fun hgathering ↦ hterminal.ne_gathering ?_)
    simpa [PlanningState.status, hdoc] using hgathering
  | @reject found foreign =>
    cases found with
    | none => exact .inr (.inr (.inl (missing_of_findById answers)))
    | some job =>
      obtain ⟨doc, hdoc, rfl, -⟩ := found_of_findById answers
      exact .inr (.inr (.inr ⟨doc, hdoc, foreign _ rfl⟩))
  | tell telling => exact .inl astray
  | fail early failed => exact (returned failed).elim
  | failLate deciding failed => exact (returned failed).elim
  | _ => cases astray

/-- A chunk is recorded with the job as its push left it. -/
theorem Works.recorded_cases {dataChunks : List AccumulatedDataChunk}
    (h : Works chunk w op o (.recorded dataChunks))
    (answers : (world ι).Answers AppError i op s o s') :
    w = .recorded dataChunks ∨ w = .looked ∧
      ∀ doc', s'.jobs chunk.jobId = some doc' → dataChunks = doc'.dataChunks := by
  cases h with
  | record =>
    refine .inr ⟨rfl, fun doc' hdoc' ↦ ?_⟩
    obtain ⟨id, doc, doc₁, -, hrewrites, rfl⟩ := rewrites_of_returned answers rfl
    cases hrewrites with
    | pushResultChunk push fresh =>
      rw [PlanningState.store_jobs_self, Option.some.injEq] at hdoc'
      rw [← hdoc']
      rfl
  | tell telling => exact .inl rfl

/-- A job that gathers after a call gathered before it. -/
theorem JobMove.gathering_of_gathering {handler : Handler} {id : JobId} {φ φ' : Pass}
    {doc doc' : PlanningJobDocument} (h : JobMove handler id doc φ φ' doc')
    (gathering : doc'.status = .gathering) : doc.status = .gathering := by
  cases h with
  | kept => exact gathering
  | recorded => exact gathering
  | claimed _ _ _ gathering => exact gathering
  | failed gathering => exact gathering
  | finished _ _ _ terminal => exact (terminal.ne_gathering gathering).elim

/-- The winner of the claim has recorded a `completed` chunk. -/
theorem Passes.of_claimForPlanning {handlers : ι → Handler} {id : JobId} {φ φ' : Pass}
    {contextUsed : JsonObject} {job : PlanningJob}
    (moves : Passes (handlers i) φ (.claimForPlanning id contextUsed) (.returned (some job)) φ') :
    ∃ chunk task dataChunks, Handles handlers id i chunk ∧ chunk.Completes ∧
      φ.place = .inside task ∧ φ.work = .recorded dataChunks ∧
      contextUsed = assembleContext dataChunks := by
  cases moves with
  | aside _ aside => cases aside
  | work own inside unacked works =>
    obtain ⟨hjob, hcompletes, -, dataChunks, hwork, rfl⟩ := works.of_claimForPlanning
    exact ⟨_, _, dataChunks, ⟨own, hjob⟩, hcompletes, inside, hwork, rfl⟩

/-- A pass that is inside has been inside, or was queued. -/
theorem Passes.inside_cases {handler : Handler} {φ φ' : Pass} {task : TaskId}
    (moves : Passes handler φ op o φ') (inside : φ'.place = .inside task) :
    φ.place = .inside task ∨ ∃ previous, φ.place = .queued previous task := by
  cases moves with
  | enter own queued =>
    obtain rfl := Place.inside.inj inside
    exact .inr ⟨_, queued⟩
  | arrive => cases inside
  | leave => cases inside
  | _ => exact .inl inside

end Work

section Recording

variable {ι : Type} {handlers : ι → Handler} {id : JobId} {owner : UserId}
  {s s' state : PlanningState} {φ φ' : ι → Pass} {trace : List (Call ι)}

/-- The chunk of a handler, if it names the given user. -/
def ownChunk (handlers : ι → Handler) (owner : UserId) (k : ι) : Option ContextResultChunk :=
  (handlers k).chunk?.filter (·.userId = owner)

/-- The chunk of a handler that has pushed it. -/
def pushedChunk (handlers : ι → Handler) (owner : UserId) (φ : ι → Pass) (k : ι) :
    Option ContextResultChunk :=
  if (φ k).work.Pushed = true then ownChunk handlers owner k else none

/-- The messages of a job's user push their chunks as long as the job gathers. -/
structure OnCourse (handlers : ι → Handler) (id : JobId) (owner : UserId) (s : PlanningState)
    (φ : ι → Pass) : Prop where
  stored : ∃ doc, s.jobs id = some doc ∧ doc.userId = owner
  idle : ∀ {k}, (φ k).place ≠ .left → (∀ t, (φ k).place ≠ .inside t) → (φ k).work = .fresh
  own : ∀ {k chunk}, Handles handlers id k chunk →
    (φ k).work = .looked ∨ (φ k).work.Pushed = true → chunk.userId = owner
  astray : s.status id = some .gathering → ∀ {k chunk}, Handles handlers id k chunk →
    chunk.userId = owner → (φ k).work.Astray = false
  done : ∀ {k chunk}, Handles handlers id k chunk → (φ k).place = .left → (φ k).work.Done chunk

/-- What a gathering job has recorded. -/
structure Recording (handlers : ι → Handler) (id : JobId) (owner : UserId) (s : PlanningState)
    (φ : ι → Pass) (trace : List (Call ι)) : Prop where
  onCourse : OnCourse handlers id owner s φ
  sequences : ∀ {doc}, s.jobs id = some doc → doc.status = .gathering → ∀ sequence,
    sequence ∈ doc.chunkSequences ↔ sequence ∈
      ((arrivals id trace).filterMap (pushedChunk handlers owner φ)).map (·.sequence)
  data : ∀ {doc}, s.jobs id = some doc → doc.status = .gathering →
    doc.dataChunks = recordedData ((arrivals id trace).filterMap (pushedChunk handlers owner φ))
  current : ∀ {doc k chunk t dataChunks}, s.jobs id = some doc → doc.status = .gathering →
    Handles handlers id k chunk → (φ k).place = .inside t → (φ k).work = .recorded dataChunks →
    dataChunks = doc.dataChunks

/-- Who has pushed what is known from the work of each. -/
theorem filterMap_pushedChunk_congr {ks : List ι}
    (h : ∀ k ∈ ks, (φ' k).work.Pushed = (φ k).work.Pushed) :
    ks.filterMap (pushedChunk handlers owner φ') = ks.filterMap (pushedChunk handlers owner φ) := by
  refine List.filterMap_congr fun k hk ↦ ?_
  unfold pushedChunk
  rw [h k hk]

theorem filterMap_pushedChunk_eq_nil {ks : List ι} (h : ∀ k ∈ ks, (φ k).work.Pushed = false) :
    ks.filterMap (pushedChunk handlers owner φ) = [] := by
  refine List.filterMap_eq_nil_iff.mpr fun k hk ↦ ?_
  unfold pushedChunk
  rw [h k hk]
  rfl

theorem Handles.line {k : ι} {chunk : ContextResultChunk} (h : Handles handlers id k chunk) :
    lineOf (handlers k) = id := by
  rw [lineOf, h.1]
  exact h.2

theorem ownChunk_of_handles {k : ι} {chunk : ContextResultChunk} (h : Handles handlers id k chunk)
    (hown : chunk.userId = owner) : ownChunk handlers owner k = some chunk := by
  unfold ownChunk
  rw [h.1]
  simp [hown]

section Step

variable {i : ι} {op : Op} {o : Outcome AppError (Ans op)} {pass : Pass}

/-- Around a message inside, those who arrived before have left and those who arrived after have not
begun. -/
theorem OnCourse.split (h : OnCourse handlers id owner s φ)
    (inOrder : (jobLines s φ trace).InOrder fun k ↦ lineOf (handlers k))
    (line : lineOf (handlers i) = id) {task : TaskId} (inside : (φ i).place = .inside task) :
    ∃ earlier later, arrivals id trace = earlier ++ i :: later ∧
      (∀ k ∈ earlier, (φ k).place = .left) ∧
      ∀ k ∈ later, k ≠ i ∧ (φ k).work.Pushed = false := by
  have harrived : (jobLines s φ trace).place i ≠ .waiting := by
    change (φ i).place ≠ .waiting
    rw [inside]
    rintro ⟨⟩
  have hmem : i ∈ arrivals id trace := line ▸ inOrder.arrived.mp harrived
  obtain ⟨earlier, later, harrivals⟩ := List.append_of_mem hmem
  have hinitial : earlier ++ [i] <+: (jobLines s φ trace).arrivals id :=
    ⟨later, by rw [List.append_assoc]; exact harrivals.symm⟩
  refine ⟨earlier, later, harrivals, fun k hk ↦ inOrder.left_of_inside hinitial inside hk, ?_⟩
  intro k hk
  obtain ⟨hleft, hinside⟩ := inOrder.not_started_of_inside harrivals inside hk
  constructor
  · rintro rfl
    exact hinside task inside
  · rw [h.idle hleft hinside]
    rfl

/-- A new arrival has pushed nothing. -/
theorem OnCourse.arrival_not_pushed (h : OnCourse handlers id owner s φ)
    (moves : Passes (handlers i) (φ i) op o pass)
    (answers : (world ι).Answers AppError i op s o s') {k : ι}
    (harrival : arrival id (⟨s, i, op, o⟩ : Call ι) = some k) :
    k = i ∧ (φ i).work.Pushed = false ∧ pass.work.Pushed = false := by
  have hordering : op.Ordering = false → False := by
    intro hordering
    have hnone : arrival id (⟨s, i, op, o⟩ : Call ι) = none := arrival_of_not_ordering hordering
    cases harrival.symm.trans hnone
  cases moves with
  | arrive own waiting =>
    have hfresh : (φ i).work = .fresh := h.idle (by simp [waiting]) (by simp [waiting])
    have hcaller : k = i := by
      unfold arrival at harrival
      dsimp only at harrival
      split at harrival
      · exact (Option.some.inj harrival).symm
      · cases harrival
    exact ⟨hcaller, by rw [hfresh]; rfl, by rw [hfresh]; rfl⟩
  | aside noChunk aside => exact (hordering (by cases op <;> first | rfl | cases aside)).elim
  | work own inside unacked works => exact (hordering (works.not_ordering answers)).elim
  | enter => cases harrival
  | ack => cases harrival
  | nack => cases harrival
  | leave => cases harrival

variable [DecidableEq ι]

/-- A call that pushes nothing leaves the pushed chunks. -/
theorem OnCourse.pushed_kept (h : OnCourse handlers id owner s φ)
    (moves : Passes (handlers i) (φ i) op o pass)
    (answers : (world ι).Answers AppError i op s o s')
    (same : i ∈ arrivals id trace → pass.work.Pushed = (φ i).work.Pushed) :
    (arrivals id (⟨s, i, op, o⟩ :: trace)).filterMap
        (pushedChunk handlers owner (Function.update φ i pass)) =
      (arrivals id trace).filterMap (pushedChunk handlers owner φ) := by
  have hsame : ∀ k ∈ arrivals id trace,
      (Function.update φ i pass k).work.Pushed = (φ k).work.Pushed := by
    intro k hk
    by_cases hki : k = i
    · subst hki
      rw [Function.update_self, same hk]
    · rw [Function.update_of_ne hki]
  have hnew : (arrival id (⟨s, i, op, o⟩ : Call ι)).toList.filterMap
      (pushedChunk handlers owner (Function.update φ i pass)) = [] := by
    refine filterMap_pushedChunk_eq_nil fun k hk ↦ ?_
    obtain ⟨rfl, -, hpushed⟩ := h.arrival_not_pushed moves answers (Option.mem_toList.mp hk)
    rw [Function.update_self, hpushed]
  rw [arrivals_cons, List.filterMap_append, filterMap_pushedChunk_congr hsame, hnew, List.append_nil]

/-- A push appends its chunk to the pushed ones. -/
theorem OnCourse.pushed_concat (h : OnCourse handlers id owner s φ)
    (inOrder : (jobLines s φ trace).InOrder fun k ↦ lineOf (handlers k))
    (moves : Passes (handlers i) (φ i) op o pass)
    (answers : (world ι).Answers AppError i op s o s') {chunk : ContextResultChunk} {task : TaskId}
    (handles : Handles handlers id i chunk) (inside : (φ i).place = .inside task)
    (looked : (φ i).work = .looked) (pushed : pass.work.Pushed = true) :
    (arrivals id (⟨s, i, op, o⟩ :: trace)).filterMap
        (pushedChunk handlers owner (Function.update φ i pass)) =
      (arrivals id trace).filterMap (pushedChunk handlers owner φ) ++ [chunk] := by
  obtain ⟨earlier, later, harrivals, hleft, hlater⟩ := h.split inOrder handles.line inside
  have hearlier : ∀ k ∈ earlier,
      (Function.update φ i pass k).work.Pushed = (φ k).work.Pushed := by
    intro k hk
    rw [Function.update_of_ne]
    rintro rfl
    cases inside.symm.trans (hleft k hk)
  have hnone : arrival id (⟨s, i, op, o⟩ : Call ι) = none := by
    refine Option.eq_none_iff_forall_ne_some.mpr fun k hk ↦ ?_
    cases (h.arrival_not_pushed moves answers hk).2.2.symm.trans pushed
  have hbefore : pushedChunk handlers owner φ i = none := by
    unfold pushedChunk
    rw [looked]
    rfl
  have hafter : pushedChunk handlers owner (Function.update φ i pass) i = some chunk := by
    unfold pushedChunk
    rw [Function.update_self, if_pos pushed]
    exact ownChunk_of_handles handles (h.own handles (.inl looked))
  have hlaterBefore : later.filterMap (pushedChunk handlers owner φ) = [] :=
    filterMap_pushedChunk_eq_nil fun k hk ↦ (hlater k hk).2
  have hlaterAfter : later.filterMap
      (pushedChunk handlers owner (Function.update φ i pass)) = [] := by
    refine filterMap_pushedChunk_eq_nil fun k hk ↦ ?_
    rw [Function.update_of_ne (hlater k hk).1]
    exact (hlater k hk).2
  calc
    _ = (earlier ++ i :: later).filterMap
        (pushedChunk handlers owner (Function.update φ i pass)) := by
      rw [arrivals_cons, hnone, Option.toList_none, List.append_nil, harrivals]
    _ = earlier.filterMap (pushedChunk handlers owner φ) ++ [chunk] := by
      rw [List.filterMap_append, List.filterMap_cons_some hafter,
        filterMap_pushedChunk_congr hearlier, hlaterAfter]
    _ = _ := by
      rw [harrivals, List.filterMap_append, List.filterMap_cons_none hbefore, hlaterBefore,
        List.append_nil]

/-- What a call does to the job and to the pushed chunks: a push appends to both unless the sequence
is there; every other call leaves both or ends the gathering. -/
theorem OnCourse.pushes (h : OnCourse handlers id owner s φ)
    (inOrder : (jobLines s φ trace).InOrder fun k ↦ lineOf (handlers k))
    (moves : Passes (handlers i) (φ i) op o pass)
    (answers : (world ι).Answers AppError i op s o s') (returned : ¬ o.Failed)
    {doc doc' : PlanningJobDocument} (before : s.jobs id = some doc) (after : s'.jobs id = some doc')
    (gathering : doc'.status = .gathering) :
    doc.status = .gathering ∧
      (doc' = doc ∧ (arrivals id (⟨s, i, op, o⟩ :: trace)).filterMap
          (pushedChunk handlers owner (Function.update φ i pass)) =
        (arrivals id trace).filterMap (pushedChunk handlers owner φ) ∨
      ∃ chunk task, Handles handlers id i chunk ∧ (φ i).place = .inside task ∧
        (φ i).work = .looked ∧
        (chunk.sequence ∉ doc.chunkSequences ∧ doc' = doc.push chunk.appendData ∨
          chunk.sequence ∈ doc.chunkSequences ∧ doc' = doc) ∧
        (arrivals id (⟨s, i, op, o⟩ :: trace)).filterMap
            (pushedChunk handlers owner (Function.update φ i pass)) =
          (arrivals id trace).filterMap (pushedChunk handlers owner φ) ++ [chunk]) := by
  obtain ⟨doc₁, hdoc₁, hmove⟩ :=
    moves.jobMove answers (fun hfailed ↦ (returned hfailed).elim) before
  obtain rfl : doc' = doc₁ := Option.some.inj (after.symm.trans hdoc₁)
  refine ⟨hmove.gathering_of_gathering gathering, ?_⟩
  have hkeeps : (∀ {chunk}, (handlers i).chunk? = some chunk → chunk.jobId = id →
      pass.work.Pushed = (φ i).work.Pushed) → doc' = doc := by
    intro hsame
    cases hmove with
    | kept => rfl
    | recorded own job inside looked fresh =>
      have hpushed := hsame own job
      rw [looked] at hpushed
      cases hpushed
    | claimed _ _ _ _ claimed => simp [claimed, PlanningJobDocument.update] at gathering
    | failed _ status => cases gathering.symm.trans status
    | finished _ _ _ terminal => exact (terminal.ne_gathering gathering).elim
  rcases moves.work_cases with hsame | ⟨chunk, task, hown, hinside, hworks⟩
  · have hpushed : pass.work.Pushed = (φ i).work.Pushed := congrArg Work.Pushed hsame
    exact .inl ⟨hkeeps fun _ _ ↦ hpushed, h.pushed_kept moves answers fun _ ↦ hpushed⟩
  rcases hworks.pushed_cases answers returned with hpushed | ⟨hlooked, hpushed, hpush⟩
  · exact .inl ⟨hkeeps fun _ _ ↦ hpushed, h.pushed_kept moves answers fun _ ↦ hpushed⟩
  by_cases hjob : chunk.jobId = id
  · subst hjob
    refine .inr ⟨chunk, task, ⟨hown, rfl⟩, hinside, hlooked, ?_,
      h.pushed_concat inOrder moves answers ⟨hown, rfl⟩ hinside hlooked hpushed⟩
    rcases hpush doc before with ⟨hfresh, hafter⟩ | ⟨hseen, hafter⟩
    · exact .inl ⟨hfresh, Option.some.inj (after.symm.trans hafter)⟩
    · exact .inr ⟨hseen, Option.some.inj (after.symm.trans hafter)⟩
  · left
    constructor
    · refine hkeeps fun hown' hjob' ↦ ?_
      obtain rfl := Option.some.inj (hown.symm.trans hown')
      exact (hjob hjob').elim
    · refine h.pushed_kept moves answers fun hmem ↦ ?_
      have hline : lineOf (handlers i) = id := inOrder.key_of_mem hmem
      rw [lineOf, hown] at hline
      exact (hjob hline).elim

theorem OnCourse.step (h : OnCourse handlers id owner s φ)
    (moves : Passes (handlers i) (φ i) op o pass)
    (answers : (world ι).Answers AppError i op s o s') (returned : ¬ o.Failed) :
    OnCourse handlers id owner s' (Function.update φ i pass) := by
  obtain ⟨doc, hdoc, hdocOwner⟩ := h.stored
  obtain ⟨doc', hdoc', hmove⟩ :=
    moves.jobMove answers (fun hfailed ↦ (returned hfailed).elim) hdoc
  constructor
  case stored =>
    refine ⟨doc', hdoc', ?_⟩
    cases hmove with
    | kept => exact hdocOwner
    | recorded => exact hdocOwner
    | claimed _ _ _ _ claimed => rw [claimed]; exact hdocOwner
    | failed _ _ userId => rw [userId, hdocOwner]
    | finished => exact hdocOwner
  case idle =>
    intro k hleft hinside
    by_cases hk : k = i
    · subst hk
      rw [Function.update_self] at hleft hinside ⊢
      cases moves with
      | aside => exact h.idle hleft hinside
      | arrive own waiting => exact h.idle (by simp [waiting]) (by simp [waiting])
      | enter => exact (hinside _ rfl).elim
      | work own inside => exact (hinside _ inside).elim
      | ack own inside => exact (hinside _ inside).elim
      | nack => exact h.idle hleft hinside
      | leave => exact (hleft rfl).elim
    · rw [Function.update_of_ne hk] at hleft hinside ⊢
      exact h.idle hleft hinside
  case own =>
    intro k chunk handles hown
    by_cases hk : k = i
    · subst hk
      rw [Function.update_self] at hown
      rcases moves.work_cases with hsame | ⟨chunk', _, hown', -, hworks⟩
      · exact h.own handles (hsame ▸ hown)
      · obtain rfl : chunk = chunk' := Option.some.inj (handles.1.symm.trans hown')
        rcases hworks.own_cases answers hown with hold | ⟨doc₁, hdoc₁, hsame⟩
        · exact h.own handles hold
        · rw [handles.2, hdoc, Option.some.injEq] at hdoc₁
          rw [← hsame, ← hdoc₁, hdocOwner]
    · rw [Function.update_of_ne hk] at hown
      exact h.own handles hown
  case astray =>
    intro hgathering k chunk handles hown
    have hbefore : s.status id = some .gathering := by
      have hstatus' : doc'.status = .gathering := by
        simpa [PlanningState.status, hdoc'] using hgathering
      simp [PlanningState.status, hdoc, hmove.gathering_of_gathering hstatus']
    by_cases hk : k = i
    · subst hk
      rw [Function.update_self]
      rcases moves.work_cases with hsame | ⟨chunk', _, hown', -, hworks⟩
      · rw [hsame]
        exact h.astray hbefore handles hown
      · obtain rfl : chunk = chunk' := Option.some.inj (handles.1.symm.trans hown')
        obtain ⟨-, rfl⟩ := handles
        by_contra hastray
        rcases hworks.astray_cases answers returned (by simpa using hastray) with
          hold | hafter | hmissing | ⟨doc₁, hdoc₁, hforeign⟩
        · cases (h.astray hbefore ⟨hown', rfl⟩ hown).symm.trans hold
        · exact hafter hgathering
        · cases hdoc.symm.trans hmissing
        · obtain rfl : doc = doc₁ := Option.some.inj (hdoc.symm.trans hdoc₁)
          exact hforeign (hdocOwner.trans hown.symm)
    · rw [Function.update_of_ne hk]
      exact h.astray hbefore handles hown
  case done =>
    intro k chunk handles hleft
    by_cases hk : k = i
    · subst hk
      rw [Function.update_self] at hleft ⊢
      cases moves with
      | aside => exact h.done handles hleft
      | arrive => cases hleft
      | enter => cases hleft
      | work own inside => cases inside.symm.trans hleft
      | ack own inside => cases inside.symm.trans hleft
      | nack => exact h.done handles hleft
      | leave own inside done =>
        obtain rfl : chunk = _ := Option.some.inj (handles.1.symm.trans own)
        exact done
    · rw [Function.update_of_ne hk] at hleft ⊢
      exact h.done handles hleft

/-- The invariant that carries the assembly: the pushed chunks in the order of their delivery are
what the job has recorded. -/
theorem Recording.step (h : Recording handlers id owner s φ trace)
    (inOrder : (jobLines s φ trace).InOrder fun k ↦ lineOf (handlers k))
    (moves : Passes (handlers i) (φ i) op o pass)
    (answers : (world ι).Answers AppError i op s o s') (returned : ¬ o.Failed) :
    Recording handlers id owner s' (Function.update φ i pass) (⟨s, i, op, o⟩ :: trace) := by
  obtain ⟨doc, hdoc, -⟩ := h.onCourse.stored
  have hpushes := fun {doc'} (hdoc' : s'.jobs id = some doc') gathering ↦
    h.onCourse.pushes inOrder moves answers returned hdoc hdoc' gathering
  constructor
  case onCourse => exact h.onCourse.step moves answers returned
  case sequences =>
    intro doc' hdoc' hafter sequence
    obtain ⟨hbefore, ⟨rfl, hlist⟩ | ⟨chunk, _, -, -, -, hpush, hlist⟩⟩ := hpushes hdoc' hafter
    · rw [hlist]
      exact h.sequences hdoc hbefore sequence
    rw [hlist, List.map_append, List.mem_append, ← h.sequences hdoc hbefore]
    rcases hpush with ⟨hfresh, rfl⟩ | ⟨hseen, rfl⟩
    · exact List.mem_append
    · refine ⟨.inl, fun hmem ↦ hmem.elim (fun hold ↦ hold) fun hnew ↦ ?_⟩
      rw [List.map_singleton, List.mem_singleton] at hnew
      rwa [hnew]
  case data =>
    intro doc' hdoc' hafter
    obtain ⟨hbefore, ⟨rfl, hlist⟩ | ⟨chunk, _, -, -, -, hpush, hlist⟩⟩ := hpushes hdoc' hafter
    · rw [hlist]
      exact h.data hdoc hbefore
    rcases hpush with ⟨hfresh, rfl⟩ | ⟨hseen, rfl⟩
    · rw [h.sequences hdoc hbefore] at hfresh
      rw [hlist, recordedData_concat_of_not_mem hfresh, ← h.data hdoc hbefore]
      rfl
    · rw [h.sequences hdoc hbefore] at hseen
      rw [hlist, recordedData_concat_of_mem hseen]
      exact h.data hdoc hbefore
  case current =>
    intro doc' k chunk t dataChunks hdoc' hafter handles hinside hrecorded
    obtain ⟨hbefore, hcases⟩ := hpushes hdoc' hafter
    have hsame : ∀ {t}, (φ k).place = .inside t → (φ k).work = .recorded dataChunks →
        dataChunks = doc'.dataChunks := by
      intro t inside recorded
      rcases hcases with ⟨rfl, -⟩ | ⟨chunk', task, handles', hinside', hlooked, -, -⟩
      · exact h.current hdoc hbefore handles inside recorded
      · have hkey : lineOf (handlers k) = lineOf (handlers i) := by
          rw [handles.line, handles'.line]
        rw [inOrder.inside_unique hkey inside hinside', hlooked] at recorded
        cases recorded
    by_cases hk : k = i
    · subst hk
      rw [Function.update_self] at hinside hrecorded
      rcases moves.work_cases with hwork | ⟨chunk', task, hown', hinside', hworks⟩
      · rw [hwork] at hrecorded
        rcases moves.inside_cases hinside with hinside | ⟨previous, hqueued⟩
        · exact hsame hinside hrecorded
        · rw [h.onCourse.idle (by simp [hqueued]) (by simp [hqueued])] at hrecorded
          cases hrecorded
      · obtain rfl : chunk = chunk' := Option.some.inj (handles.1.symm.trans hown')
        rw [hrecorded] at hworks
        rcases hworks.recorded_cases answers with hold | ⟨-, hjob⟩
        · exact hsame hinside' hold
        · exact hjob doc' (handles.2 ▸ hdoc')
    · rw [Function.update_of_ne hk] at hinside hrecorded
      exact hsame hinside hrecorded

end Step

/-! ## The claim of the winner -/

/-- The chunks of the job's user delivered for it before the message of `k`, oldest first. -/
def deliveredBefore [DecidableEq ι] (handlers : ι → Handler) (id : JobId) (owner : UserId) (k : ι)
    (trace : List (Call ι)) : List ContextResultChunk :=
  ((arrivals id trace).takeWhile (· ≠ k)).filterMap (ownChunk handlers owner)

/-- A message that has left has pushed the chunk of its job's user. -/
theorem OnCourse.pushedChunk_of_left (h : OnCourse handlers id owner s φ)
    (gathering : s.status id = some .gathering) {k : ι} (line : lineOf (handlers k) = id)
    (left : (φ k).place = .left) :
    pushedChunk handlers owner φ k = ownChunk handlers owner k := by
  unfold pushedChunk
  split
  · rfl
  · next hpushed =>
    refine (Option.eq_none_iff_forall_ne_some.mpr fun chunk hchunk ↦ hpushed ?_).symm
    obtain ⟨hown, howner⟩ := Option.filter_eq_some_iff.mp hchunk
    have handles : Handles handlers id k chunk := by
      rw [lineOf, hown] at line
      exact ⟨hown, line⟩
    exact (h.done handles left).pushed (h.astray gathering handles (of_decide_eq_true howner))

variable [DecidableEq ι]

/-- When a recorded chunk without data is about to claim, the job has recorded what was delivered
before. -/
theorem Recording.dataChunks_eq (h : Recording handlers id owner s φ trace)
    (inOrder : (jobLines s φ trace).InOrder fun k ↦ lineOf (handlers k)) {i : ι}
    {chunk : ContextResultChunk} {task : TaskId} {dataChunks : List AccumulatedDataChunk}
    {doc : PlanningJobDocument} (stored : s.jobs id = some doc) (gathering : doc.status = .gathering)
    (handles : Handles handlers id i chunk) (inside : (φ i).place = .inside task)
    (recorded : (φ i).work = .recorded dataChunks) (noData : chunk.accumulated = none) :
    i ∈ arrivals id trace ∧
      dataChunks = recordedData (deliveredBefore handlers id owner i trace) := by
  obtain ⟨earlier, later, harrivals, hleft, hlater⟩ := h.onCourse.split inOrder handles.line inside
  have hnot : ∀ k ∈ earlier, decide (k ≠ i) = true := by
    intro k hk
    refine decide_eq_true ?_
    rintro rfl
    cases inside.symm.trans (hleft k hk)
  have hbefore : (arrivals id trace).takeWhile (· ≠ i) = earlier := by
    rw [harrivals, List.takeWhile_append_of_pos hnot]
    simp
  have hearlier : earlier.filterMap (pushedChunk handlers owner φ) =
      earlier.filterMap (ownChunk handlers owner) := by
    refine List.filterMap_congr fun k hk ↦ ?_
    have hline : lineOf (handlers k) = id := by
      refine inOrder.key_of_mem (k := id) ?_
      change k ∈ arrivals id trace
      rw [harrivals]
      exact List.mem_append_left _ hk
    exact h.onCourse.pushedChunk_of_left (by simp [PlanningState.status, stored, gathering]) hline
      (hleft k hk)
  have hself : pushedChunk handlers owner φ i = some chunk := by
    unfold pushedChunk
    rw [recorded]
    exact ownChunk_of_handles handles (h.onCourse.own handles (.inr (by rw [recorded]; rfl)))
  have hafter : later.filterMap (pushedChunk handlers owner φ) = [] :=
    filterMap_pushedChunk_eq_nil fun k hk ↦ (hlater k hk).2
  constructor
  · rw [harrivals]
    exact List.mem_append_right _ List.mem_cons_self
  calc
    dataChunks = doc.dataChunks := h.current stored gathering handles inside recorded
    _ = recordedData ((arrivals id trace).filterMap (pushedChunk handlers owner φ)) :=
      h.data stored gathering
    _ = recordedData (earlier.filterMap (ownChunk handlers owner) ++ [chunk]) := by
      rw [harrivals, List.filterMap_append, List.filterMap_cons_some hself, hearlier, hafter]
    _ = recordedData (deliveredBefore handlers id owner i trace) := by
      rw [recordedData_concat_of_none noData, deliveredBefore, hbefore]

/-- The winner claimed with what was delivered before it. -/
structure Assembling (handlers : ι → Handler) (id : JobId) (owner : UserId) (s : PlanningState)
    (φ : ι → Pass) (trace : List (Call ι)) : Prop where
  inOrder : (jobLines s φ trace).InOrder fun k ↦ lineOf (handlers k)
  recording : Recording handlers id owner s φ trace
  won : ∀ {before k contextUsed job},
    ⟨before, k, .claimForPlanning id contextUsed, .returned (some job)⟩ ∈ trace →
      k ∈ arrivals id trace ∧ job.contextUsed = some contextUsed ∧
        contextUsed = assembleContext (recordedData (deliveredBefore handlers id owner k trace))

/-- What is delivered later does not come before. -/
theorem deliveredBefore_cons {k : ι} (call : Call ι) (arrived : k ∈ arrivals id trace) :
    deliveredBefore handlers id owner k (call :: trace) =
      deliveredBefore handlers id owner k trace := by
  have hshort : ((arrivals id trace).takeWhile (· ≠ k)).length ≠ (arrivals id trace).length := by
    intro hlength
    have hinitial : (arrivals id trace).takeWhile (· ≠ k) <+: arrivals id trace :=
      List.takeWhile_prefix _
    have hself := hinitial.eq_of_length hlength
    exact of_decide_eq_true (List.takeWhile_eq_self_iff.mp hself k arrived) rfl
  unfold deliveredBefore
  rw [arrivals_cons, List.takeWhile_append, if_neg hshort]

theorem Assembling.step (h : Assembling handlers id owner s φ trace) {i : ι} {op : Op}
    {o : Outcome AppError (Ans op)} {pass : Pass} (moves : Passes (handlers i) (φ i) op o pass)
    (answers : (world ι).Answers AppError i op s o s') (returned : ¬ o.Failed) :
    Assembling handlers id owner s' (Function.update φ i pass) (⟨s, i, op, o⟩ :: trace) := by
  constructor
  case inOrder => exact inOrder_step h.inOrder moves answers
  case recording => exact h.recording.step h.inOrder moves answers returned
  case won =>
    intro before k contextUsed job hmem
    rcases List.mem_cons.mp hmem with heq | hmem
    · cases heq
      obtain ⟨chunk, task, dataChunks, handles, completes, hinside, hrecorded, rfl⟩ :=
        moves.of_claimForPlanning
      obtain ⟨id, doc, doc', hdoc, hrewrites, -⟩ := rewrites_of_returned answers rfl
      cases hrewrites with
      | claimForPlanning contextUsed gathering claimed =>
        obtain ⟨harrived, hdata⟩ := h.recording.dataChunks_eq h.inOrder hdoc gathering handles
          hinside hrecorded completes.accumulated
        refine ⟨?_, ?_, ?_⟩
        · rw [arrivals_cons]
          exact List.mem_append_left _ harrived
        · rw [claimed]
          rfl
        · rw [deliveredBefore_cons _ harrived, ← hdata]
    · obtain ⟨harrived, hrecorded, hcontext⟩ := h.won hmem
      refine ⟨?_, hrecorded, ?_⟩
      · rw [arrivals_cons]
        exact List.mem_append_left _ harrived
      · rwa [deliveredBefore_cons _ harrived]

end Recording

/-! ## Chunk assembly -/

section Run

variable {ι : Type} [DecidableEq ι] {texts : PlanningTexts} {state : PlanningState}
  {handlers : ι → Handler} {config : System ι} {id : JobId} {owner : UserId} {k : ι}
  {job : PlanningJob}

/-- A run of a fresh consumer without failing calls, in which message `k` won a gathering job that
had recorded nothing at the start. -/
structure WinningRun (texts : PlanningTexts) (state : PlanningState) (handlers : ι → Handler)
    (config : System ι) (id : JobId) (owner : UserId) (k : ι) (job : PlanningJob) : Prop where
  reaches : System.Reaches texts state handlers config
  consuming : ∀ i, (handlers i).Consuming = true
  fresh : state.FreshConsumer
  gathering : ∃ doc, state.jobs id = some doc ∧ doc.userId = owner ∧ doc.status = .gathering ∧
    doc.chunkSequences = [] ∧ doc.dataChunks = []
  sound : ∀ call ∈ config.trace, ¬ call.outcome.Failed
  won : ∃ before contextUsed,
    ⟨before, k, .claimForPlanning id contextUsed, .returned (some job)⟩ ∈ config.trace

/-- A gathering job that has recorded nothing, before the first message. -/
theorem WinningRun.start (h : WinningRun texts state handlers config id owner k job) :
    Assembling handlers id owner state (fun _ ↦ {}) [] := by
  obtain ⟨doc, hdoc, howner, -, hsequences, hdata⟩ := h.gathering
  have hsame : ∀ {doc'}, state.jobs id = some doc' → doc' = doc :=
    fun hdoc' ↦ Option.some.inj (hdoc'.symm.trans hdoc)
  have honCourse : OnCourse handlers id owner state fun _ ↦ {} := by
    refine ⟨⟨doc, hdoc, howner⟩, fun _ _ ↦ rfl, ?_, fun _ _ _ _ _ ↦ rfl, ?_⟩
    · rintro k chunk - (hlooked | hpushed)
      · cases hlooked
      · cases hpushed
    · exact fun _ hleft ↦ by cases hleft
  refine ⟨h.fresh.inOrder, ⟨honCourse, ?_, ?_, ?_⟩, fun hmem ↦ by cases hmem⟩
  · rintro doc' hdoc' - sequence
    simp [hsame hdoc', hsequences]
  · rintro doc' hdoc' -
    rw [hsame hdoc', hdata]
    rfl
  · exact fun _ _ _ hinside ↦ by cases hinside

theorem WinningRun.assembledFrom (h : WinningRun texts state handlers config id owner k job) :
    ∃ contextUsed, job.contextUsed = some contextUsed ∧
      AssembledFrom (deliveredBefore handlers id owner k config.trace) contextUsed := by
  obtain ⟨φ, hrun, -⟩ := h.reaches.exists_consumerRun h.consuming
  have hinv : Assembling handlers id owner config.shared φ config.trace := by
    refine hrun.invariant (Assembling handlers id owner) (fun call ↦ ¬ call.outcome.Failed)
      h.start ?_ h.sound
    intro s φ trace i op o s' φ' hinv hreturned answers moves
    exact hinv.step moves answers hreturned
  obtain ⟨before, contextUsed, hmem⟩ := h.won
  obtain ⟨-, hrecorded, rfl⟩ := hinv.won hmem
  exact ⟨_, hrecorded, assembledFrom_recordedData _⟩

/-- The context that the winner records is assembled from the chunks delivered before it, and
depends on these chunks only, not on their order, if chunks of the same sequence are equal. -/
theorem chunk_assembly (h : WinningRun texts state handlers config id owner k job) :
    ∃ contextUsed, job.contextUsed = some contextUsed ∧
      AssembledFrom (deliveredBefore handlers id owner k config.trace) contextUsed ∧
      ∀ {ι' : Type} [DecidableEq ι'] {texts' : PlanningTexts} {state' : PlanningState}
        {handlers' : ι' → Handler} {config' : System ι'} {id' : JobId} {owner' : UserId} {k' : ι'}
        {job' : PlanningJob},
        WinningRun texts' state' handlers' config' id' owner' k' job' →
        (deliveredBefore handlers' id' owner' k' config'.trace).Perm
          (deliveredBefore handlers id owner k config.trace) →
        EqualBySequence (deliveredBefore handlers id owner k config.trace) →
        job'.contextUsed = some contextUsed := by
  obtain ⟨contextUsed, hrecorded, hcontext⟩ := h.assembledFrom
  refine ⟨contextUsed, hrecorded, hcontext, ?_⟩
  intro ι' _ texts' state' handlers' config' id' owner' k' job' h' hperm hequal
  obtain ⟨contextUsed', hrecorded', hcontext'⟩ := h'.assembledFrom
  rw [hrecorded', hcontext.eq_of_perm hcontext' hperm hequal]

end Run

/-! ## Two orders of delivery -/

/-- A data chunk of the gathering job. -/
def gatheredChunk (sequence : ℕ) : ContextResultChunk where
  jobId := "job"
  userId := "user"
  sequence := sequence
  body := .data ⟨"notion", if sequence = 1 then "first" else "second", none⟩

/-- The second chunk, the first, the second again, and the end. -/
def gatheredMessages : Fin 4 → Handler
  | 0 => .message (some (gatheredChunk 2))
  | 1 => .message (some (gatheredChunk 1))
  | 2 => .message (some (gatheredChunk 2))
  | 3 => .message (some (completedChunk 3))

/-- A message makes its next calls, which succeed. -/
def callsOf (k : Fin 4) (count : ℕ) : List (Move (Fin 4) Reply AppError) :=
  List.replicate count ⟨k, {}, .returned ()⟩

/-- All messages are delivered before the first is handled. -/
def gatherSchedule (first second : Fin 4) : List (Move (Fin 4) Reply AppError) :=
  callsOf first 1 ++ callsOf second 1 ++ callsOf 2 1 ++ callsOf 3 1 ++
    callsOf first 6 ++ callsOf second 6 ++ callsOf 2 6 ++ callsOf 3 4

/-- The job that a call won. -/
def wonJob (call : Call (Fin 4)) : Option PlanningJob :=
  match call with
  | ⟨_, 3, .claimForPlanning "job" _, .returned found⟩ => found
  | _ => none

theorem won_of_wonJob {call : Call (Fin 4)} {job : PlanningJob} (h : wonJob call = some job) :
    ∃ before contextUsed,
      call = ⟨before, 3, .claimForPlanning "job" contextUsed, .returned (some job)⟩ := by
  unfold wonJob at h
  split at h
  · subst h
    exact ⟨_, _, rfl⟩
  · cases h

theorem winningRun_of_schedule (schedule : List (Move (Fin 4) Reply AppError))
    (delivered : List (Fin 4))
    (h : (machine.replay (System.start .withoutSources gatheringJob gatheredMessages) schedule).map
      (fun config ↦ (arrivals "job" config.trace,
        decide (∀ call ∈ config.trace, ¬ call.outcome.Failed),
        (config.trace.findSome? wonJob).isSome)) = some (delivered, true, true)) :
    ∃ config job, WinningRun .withoutSources gatheringJob gatheredMessages config "job" "user" 3 job ∧
      arrivals "job" config.trace = delivered := by
  obtain ⟨config, hreach, hview⟩ := machine.exists_reachable h
  simp only [Prod.mk.injEq] at hview
  obtain ⟨hdelivered, hsound, hwon⟩ := hview
  obtain ⟨job, hjob⟩ := Option.isSome_iff_exists.mp hwon
  obtain ⟨call, hcall, hcallJob⟩ := List.exists_of_findSome?_eq_some hjob
  obtain ⟨before, contextUsed, rfl⟩ := won_of_wonJob hcallJob
  refine ⟨config, job, ⟨hreach, fun i ↦ ?_, ⟨fun _ ↦ rfl, rfl⟩, ?_, of_decide_eq_true hsound,
    before, contextUsed, hcall⟩, hdelivered⟩
  · match i with
    | 0 | 1 | 2 | 3 => rfl
  · exact ⟨_, PlanningState.store_jobs_self _ _ _, rfl, rfl, rfl, rfl⟩

/-- Whichever chunk comes first, the winner records both, in the order of their sequences. -/
theorem chunk_assembly_reordered :
    ∃ config config' job job',
      WinningRun .withoutSources gatheringJob gatheredMessages config "job" "user" 3 job ∧
      WinningRun .withoutSources gatheringJob gatheredMessages config' "job" "user" 3 job' ∧
      arrivals "job" config.trace = [0, 1, 2, 3] ∧ arrivals "job" config'.trace = [1, 0, 2, 3] ∧
      job'.contextUsed = job.contextUsed := by
  obtain ⟨config, job, hrun, hdelivered⟩ :=
    winningRun_of_schedule (gatherSchedule 0 1) [0, 1, 2, 3] (by decide)
  obtain ⟨config', job', hrun', hdelivered'⟩ :=
    winningRun_of_schedule (gatherSchedule 1 0) [1, 0, 2, 3] (by decide)
  obtain ⟨contextUsed, hcontext, -, hequal⟩ := chunk_assembly hrun
  refine ⟨config, config', job, job', hrun, hrun', hdelivered, hdelivered', ?_⟩
  rw [hcontext]
  refine hequal hrun' ?_ ?_
  · unfold deliveredBefore
    rw [hdelivered, hdelivered']
    decide
  · unfold deliveredBefore EqualBySequence
    rw [hdelivered]
    decide

end MemoFlowApi.Planning
