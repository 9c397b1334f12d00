import MemoFlowApi.Planning.Passes

/-!
# Order of a Job's Messages

The consumer chains the handlers of a job's messages by promises.  The calls of a run move the lines
of all jobs (`linesMove`), so messages of a job are handled one at a time in the order in which they
were delivered, in every interleaving with the messages of other jobs.
-/

namespace MemoFlowApi.Planning

open Concurrency

variable {ι : Type} {handlers : ι → Handler} {s s' state : PlanningState} {φ : ι → Pass}
  {trace : List (Call ι)} {id : JobId} {i : ι} {op : Op} {o : Outcome AppError (Ans op)}

/-- The caller of a delivery of the job. -/
def arrival (id : JobId) (call : Call ι) : Option ι :=
  match call.op with
  | .chain id' => if id' = id then some call.caller else none
  | _ => none

/-- The handlers of a job's deliveries, oldest first. -/
def arrivals (id : JobId) (trace : List (Call ι)) : List ι :=
  trace.reverse.filterMap (arrival id)

@[simp]
theorem arrivals_nil : arrivals id ([] : List (Call ι)) = [] := rfl

theorem arrivals_cons (call : Call ι) :
    arrivals id (call :: trace) = arrivals id trace ++ (arrival id call).toList := by
  unfold arrivals
  rw [List.reverse_cons, List.filterMap_append]
  cases h : arrival id call with
  | none => simp [h]
  | some k => simp [h]

/-- The job in whose line a handler waits. -/
def lineOf (handler : Handler) : JobId :=
  match handler.chunk? with
  | some chunk => chunk.jobId
  | none => ""

/-- The lines of all jobs in a run. -/
def jobLines (s : PlanningState) (φ : ι → Pass) (trace : List (Call ι)) : Lines JobId ι where
  tail := s.chains
  settled := s.settled
  next := s.nextTask
  arrivals id := arrivals id trace
  place i := (φ i).place

/-- The calls on the promise chains. -/
def Op.Ordering : Op → Bool
  | .chain _ | .awaitTask _ | .settleTask _ _ => true
  | _ => false

/-- The part of the state that holds the promise chains. -/
def PlanningState.order (s : PlanningState) : (JobId → Option TaskId) × List TaskId × TaskId :=
  (s.chains, s.settled, s.nextTask)

theorem PlanningState.order_findOneAndUpdate {filter : PlanningJobDocument → Bool}
    {update : PlanningJobDocument → PlanningJobDocument} {found : Option PlanningJob}
    (h : s.findOneAndUpdate id filter update = (found, s')) : s'.order = s.order := by
  rcases findOneAndUpdate_cases h with ⟨doc, -, -, -, rfl⟩ | ⟨-, rfl, -⟩
  · rfl
  · rfl

/-- Only the calls on the chains change them. -/
theorem order_of_answers (h : op.Ordering = false)
    (answers : (world ι).Answers AppError i op s o s') : s'.order = s.order := by
  rcases answers.unchanged_or_effect with rfl | ⟨a, reply, heffect⟩
  · rfl
  cases op
  case chain => cases h
  case awaitTask => cases h
  case settleTask => cases h
  case create data =>
    simp only [answer, Option.ite_none_right_eq_some, Option.some.injEq, Prod.mk.injEq] at heffect
    obtain ⟨-, -, rfl⟩ := heffect
    rfl
  case updateStatus => exact PlanningState.order_findOneAndUpdate (Option.some.inj heffect)
  case claimForProcessing => exact PlanningState.order_findOneAndUpdate (Option.some.inj heffect)
  case claimForGathering => exact PlanningState.order_findOneAndUpdate (Option.some.inj heffect)
  case pushResultChunk => exact PlanningState.order_findOneAndUpdate (Option.some.inj heffect)
  case claimForPlanning => exact PlanningState.order_findOneAndUpdate (Option.some.inj heffect)
  case failIfStillGathering => exact PlanningState.order_findOneAndUpdate (Option.some.inj heffect)
  all_goals
    have horder : some s.order = some s'.order :=
      congrArg (Option.map fun answered : _ × PlanningState ↦ answered.2.order) heffect
    exact (Option.some.inj horder).symm

/-- The moves off the chains stay where they are. -/
theorem Passes.place_of_not_ordering {handler : Handler} {φ φ' : Pass}
    (moves : Passes handler φ op o φ') (h : op.Ordering = false) : φ'.place = φ.place := by
  cases moves with
  | arrive => cases h
  | enter => cases h
  | leave => cases h
  | _ => rfl

theorem arrival_of_not_ordering {call : Call ι} (h : call.op.Ordering = false) :
    arrival id call = none := by
  unfold arrival
  split
  · next hop => rw [hop] at h; cases h
  · rfl

theorem Works.not_ordering {chunk : ContextResultChunk} {w w' : Work}
    (h : Works chunk w op o w') (answers : (world ι).Answers AppError i op s o s') :
    op.Ordering = false := by
  cases h with
  | plan ofOwner => cases op <;> first | rfl | cases ofOwner
  | tell telling => cases op <;> first | rfl | cases telling
  | fail early failed => cases op <;> first | rfl | cases answers.mayFail_of_failed failed
  | failLate deciding failed => cases op <;> first | rfl | cases deciding
  | _ => rfl

section Step

variable [DecidableEq ι]

/-- A call moves the lines of the jobs, or leaves them. -/
theorem jobLines_step {φ' : Pass} (moves : Passes (handlers i) (φ i) op o φ')
    (answers : (world ι).Answers AppError i op s o s') :
    jobLines s' (Function.update φ i φ') (⟨s, i, op, o⟩ :: trace) = jobLines s φ trace ∨
      Lines.Step (fun k ↦ lineOf (handlers k)) (jobLines s φ trace)
        (jobLines s' (Function.update φ i φ') (⟨s, i, op, o⟩ :: trace)) := by
  have hplace : ∀ {place}, φ'.place = place → (fun k ↦ (Function.update φ i φ' k).place) =
      Function.update (fun k ↦ (φ k).place) i place := by
    rintro _ rfl
    funext k
    by_cases hk : k = i
    · subst hk
      simp
    · simp [Function.update_of_ne hk]
  have hkept : op.Ordering = false →
      jobLines s' (Function.update φ i φ') (⟨s, i, op, o⟩ :: trace) = jobLines s φ trace := by
    intro hordering
    have horder := order_of_answers hordering answers
    simp only [PlanningState.order, Prod.mk.injEq] at horder
    obtain ⟨hchains, hsettled, hnext⟩ := horder
    have harrival : ∀ id, arrival id (⟨s, i, op, o⟩ : Call ι) = none :=
      fun id ↦ arrival_of_not_ordering hordering
    unfold jobLines
    rw [hchains, hsettled, hnext, hplace (moves.place_of_not_ordering hordering)]
    simp [arrivals_cons, harrival]
  cases moves with
  | aside noChunk aside => exact .inl (hkept (by cases op <;> first | rfl | cases aside))
  | work own inside unacked works => exact .inl (hkept (works.not_ordering answers))
  | ack => exact .inl (hkept rfl)
  | nack => exact .inl (hkept rfl)
  | @arrive chunk previous task own waiting =>
    right
    have hkey : lineOf (handlers i) = chunk.jobId := by rw [lineOf, own]
    cases answers with
    | returned effect =>
      obtain ⟨reply, heffect⟩ := effect
      obtain ⟨hchained, rfl⟩ := Prod.mk.inj (Option.some.inj heffect)
      obtain ⟨rfl, rfl⟩ := Prod.mk.inj hchained
      have hjoin : jobLines (s.chain chunk.jobId).2 (Function.update φ i
            { φ i with place := .queued (s.chains chunk.jobId) s.nextTask })
          (⟨s, i, .chain chunk.jobId, .returned (s.chains chunk.jobId, s.nextTask)⟩ :: trace) =
          (jobLines s φ trace).join (lineOf (handlers i)) i := by
        rw [hkey]
        unfold jobLines Lines.join
        rw [hplace rfl]
        congr 1
        funext id
        by_cases hid : id = chunk.jobId
        · subst hid
          simp [arrivals_cons, arrival]
        · simp [arrivals_cons, arrival, Function.update_of_ne hid, Ne.symm hid]
      have hstep : Lines.Step (fun k ↦ lineOf (handlers k)) (jobLines s φ trace)
          ((jobLines s φ trace).join (lineOf (handlers i)) i) := .join waiting
      rwa [← hjoin] at hstep
  | @enter chunk previous task own queued =>
    right
    cases answers with
    | returned effect =>
      obtain ⟨reply, heffect⟩ := effect
      simp only [answer, Option.ite_none_right_eq_some, Option.some.injEq, Prod.mk.injEq] at heffect
      obtain ⟨hsettled, -, rfl⟩ := heffect
      have henter : jobLines s (Function.update φ i { φ i with place := .inside task })
          (⟨s, i, .awaitTask previous, .returned ()⟩ :: trace) =
          (jobLines s φ trace).enter i task := by
        unfold jobLines Lines.enter
        rw [hplace rfl]
        simp [arrivals_cons, arrival]
      rw [henter]
      exact .enter queued hsettled
  | @leave chunk task own inside done =>
    right
    have hkey : lineOf (handlers i) = chunk.jobId := by rw [lineOf, own]
    cases answers with
    | returned effect =>
      obtain ⟨reply, heffect⟩ := effect
      obtain ⟨-, rfl⟩ := Prod.mk.inj (Option.some.inj heffect)
      have hleave : jobLines (s.settle chunk.jobId task)
          (Function.update φ i { φ i with place := .left })
          (⟨s, i, .settleTask chunk.jobId task, .returned ()⟩ :: trace) =
          (jobLines s φ trace).leave (lineOf (handlers i)) i task := by
        rw [hkey]
        unfold jobLines Lines.leave
        rw [hplace rfl]
        simp [arrivals_cons, arrival, PlanningState.settle]
      have hstep : Lines.Step (fun k ↦ lineOf (handlers k)) (jobLines s φ trace)
          ((jobLines s φ trace).leave (lineOf (handlers i)) i task) := .leave inside
      rwa [← hleave] at hstep

/-- A call keeps the lines of all jobs in order. -/
theorem inOrder_step {φ' : Pass} (h : (jobLines s φ trace).InOrder fun k ↦ lineOf (handlers k))
    (moves : Passes (handlers i) (φ i) op o φ')
    (answers : (world ι).Answers AppError i op s o s') :
    (jobLines s' (Function.update φ i φ') (⟨s, i, op, o⟩ :: trace)).InOrder
      fun k ↦ lineOf (handlers k) := by
  rcases (jobLines_step moves answers :
      jobLines s' (Function.update φ i φ') (⟨s, i, op, o⟩ :: trace) = jobLines s φ trace ∨ _) with hsame | hstep
  · rw [hsame]
    exact h
  · exact h.step hstep

end Step

/-- No chain has begun. -/
def PlanningState.FreshConsumer (s : PlanningState) : Prop :=
  (∀ id, s.chains id = none) ∧ s.settled = []

/-- The lines of a fresh consumer are in order. -/
theorem PlanningState.FreshConsumer.inOrder (fresh : state.FreshConsumer) :
    (jobLines state (fun _ ↦ {}) []).InOrder fun k ↦ lineOf (handlers k) := by
  refine Lines.InOrder.of_empty fresh.1 ?_ (fun _ ↦ rfl) fun _ ↦ rfl
  intro t ht
  have ht : t ∈ state.settled := ht
  rw [fresh.2] at ht
  cases ht

end MemoFlowApi.Planning
