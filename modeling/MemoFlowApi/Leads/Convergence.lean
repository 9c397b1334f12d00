import MemoFlowApi.Concurrency.Typestate
import MemoFlowApi.Leads.Recalculation

/-!
# Convergence of Lead Scores

Of the recalculations after the last change of a fact, the one that read the clock last should have
the last word: it read all facts after the change, and no other has a later time.  Recalculations that
read the same millisecond are not told apart, so this rests on the order of their writes (`InOrder`).
-/

namespace MemoFlowApi.Leads.Recalculation

open Concurrency

variable {ι : Type}

/-! ## Recalculations of a trace -/

abbrev LeadEvent (ι : Type) := Event ι LeadFile RecalculationOp.Ans RecalculationError

/-- Who has started a recalculation, newest first: they have read the clock. -/
def started : List (LeadEvent ι) → List ι
  | [] => []
  | event :: earlier =>
    match event.op with
    | .now => event.caller :: started earlier
    | _ => started earlier

/-- Who has started a recalculation since the last change of a fact, newest first. -/
def startedSince : List (LeadEvent ι) → List ι
  | [] => []
  | event :: earlier =>
    match event.op with
    | .now => event.caller :: startedSince earlier
    | .findProfile | .findActiveConnectors | .findSignals | .saveIfNewer _ _ => startedSince earlier
    | .upsert _ _ | .record _ _ | .changeConnectors _ => []

/-- The call writes a score. -/
def writes (event : LeadEvent ι) : Bool :=
  match event.op with
  | .saveIfNewer _ computedAt => event.outcome.TookEffect ∧ event.before.Admits computedAt
  | _ => false

/-- Who has written the stored score. -/
def writer (trace : List (LeadEvent ι)) : Option ι := (trace.find? writes).map (·.caller)

section Order

variable [DecidableEq ι]

/-- The first caller's recalculation was started after that of the second. -/
def StartedAfter (trace : List (LeadEvent ι)) (i j : ι) : Prop :=
  j ∈ ((started trace).dropWhile fun k ↦ decide (k ≠ i)).tail

/-- A recalculation that saves over a score of the same millisecond was started after the one that
wrote it. -/
def InOrder (event : LeadEvent ι) (earlier : List (LeadEvent ι)) : Prop :=
  match event.op, event.before.score, writer earlier with
  | .saveIfNewer _ computedAt, some row, some j =>
    row.computedAt = computedAt → StartedAfter earlier event.caller j
  | _, _, _ => True

instance (trace : List (LeadEvent ι)) (i j : ι) : Decidable (StartedAfter trace i j) :=
  inferInstanceAs (Decidable (j ∈ _))

instance (event : LeadEvent ι) (earlier : List (LeadEvent ι)) : Decidable (InOrder event earlier) := by
  unfold InOrder
  split <;> infer_instance

end Order

/-- The stored score is that of the current facts, at the time of a recalculation that was started
after the last change. -/
def Converged (config : Config ι LeadFile RecalculationOp.Ans RecalculationError Unit) : Prop :=
  ∃ i ∈ startedSince config.trace, ∃ event ∈ config.trace, event.caller = i ∧
    ∃ computedAt result,
      (⟨event.op, event.outcome.result⟩ : Σ op, Except RecalculationError (RecalculationOp.Ans op)) =
        ⟨.now, .ok computedAt⟩ ∧
      computeLeadScore config.shared.facts computedAt = some result ∧
      config.shared.score = some ⟨result, computedAt⟩

/-! ## Phases -/

inductive Phase where
  | idle
  | changed
  | reading (computedAt : ℕ) (seen : List Query) (reads : Reads)
  | saved (computedAt : ℕ)
  | failed

/-- The time that a recalculation has read. -/
def Phase.time : Phase → Option ℕ
  | reading computedAt _ _ => some computedAt
  | saved computedAt => some computedAt
  | _ => none

/-- The calls of a request. -/
inductive Moves : Phase → (op : RecalculationOp) → Outcome RecalculationError op.Ans → Phase → Prop
  | change {op answer} (changes : op.changes = true) : Moves .idle op (.returned answer) .changed
  | now {computedAt} : Moves .changed .now (.returned computedAt) (.reading computedAt [] {})
  | findProfile {computedAt seen reads profile} :
      Moves (.reading computedAt seen reads) .findProfile (.returned profile)
        (.reading computedAt (.profile :: seen) { reads with profile := profile })
  | findActiveConnectors {computedAt seen reads connectors} :
      Moves (.reading computedAt seen reads) .findActiveConnectors (.returned connectors)
        (.reading computedAt (.connectors :: seen) { reads with connectors := connectors })
  | findSignals {computedAt seen reads signals} :
      Moves (.reading computedAt seen reads) .findSignals (.returned signals)
        (.reading computedAt (.signals :: seen) { reads with signals := signals })
  | save {computedAt seen reads result} (complete : ∀ query, query ∈ seen)
      (computes : computeLeadScore reads.facts computedAt = some result) :
      Moves (.reading computedAt seen reads) (.saveIfNewer result computedAt) (.returned ())
        (.saved computedAt)
  | fail {φ op o} (failed : o.Failed) : Moves φ op o .failed

def moves : Typestate RecalculationOp.Ans RecalculationError Phase := ⟨Moves⟩

section Conformance

variable {i : ι} {φ : Phase}

abbrev Answered (i : ι) := (leadFile.world : World ι LeadFile RecalculationOp.Ans).Possible
  RecalculationError i

/-- A query that fails ends the request. -/
theorem wp_query {op : RecalculationOp} {Q : op.Ans → Phase → Prop}
    (returned : ∀ answer, ∃ φ', Moves φ op (.returned answer) φ' ∧ Q answer φ') :
    (await op).wp (moves.spec (Answered i)) Q (fun _ φ ↦ ∀ computedAt, φ ≠ .saved computedAt) φ :=
  Typestate.wp_perform (fun answer _ ↦ returned answer)
    (fun _ _ ↦ ⟨_, .fail trivial, by rintro _ ⟨⟩⟩) (fun _ _ ↦ ⟨_, .fail trivial, by rintro _ ⟨⟩⟩)

theorem readAll_follows (order seen : List Query) (reads : Reads) (computedAt : ℕ) :
    (readAll order reads).wp (moves.spec (Answered i))
      (fun reads' φ ↦ φ = .reading computedAt (order.reverse ++ seen) reads')
      (fun _ φ ↦ ∀ computedAt, φ ≠ .saved computedAt) (.reading computedAt seen reads) := by
  induction order generalizing seen reads with
  | nil => rfl
  | cons query order ih =>
    unfold readAll read
    rw [Program.wp_bind, List.reverse_cons, List.append_assoc]
    cases query with
    | profile =>
      rw [Program.wp_bind]
      exact wp_query fun profile ↦ ⟨_, .findProfile, ih _ _⟩
    | connectors =>
      rw [Program.wp_bind]
      exact wp_query fun connectors ↦ ⟨_, .findActiveConnectors, ih _ _⟩
    | signals =>
      rw [Program.wp_bind]
      exact wp_query fun signals ↦ ⟨_, .findSignals, ih _ _⟩

/-- A request that returns has saved. -/
theorem program_follows (request : Request) :
    request.program.wp (moves.spec (Answered i)) (fun _ φ ↦ ∃ computedAt, φ = .saved computedAt)
      (fun _ φ ↦ ∀ computedAt, φ ≠ .saved computedAt) .idle := by
  unfold Request.program execute
  rw [Program.wp_bind]
  refine wp_query fun _ ↦ ⟨_, .change request.changes, ?_⟩
  rw [Program.wp_bind]
  refine wp_query fun computedAt ↦ ⟨_, .now, ?_⟩
  rw [Program.wp_bind]
  refine Program.wp_mono (fun reads φ hφ ↦ ?_) (fun _ _ hφ ↦ hφ) (readAll_follows request.order [] {} _)
  subst hφ
  cases hresult : computeLeadScore reads.facts computedAt with
  | none => rintro _ ⟨⟩
  | some result =>
    refine wp_query fun _ ↦ ⟨_, .save (fun query ↦ ?_) hresult, _, rfl⟩
    have hquery : query ∈ request.order :=
      request.perm.mem_iff.mpr (by cases query <;> simp)
    exact List.mem_append_left _ (List.mem_reverse.mpr hquery)

end Conformance

/-! ## Clock readings -/

section Timed

variable {file file' : LeadFile} {times : ι → Option ℕ} {trace : List (LeadEvent ι)}
  {event : LeadEvent ι} {i : ι} {t : ℕ}

/-- What the clock says about the recalculations of a trace, and about the stored score. -/
structure Timed (file : LeadFile) (times : ι → Option ℕ) (trace : List (LeadEvent ι)) : Prop where
  past : ∀ i t, times i = some t → t ≤ file.clock
  stored : ∀ row, file.score = some row → row.computedAt ≤ file.clock
  mem_started : ∀ i, i ∈ started trace ↔ times i ≠ none
  nodup : (started trace).Nodup
  sorted : (started trace).Pairwise fun i j ↦ ∀ t t', times i = some t → times j = some t' → t' ≤ t
  /-- Nothing newer than the recalculation that was started last is stored. -/
  newest : ∀ i rest t row, started trace = i :: rest → times i = some t → file.score = some row →
    row.computedAt ≤ t
  read : ∀ i t, times i = some t → ∃ event ∈ trace, event.caller = i ∧
    (⟨event.op, event.outcome.result⟩ : Σ op, Except RecalculationError (RecalculationOp.Ans op)) =
      ⟨.now, .ok t⟩

theorem started_of_ne (h : event.op ≠ .now) : started (event :: trace) = started trace := by
  rw [started]
  split
  · next hop => exact (h hop).elim
  · rfl

theorem started_now {before : LeadFile} {o} :
    started ((⟨before, i, .now, o⟩ : LeadEvent ι) :: trace) = i :: started trace := rfl

/-- Calls that neither read the clock nor write a score. -/
theorem Timed.quiet (h : Timed file times trace) (hop : event.op ≠ .now) (hclock : file'.clock = file.clock)
    (hscore : file'.score = file.score) : Timed file' times (event :: trace) where
  past := hclock ▸ h.past
  stored := by
    rw [hscore, hclock]
    exact h.stored
  mem_started := by
    rw [started_of_ne hop]
    exact h.mem_started
  nodup := by
    rw [started_of_ne hop]
    exact h.nodup
  sorted := by
    rw [started_of_ne hop]
    exact h.sorted
  newest := by
    rw [started_of_ne hop, hscore]
    exact h.newest
  read i t ht := by
    obtain ⟨event', hevent', hread⟩ := h.read i t ht
    exact ⟨event', List.mem_cons_of_mem _ hevent', hread⟩

theorem Timed.now [DecidableEq ι] (h : Timed file times trace) (hi : times i = none) (elapsed : ℕ) :
    Timed { file with clock := file.clock + elapsed }
      (Function.update times i (some (file.clock + elapsed)))
      (⟨file, i, .now, .returned (file.clock + elapsed)⟩ :: trace) := by
  have hnew : i ∉ started trace := fun hmem ↦ (h.mem_started i).mp hmem hi
  have hne : ∀ j ∈ started trace, j ≠ i := fun j hj hji ↦ hnew (hji ▸ hj)
  have hpast : ∀ j t, Function.update times i (some (file.clock + elapsed)) j = some t →
      t ≤ file.clock + elapsed := by
    intro j t ht
    by_cases hj : j = i
    · rw [hj, Function.update_self] at ht
      exact (Option.some.inj ht).ge
    · rw [Function.update_of_ne hj] at ht
      exact (h.past j t ht).trans (Nat.le_add_right _ _)
  refine ⟨hpast, ?_, fun j ↦ ?_, ?_, ?_, ?_, fun j t ht ↦ ?_⟩
  · exact fun row hrow ↦ (h.stored row hrow).trans (Nat.le_add_right _ _)
  · rw [started_now, List.mem_cons]
    by_cases hj : j = i
    · rw [hj, Function.update_self]
      exact ⟨fun _ ↦ Option.some_ne_none _, fun _ ↦ .inl rfl⟩
    · rw [Function.update_of_ne hj, ← h.mem_started j]
      exact or_iff_right hj
  · exact List.nodup_cons.mpr ⟨hnew, h.nodup⟩
  · refine List.pairwise_cons.mpr ⟨fun j hj t t' ht ht' ↦ ?_, ?_⟩
    · rw [Function.update_self] at ht
      exact (Option.some.inj ht) ▸ hpast j t' ht'
    · refine h.sorted.imp_of_mem fun {j k} hj hk hjk ↦ ?_
      rw [Function.update_of_ne (hne j hj), Function.update_of_ne (hne k hk)]
      exact hjk
  · intro j rest t row hstarted ht hrow
    obtain ⟨rfl, -⟩ := List.cons.inj (started_now.symm.trans hstarted)
    rw [Function.update_self] at ht
    exact (Option.some.inj ht) ▸ (h.stored row hrow).trans (Nat.le_add_right _ _)
  · by_cases hj : j = i
    · subst hj
      rw [Function.update_self] at ht
      obtain rfl := Option.some.inj ht
      exact ⟨_, List.mem_cons_self, rfl, rfl⟩
    · rw [Function.update_of_ne hj] at ht
      obtain ⟨event', hevent', hread⟩ := h.read j t ht
      exact ⟨event', List.mem_cons_of_mem _ hevent', hread⟩

/-- The recalculation that was started last has the latest time. -/
theorem Timed.le_newest (h : Timed file times trace) (hi : times i = some t) {j : ι} {rest : List ι}
    {t' : ℕ} (hstarted : started trace = j :: rest) (hj : times j = some t') : t ≤ t' := by
  have hmem : i ∈ started trace := (h.mem_started i).mpr (by rw [hi]; exact Option.some_ne_none t)
  have hsorted := h.sorted
  rw [hstarted] at hmem hsorted
  rcases List.mem_cons.mp hmem with rfl | hmem
  · exact (Option.some.inj (hi.symm.trans hj)).le
  · exact (List.pairwise_cons.mp hsorted).1 i hmem t' t hj hi

theorem score_saveIfNewer {result : LeadScoreResult} {row : StoredScore}
    (h : (file.saveIfNewer result t).score = some row) :
    file.score = some row ∨ row = ⟨result, t⟩ := by
  unfold LeadFile.saveIfNewer at h
  split at h
  · exact .inr (Option.some.inj h).symm
  · exact .inl h

theorem clock_saveIfNewer {result : LeadScoreResult} :
    (file.saveIfNewer result t).clock = file.clock := by
  unfold LeadFile.saveIfNewer
  split <;> rfl

theorem Timed.save (h : Timed file times trace) (hi : times i = some t) {result : LeadScoreResult} {o} :
    Timed (file.saveIfNewer result t) times (⟨file, i, .saveIfNewer result t, o⟩ :: trace) where
  past := by
    rw [clock_saveIfNewer]
    exact h.past
  stored row hrow := by
    rw [clock_saveIfNewer]
    rcases score_saveIfNewer hrow with hrow | rfl
    · exact h.stored row hrow
    · exact h.past i t hi
  mem_started := h.mem_started
  nodup := h.nodup
  sorted := h.sorted
  newest j rest t' row hstarted hj hrow := by
    rcases score_saveIfNewer hrow with hrow | rfl
    · exact h.newest j rest t' row hstarted hj hrow
    · exact h.le_newest hi hstarted hj
  read j t' hj := by
    obtain ⟨event', hevent', hread⟩ := h.read j t' hj
    exact ⟨event', List.mem_cons_of_mem _ hevent', hread⟩

end Timed

/-! ## Facts and scores -/

section Good

variable {file file' : LeadFile} {φ : ι → Phase} {trace : List (LeadEvent ι)} {event : LeadEvent ι}
  {i : ι}

/-- The answered queries have given what is stored. -/
structure Agrees (file : LeadFile) (seen : List Query) (reads : Reads) : Prop where
  profile : .profile ∈ seen → reads.profile = file.profile
  connectors : .connectors ∈ seen → reads.connectors = file.connectors
  signals : .signals ∈ seen → reads.signals = file.signals

theorem Agrees.nil (file : LeadFile) (reads : Reads) : Agrees file [] reads :=
  ⟨by rintro ⟨⟩, by rintro ⟨⟩, by rintro ⟨⟩⟩

/-- All queries have given the current facts. -/
theorem Agrees.facts {seen : List Query} {reads : Reads} (h : Agrees file seen reads)
    (complete : ∀ query, query ∈ seen) : reads.facts = file.facts := by
  unfold Reads.facts LeadFile.facts
  rw [h.profile (complete _), h.connectors (complete _), h.signals (complete _)]

/-- Recalculations since the last change read the facts as they are, and the last of them to start has
the last word. -/
structure Good (file : LeadFile) (φ : ι → Phase) (trace : List (LeadEvent ι)) : Prop where
  timed : Timed file (fun i ↦ (φ i).time) trace
  recent : startedSince trace <+: started trace
  fresh : ∀ i ∈ startedSince trace, ∀ t seen reads, φ i = .reading t seen reads → Agrees file seen reads
  last : ∀ i rest t, startedSince trace = i :: rest → φ i = .saved t → writer trace = some i ∧
    ∃ result, computeLeadScore file.facts t = some result ∧ file.score = some ⟨result, t⟩
  due : (∃ event ∈ trace, event.op.changes = true) → startedSince trace ≠ [] ∨ ∃ i, φ i = .changed

theorem startedSince_of_changes (h : event.op.changes = true) : startedSince (event :: trace) = [] := by
  rw [startedSince]
  split
  all_goals first | rfl | (next hop => rw [hop] at h; cases h)

theorem startedSince_of_quiet (hnow : event.op ≠ .now) (h : event.op.changes = false) :
    startedSince (event :: trace) = startedSince trace := by
  rw [startedSince]
  split
  all_goals first | rfl | (next hop => first | exact (hnow hop).elim | (rw [hop] at h; cases h))

theorem writer_of_not_writes (h : writes event = false) : writer (event :: trace) = writer trace := by
  unfold writer
  rw [List.find?_cons, h]

theorem time_update [DecidableEq ι] (φ : ι → Phase) (i : ι) (φ' : Phase) :
    (fun j ↦ (Function.update φ i φ' j).time) = Function.update (fun j ↦ (φ j).time) i φ'.time := by
  funext j
  by_cases hj : j = i
  · rw [hj, Function.update_self, Function.update_self]
  · rw [Function.update_of_ne hj, Function.update_of_ne hj]

/-- A move that reads no clock keeps the times. -/
theorem time_update_of_eq [DecidableEq ι] {φ' : Phase} (h : φ'.time = (φ i).time) :
    (fun j ↦ (Function.update φ i φ' j).time) = fun j ↦ (φ j).time := by
  rw [time_update, h, Function.update_eq_self]

/-- Changing a fact neither reads the clock nor writes a score. -/
theorem answer_changes {op : RecalculationOp} {elapsed : ℕ} {answer : op.Ans}
    (changes : op.changes = true) (h : file.answer elapsed op = some (answer, file')) :
    file'.clock = file.clock ∧ file'.score = file.score := by
  cases op with
  | upsert data now => cases h; exact ⟨rfl, rfl⟩
  | record type now => cases h; exact ⟨rfl, rfl⟩
  | changeConnectors active => cases h; exact ⟨rfl, rfl⟩
  | _ => cases changes

theorem Agrees.congr {seen : List Query} {reads : Reads} (h : Agrees file seen reads)
    (hprofile : file'.profile = file.profile) (hconnectors : file'.connectors = file.connectors)
    (hsignals : file'.signals = file.signals) : Agrees file' seen reads where
  profile hseen := (h.profile hseen).trans hprofile.symm
  connectors hseen := (h.connectors hseen).trans hconnectors.symm
  signals hseen := (h.signals hseen).trans hsignals.symm

theorem Agrees.findProfile {seen : List Query} {reads : Reads} (h : Agrees file seen reads) :
    Agrees file (.profile :: seen) { reads with profile := file.profile } where
  profile _ := rfl
  connectors hseen := h.connectors (List.mem_of_ne_of_mem (by rintro ⟨⟩) hseen)
  signals hseen := h.signals (List.mem_of_ne_of_mem (by rintro ⟨⟩) hseen)

theorem Agrees.findActiveConnectors {seen : List Query} {reads : Reads} (h : Agrees file seen reads) :
    Agrees file (.connectors :: seen) { reads with connectors := file.connectors } where
  profile hseen := h.profile (List.mem_of_ne_of_mem (by rintro ⟨⟩) hseen)
  connectors _ := rfl
  signals hseen := h.signals (List.mem_of_ne_of_mem (by rintro ⟨⟩) hseen)

theorem Agrees.findSignals {seen : List Query} {reads : Reads} (h : Agrees file seen reads) :
    Agrees file (.signals :: seen) { reads with signals := file.signals } where
  profile hseen := h.profile (List.mem_of_ne_of_mem (by rintro ⟨⟩) hseen)
  connectors hseen := h.connectors (List.mem_of_ne_of_mem (by rintro ⟨⟩) hseen)
  signals _ := rfl

theorem facts_saveIfNewer (file : LeadFile) (result : LeadScoreResult) (t : ℕ) :
    (file.saveIfNewer result t).profile = file.profile ∧
      (file.saveIfNewer result t).connectors = file.connectors ∧
      (file.saveIfNewer result t).signals = file.signals ∧
      (file.saveIfNewer result t).facts = file.facts := by
  unfold LeadFile.saveIfNewer
  split <;> exact ⟨rfl, rfl, rfl, rfl⟩

variable [DecidableEq ι]

theorem Good.change (h : Good file φ trace) (hidle : φ i = .idle) {op : RecalculationOp}
    (changes : op.changes = true) {o} (hclock : file'.clock = file.clock)
    (hscore : file'.score = file.score) :
    Good file' (Function.update φ i .changed) (⟨file, i, op, o⟩ :: trace) := by
  have hnow : op ≠ .now := by
    rintro rfl
    cases changes
  have hsince : startedSince ((⟨file, i, op, o⟩ : LeadEvent ι) :: trace) = [] :=
    startedSince_of_changes changes
  refine ⟨?_, ?_, ?_, ?_, fun _ ↦ .inr ⟨i, Function.update_self _ _ _⟩⟩
  · rw [time_update_of_eq (by rw [hidle]; rfl)]
    exact h.timed.quiet hnow hclock hscore
  · rw [hsince]
    exact List.nil_prefix
  · rw [hsince]
    rintro _ ⟨⟩
  · rw [hsince]
    rintro _ _ _ ⟨⟩

theorem Good.now (h : Good file φ trace) (hchanged : φ i = .changed) (elapsed : ℕ) :
    Good { file with clock := file.clock + elapsed }
      (Function.update φ i (.reading (file.clock + elapsed) [] {}))
      (⟨file, i, .now, .returned (file.clock + elapsed)⟩ :: trace) := by
  refine ⟨?_, ?_, ?_, ?_, fun _ ↦ .inl (List.cons_ne_nil _ _)⟩
  · rw [time_update]
    exact h.timed.now (by rw [hchanged]; rfl) elapsed
  · exact (List.prefix_cons_inj i).mpr h.recent
  · intro j hj t seen reads hphase
    by_cases hji : j = i
    · rw [hji, Function.update_self] at hphase
      cases hphase
      exact .nil _ _
    · rw [Function.update_of_ne hji] at hphase
      have hj : j ∈ startedSince trace := (List.mem_cons.mp hj).resolve_left hji
      exact (h.fresh j hj t seen reads hphase).congr rfl rfl rfl
  · intro j rest t hsince hphase
    obtain ⟨rfl, -⟩ := List.cons.inj hsince
    rw [Function.update_self] at hphase
    cases hphase

/-- A query is answered. -/
theorem Good.query (h : Good file φ trace) {t : ℕ} {seen seen' : List Query} {reads reads' : Reads}
    (hphase : φ i = .reading t seen reads) {op : RecalculationOp} {o}
    (hquery : op = .findProfile ∨ op = .findActiveConnectors ∨ op = .findSignals)
    (hagrees : Agrees file seen reads → Agrees file seen' reads') :
    Good file (Function.update φ i (.reading t seen' reads')) (⟨file, i, op, o⟩ :: trace) := by
  have hquiet : op ≠ .now ∧ op.changes = false ∧ writes (⟨file, i, op, o⟩ : LeadEvent ι) = false := by
    rcases hquery with rfl | rfl | rfl <;> exact ⟨by rintro ⟨⟩, rfl, rfl⟩
  obtain ⟨hnow, hchanges, hwrites⟩ := hquiet
  have hsince : startedSince ((⟨file, i, op, o⟩ : LeadEvent ι) :: trace) = startedSince trace :=
    startedSince_of_quiet hnow hchanges
  refine ⟨?_, ?_, ?_, ?_, ?_⟩
  · rw [time_update_of_eq (by rw [hphase]; rfl)]
    exact h.timed.quiet hnow rfl rfl
  · rw [hsince, started_of_ne hnow]
    exact h.recent
  · rw [hsince]
    intro j hj t' seen'' reads'' hj'
    by_cases hji : j = i
    · rw [hji, Function.update_self] at hj'
      cases hj'
      exact hagrees (h.fresh i (hji ▸ hj) t seen reads hphase)
    · rw [Function.update_of_ne hji] at hj'
      exact h.fresh j hj t' seen'' reads'' hj'
  · rw [hsince, writer_of_not_writes hwrites]
    intro j rest t' hj hsaved
    by_cases hji : j = i
    · rw [hji, Function.update_self] at hsaved
      cases hsaved
    · rw [Function.update_of_ne hji] at hsaved
      exact h.last j rest t' hj hsaved
  · rw [hsince]
    rintro ⟨event, hevent, hchange⟩
    rcases List.mem_cons.mp hevent with rfl | hevent
    · rw [hchanges] at hchange
      cases hchange
    · refine (h.due ⟨event, hevent, hchange⟩).imp_right ?_
      rintro ⟨j, hj⟩
      refine ⟨j, ?_⟩
      rwa [Function.update_of_ne]
      rintro rfl
      rw [hphase] at hj
      cases hj

omit [DecidableEq ι] in
/-- The recalculation that was started last replaces whatever is stored. -/
theorem Good.admits (h : Good file φ trace) {t : ℕ} {rest : List ι} (hsince : startedSince trace = i :: rest)
    (htime : (φ i).time = some t) : file.Admits t := by
  obtain ⟨older, hstarted⟩ := h.recent
  rw [hsince, List.cons_append] at hstarted
  exact fun row hrow ↦ h.timed.newest i _ t row hstarted.symm htime hrow

/-- Nothing replaces the score of the recalculation that was started last. -/
theorem Good.not_admits (h : Good file φ trace) {t t' : ℕ} {j : ι} {rest : List ι}
    (hsince : startedSince trace = j :: rest) (hsaved : φ j = .saved t') (htime : (φ i).time = some t)
    {result : LeadScoreResult} {o} (hij : i ≠ j)
    (inOrder : InOrder (⟨file, i, .saveIfNewer result t, o⟩ : LeadEvent ι) trace) : ¬file.Admits t := by
  intro hadmits
  obtain ⟨hwriter, result', -, hscore⟩ := h.last j rest t' hsince hsaved
  obtain ⟨older, hstarted⟩ := h.recent
  rw [hsince, List.cons_append] at hstarted
  have hle : t' ≤ t := hadmits ⟨result', t'⟩ hscore
  have hge : t ≤ t' := h.timed.le_newest htime hstarted.symm (by rw [hsaved]; rfl)
  obtain rfl := hle.antisymm hge
  unfold InOrder at inOrder
  dsimp only at inOrder
  rw [hscore, hwriter] at inOrder
  have hafter := inOrder rfl
  have hnodup := h.timed.nodup
  unfold StartedAfter at hafter
  rw [← hstarted] at hafter hnodup
  rw [List.dropWhile_cons_of_pos (by simpa using Ne.symm hij)] at hafter
  have hmem := (List.dropWhile_suffix _).subset (List.mem_of_mem_tail hafter)
  exact (List.nodup_cons.mp hnodup).1 hmem

theorem Good.save (h : Good file φ trace) {t : ℕ} {seen : List Query} {reads : Reads}
    (hphase : φ i = .reading t seen reads) (complete : ∀ query, query ∈ seen) {result : LeadScoreResult}
    (computes : computeLeadScore reads.facts t = some result)
    (inOrder : InOrder (⟨file, i, .saveIfNewer result t, .returned ()⟩ : LeadEvent ι) trace) :
    Good (file.saveIfNewer result t) (Function.update φ i (.saved t))
      (⟨file, i, .saveIfNewer result t, .returned ()⟩ :: trace) := by
  have htime : (φ i).time = some t := by rw [hphase]; rfl
  obtain ⟨hprofile, hconnectors, hsignals, hfacts⟩ := facts_saveIfNewer file result t
  refine ⟨?_, h.recent, ?_, ?_, ?_⟩
  · rw [time_update_of_eq (by rw [hphase]; rfl)]
    exact h.timed.save htime
  · intro j hj t' seen' reads' hj'
    by_cases hji : j = i
    · rw [hji, Function.update_self] at hj'
      cases hj'
    · rw [Function.update_of_ne hji] at hj'
      exact (h.fresh j hj t' seen' reads' hj').congr hprofile hconnectors hsignals
  · intro j rest t' hcons hsaved
    have hsince : startedSince trace = j :: rest := hcons
    clear hcons
    by_cases hji : j = i
    · subst hji
      rw [Function.update_self] at hsaved
      obtain rfl := Phase.saved.inj hsaved
      have hadmits := h.admits hsince htime
      have hwrites : writes (⟨file, j, .saveIfNewer result t, .returned ()⟩ : LeadEvent ι) = true :=
        decide_eq_true ⟨trivial, hadmits⟩
      have hmem : j ∈ startedSince trace := by
        rw [hsince]
        exact List.mem_cons_self
      refine ⟨?_, result, ?_, ?_⟩
      · unfold writer
        rw [List.find?_cons, hwrites]
        rfl
      · rw [hfacts, ← (h.fresh j hmem t seen reads hphase).facts complete]
        exact computes
      · exact congrArg LeadFile.score (if_pos hadmits)
    · rw [Function.update_of_ne hji] at hsaved
      have hadmits := h.not_admits hsince hsaved htime (Ne.symm hji) inOrder
      have hwrites : writes (⟨file, i, .saveIfNewer result t, .returned ()⟩ : LeadEvent ι) = false :=
        decide_eq_false fun hboth ↦ hadmits hboth.2
      have hsame : file.saveIfNewer result t = file := if_neg hadmits
      rw [hsame, writer_of_not_writes hwrites]
      exact h.last j rest t' hsince hsaved
  · rintro ⟨event, hevent, hchange⟩
    rcases List.mem_cons.mp hevent with rfl | hevent
    · cases hchange
    · refine (h.due ⟨event, hevent, hchange⟩).imp_right ?_
      rintro ⟨j, hj⟩
      refine ⟨j, ?_⟩
      rwa [Function.update_of_ne]
      rintro rfl
      rw [hphase] at hj
      cases hj

/-- Every step keeps what is good, unless a query fails. -/
theorem good_of_tracked {start : LeadFile}
    (past : ∀ row, start.score = some row → row.computedAt ≤ start.clock)
    (h : leadFile.world.Tracked (fun _ ↦ moves) start (fun _ ↦ .idle) file φ trace) :
    EachCall InOrder trace → (∃ i, φ i = .failed) ∨ Good file φ trace := by
  refine h.invariant (fun s φ trace ↦ EachCall InOrder trace → (∃ i, φ i = .failed) ∨ Good s φ trace)
    (fun _ ↦ True) (fun _ ↦ .inr ?_) ?_ fun _ _ ↦ trivial
  · refine ⟨⟨?_, past, fun i ↦ ⟨by rintro ⟨⟩, fun h ↦ (h rfl).elim⟩, List.nodup_nil, List.Pairwise.nil, ?_, ?_⟩,
      List.prefix_rfl, ?_, ?_, ?_⟩
    · rintro _ _ ⟨⟩
    · rintro _ _ _ _ ⟨⟩
    · rintro _ _ ⟨⟩
    · rintro _ ⟨⟩
    · rintro _ _ _ ⟨⟩
    · rintro ⟨_, ⟨⟩, _⟩
  · rintro s φ trace i op o s' φ' hI - answers next ⟨inOrder, hearlier⟩
    rcases hI hearlier with ⟨j, hj⟩ | hgood
    · refine .inl ⟨j, ?_⟩
      by_cases hji : j = i
      · subst hji
        rw [hj] at next
        cases next with
        | fail failed => exact Function.update_self _ _ _
      · rwa [Function.update_of_ne hji]
    · generalize hphase : φ i = phase at next
      cases next with
      | fail failed => exact .inl ⟨i, Function.update_self _ _ _⟩
      | change changes =>
        cases answers with
        | returned effect =>
          obtain ⟨elapsed, heffect⟩ := effect
          obtain ⟨hclock, hscore⟩ := answer_changes changes heffect
          exact .inr (hgood.change hphase changes hclock hscore)
      | now =>
        cases answers with
        | returned effect =>
          obtain ⟨elapsed, heffect⟩ := effect
          cases heffect
          exact .inr (hgood.now hphase elapsed)
      | findProfile =>
        cases answers with
        | returned effect =>
          obtain ⟨elapsed, heffect⟩ := effect
          cases heffect
          exact .inr (hgood.query hphase (.inl rfl) Agrees.findProfile)
      | findActiveConnectors =>
        cases answers with
        | returned effect =>
          obtain ⟨elapsed, heffect⟩ := effect
          cases heffect
          exact .inr (hgood.query hphase (.inr (.inl rfl)) Agrees.findActiveConnectors)
      | findSignals =>
        cases answers with
        | returned effect =>
          obtain ⟨elapsed, heffect⟩ := effect
          cases heffect
          exact .inr (hgood.query hphase (.inr (.inr rfl)) Agrees.findSignals)
      | save complete computes =>
        cases answers with
        | returned effect =>
          obtain ⟨elapsed, heffect⟩ := effect
          cases heffect
          exact .inr (hgood.save hphase complete computes inOrder)

end Good

/-! ## Runs -/

section Runs

variable [DecidableEq ι] {requests : ι → Request} {start : LeadFile}
  {config : Config ι LeadFile RecalculationOp.Ans RecalculationError Unit}

/-- All requests that were started have returned. -/
def Returned (config : Config ι LeadFile RecalculationOp.Ans RecalculationError Unit) : Prop :=
  ∀ event ∈ config.trace, config.threads event.caller = .pure ()

/-- Where recalculations of one millisecond save in the order in which they were started, the score
converges: once all requests have returned, it is the score of the current facts. -/
theorem recalculation_converges (requests : ι → Request) {start : LeadFile}
    (past : ∀ row, start.score = some row → row.computedAt ≤ start.clock)
    (reachable : leadFile.world.Reachable
      (Config.initial start fun i ↦ (requests i).program) config)
    (inOrder : EachCall InOrder config.trace) (returned : Returned config)
    (changed : ∃ event ∈ config.trace, event.op.changes = true) : Converged config := by
  obtain ⟨φ, htracked, hends⟩ := World.exists_tracked (T := fun _ ↦ moves) rfl
    (fun i ↦ program_follows (requests i)) reachable
  have hsaved : ∀ i, φ i ≠ .idle → ∃ t, φ i = .saved t := by
    intro i hi
    by_cases hstarted : ∃ event ∈ config.trace, event.caller = i
    · obtain ⟨event, hevent, rfl⟩ := hstarted
      have hend := hends event.caller
      rw [returned event hevent] at hend
      exact hend
    · refine (hi (htracked.phase_of_not_started fun event hevent hcaller ↦ ?_)).elim
      exact hstarted ⟨event, hevent, hcaller⟩
  have hnever : ∀ i φ', φ' ≠ .idle → (∀ t, φ' ≠ .saved t) → φ i ≠ φ' := by
    rintro i _ hidle hother rfl
    obtain ⟨t, ht⟩ := hsaved i hidle
    exact hother t ht
  rcases good_of_tracked past htracked inOrder with ⟨i, hi⟩ | hgood
  · exact (hnever i .failed (by rintro ⟨⟩) (by rintro _ ⟨⟩) hi).elim
  rcases hgood.due changed with hsince | ⟨i, hi⟩
  · obtain ⟨i, rest, hcons⟩ := List.exists_cons_of_ne_nil hsince
    have hmem : i ∈ startedSince config.trace := by
      rw [hcons]
      exact List.mem_cons_self
    have htime := (hgood.timed.mem_started i).mp (hgood.recent.subset hmem)
    obtain ⟨t, ht⟩ := hsaved i fun hidle ↦ htime (by rw [hidle]; rfl)
    obtain ⟨event, hevent, hcaller, hread⟩ := hgood.timed.read i t (by rw [ht]; rfl)
    obtain ⟨-, result, hresult, hscore⟩ := hgood.last i rest t hcons ht
    exact ⟨i, hmem, event, hevent, hcaller, t, result, hread, hresult, hscore⟩
  · exact (hnever i .changed (by rintro ⟨⟩) (by rintro _ ⟨⟩) hi).elim

end Runs

/-! ## Two changes in one millisecond -/

def emptyFile : LeadFile := ⟨0, none, [], [], none⟩

/-- The first caller connects a tool, the others meet the paywall. -/
def changing (caller : ℕ) : Request :=
  if caller = 0 then
    ⟨.changeConnectors [1], rfl, [.profile, .connectors, .signals], List.Perm.refl _⟩
  else ⟨.record .exportPaywallHit 5, rfl, [.profile, .connectors, .signals], List.Perm.refl _⟩

/-- A caller changes a fact, reads the clock and then all facts. -/
def upToSave (caller elapsed : ℕ) : List (Move ℕ ℕ RecalculationError) :=
  [.mk caller 0 (.returned ()), .mk caller elapsed (.returned ()), .mk caller 0 (.returned ()),
    .mk caller 0 (.returned ()), .mk caller 0 (.returned ())]

def save (caller : ℕ) : Move ℕ ℕ RecalculationError := .mk caller 0 (.returned ())

/-- The times that a trace has read. -/
def readings (trace : List (LeadEvent ι)) : List ℕ :=
  trace.filterMap fun event ↦
    match event.op, event.outcome.result with
    | .now, .ok computedAt => some computedAt
    | _, _ => none

theorem mem_readings {trace : List (LeadEvent ι)} {event : LeadEvent ι} {t : ℕ} (hevent : event ∈ trace)
    (hread : (⟨event.op, event.outcome.result⟩ :
      Σ op, Except RecalculationError (RecalculationOp.Ans op)) = ⟨.now, .ok t⟩) :
    t ∈ readings trace := by
  refine List.mem_filterMap.mpr ⟨event, hevent, ?_⟩
  obtain ⟨before, caller, op, o⟩ := event
  cases o with
  | returned answer =>
    cases hread
    rfl
  | lost error => cases hread
  | applied error => cases hread

/-- The stored score, its current value at the times that were read, and whether all requests that
were started have returned. -/
def outcome (config : Config ℕ LeadFile RecalculationOp.Ans RecalculationError Unit) :
    Option StoredScore × List (Option LeadScoreResult) × Bool :=
  (config.shared.score, (readings config.trace).map (computeLeadScore config.shared.facts),
    config.trace.all fun event ↦
      match config.threads event.caller with
      | .pure _ => true
      | _ => false)

theorem returned_of_outcome {config : Config ℕ LeadFile RecalculationOp.Ans RecalculationError Unit}
    (h : (outcome config).2.2 = true) : Returned config := by
  intro event hevent
  have hthread := List.all_eq_true.mp h event hevent
  split at hthread
  · assumption
  · cases hthread

/-- The points of a connected tool, and those of it and the paywall. -/
def connected : LeadScoreResult := ⟨3, .cold, [⟨.connectedTool, 3⟩]⟩

def connectedAndHit : LeadScoreResult := ⟨6, .warm, [⟨.connectedTool, 3⟩, ⟨.exportPaywallHit, 3⟩]⟩

/-- The first recalculation is overtaken by the second, and saves after it in the same millisecond. -/
theorem outcome_overtaken :
    (leadFile.replay (Config.initial emptyFile fun i ↦ (changing i).program)
      (upToSave 0 5 ++ upToSave 1 0 ++ [save 1, save 0])).map
        (fun config ↦ (outcome config, config.trace.any (·.op.changes))) =
      some ((some ⟨connected, 5⟩, [some connectedAndHit, some connectedAndHit], true), true) := by
  decide +kernel

theorem not_converged_overtaken :
    ∃ config : Config ℕ LeadFile RecalculationOp.Ans RecalculationError Unit,
      leadFile.world.Reachable (Config.initial emptyFile fun i ↦ (changing i).program) config ∧
        Returned config ∧ (∃ event ∈ config.trace, event.op.changes = true) ∧ ¬Converged config := by
  obtain ⟨config, reachable, hview⟩ := leadFile.exists_reachable outcome_overtaken
  obtain ⟨houtcome, hchanged⟩ := Prod.mk.inj hview
  have hreturned : (outcome config).2.2 = true := by rw [houtcome]
  have hscore : config.shared.score = some ⟨connected, 5⟩ := congrArg Prod.fst houtcome
  refine ⟨config, reachable, returned_of_outcome hreturned, List.any_eq_true.mp hchanged, ?_⟩
  rintro ⟨i, -, event, hevent, -, t, result, hread, hresult, hstored⟩
  have hmem : some result ∈ (readings config.trace).map (computeLeadScore config.shared.facts) :=
    List.mem_map.mpr ⟨t, mem_readings hevent hread, hresult⟩
  have hvalues : (readings config.trace).map (computeLeadScore config.shared.facts) =
      [some connectedAndHit, some connectedAndHit] := congrArg (fun view ↦ view.2.1) houtcome
  rw [hvalues] at hmem
  have hcurrent : result = connectedAndHit := by simpa using hmem
  have hold : (⟨connected, 5⟩ : StoredScore) = ⟨result, t⟩ :=
    Option.some.inj (hscore.symm.trans hstored)
  rw [hcurrent] at hold
  cases hold

/-- The same requests, which save in the order in which they started. -/
theorem outcome_ordered :
    (leadFile.replay (Config.initial emptyFile fun i ↦ (changing i).program)
      (upToSave 0 5 ++ upToSave 1 0 ++ [save 0, save 1])).map
        (fun config ↦ (outcome config, decide (EachCall InOrder config.trace),
          config.trace.any (·.op.changes))) =
      some ((some ⟨connectedAndHit, 5⟩, [some connectedAndHit, some connectedAndHit], true), true,
        true) := by
  decide +kernel

theorem recalculation_converges_ordered :
    ∃ config : Config ℕ LeadFile RecalculationOp.Ans RecalculationError Unit,
      config.shared.score = some ⟨connectedAndHit, 5⟩ ∧ Converged config := by
  obtain ⟨config, reachable, hview⟩ := leadFile.exists_reachable outcome_ordered
  have houtcome : outcome config = (some ⟨connectedAndHit, 5⟩,
    [some connectedAndHit, some connectedAndHit], true) := congrArg Prod.fst hview
  have hordered : EachCall InOrder config.trace :=
    of_decide_eq_true (congrArg (fun view ↦ view.2.1) hview)
  have hchanged : config.trace.any (·.op.changes) = true := congrArg (fun view ↦ view.2.2) hview
  have hreturned : (outcome config).2.2 = true := by rw [houtcome]
  exact ⟨config, congrArg Prod.fst houtcome, recalculation_converges changing (by rintro _ ⟨⟩) reachable
    hordered (returned_of_outcome hreturned) (List.any_eq_true.mp hchanged)⟩

end MemoFlowApi.Leads.Recalculation
