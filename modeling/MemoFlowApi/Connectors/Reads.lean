import MemoFlowApi.Connectors.Knowledge

/-!
# Rows since a Request Read Them

Between the first query of a request and its update other requests write.  The row that a request
updates is the row it read, patched by every update since (`Reading`), so what an update finds is
decided by the calls in that window.
-/

namespace MemoFlowApi.Connectors

open Concurrency

section Window

variable {ι : Type} [DecidableEq ι]

/-- The queries on the table. -/
def Op.Queries : Op → Bool
  | .findOne _ | .find _ => true
  | _ => false

theorem not_queries_of_silent {op : Op} (h : op.Silent = true) : op.Queries = false := by
  cases op <;> first | rfl | cases h

/-- A query that answered. -/
def Answered (call : Call ι) : Bool := call.op.Queries && decide (¬ call.outcome.Failed)

/-- A request has read. -/
def hasRead (i : ι) (trace : List (Call ι)) : Bool :=
  trace.any fun call ↦ call.caller = i && Answered call

/-- The calls since the first query of a request, newest first. -/
def sinceRead (i : ι) : List (Call ι) → List (Call ι)
  | [] => []
  | call :: earlier => if hasRead i earlier then call :: sinceRead i earlier else []

theorem sinceRead_cons_of_read {i : ι} {trace : List (Call ι)} (call : Call ι)
    (h : hasRead i trace = true) : sinceRead i (call :: trace) = call :: sinceRead i trace :=
  if_pos h

theorem sinceRead_cons_of_not_read {i : ι} {trace : List (Call ι)} (call : Call ι)
    (h : hasRead i trace = false) : sinceRead i (call :: trace) = [] := by
  rw [sinceRead, if_neg (by simp [h])]

theorem hasRead_cons_of_ne {i : ι} {call : Call ι} {trace : List (Call ι)} (h : call.caller ≠ i) :
    hasRead i (call :: trace) = hasRead i trace := by
  simp [hasRead, h]

theorem hasRead_cons_self {i : ι} {call : Call ι} {trace : List (Call ι)} (h : call.caller = i) :
    hasRead i (call :: trace) = (Answered call || hasRead i trace) := by
  simp [hasRead, h]

end Window

section Reading

variable {ι : Type} {s s' state : ConnectorState} {φ : ι → Knowledge} {trace : List (Call ι)}
  {i : ι} {op : Op} {o : Outcome ConnectorError (Ans op)}

/-- What a move of a request does to what it has read. -/
theorem Knows.read_cases {φ φ' : Knowledge} (h : Knows φ op o φ') :
    φ'.read = φ.read ∧ (Answered (⟨s, i, op, o⟩ : Call ι) = true → φ.read.isSome) ∨
      φ.read = none ∧ Answered (⟨s, i, op, o⟩ : Call ι) = true ∧ ∃ rows, φ'.read = some rows ∧
        ((∃ criteria found, rows = Option.toList found ∧
            (⟨op, o⟩ : (op : Op) × Outcome ConnectorError (Ans op)) =
              ⟨.findOne criteria, .returned found⟩) ∨
          ∃ userId, (⟨op, o⟩ : (op : Op) × Outcome ConnectorError (Ans op)) =
            ⟨.find userId, .returned rows⟩) := by
  cases hread : φ.read with
  | some rows =>
    left
    cases h with
    | findOne => exact ⟨by rw [Knowledge.learn, hread]; rfl, fun _ ↦ rfl⟩
    | find => exact ⟨by rw [Knowledge.learn, hread]; rfl, fun _ ↦ rfl⟩
    | _ => exact ⟨hread, fun _ ↦ rfl⟩
  | none =>
    cases h with
    | findOne =>
      refine .inr ⟨rfl, rfl, _, by rw [Knowledge.learn, hread]; rfl, .inl ⟨_, _, rfl, rfl⟩⟩
    | find => exact .inr ⟨rfl, rfl, _, by rw [Knowledge.learn, hread]; rfl, .inr ⟨_, rfl⟩⟩
    | silent silent =>
      refine .inl ⟨hread, fun answered ↦ ?_⟩
      have hqueries : op.Queries = true := (Bool.and_eq_true_iff.mp answered).1
      exact nomatch (not_queries_of_silent silent).symm.trans hqueries
    | fail failed reads =>
      refine .inl ⟨hread, fun answered ↦ ?_⟩
      exact (of_decide_eq_true (Bool.and_eq_true_iff.mp answered).2 failed).elim
    | apply read => exact nomatch hread.symm.trans read
    | _ => exact .inl ⟨hread, fun answered ↦ nomatch answered⟩

variable [DecidableEq ι]

/-- What every request has read is the past of what is stored. -/
structure Reading (s : ConnectorState) (φ : ι → Knowledge) (trace : List (Call ι)) : Prop where
  read : ∀ i, (φ i).read.isSome = hasRead i trace
  current : ∀ {i rows row}, (φ i).read = some rows → row ∈ rows →
    s.row? row.id = some (rowSince row.id (sinceRead i trace) row)

theorem Reading.step (h : Reading s φ trace) {φ' : Knowledge}
    (answers : (world ι).Answers ConnectorError i op s o s') (knows : Knows (φ i) op o φ') :
    Reading s' (Function.update φ i φ') (⟨s, i, op, o⟩ :: trace) := by
  have hold : ∀ {k rows row}, (φ k).read = some rows → row ∈ rows →
      s'.row? row.id = some (rowSince row.id (sinceRead k (⟨s, i, op, o⟩ :: trace)) row) := by
    intro k rows row hread hmem
    have hread' : hasRead k trace = true := by rw [← h.read k, hread]; rfl
    rw [row_after answers (h.current hread hmem), sinceRead_cons_of_read _ hread']
    rfl
  constructor
  · intro k
    by_cases hk : k = i
    · subst hk
      have hcons : hasRead k (⟨s, k, op, o⟩ :: trace) = (Answered ⟨s, k, op, o⟩ || hasRead k trace) :=
        hasRead_cons_self rfl
      rw [Function.update_self, hcons]
      rcases knows.read_cases with ⟨hsame, hanswered⟩ | ⟨hnone, hanswered, rows, hsome, -⟩
      · rw [hsame, ← h.read k]
        cases hcall : Answered (⟨s, k, op, o⟩ : Call ι) with
        | false => rfl
        | true => rw [hanswered hcall]; rfl
      · rw [hsome, hanswered]
        rfl
    · rw [Function.update_of_ne hk, hasRead_cons_of_ne (Ne.symm hk), h.read k]
  · intro k rows row hread hmem
    by_cases hk : k = i
    · subst hk
      rw [Function.update_self] at hread
      have hcases := knows.read_cases (s := s) (i := k)
      rcases hcases with ⟨hsame, -⟩ | ⟨hnone, -, rows', hsome, hquery⟩
      · exact hold (hsame ▸ hread) hmem
      · obtain rfl : rows' = rows := Option.some.inj (hsome.symm.trans hread)
        have hnotRead : hasRead k trace = false := by rw [← h.read k, hnone]; rfl
        rw [sinceRead_cons_of_not_read _ hnotRead]
        change s'.row? row.id = some row
        rcases hquery with ⟨criteria, found, rfl, heq⟩ | ⟨userId, heq⟩
        · cases heq
          obtain rfl : found = some row := Option.mem_toList.mp hmem
          obtain ⟨hrow, -, rfl⟩ := found_of_findOne answers
          exact hrow
        · cases heq
          rw [row_after answers (found_of_find answers hmem)]
          rfl
    · rw [Function.update_of_ne hk] at hread
      exact hold hread hmem

/-- Before its first call no request has read. -/
theorem Reading.start (state : ConnectorState) : Reading state (fun _ : ι ↦ {}) [] :=
  ⟨fun _ ↦ rfl, fun hread ↦ nomatch hread⟩

end Reading

end MemoFlowApi.Connectors
