import MemoFlowApi.Concurrency.Typestate
import MemoFlowApi.Gamification.UseCases

/-!
# Stages of an Award

Which calls a transaction makes in which order: a milestone is inserted before its points are added,
and a mission's points are added by the call that completed it.
-/

namespace MemoFlowApi.Gamification

open Concurrency Sql

/-- How far a request has come. -/
inductive Stage where
  | idle
  | fresh
  | inserted (data : AwardMilestoneData)
  | awarded (data : AwardMilestoneData)
  /-- There is a row of progress. -/
  | baselined (userId : UserId) (mission : DailyMission)
  /-- The mission had been completed before. -/
  | ignored (userId : UserId) (mission : DailyMission)
  | counted (userId : UserId) (mission : DailyMission) (row : MissionProgress)
  | paid (userId : UserId) (mission : DailyMission) (row : MissionProgress)
  | broken

/-- A transaction that has come so far may commit. -/
def Stage.Complete : Stage → Prop
  | fresh => True
  | awarded _ => True
  | ignored _ _ => True
  | counted _ _ row => row.completed = false
  | paid _ _ _ => True
  | _ => False

/-- The calls outside of transactions. -/
def Op.Outside : Op → Prop
  | .now => True
  | .findActiveOn _ => True
  | .deleteDocument _ => True
  | _ => False

/-- The calls of a request. -/
inductive Moves (catalogue : Catalogue) :
    Stage → (op : Op) → Outcome GamificationError (Ans op) → Stage → Prop
  | outside {op o} (outside : op.Outside) : Moves catalogue .idle op o .idle
  | start : Moves catalogue .idle .startTransaction (.returned ()) .fresh
  | conflict {data} : Moves catalogue .fresh (.insertMilestone data) (.returned .conflict) .fresh
  | insert {data} :
      Moves catalogue .fresh (.insertMilestone data) (.returned .inserted) (.inserted data)
  | award {data : AwardMilestoneData} {user} : Moves catalogue (.inserted data)
      (.addXp data.userId data.xpAwarded) (.returned (some user)) (.awarded data)
  | baseline {userId mission result} (known : mission ∈ catalogue.missions)
      (found : result ≠ .foreignKeyViolation) : Moves catalogue .fresh
        (.insertProgress userId mission.id) (.returned result) (.baselined userId mission)
  | ignore {userId mission} : Moves catalogue (.baselined userId mission)
      (.incrementProgress userId mission.id mission.criteria.target) (.returned none)
      (.ignored userId mission)
  | find {userId mission id existing} : Moves catalogue (.ignored userId mission)
      (.findProgress userId id) (.returned existing) (.ignored userId mission)
  | count {userId mission row} : Moves catalogue (.baselined userId mission)
      (.incrementProgress userId mission.id mission.criteria.target) (.returned (some row))
      (.counted userId mission row)
  | pay {userId mission row user} (completed : row.completed = true) :
      Moves catalogue (.counted userId mission row) (.addXp userId mission.xpReward)
        (.returned (some user)) (.paid userId mission row)
  | commit {stage : Stage} (complete : stage.Complete) :
      Moves catalogue stage .commitTransaction (.returned ()) .idle
  | fail {stage op o} (inside : ¬op.Outside) (failed : op ≠ .commitTransaction) :
      Moves catalogue stage op o .broken
  | rollback {stage o} : Moves catalogue stage .rollbackTransaction o .idle

section Conformance

variable {ι : Type} [DecidableEq ι] {i : ι} {catalogue : Catalogue}

/-- What requests follow. -/
def moves (catalogue : Catalogue) : Typestate Ans GamificationError Stage := ⟨Moves catalogue⟩

/-- The calls that are possible. -/
abbrev Answered (catalogue : Catalogue) (i : ι) := (world ι catalogue).Possible GamificationError i

/-- Within a transaction a call that fails ends the work. -/
theorem wp_statement {op : Op} {Q : Ans op → Stage → Prop} {φ : Stage} (inside : ¬op.Outside)
    (statement : op ≠ .commitTransaction)
    (returned : ∀ answer, ∃ φ', Moves catalogue φ op (.returned answer) φ' ∧ Q answer φ') :
    (await op).wp ((moves catalogue).spec (Answered catalogue i)) Q (fun _ _ ↦ True) φ :=
  Typestate.wp_perform (fun answer _ ↦ returned answer)
    (fun _ _ ↦ ⟨_, .fail inside statement, trivial⟩) (fun _ _ ↦ ⟨_, .fail inside statement, trivial⟩)

/-- A transaction commits when its work is complete. -/
theorem transaction_follows {α : Type} {run : Async α}
    (h : run.wp ((moves catalogue).spec (Answered catalogue i)) (fun _ φ ↦ φ.Complete)
      (fun _ _ ↦ True) .fresh) :
    (boundary.transaction fun _ ↦ run).wp ((moves catalogue).spec (Answered catalogue i))
      (fun _ φ ↦ φ = .idle) (fun _ φ ↦ φ = .idle) .idle := by
  refine Boundary.wp_transaction (F := fun _ _ ↦ True) ?_ fun error φ _ ↦ ?_
  · refine wp_statement id (by rintro ⟨⟩) fun _ ↦ ⟨_, .start, ?_⟩
    refine Program.wp_mono (fun value φ hφ ↦ ?_) (fun _ _ hφ ↦ hφ) h
    exact World.wp_answered Bool.false_ne_true fun _ ↦ ⟨_, .commit hφ, rfl⟩
  · exact World.wp_answered Bool.false_ne_true fun _ ↦ ⟨_, .rollback, rfl⟩

theorem awardOnce_follows (data : AwardMilestoneData) :
    (awardOnce data).wp ((moves catalogue).spec (Answered catalogue i))
      (fun _ φ ↦ φ = .idle) (fun _ φ ↦ φ = .idle) .idle := by
  refine transaction_follows ?_
  unfold awardOnceInTransaction
  rw [Program.wp_bind]
  refine wp_statement id (by rintro ⟨⟩) fun result ↦ ?_
  cases result with
  | conflict => exact ⟨_, .conflict, trivial⟩
  | foreignKeyViolation => exact ⟨_, .fail id (by rintro ⟨⟩), trivial⟩
  | inserted =>
    refine ⟨_, .insert, ?_⟩
    dsimp only
    rw [Program.wp_bind]
    refine wp_statement id (by rintro ⟨⟩) fun user ↦ ?_
    cases user with
    | none => exact ⟨_, .fail id (by rintro ⟨⟩), trivial⟩
    | some user => exact ⟨_, .award, trivial⟩

theorem incrementAtomic_follows (userId : UserId) {mission : DailyMission}
    (known : mission ∈ catalogue.missions) :
    (incrementAtomic userId mission.id mission.criteria.target mission.xpReward).wp
      ((moves catalogue).spec (Answered catalogue i)) (fun _ φ ↦ φ = .idle) (fun _ φ ↦ φ = .idle)
      .idle := by
  refine transaction_follows ?_
  unfold incrementInTransaction
  rw [Program.wp_bind]
  refine wp_statement id (by rintro ⟨⟩) fun result ↦ ?_
  by_cases hresult : result = .foreignKeyViolation
  · rw [if_pos hresult]
    exact ⟨_, .fail id (by rintro ⟨⟩), trivial⟩
  · rw [if_neg hresult]
    refine ⟨_, .baseline known hresult, ?_⟩
    rw [Program.wp_bind]
    refine wp_statement id (by rintro ⟨⟩) fun progress ↦ ?_
    cases progress with
    | none =>
      refine ⟨_, .ignore, ?_⟩
      dsimp only
      rw [Program.wp_bind]
      refine wp_statement id (by rintro ⟨⟩) fun existing ↦ ⟨_, .find, ?_⟩
      cases existing <;> trivial
    | some progress =>
      refine ⟨_, .count, ?_⟩
      dsimp only
      split
      · next hprogress => exact hprogress
      · next hprogress =>
        rw [Program.wp_bind]
        refine wp_statement id (by rintro ⟨⟩) fun user ↦ ?_
        cases user with
        | none => exact ⟨_, .fail id (by rintro ⟨⟩), trivial⟩
        | some user => exact ⟨_, .pay (by simpa using hprogress), trivial⟩

theorem forEach_follows {α β : Type} {run : α → Async β} {values : List α}
    (h : ∀ value ∈ values, (run value).wp ((moves catalogue).spec (Answered catalogue i))
      (fun _ φ ↦ φ = .idle) (fun _ φ ↦ φ = .idle) .idle) :
    (forEach run values).wp ((moves catalogue).spec (Answered catalogue i))
      (fun _ φ ↦ φ = .idle) (fun _ φ ↦ φ = .idle) .idle := by
  induction values with
  | nil => rfl
  | cons value values ih =>
    unfold forEach
    rw [Program.wp_bind]
    refine Program.wp_mono (fun _ φ hφ ↦ ?_) (fun _ _ hφ ↦ hφ) (h value List.mem_cons_self)
    subst hφ
    exact ih fun other hother ↦ h other (List.mem_cons_of_mem _ hother)

theorem applyMissionProgress_follows (event : String) (payload : GamificationEventPayload) :
    (applyMissionProgress event payload).wp ((moves catalogue).spec (Answered catalogue i))
      (fun _ φ ↦ φ = .idle) (fun _ φ ↦ φ = .idle) .idle := by
  unfold applyMissionProgress
  rw [Program.wp_bind]
  refine World.wp_answered Bool.false_ne_true fun now ↦ ⟨_, .outside trivial, ?_⟩
  rw [Program.wp_bind]
  refine Typestate.wp_perform (fun active possible ↦ ⟨_, .outside trivial, ?_⟩)
    (fun _ _ ↦ ⟨_, .outside trivial, rfl⟩) (fun _ _ ↦ ⟨_, .outside trivial, rfl⟩)
  refine forEach_follows fun mission hmission ↦ incrementAtomic_follows _ ?_
  obtain ⟨s, s', answers⟩ := possible
  cases answers with
  | returned effect =>
    obtain ⟨reply, heffect⟩ := effect
    cases heffect
    exact (List.mem_filter.mp (List.mem_filter.mp hmission).1).1

/-- A request leaves no transaction open. -/
theorem Request.program_follows (request : Request) :
    request.program.wp ((moves catalogue).spec (Answered catalogue i))
      (fun _ φ ↦ φ = .idle) (fun _ φ ↦ φ = .idle) .idle := by
  cases request with
  | event name payload =>
    unfold Request.program execute
    rw [Program.wp_bind]
    refine Program.wp_mono (fun _ φ hφ ↦ ?_) (fun _ _ hφ ↦ hφ)
      (forEach_follows fun rule _ ↦ awardOnce_follows _)
    subst hφ
    exact applyMissionProgress_follows name payload
  | deletion documentId =>
    exact Typestate.wp_perform (fun _ _ ↦ ⟨_, .outside trivial, rfl⟩)
      (fun _ _ ↦ ⟨_, .outside trivial, rfl⟩) (fun _ _ ↦ ⟨_, .outside trivial, rfl⟩)

end Conformance

end MemoFlowApi.Gamification
