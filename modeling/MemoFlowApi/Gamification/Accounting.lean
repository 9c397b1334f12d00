import Mathlib.Algebra.BigOperators.Group.List.Basic
import Mathlib.Algebra.Order.Ring.Int
import Mathlib.Data.List.Nodup
import MemoFlowApi.Gamification.Transactions

/-!
# Accounting

Every point that a user has was awarded by a committed transaction, and no award is made twice: a
milestone is there from its award until its document is deleted, after which no other can be
inserted, and a mission is paid by the one call that completes it.
-/

namespace MemoFlowApi.Gamification

open Concurrency Sql

/-! ## Awards -/

inductive AwardSource where
  | milestone (documentId : DocumentId) (milestoneType : String)
  /-- A mission, with the progress that completed it. -/
  | mission (missionId : MissionId) (progress : ℕ)
  deriving DecidableEq

structure Award where
  userId : UserId
  source : AwardSource
  xp : ℕ

namespace Award

def isMilestone (award : Award) (userId : UserId) (documentId : DocumentId) (milestoneType : String) :
    Bool := award.userId = userId ∧ award.source = .milestone documentId milestoneType

def isMission (award : Award) (userId : UserId) (missionId : MissionId) : Bool :=
  match award.source with
  | .milestone _ _ => false
  | .mission id _ => award.userId = userId ∧ id = missionId

end Award

def AwardMilestoneData.award (data : AwardMilestoneData) : Award where
  userId := data.userId
  source := .milestone data.documentId data.milestoneType
  xp := data.xpAwarded

def DailyMission.award (mission : DailyMission) (userId : UserId) (row : MissionProgress) : Award where
  userId := userId
  source := .mission mission.id row.progress
  xp := mission.xpReward

/-- The award of a call, if its transaction commits. -/
def awardOf (catalogue : Catalogue) (op : Op) (o : Outcome GamificationError (Ans op)) :
    Option Award :=
  match op, o with
  | .insertMilestone data, .returned .inserted => some data.award
  | .incrementProgress userId missionId _, .returned (some row) =>
      if row.completed then
        (catalogue.missions.find? (·.id = missionId)).map fun mission ↦ mission.award userId row
      else none
  | _, _ => none

/-- The progress that a call is part of. -/
def incrementOf (op : Op) (o : Outcome GamificationError (Ans op)) : Option (UserId × MissionId) :=
  match op, o with
  | .insertProgress userId missionId, .returned _ => some (userId, missionId)
  | _, _ => none

/-- The call failed, or a foreign key refused its row. -/
def Rejected (op : Op) (o : Outcome GamificationError (Ans op)) : Prop :=
  match op, o with
  | .insertMilestone _, .returned result => result = .foreignKeyViolation
  | .insertProgress _ _, .returned result => result = .foreignKeyViolation
  | _, o => o.Failed

section Trace

variable {ι : Type} [DecidableEq ι]

abbrev Call (ι : Type) := Event ι (Store ι) Ans GamificationError

/-- The awards that were made. -/
def awards (catalogue : Catalogue) (trace : List (Call ι)) : List Award :=
  (boundary.committedCalls trace).filterMap fun event ↦ awardOf catalogue event.op event.outcome

/-- The users and missions of the `incrementAtomic` calls that were committed. -/
def increments (trace : List (Call ι)) : List (UserId × MissionId) :=
  (boundary.committedCalls trace).filterMap fun event ↦ incrementOf event.op event.outcome

end Trace

theorem Catalogue.find_of_mem {catalogue : Catalogue} {mission : DailyMission}
    (h : mission ∈ catalogue.missions) :
    catalogue.missions.find? (·.id = mission.id) = some mission := by
  cases hfind : catalogue.missions.find? (·.id = mission.id) with
  | none =>
    have hnot := List.find?_eq_none.mp hfind mission h
    simp at hnot
  | some found =>
    have hid : found.id = mission.id := by simpa using List.find?_some hfind
    rw [List.inj_on_of_nodup_map catalogue.ids (List.mem_of_find?_eq_some hfind) h hid]

/-! ## Books -/

/-- The progress that completes a mission. -/
def DailyMission.goal (mission : DailyMission) : ℕ := (max 1 mission.criteria.target).toNat

theorem DailyMission.goal_pos (mission : DailyMission) : 0 < mission.goal := by
  unfold goal
  omega

/-- The increment that reaches the goal completes the mission. -/
theorem MissionProgress.increment_completed {mission : DailyMission} {row : MissionProgress}
    (h : row.progress < mission.goal) :
    (row.increment mission.criteria.target).completed = true ↔
      (row.increment mission.criteria.target).progress = mission.goal := by
  unfold DailyMission.goal at h ⊢
  unfold increment
  rw [decide_eq_true_iff]
  dsimp only
  omega

/-- A row of a user after awards, newest first. -/
def credit (awards : List Award) (userId : UserId) (row : UserRow) : UserRow :=
  awards.foldr (fun award row ↦ if award.userId = userId then row.add award.xp else row) row

/-- A milestone that was there, or was awarded, is there while its document is. -/
def Once (before after : Option MilestoneRow) (document : Option Unit) (count : ℕ) : Prop :=
  before = none ∧ count = 0 ∨
    count + (if before.isSome then 1 else 0) = 1 ∧ (after ≠ none ∨ document = none)

/-- Progress that has been counted on, and what was paid for it. -/
structure Counted (goal : ℕ) (before after : Option MissionProgress) (count paid : ℕ) : Prop where
  progress : (progressOf after).progress = min ((progressOf before).progress + count) goal
  completed : (progressOf after).completed = true ↔ (progressOf after).progress = goal
  paid : paid + (if (progressOf before).completed then 1 else 0) =
    if (progressOf after).completed then 1 else 0

theorem Counted.increment {mission : DailyMission} {before after : Option MissionProgress}
    {count paid : ℕ} {row : MissionProgress} (h : Counted mission.goal before after count paid)
    (uncompleted : (progressOf after).completed = false)
    (hrow : row = (progressOf after).increment mission.criteria.target) :
    Counted mission.goal before (some row) (count + 1)
      ((if row.completed then 1 else 0) + paid) ∧
        (row.completed = true → row.progress = mission.goal) := by
  have hne : (progressOf after).progress ≠ mission.goal := by
    intro heq
    rw [h.completed.mpr heq] at uncompleted
    cases uncompleted
  have hprogress := h.progress
  have hlt : (progressOf after).progress < mission.goal := by omega
  have hcompleted := MissionProgress.increment_completed hlt
  have hnext : row.progress = (progressOf after).progress + 1 := by rw [hrow]; rfl
  have hpaid := h.paid
  rw [← hrow] at hcompleted
  rw [uncompleted] at hpaid
  refine ⟨⟨?_, hcompleted, ?_⟩, hcompleted.mp⟩
  · change row.progress = _
    omega
  · change _ = if row.completed then 1 else 0
    simp only [Bool.false_eq_true, if_false] at hpaid
    omega

/-- The books of a run: its awards and counted progress against the rows at its start. -/
structure Books {ι : Type} (catalogue : Catalogue) (start s : Store ι) (awards : List Award)
    (increments : List (UserId × MissionId)) : Prop where
  users : ∀ userId, s.committed (.user userId) =
    (start.committed (.user userId)).map (credit awards userId)
  milestones : ∀ userId documentId milestoneType,
    Once (start.committed (.milestone userId documentId milestoneType))
      (s.committed (.milestone userId documentId milestoneType)) (s.committed (.document documentId))
      (awards.countP (·.isMilestone userId documentId milestoneType))
  missions : ∀ userId, ∀ mission ∈ catalogue.missions,
    Counted mission.goal (start.committed (.progress userId mission.id))
      (s.committed (.progress userId mission.id)) (increments.count (userId, mission.id))
      (awards.countP (·.isMission userId mission.id))
  goals : ∀ award ∈ awards, ∀ mission ∈ catalogue.missions, ∀ progress,
    award.source = .mission mission.id progress → progress = mission.goal

/-- The awards that the open transaction of a request has made. -/
def Stage.awards : Stage → List Award
  | inserted data => [data.award]
  | awarded data => [data.award]
  | counted userId mission row => if row.completed then [mission.award userId row] else []
  | paid userId mission row => if row.completed then [mission.award userId row] else []
  | _ => []

/-- The progress that the open transaction of a request is part of. -/
def Stage.increments : Stage → List (UserId × MissionId)
  | baselined userId mission => [(userId, mission.id)]
  | ignored userId mission => [(userId, mission.id)]
  | counted userId mission _ => [(userId, mission.id)]
  | paid userId mission _ => [(userId, mission.id)]
  | _ => []

namespace Books

variable {ι : Type} [DecidableEq ι] {i : ι} {catalogue : Catalogue} {start s s' : Store ι}
  {awards : List Award} {increments : List (UserId × MissionId)}

omit [DecidableEq ι] in
theorem of_committed (h : Books catalogue start s awards increments)
    (same : s'.committed = s.committed) : Books catalogue start s' awards increments := by
  refine ⟨fun userId ↦ ?_, fun userId documentId milestoneType ↦ ?_, fun userId mission hmission ↦ ?_,
    h.goals⟩
  · rw [same]
    exact h.users userId
  · rw [same]
    exact h.milestones userId documentId milestoneType
  · rw [same]
    exact h.missions userId mission hmission

/-- The milestones of a deleted document may go: no other can be awarded for it. -/
theorem delete {id : DocumentId} (h : Books catalogue start s awards increments)
    (writing : Writing i s []) (delete : deleteDocument i id s = some s') :
    Books catalogue start s' awards increments := by
  rcases deleteDocument_eq delete with rfl | ⟨deleted, -, htouched, hnone, rfl⟩
  · exact h
  · have hsame : ∀ key, ¬WithDocument id key → (deleted.commit i).committed key = s.committed key :=
      fun key ↦ committed_of_deleted writing htouched
    refine ⟨fun userId ↦ ?_, fun userId documentId milestoneType ↦ ?_,
      fun userId mission hmission ↦ ?_, h.goals⟩
    · rw [hsame (.user userId) fun h ↦ h]
      exact h.users userId
    · by_cases hid : documentId = id
      · subst hid
        exact (h.milestones userId documentId milestoneType).imp_right fun honce ↦ ⟨honce.1, .inr hnone⟩
      · rw [hsame (.milestone userId documentId milestoneType) hid, hsame (.document documentId) hid]
        exact h.milestones userId documentId milestoneType
    · rw [hsame (.progress userId mission.id) fun h ↦ h]
      exact h.missions userId mission hmission

/-- Points that are added with an award. -/
theorem users_commit (award : Award) (h : Books catalogue start s awards increments)
    (crediting : Crediting i s award.userId award.xp)
    (same : ∀ userId, userId ≠ award.userId →
      (s.commit i).committed (.user userId) = s.committed (.user userId)) (userId : UserId) :
    (s.commit i).committed (.user userId) =
      (start.committed (.user userId)).map (credit (award :: awards) userId) := by
  by_cases huser : award.userId = userId
  · subst huser
    obtain ⟨row, hrow, hview⟩ := crediting.added
    have hcredit : credit (award :: awards) award.userId =
        fun row ↦ (credit awards award.userId row).add award.xp := by
      funext row
      exact if_pos rfl
    have hbefore := (h.users award.userId).symm.trans hrow
    rw [Tables.commit_committed, hview, hcredit]
    cases hstart : start.committed (.user award.userId) with
    | none =>
      rw [hstart] at hbefore
      cases hbefore
    | some first =>
      rw [hstart] at hbefore
      rw [← Option.some.inj hbefore]
      rfl
  · have hcredit : credit (award :: awards) userId = credit awards userId := by
      funext row
      exact if_neg huser
    rw [same userId (Ne.symm huser), hcredit]
    exact h.users userId

/-- A milestone that is awarded was not awarded before. -/
theorem milestones_commit {data : AwardMilestoneData} (h : Books catalogue start s awards increments)
    (awarding : Awarding i s data)
    (same : ∀ key, key ∉ [data.key, .user data.userId] → (s.commit i).committed key = s.committed key)
    (userId : UserId) (documentId : DocumentId) (milestoneType : String) :
    Once (start.committed (.milestone userId documentId milestoneType))
      ((s.commit i).committed (.milestone userId documentId milestoneType))
      ((s.commit i).committed (.document documentId))
      ((data.award :: awards).countP (·.isMilestone userId documentId milestoneType)) := by
  have honce := h.milestones userId documentId milestoneType
  rw [same (.document documentId) (by simp), List.countP_cons]
  by_cases hdata : (.milestone userId documentId milestoneType : Key) = data.key
  · obtain ⟨rfl, rfl, rfl⟩ := Key.milestone.inj hdata
    have hnew : data.award.isMilestone data.userId data.documentId data.milestoneType = true :=
      decide_eq_true ⟨rfl, rfl⟩
    rw [if_pos hnew]
    rcases honce with ⟨hbefore, hcount⟩ | ⟨-, hafter | hdocument⟩
    · rw [hbefore, hcount]
      exact .inr ⟨rfl, .inl awarding.inserted⟩
    · exact (hafter awarding.absent).elim
    · exact (awarding.document hdocument).elim
  · have hnew : ¬data.award.isMilestone userId documentId milestoneType = true := by
      intro hmilestone
      obtain ⟨rfl, hsource⟩ := of_decide_eq_true hmilestone
      obtain ⟨rfl, rfl⟩ := AwardSource.milestone.inj hsource
      exact hdata rfl
    rw [same (.milestone userId documentId milestoneType) (by simpa using hdata), if_neg hnew]
    exact honce

/-- The commit of an awarded milestone. -/
theorem commit_awarded {data : AwardMilestoneData} (h : Books catalogue start s awards increments)
    (writing : Writing i s [data.key, .user data.userId]) (awarding : Awarding i s data)
    (crediting : Crediting i s data.userId data.xpAwarded) :
    Books catalogue start (s.commit i) (data.award :: awards) increments := by
  have hsame : ∀ key, key ∉ [data.key, .user data.userId] →
      (s.commit i).committed key = s.committed key := fun key hkey ↦ writing.view hkey
  refine ⟨?_, h.milestones_commit awarding hsame, fun userId mission hmission ↦ ?_,
    fun award haward ↦ ?_⟩
  · refine users_commit data.award h crediting fun userId huser ↦ hsame _ ?_
    have hne : userId ≠ data.userId := huser
    simpa using hne
  · have hnew : ¬data.award.isMission userId mission.id = true := by rintro ⟨⟩
    rw [hsame (.progress userId mission.id) (by simp), List.countP_cons, if_neg hnew]
    exact h.missions userId mission hmission
  · rcases List.mem_cons.mp haward with rfl | hearlier
    · rintro mission - progress ⟨⟩
    · exact h.goals award hearlier

/-- The commit of progress, with the award of the call that completes the mission. -/
theorem commit_counted {userId : UserId} {mission : DailyMission} {row : MissionProgress}
    (h : Books catalogue start s awards increments) (known : mission ∈ catalogue.missions)
    (counting : Counting i s userId mission row)
    (same : ∀ key, key ∉ [.progress userId mission.id, .user userId] →
      (s.commit i).committed key = s.committed key)
    (users : ∀ other, (s.commit i).committed (.user other) = (start.committed (.user other)).map
      (credit ((if row.completed then [mission.award userId row] else []) ++ awards) other)) :
    Books catalogue start (s.commit i)
      ((if row.completed then [mission.award userId row] else []) ++ awards)
      ((userId, mission.id) :: increments) := by
  have hcounted := (h.missions userId mission known).increment counting.uncompleted counting.counted
  have hnew : ∀ award, award ∈ (if row.completed then [mission.award userId row] else []) →
      row.completed = true ∧ award = mission.award userId row := by
    intro award haward
    by_cases hcompleted : row.completed = true
    · rw [if_pos hcompleted] at haward
      exact ⟨hcompleted, List.mem_singleton.mp haward⟩
    · rw [if_neg hcompleted] at haward
      exact (List.not_mem_nil haward).elim
  refine ⟨users, fun other documentId milestoneType ↦ ?_, fun other mission' hmission ↦ ?_,
    fun award haward ↦ ?_⟩
  · have hnone : (if row.completed then [mission.award userId row] else []).countP
        (·.isMilestone other documentId milestoneType) = 0 := by
      refine List.countP_eq_zero.mpr fun award haward hmilestone ↦ ?_
      obtain ⟨-, rfl⟩ := hnew award haward
      cases (of_decide_eq_true hmilestone).2
    rw [same (.milestone other documentId milestoneType) (by simp),
      same (.document documentId) (by simp), List.countP_append, hnone, Nat.zero_add]
    exact h.milestones other documentId milestoneType
  · rw [List.countP_append, List.count_cons]
    by_cases hown : userId = other ∧ mission.id = mission'.id
    · obtain ⟨rfl, hid⟩ := hown
      obtain rfl : mission = mission' := List.inj_on_of_nodup_map catalogue.ids known hmission hid
      have hpaid : (if row.completed then [mission.award userId row] else []).countP
          (·.isMission userId mission.id) = if row.completed then 1 else 0 := by
        have hmission : (mission.award userId row).isMission userId mission.id = true :=
          decide_eq_true ⟨rfl, rfl⟩
        split
        · rw [List.countP_singleton, if_pos hmission]
        · rfl
      rw [hpaid, if_pos (by simp), Tables.commit_committed, counting.written]
      exact hcounted.1
    · have hpaid : (if row.completed then [mission.award userId row] else []).countP
          (·.isMission other mission'.id) = 0 := by
        refine List.countP_eq_zero.mpr fun award haward hmission ↦ ?_
        obtain ⟨-, rfl⟩ := hnew award haward
        exact hown (of_decide_eq_true hmission)
      have hkey : (.progress other mission'.id : Key) ∉ [.progress userId mission.id, .user userId] := by
        intro hmem
        rcases List.mem_cons.mp hmem with heq | hmem
        · obtain ⟨rfl, hid⟩ := Key.progress.inj heq
          exact hown ⟨rfl, hid.symm⟩
        · cases List.mem_singleton.mp hmem
      have hne : ¬((userId, mission.id) == (other, mission'.id)) = true := by
        intro heq
        exact hown (Prod.mk.inj (eq_of_beq heq))
      rw [same _ hkey, hpaid, if_neg hne, Nat.zero_add]
      exact h.missions other mission' hmission
  · rcases List.mem_append.mp haward with hmem | hearlier
    · obtain ⟨hcompleted, rfl⟩ := hnew award hmem
      rintro mission' hmission progress hsource
      obtain ⟨hid, rfl⟩ := AwardSource.mission.inj hsource
      obtain rfl : mission = mission' := List.inj_on_of_nodup_map catalogue.ids known hmission hid
      exact hcounted.2 hcompleted
    · exact h.goals award hearlier

omit [DecidableEq ι] in
/-- A call for a mission that was completed before changes nothing. -/
theorem commit_ignored {userId : UserId} {mission : DailyMission} {row : MissionProgress}
    (h : Books catalogue start s awards increments) (known : mission ∈ catalogue.missions)
    (hrow : s.committed (.progress userId mission.id) = some row) (completed : row.completed = true) :
    Books catalogue start s awards ((userId, mission.id) :: increments) := by
  refine ⟨h.users, h.milestones, fun other mission' hmission ↦ ?_, h.goals⟩
  rw [List.count_cons]
  split
  · next heq =>
    obtain ⟨rfl, hid⟩ := Prod.mk.inj (eq_of_beq heq)
    obtain rfl : mission = mission' := List.inj_on_of_nodup_map catalogue.ids known hmission hid
    have hcounted := h.missions userId mission known
    rw [hrow] at hcounted ⊢
    have hgoal := hcounted.completed.mp completed
    have hprogress := hcounted.progress
    exact ⟨by omega, hcounted.completed, hcounted.paid⟩
  · exact h.missions other mission' hmission

/-- Every commit keeps the books. -/
theorem commit {stage : Stage} (h : Books catalogue start s awards increments)
    (holds : stage.Holds i s catalogue) (complete : stage.Complete) :
    Books catalogue start (s.commit i) (stage.awards ++ awards) (stage.increments ++ increments) := by
  have hsame : ∀ key, key ∉ stage.keys → (s.commit i).committed key = s.committed key :=
    fun key hkey ↦ (holds.writing complete).view hkey
  cases stage with
  | fresh => exact h.of_committed (funext fun key ↦ hsame key List.not_mem_nil)
  | awarded data => exact h.commit_awarded holds.1 holds.2.1 holds.2.2
  | ignored userId mission =>
    obtain ⟨hknown, -, row, hrow, hcompleted⟩ := holds
    have hcommitted : (s.commit i).committed = s.committed :=
      funext fun key ↦ hsame key List.not_mem_nil
    exact (h.commit_ignored hknown hrow hcompleted).of_committed hcommitted
  | counted userId mission row =>
    refine h.commit_counted holds.1 holds.2.2 (fun key hkey ↦ hsame key fun hmem ↦ hkey ?_)
      fun other ↦ ?_
    · rw [List.mem_singleton.mp hmem]
      exact List.mem_cons_self
    · have hnone : row.completed = false := complete
      rw [hnone, hsame (.user other) (by simp [Stage.keys])]
      exact h.users other
  | paid userId mission row =>
    obtain ⟨hknown, -, hcounting, hcompleted, hcrediting⟩ := holds
    refine h.commit_counted hknown hcounting hsame ?_
    rw [if_pos hcompleted]
    refine users_commit (mission.award userId row) h hcrediting fun other hother ↦ hsame _ ?_
    have hne : other ≠ userId := hother
    simpa [Stage.keys] using hne
  | _ => exact complete.elim

end Books

/-! ## Runs of requests -/

/-- The calls of an open transaction are those of its stage. -/
structure Recorded {ι : Type} (catalogue : Catalogue) (calls : List (Call ι)) (stage : Stage) :
    Prop where
  awards : calls.filterMap (fun event ↦ awardOf catalogue event.op event.outcome) = stage.awards
  increments : calls.filterMap (fun event ↦ incrementOf event.op event.outcome) = stage.increments
  accepted : ∀ event ∈ calls, ¬Rejected event.op event.outcome

/-- The invariant of runs. -/
structure Accounting {ι : Type} [DecidableEq ι] (catalogue : Catalogue) (start s : Store ι)
    (φ : ι → Stage) (trace : List (Call ι)) : Prop where
  holds : ∀ i, (φ i).Holds i s catalogue
  recorded : ∀ i, φ i ≠ .idle → φ i ≠ .broken → Recorded catalogue (boundary.openCalls i trace) (φ i)
  books : Books catalogue start s (awards catalogue trace) (increments trace)
  accepted : ∀ event ∈ boundary.committedCalls trace, ¬Rejected event.op event.outcome
  unchanged : ∀ entry ∈ stepsOf s trace, entry.1.op ≠ .commitTransaction →
    (∀ id, entry.1.op ≠ .deleteDocument id) → entry.2.committed = entry.1.before.committed

section Runs

variable {ι : Type} [DecidableEq ι] {i : ι} {catalogue : Catalogue} {start s s' : Store ι}
  {φ : ι → Stage} {trace : List (Call ι)} {op : Op} {o : Outcome GamificationError (Ans op)}
  {stage stage' : Stage} {calls : List (Call ι)}

omit [DecidableEq ι] in
/-- A call adds to what the transaction of its caller has recorded. -/
theorem Recorded.cons {before : Store ι} (h : Recorded catalogue calls stage)
    (awards : (awardOf catalogue op o).toList ++ stage.awards = stage'.awards)
    (increments : (incrementOf op o).toList ++ stage.increments = stage'.increments)
    (accepted : ¬Rejected op o) : Recorded catalogue (⟨before, i, op, o⟩ :: calls) stage' := by
  constructor
  · rw [← awards, ← h.awards, List.filterMap_cons]
    cases awardOf catalogue op o <;> rfl
  · rw [← increments, ← h.increments, List.filterMap_cons]
    cases incrementOf op o <;> rfl
  · intro event hevent
    rcases List.mem_cons.mp hevent with rfl | hearlier
    · exact accepted
    · exact h.accepted event hearlier

omit [DecidableEq ι] in
/-- The call that counts progress awards the mission that it completes. -/
theorem awardOf_count {userId : UserId} {mission : DailyMission} {row : MissionProgress} {target : ℤ}
    (known : mission ∈ catalogue.missions) :
    (awardOf catalogue (.incrementProgress userId mission.id target) (.returned (some row))).toList =
      if row.completed then [mission.award userId row] else [] := by
  have haward : awardOf catalogue (.incrementProgress userId mission.id target)
      (.returned (some row)) = if row.completed then
        (catalogue.missions.find? (·.id = mission.id)).map fun mission ↦ mission.award userId row
      else none := rfl
  rw [haward, Catalogue.find_of_mem known]
  split <;> rfl

/-- What the open transaction of a caller has recorded after its call. -/
theorem Recorded.step (h : stage ≠ .idle → stage ≠ .broken →
      Recorded catalogue (boundary.openCalls i trace) stage)
    (holds : stage.Holds i s catalogue) (next : Moves catalogue stage op o stage')
    (hidle : stage' ≠ .idle) (hbroken : stage' ≠ .broken) :
    Recorded catalogue (boundary.openCalls i (⟨s, i, op, o⟩ :: trace)) stage' := by
  have hcons : stage ≠ .idle → stage ≠ .broken → op ≠ .startTransaction →
      (awardOf catalogue op o).toList ++ stage.awards = stage'.awards →
      (incrementOf op o).toList ++ stage.increments = stage'.increments → ¬Rejected op o →
        Recorded catalogue (boundary.openCalls i (⟨s, i, op, o⟩ :: trace)) stage' := by
    intro hstage hstage' hop hawards hincrements haccepted
    rw [Boundary.openCalls_of_call hop]
    exact (h hstage hstage').cons hawards hincrements haccepted
  cases next with
  | outside => exact (hidle rfl).elim
  | rollback => exact (hidle rfl).elim
  | commit => exact (hidle rfl).elim
  | fail => exact (hbroken rfl).elim
  | start =>
    rw [Boundary.openCalls_of_start rfl]
    exact ⟨rfl, rfl, fun _ h ↦ (List.not_mem_nil h).elim⟩
  | conflict => exact hcons (by rintro ⟨⟩) (by rintro ⟨⟩) (by rintro ⟨⟩) rfl rfl (by rintro ⟨⟩)
  | insert => exact hcons (by rintro ⟨⟩) (by rintro ⟨⟩) (by rintro ⟨⟩) rfl rfl (by rintro ⟨⟩)
  | award => exact hcons (by rintro ⟨⟩) (by rintro ⟨⟩) (by rintro ⟨⟩) rfl rfl id
  | baseline known found => exact hcons (by rintro ⟨⟩) (by rintro ⟨⟩) (by rintro ⟨⟩) rfl rfl found
  | ignore => exact hcons (by rintro ⟨⟩) (by rintro ⟨⟩) (by rintro ⟨⟩) rfl rfl id
  | find => exact hcons (by rintro ⟨⟩) (by rintro ⟨⟩) (by rintro ⟨⟩) rfl rfl id
  | count =>
    refine hcons (by rintro ⟨⟩) (by rintro ⟨⟩) (by rintro ⟨⟩) ?_ rfl id
    rw [awardOf_count holds.1]
    exact List.append_nil _
  | pay => exact hcons (by rintro ⟨⟩) (by rintro ⟨⟩) (by rintro ⟨⟩) rfl rfl id

omit [DecidableEq ι] in
theorem Stage.Complete.ne_idle (h : stage.Complete) : stage ≠ .idle := by
  rintro rfl
  exact h

omit [DecidableEq ι] in
theorem Stage.Complete.ne_broken (h : stage.Complete) : stage ≠ .broken := by
  rintro rfl
  exact h

/-- The books after a call. -/
theorem Accounting.books_step (h : Accounting catalogue start s φ trace)
    (answers : (world ι catalogue).Answers GamificationError i op s o s')
    (next : Moves catalogue (φ i) op o stage') :
    Books catalogue start s' (awards catalogue (⟨s, i, op, o⟩ :: trace))
        (increments (⟨s, i, op, o⟩ :: trace)) ∧
      ∀ event ∈ boundary.committedCalls (⟨s, i, op, o⟩ :: trace),
        ¬Rejected event.op event.outcome := by
  unfold awards increments
  by_cases hcommit : op = .commitTransaction
  · subst hcommit
    rw [Boundary.committedCalls_of_commit rfl, List.filterMap_append, List.filterMap_append]
    have hholds := h.holds i
    have hrecorded := h.recorded i
    generalize φ i = stage at next hholds hrecorded
    cases next with
    | fail inside failed => exact (failed rfl).elim
    | outside outside => exact outside.elim
    | commit complete =>
      obtain ⟨hawards, hincrements, haccepted⟩ := hrecorded complete.ne_idle complete.ne_broken
      obtain ⟨result, now, heffect⟩ := answers.effect_of_sure Bool.false_ne_true
      cases heffect
      rw [hawards, hincrements]
      refine ⟨h.books.commit hholds complete, fun event hevent ↦ ?_⟩
      exact (List.mem_append.mp hevent).elim (haccepted event) (h.accepted event)
  · rw [Boundary.committedCalls_of_ne hcommit]
    refine ⟨?_, h.accepted⟩
    by_cases hdelete : ∃ id, op = .deleteDocument id
    · obtain ⟨id, rfl⟩ := hdelete
      have hholds := h.holds i
      generalize φ i = stage at next hholds
      cases next with
      | fail inside => exact (inside trivial).elim
      | outside =>
        rcases answers.unchanged_or_effect with rfl | ⟨result, now, heffect⟩
        · exact h.books
        · obtain ⟨after, hdeleted, heq⟩ := Option.map_eq_some_iff.mp heffect
          cases heq
          exact h.books.delete hholds hdeleted
    · exact h.books.of_committed
        (committed_of_answers answers hcommit fun id heq ↦ hdelete ⟨id, heq⟩)

/-- Every call of a request keeps the invariant. -/
theorem Accounting.step (h : Accounting catalogue start s φ trace)
    (answers : (world ι catalogue).Answers GamificationError i op s o s')
    (next : Moves catalogue (φ i) op o stage') :
    Accounting catalogue start s' (Function.update φ i stage') (⟨s, i, op, o⟩ :: trace) := by
  obtain ⟨hbooks, haccepted⟩ := h.books_step answers next
  refine ⟨fun j ↦ ?_, fun j hidle hbroken ↦ ?_, hbooks, haccepted, fun entry hentry ↦ ?_⟩
  · by_cases hj : j = i
    · subst hj
      rw [Function.update_self]
      exact (h.holds j).step answers next
    · rw [Function.update_of_ne hj]
      exact (h.holds j).persists ((h.holds i).others answers next hj)
  · by_cases hj : j = i
    · subst hj
      rw [Function.update_self] at hidle hbroken ⊢
      exact .step (h.recorded j) (h.holds j) next hidle hbroken
    · rw [Function.update_of_ne hj] at hidle hbroken ⊢
      rw [Boundary.openCalls_of_ne (Ne.symm hj)]
      exact h.recorded j hidle hbroken
  · rcases List.mem_cons.mp hentry with rfl | hearlier
    · exact committed_of_answers answers
    · exact h.unchanged entry hearlier

end Runs

/-- Rows of progress count up to the goal of their mission, and are completed there. -/
def ValidProgress {ι : Type} (catalogue : Catalogue) (s : Store ι) : Prop :=
  ∀ userId, ∀ mission ∈ catalogue.missions, ∀ row,
    s.committed (.progress userId mission.id) = some row →
      row.progress ≤ mission.goal ∧ (row.completed = true ↔ row.progress = mission.goal)

/-- The books at the start of a run. -/
theorem Books.start {ι : Type} {catalogue : Catalogue} {start : Store ι}
    (valid : ValidProgress catalogue start) : Books catalogue start start [] [] := by
  refine ⟨fun userId ↦ ?_, fun userId documentId milestoneType ↦ ?_, fun userId mission hmission ↦ ?_,
    fun _ h ↦ (List.not_mem_nil h).elim⟩
  · exact Option.map_id'.symm ▸ rfl
  · cases h : start.committed (.milestone userId documentId milestoneType) with
    | none => exact .inl ⟨rfl, rfl⟩
    | some row => exact .inr ⟨rfl, .inl (by rintro ⟨⟩)⟩
  · cases h : start.committed (.progress userId mission.id) with
    | none =>
      refine ⟨?_, ?_, rfl⟩
      · exact (Nat.zero_min _).symm
      · have hpos := mission.goal_pos
        exact ⟨by rintro ⟨⟩, fun heq ↦ absurd heq hpos.ne⟩
    | some row =>
      obtain ⟨hle, hcompleted⟩ := valid userId mission hmission row h
      exact ⟨(Nat.min_eq_left hle).symm, hcompleted, by simp⟩

def writer : UserId := ⟨"writer", by decide⟩

end MemoFlowApi.Gamification
