import MemoFlowApi.Calendar.Utc
import MemoFlowApi.Gamification.Ports

/-!
# Awards

The two ways of earning experience points, and the events that lead to them.
-/

namespace MemoFlowApi.Gamification

open Calendar Concurrency

/-! ## The repositories -/

def awardOnceInTransaction (data : AwardMilestoneData) : Async (Option UserRow) := do
  match ← await (.insertMilestone data) with
  | .conflict => return none
  | .foreignKeyViolation => .throw .queryFailed
  | .inserted =>
    match ← await (.addXp data.userId data.xpAwarded) with
    | none =>
      .throw (.error s!"awardOnce: xp update affected no rows for user {data.userId}")
    | some user => return some user

/-- Award a milestone; `none` when it was awarded before. -/
def awardOnce (data : AwardMilestoneData) : Async (Option UserRow) :=
  boundary.transaction fun _ ↦ awardOnceInTransaction data

/-- `user` is given by the call that completes the mission. -/
structure IncrementMissionProgressResult where
  progress : MissionProgress
  user : Option UserRow

def incrementInTransaction (userId : UserId) (missionId : MissionId) (target : ℤ) (xpReward : ℕ) :
    Async IncrementMissionProgressResult := do
  if (← await (.insertProgress userId missionId)) = .foreignKeyViolation then
    .throw .queryFailed
  else
    match ← await (.incrementProgress userId missionId target) with
    | none =>
      match ← await (.findProgress userId missionId) with
      | none => .throw .entityNotFound
      | some existing => return ⟨existing, none⟩
    | some progress =>
      if progress.completed = false then return ⟨progress, none⟩
      else
        match ← await (.addXp userId xpReward) with
        | none => .throw (.error s!"incrementAtomic: xp update affected no rows for user {userId}")
        | some user => return ⟨progress, some user⟩

def incrementAtomic (userId : UserId) (missionId : MissionId) (target : ℤ) (xpReward : ℕ) :
    Async IncrementMissionProgressResult :=
  boundary.transaction fun _ ↦ incrementInTransaction userId missionId target xpReward

/-! ## The use case -/

def DOCUMENT_CREATED_EVENT : String := "document.created"

def SECTION_CREATED_EVENT : String := "section.created"

def SECTION_UPDATED_EVENT : String := "section.updated"

structure GamificationEventPayload where
  userId : UserId
  documentId : DocumentId
  wordCount : Option ℕ := none

def SECTION_GOAL_WORD_COUNT : ℕ := 100

structure MilestoneRule where
  event : String
  milestoneType : String
  xp : ℕ
  condition : GamificationEventPayload → Bool := fun _ ↦ true

def MILESTONE_RULES : List MilestoneRule :=
  [{ event := DOCUMENT_CREATED_EVENT, milestoneType := "document_created", xp := 50 },
    { event := SECTION_CREATED_EVENT, milestoneType := "first_section", xp := 25 },
    { event := SECTION_UPDATED_EVENT, milestoneType := "section_goal", xp := 25,
      condition := fun payload ↦ SECTION_GOAL_WORD_COUNT ≤ payload.wordCount.getD 0 }]

def MilestoneRule.data (rule : MilestoneRule) (payload : GamificationEventPayload) :
    AwardMilestoneData where
  userId := payload.userId
  documentId := payload.documentId
  milestoneType := rule.milestoneType
  xpAwarded := rule.xp

/-- Run a function on each element in turn. -/
def forEach {α β : Type} (run : α → Async β) : List α → Async Unit
  | [] => return ()
  | value :: values => do
    let _ ← run value
    forEach run values

def applyMilestoneRules (event : String) (payload : GamificationEventPayload) : Async Unit :=
  forEach (fun rule ↦ awardOnce (rule.data payload))
    (MILESTONE_RULES.filter fun rule ↦ rule.event = event ∧ rule.condition payload)

def applyMissionProgress (event : String) (payload : GamificationEventPayload) : Async Unit := do
  let now ← await .now
  let activeMissions ← await (.findActiveOn (String.ofList ((toISOString now).take 10)))
  forEach (fun mission ↦
      incrementAtomic payload.userId mission.id mission.criteria.target mission.xpReward)
    (activeMissions.filter (·.criteria.event = event))

/-- React to an event of the documents. -/
def execute (event : String) (payload : GamificationEventPayload) : Async Unit := do
  applyMilestoneRules event payload
  applyMissionProgress event payload

/-- What may happen: an event, or a document that is deleted. -/
inductive Request where
  | event (event : String) (payload : GamificationEventPayload)
  | deletion (documentId : DocumentId)

def Request.program : Request → Async Unit
  | event name payload => execute name payload
  | deletion documentId => await (.deleteDocument documentId)

end MemoFlowApi.Gamification
