import Mathlib.Data.Int.Notation
import MemoFlowApi.Concurrency.Sessions
import MemoFlowApi.Sql.Tables
import MemoFlowApi.Sql.Transactions
import MemoFlowApi.Uuid

/-!
# Calls of the Gamification

Users, documents, milestones and mission progress, and the statements on them.  A unique index is
the key of its table, so an insert that meets a row under its key does nothing.
-/

namespace MemoFlowApi.Gamification

open Concurrency Sql

abbrev UserId := Uuid

abbrev DocumentId := Uuid

abbrev MissionId := Uuid

/-! ## Rows -/

def XP_PER_LEVEL : ℕ := 100

/-- What a row of `users` has earned. -/
structure UserRow where
  xp : ℕ
  level : ℕ
  deriving DecidableEq

/-- `xp + :delta` and the level that goes with it. -/
def UserRow.add (row : UserRow) (delta : ℕ) : UserRow where
  xp := row.xp + delta
  level := (row.xp + delta) / XP_PER_LEVEL + 1

structure MilestoneRow where
  xpAwarded : ℕ

/-- What a row of `mission_progress` counts. -/
structure MissionProgress where
  progress : ℕ
  completed : Bool
  deriving DecidableEq

structure MissionCriteria where
  event : String
  target : ℤ

structure DailyMission where
  id : MissionId
  xpReward : ℕ
  criteria : MissionCriteria
  /-- `YYYY-MM-DD`. -/
  activeDate : String

/-- The missions, under their primary key.  Nothing writes them. -/
structure Catalogue where
  missions : List DailyMission
  ids : (missions.map (·.id)).Nodup

structure AwardMilestoneData where
  userId : UserId
  documentId : DocumentId
  milestoneType : String
  xpAwarded : ℕ
  deriving DecidableEq

inductive Key where
  | user (id : UserId)
  | document (id : DocumentId)
  | milestone (userId : UserId) (documentId : DocumentId) (milestoneType : String)
  | progress (userId : UserId) (missionId : MissionId)
  deriving DecidableEq

abbrev Row : Key → Type
  | .user _ => UserRow
  | .document _ => Unit
  | .milestone _ _ _ => MilestoneRow
  | .progress _ _ => MissionProgress

abbrev AwardMilestoneData.key (data : AwardMilestoneData) : Key :=
  .milestone data.userId data.documentId data.milestoneType

abbrev Store (ι : Type) := Tables ι Key Row

/-! ## Calls -/

/-- What may be thrown. -/
inductive GamificationError where
  | error (message : String)
  /-- `EntityNotFoundError`. -/
  | entityNotFound
  /-- A statement failed. -/
  | queryFailed
  deriving DecidableEq

/-- What became of an insert with `ON CONFLICT DO NOTHING`. -/
inductive InsertResult where
  | inserted
  | conflict
  | foreignKeyViolation
  deriving DecidableEq

inductive Op where
  | now
  | findActiveOn (dateOnly : String)
  | startTransaction
  | commitTransaction
  | rollbackTransaction
  | insertMilestone (data : AwardMilestoneData)
  | addXp (userId : UserId) (delta : ℕ)
  | insertProgress (userId : UserId) (missionId : MissionId)
  | incrementProgress (userId : UserId) (missionId : MissionId) (target : ℤ)
  | findProgress (userId : UserId) (missionId : MissionId)
  | deleteDocument (id : DocumentId)
  deriving DecidableEq

abbrev Ans : Op → Type
  | .now => ℕ
  | .findActiveOn _ => List DailyMission
  | .startTransaction => Unit
  | .commitTransaction => Unit
  | .rollbackTransaction => Unit
  | .insertMilestone _ => InsertResult
  | .addXp _ _ => Option UserRow
  | .insertProgress _ _ => InsertResult
  | .incrementProgress _ _ _ => Option MissionProgress
  | .findProgress _ _ => Option MissionProgress
  | .deleteDocument _ => Unit

/-- The ends of a transaction. -/
abbrev boundary : Boundary Op := ⟨.startTransaction, .commitTransaction, .rollbackTransaction⟩

abbrev Async (α : Type) := Program Ans GamificationError α

/-- Await a call. -/
abbrev await (op : Op) : Async (Ans op) := Program.perform op

/-! ## Statements -/

section Answers

variable {ι : Type} [DecidableEq ι]

/-- The checks of foreign keys: whether the rows are there, which are then locked against deletion. -/
def references (i : ι) : List Key → Store ι → Option (Bool × Store ι)
  | [], s => some (true, s)
  | key :: keys, s =>
      if (s.view i key).isNone then some (false, s)
      else if grants : s.Grants i key .keyShare then
        references i keys (s.lock i key .keyShare grants)
      else none

/-- Insert a row that refers to others, `ON CONFLICT DO NOTHING`. -/
def insertOrIgnore (i : ι) (key : Key) (row : Row key) (keys : List Key) (s : Store ι) :
    Option (InsertResult × Store ι) :=
  if ¬s.Grants i key .update then none
  else if (s.view i key).isSome then some (.conflict, s)
  else (s.put i key .update LockMode.writes_update (some row)).bind fun inserted ↦
    (references i keys inserted).map fun found ↦
      if found.1 then (.inserted, found.2) else (.foreignKeyViolation, s)

/-- `UPDATE users SET xp = xp + :delta`. -/
def addXp (i : ι) (userId : UserId) (delta : ℕ) (s : Store ι) : Option (Option UserRow × Store ι) :=
  match s.view i (.user userId) with
  | none => some (none, s)
  | some row =>
    (s.put i (.user userId) .noKeyUpdate LockMode.writes_noKeyUpdate
      (some (row.add delta))).map fun s' ↦ (some (row.add delta), s')

def MissionProgress.increment (row : MissionProgress) (target : ℤ) : MissionProgress where
  progress := row.progress + 1
  completed := target ≤ row.progress + 1

/-- `UPDATE mission_progress SET progress = progress + 1 WHERE completed = false`. -/
def incrementProgress (i : ι) (userId : UserId) (missionId : MissionId) (target : ℤ) (s : Store ι) :
    Option (Option MissionProgress × Store ι) :=
  match s.view i (.progress userId missionId) with
  | none => some (none, s)
  | some row =>
    if row.completed then some (none, s)
    else (s.put i (.progress userId missionId) .noKeyUpdate LockMode.writes_noKeyUpdate
      (some (row.increment target))).map fun s' ↦ (some (row.increment target), s')

/-- A milestone of a document. -/
def ofDocument (id : DocumentId) : (key : Key) → Row key → Bool
  | .milestone _ documentId _, _ => documentId = id
  | _, _ => false

/-- Delete a document; its milestones go with it. -/
def deleteDocument (i : ι) (id : DocumentId) (s : Store ι) : Option (Store ι) :=
  if (s.view i (.document id)).isNone then some s
  else (s.put i (.document id) .update LockMode.writes_update none).bind fun deleted ↦
    (deleted.deleteAll i (deleted.scan i (ofDocument id))).map (·.commit i)

/-- The answer to a call and the state it leaves; `now` is a reading of the clock.  A call that waits
for a lock has none. -/
def answer (catalogue : Catalogue) (i : ι) (now : ℕ) : (op : Op) → Store ι → Option (Ans op × Store ι)
  | .now, s => some (now, s)
  | .findActiveOn dateOnly, s => some (catalogue.missions.filter (·.activeDate = dateOnly), s)
  | .startTransaction, s => some ((), s)
  | .commitTransaction, s => some ((), s.commit i)
  | .rollbackTransaction, s => some ((), s.rollback i)
  | .insertMilestone data, s =>
      insertOrIgnore i data.key ⟨data.xpAwarded⟩ [.user data.userId, .document data.documentId] s
  | .addXp userId delta, s => addXp i userId delta s
  | .insertProgress userId missionId, s =>
      if catalogue.missions.any (·.id = missionId) then
        insertOrIgnore i (.progress userId missionId) ⟨0, false⟩ [.user userId] s
      else some (.foreignKeyViolation, s)
  | .incrementProgress userId missionId target, s => incrementProgress i userId missionId target s
  | .findProgress userId missionId, s => some (s.view i (.progress userId missionId), s)
  | .deleteDocument id, s => (deleteDocument i id s).map fun s' ↦ ((), s')

/-- Statements may fail; what became of the end of a transaction is known. -/
def mayFail : Op → Bool
  | .now | .commitTransaction | .rollbackTransaction => false
  | _ => true

/-- The tables as sessions. -/
abbrev sessions (ι : Type) [DecidableEq ι] (catalogue : Catalogue) : Sessions ι (Store ι) ℕ Ans :=
  ⟨answer catalogue, mayFail⟩

/-- The world of a system of requests. -/
abbrev world (ι : Type) [DecidableEq ι] (catalogue : Catalogue) : World ι (Store ι) Ans :=
  (sessions ι catalogue).world

end Answers

end MemoFlowApi.Gamification
