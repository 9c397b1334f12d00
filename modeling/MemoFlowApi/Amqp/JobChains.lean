import Mathlib.Data.Nat.Notation
import Mathlib.Logic.Relation
import MemoFlowApi.Js.Promises

/-!
# The Job Chains of the Results Consumer

`runInJobOrder` chains the handling of a message to the promise of the message before it on the same
job.  The calls are numbered in their order; the promises of a call carry its number.
-/

namespace MemoFlowApi.Amqp

open Js

variable {κ ε : Type}

/-- The promises of a call of `runInJobOrder`: `previous.then(work)`, its `.catch(…)`, the `next` that
`.finally(…)` makes of it, the promise that its handler waits for, and the one `work()` returned. -/
inductive Link where
  | result
  | worked
  | caught
  | waited
  | next
  deriving DecidableEq

/-- A promise. -/
structure Ref where
  task : ℕ
  link : Link
  deriving DecidableEq

/-- The callbacks. -/
inductive Handler (κ ε : Type) where
  | work (task : ℕ)
  | logFailure (jobId : κ) (task : ℕ)
  | cleanup (jobId : κ) (task : ℕ)
  /-- `finally` hands on the settlement that it was called with. -/
  | handOn (task : ℕ) (settlement : Settlement ε)
  deriving DecidableEq

/-- The consumer with the event loop it runs in. -/
structure Consumer (κ ε : Type) where
  promises : Promises ε (Handler κ ε) Ref
  jobChains : κ → Option Ref
  /-- The number of calls of `runInJobOrder`. -/
  count : ℕ
  /-- The tasks whose `work` was called, oldest first. -/
  started : List ℕ
  /-- The failures that were logged, oldest first. -/
  logged : List (κ × ε)

namespace Consumer

/-- A consumer that has received nothing. -/
def idle : Consumer κ ε where
  promises := Promises.fresh
  jobChains _ := none
  count := 0
  started := []
  logged := []

variable [DecidableEq κ] (s : Consumer κ ε)

/-- Where there is no chain, the work follows `Promise.resolve()`, which is settled. -/
def runInJobOrder (jobId : κ) : Consumer κ ε :=
  let task := s.count
  let promises :=
    match s.jobChains jobId with
    | some previous => s.promises.subscribe previous (.call (.work task))
    | none => s.promises.enqueue (.react (.call (.work task)) .fulfilled)
  { s with
    promises := (promises.subscribe ⟨task, .worked⟩ (.call (.logFailure jobId task))).subscribe
      ⟨task, .caught⟩ (.call (.cleanup jobId task))
    jobChains := Function.update s.jobChains jobId (some ⟨task, .next⟩)
    count := s.count + 1 }

/-- The run of a callback.  The work is an `async` function: it returns a promise, with which the
chain's own is resolved. -/
def call : Handler κ ε → Settlement ε → Consumer κ ε
  | .work task, .fulfilled =>
    { s with
      promises := s.promises.enqueue (.adopt ⟨task, .result⟩ ⟨task, .worked⟩)
      started := s.started ++ [task] }
  | .work task, .rejected reason =>
    { s with promises := s.promises.settle ⟨task, .worked⟩ (.rejected reason) }
  | .logFailure _ task, .fulfilled =>
    { s with promises := s.promises.settle ⟨task, .caught⟩ .fulfilled }
  | .logFailure jobId task, .rejected reason =>
    { s with
      promises := s.promises.settle ⟨task, .caught⟩ .fulfilled
      logged := s.logged ++ [(jobId, reason)] }
  | .cleanup jobId task, settlement =>
    { s with
      jobChains := if s.jobChains jobId = some ⟨task, .next⟩ then
          Function.update s.jobChains jobId none
        else s.jobChains
      promises := (s.promises.enqueue (.react (.call (.handOn task settlement)) .fulfilled)).enqueue
        (.adopt ⟨task, .waited⟩ ⟨task, .next⟩) }
  | .handOn task settlement, _ =>
    { s with promises := s.promises.settle ⟨task, .waited⟩ settlement }

/-- The run of a job of the queue. -/
def runJob : Job ε (Handler κ ε) Ref → Consumer κ ε
  | .react (.call handler) settlement => s.call handler settlement
  | .react (.resolve target) settlement =>
    { s with promises := s.promises.settle target settlement }
  | .adopt source target =>
    { s with promises := s.promises.subscribe source (.resolve target) }

/-- The end of a task's asynchronous work. -/
def finish (task : ℕ) (settlement : Settlement ε) : Consumer κ ε :=
  { s with promises := s.promises.settle ⟨task, .result⟩ settlement }

/-- The consumer after a job was taken from the queue. -/
def withQueue (queue : List (Job ε (Handler κ ε) Ref)) : Consumer κ ε :=
  { s with promises := s.promises.withQueue queue }

/-- The event loop runs the oldest job. -/
def runNext : Consumer κ ε :=
  match s.promises.queue with
  | [] => s
  | job :: rest => (s.withQueue rest).runJob job

/-- A step that runs a job.  Jobs run in the order of the queue; here they may in any. -/
inductive JobStep : Consumer κ ε → Consumer κ ε → Prop
  | run {s : Consumer κ ε} {before after job} (queue : s.promises.queue = before ++ job :: after) :
      JobStep s ((s.withQueue (before ++ after)).runJob job)

/-- The steps of the consumer, where `jobOf` is the sequence of the arriving tasks' jobs. -/
inductive Step (jobOf : ℕ → κ) : Consumer κ ε → Consumer κ ε → Prop
  | arrive {s : Consumer κ ε} : Step jobOf s (s.runInJobOrder (jobOf s.count))
  | finish {s : Consumer κ ε} {task settlement} (started : task ∈ s.started) :
      Step jobOf s (s.finish task settlement)
  | job {s s' : Consumer κ ε} (job : JobStep s s') : Step jobOf s s'

/-- The states of a consumer. -/
def Reachable (jobOf : ℕ → κ) : Consumer κ ε → Prop := Relation.ReflTransGen (Step jobOf) idle

/-- The task was started and has completed or failed. -/
def Finished (task : ℕ) : Prop :=
  task ∈ s.started ∧ ∃ settlement, s.promises.state ⟨task, .result⟩ = .settled settlement

/-- The tasks that arrived for a job, oldest first. -/
def arrivals (jobOf : ℕ → κ) (jobId : κ) : List ℕ :=
  (List.range s.count).filter fun task ↦ jobOf task = jobId

end Consumer

end MemoFlowApi.Amqp
