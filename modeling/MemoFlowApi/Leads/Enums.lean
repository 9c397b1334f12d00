import Mathlib.Algebra.GroupWithZero.Nat
import Mathlib.Data.List.Nodup

/-!
# Enumerations of Leads

What leads answer, how they are scored, and what is suggested for them.
-/

namespace MemoFlowApi.Leads

/-- A uuid, as the number that its bytes write. -/
abbrev UserId := Fin (2 ^ 128)

/-- With this instance an identifier written as a number holds no proof of its own. -/
instance neZero_userIds : NeZero (2 ^ 128) := ⟨by decide⟩

inductive Persona where
  | apprentice
  | intern
  | student
  | other
  deriving DecidableEq

inductive DeliverableType where
  | thesis
  | apprenticeshipReport
  | internshipReport
  | other
  deriving DecidableEq

inductive AcademicLevel where
  | l3
  | m1
  | m2
  | other
  deriving DecidableEq

inductive WorkTool where
  | trello
  | notion
  | teams
  | slack
  | email
  | drive
  | other
  deriving DecidableEq

inductive Blocker where
  | gettingStarted
  | findingPastWork
  | structuring
  | writing
  | lackOfTime
  deriving DecidableEq

inductive AcquisitionChannel where
  | friend
  | school
  | tiktok
  | instagram
  | linkedin
  | google
  | other
  deriving DecidableEq

inductive LeadSignalType where
  | exportPaywallHit
  deriving DecidableEq

inductive LeadTier where
  | hot
  | warm
  | cold
  deriving DecidableEq

inductive SuggestedAction where
  | interviewAndProOffer
  | scheduledEmails
  | newsletter
  | noOutreach
  deriving DecidableEq

inductive ScoreRule where
  | dueWithin3Months
  | dueWithin3To6Months
  | personaApprentice
  | personaIntern
  | citedTrello
  | connectedTool
  | exportPaywallHit
  deriving DecidableEq

/-- An enumeration with all its values, as `Object.values` lists them. -/
class Enumeration (κ : Type) where
  values : List κ
  nodup : values.Nodup
  mem_values : ∀ value, value ∈ values

attribute [simp] Enumeration.mem_values

instance : Enumeration Persona where
  values := [.apprentice, .intern, .student, .other]
  nodup := by decide
  mem_values value := by cases value <;> simp

instance : Enumeration DeliverableType where
  values := [.thesis, .apprenticeshipReport, .internshipReport, .other]
  nodup := by decide
  mem_values value := by cases value <;> simp

instance : Enumeration AcademicLevel where
  values := [.l3, .m1, .m2, .other]
  nodup := by decide
  mem_values value := by cases value <;> simp

instance : Enumeration WorkTool where
  values := [.trello, .notion, .teams, .slack, .email, .drive, .other]
  nodup := by decide
  mem_values value := by cases value <;> simp

instance : Enumeration Blocker where
  values := [.gettingStarted, .findingPastWork, .structuring, .writing, .lackOfTime]
  nodup := by decide
  mem_values value := by cases value <;> simp

instance : Enumeration AcquisitionChannel where
  values := [.friend, .school, .tiktok, .instagram, .linkedin, .google, .other]
  nodup := by decide
  mem_values value := by cases value <;> simp

instance : Enumeration LeadSignalType where
  values := [.exportPaywallHit]
  nodup := by decide
  mem_values value := by cases value; simp

instance : Enumeration LeadTier where
  values := [.hot, .warm, .cold]
  nodup := by decide
  mem_values value := by cases value <;> simp

instance : Enumeration SuggestedAction where
  values := [.interviewAndProOffer, .scheduledEmails, .newsletter, .noOutreach]
  nodup := by decide
  mem_values value := by cases value <;> simp

end MemoFlowApi.Leads
