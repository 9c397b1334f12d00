import Mathlib.Data.List.Induction
import Mathlib.Logic.Function.Basic
import MemoFlowApi.Leads.Enums

/-!
# Marketing Consent

Two statements keep the time of the last change of a consent: one inserts or replaces the answers of a
user, the other changes the consent alone.  In the order of their commits they form a history, and the
stored time is that of its last operation that changed the stored value.
-/

namespace MemoFlowApi.Leads

variable {Time : Type}

/-- What a user submits. -/
structure SubmitOnboardingData where
  userId : UserId
  persona : Persona
  deliverableType : DeliverableType
  /-- The text of a date. -/
  dueDate : List Char
  academicLevel : AcademicLevel
  schoolName : Option String
  workTools : List WorkTool
  blockers : List Blocker
  acquisitionChannel : AcquisitionChannel
  marketingOptIn : Bool

/-- A row of `onboarding_profiles`. -/
structure OnboardingProfile (Time : Type) where
  userId : UserId
  persona : Persona
  deliverableType : DeliverableType
  dueDate : List Char
  academicLevel : AcademicLevel
  schoolName : Option String
  workTools : List WorkTool
  blockers : List Blocker
  acquisitionChannel : AcquisitionChannel
  marketingOptIn : Bool
  marketingOptInAt : Time
  submittedAt : Time
  createdAt : Time
  updatedAt : Time

/-- The row that an `INSERT` proposes. -/
def SubmitOnboardingData.toRow (data : SubmitOnboardingData) (now : Time) : OnboardingProfile Time where
  userId := data.userId
  persona := data.persona
  deliverableType := data.deliverableType
  dueDate := data.dueDate
  academicLevel := data.academicLevel
  schoolName := data.schoolName
  workTools := data.workTools
  blockers := data.blockers
  acquisitionChannel := data.acquisitionChannel
  marketingOptIn := data.marketingOptIn
  marketingOptInAt := now
  submittedAt := now
  createdAt := now
  updatedAt := now

/-- `DO UPDATE` of a row with the proposed one, `EXCLUDED`. -/
def OnboardingProfile.replace (row excluded : OnboardingProfile Time) : OnboardingProfile Time :=
  { row with
    persona := excluded.persona
    deliverableType := excluded.deliverableType
    dueDate := excluded.dueDate
    academicLevel := excluded.academicLevel
    schoolName := excluded.schoolName
    workTools := excluded.workTools
    blockers := excluded.blockers
    acquisitionChannel := excluded.acquisitionChannel
    marketingOptIn := excluded.marketingOptIn
    marketingOptInAt :=
      if row.marketingOptIn ≠ excluded.marketingOptIn then excluded.marketingOptInAt
      else row.marketingOptInAt
    submittedAt := excluded.submittedAt
    updatedAt := excluded.updatedAt }

/-- The `UPDATE` of the consent; the right sides read the stored row. -/
def OnboardingProfile.consent (row : OnboardingProfile Time) (optIn : Bool) (now : Time) :
    OnboardingProfile Time :=
  { row with
    marketingOptInAt := if row.marketingOptIn ≠ optIn then now else row.marketingOptInAt
    marketingOptIn := optIn
    updatedAt := now }

/-- The tables, by their primary key: the profiles, and the stored scores of some type. -/
structure LeadTables (Time Score : Type) where
  profiles : UserId → Option (OnboardingProfile Time)
  scores : UserId → Option Score

variable {Score : Type}

namespace LeadTables

/-- `INSERT … ON CONFLICT (user_id) DO UPDATE … RETURNING`. -/
def upsert (tables : LeadTables Time Score) (data : SubmitOnboardingData) (now : Time) :
    OnboardingProfile Time × LeadTables Time Score :=
  let stored := match tables.profiles data.userId with
    | none => data.toRow now
    | some row => row.replace (data.toRow now)
  (stored, { tables with profiles := Function.update tables.profiles data.userId (some stored) })

/-- `UPDATE … WHERE user_id = $1 RETURNING`; no row is returned where none is updated. -/
def updateConsent (tables : LeadTables Time Score) (userId : UserId) (optIn : Bool) (now : Time) :
    Option (OnboardingProfile Time) × LeadTables Time Score :=
  match tables.profiles userId with
  | none => (none, tables)
  | some row =>
    (some (row.consent optIn now),
      { tables with
        profiles := Function.update tables.profiles userId (some (row.consent optIn now)) })

end LeadTables

def consentConflict : String := "Submit onboarding before changing marketing consent"

/-- The use case: the updated profile, or the message of a conflict. -/
def UpdateConsentUseCase.execute (tables : LeadTables Time Score) (userId : UserId) (optIn : Bool)
    (now : Time) : Except String (OnboardingProfile Time) × LeadTables Time Score :=
  match tables.updateConsent userId optIn now with
  | (some profile, tables) => (.ok profile, tables)
  | (none, tables) => (.error consentConflict, tables)

/-! ## Histories -/

/-- A committed operation of some user; a recalculation stores a score. -/
inductive LeadChange (Time Score : Type) where
  | upsert (data : SubmitOnboardingData) (now : Time)
  | updateConsent (userId : UserId) (optIn : Bool) (now : Time)
  | saveScore (userId : UserId) (score : Score)

namespace LeadChange

/-- The value that an operation of a user gives to the consent, and its time. -/
def choice (userId : UserId) : LeadChange Time Score → Option (Bool × Time)
  | upsert data now => if data.userId = userId then some (data.marketingOptIn, now) else none
  | updateConsent user optIn now => if user = userId then some (optIn, now) else none
  | saveScore _ _ => none

/-- The operation submits answers of a user. -/
def IsUpsert (userId : UserId) : LeadChange Time Score → Prop
  | upsert data _ => data.userId = userId
  | _ => False

def apply (tables : LeadTables Time Score) : LeadChange Time Score → LeadTables Time Score
  | upsert data now => (tables.upsert data now).2
  | updateConsent userId optIn now => (tables.updateConsent userId optIn now).2
  | saveScore userId score => { tables with scores := Function.update tables.scores userId (some score) }

end LeadChange

def emptyTables : LeadTables Time Score := ⟨fun _ ↦ none, fun _ ↦ none⟩

/-- The tables after a history. -/
def tablesAfter (history : List (LeadChange Time Score)) : LeadTables Time Score :=
  history.foldl LeadChange.apply emptyTables

/-- What a user has stored as the consent. -/
def storedOptIn (tables : LeadTables Time Score) (userId : UserId) : Option Bool :=
  (tables.profiles userId).map (·.marketingOptIn)

/-- An operation of a user writes the consent: it submits answers, or there are answers. -/
def Writes (userId : UserId) (before : List (LeadChange Time Score)) (change : LeadChange Time Score)
    (optIn : Bool) (time : Time) : Prop :=
  change.choice userId = some (optIn, time) ∧
    (change.IsUpsert userId ∨ storedOptIn (tablesAfter before) userId ≠ none)

/-- The operation after `before` is the last one whose value differed from the stored one. -/
def LastChanged (userId : UserId) (history : List (LeadChange Time Score)) (optIn : Bool) (time : Time) :
    Prop :=
  ∃ before change after, history = before ++ change :: after ∧ Writes userId before change optIn time ∧
    storedOptIn (tablesAfter before) userId ≠ some optIn ∧
    ∀ earlier later next value at', after = earlier ++ next :: later →
      next.choice userId = some (value, at') →
        storedOptIn (tablesAfter (before ++ change :: earlier)) userId = some value

/-- The operation after `before` is the last one that wrote the consent. -/
def LastWritten (userId : UserId) (history : List (LeadChange Time Score)) (optIn : Bool) : Prop :=
  ∃ before change after time, history = before ++ change :: after ∧
    Writes userId before change optIn time ∧ ∀ later ∈ after, later.choice userId = none

section History

variable {userId : UserId} {history : List (LeadChange Time Score)} {change : LeadChange Time Score}
  {row row' : OnboardingProfile Time} {optIn value : Bool} {time now : Time}

theorem choice_upsert {data : SubmitOnboardingData} :
    (LeadChange.upsert data now : LeadChange Time Score).choice userId = some (optIn, time) ↔
      data.userId = userId ∧ data.marketingOptIn = optIn ∧ now = time := by
  simp [LeadChange.choice]

theorem choice_updateConsent {user : UserId} :
    (LeadChange.updateConsent user value now : LeadChange Time Score).choice userId = some (optIn, time) ↔
      user = userId ∧ value = optIn ∧ now = time := by
  simp [LeadChange.choice]

theorem tablesAfter_concat (history : List (LeadChange Time Score)) (change : LeadChange Time Score) :
    tablesAfter (history ++ [change]) = change.apply (tablesAfter history) := List.foldl_concat ..

theorem storedOptIn_eq_none {tables : LeadTables Time Score} :
    storedOptIn tables userId = none ↔ tables.profiles userId = none := Option.map_eq_none_iff

/-- An operation that is not the user's leaves the profile alone. -/
theorem profiles_of_choice_none {tables : LeadTables Time Score} (h : change.choice userId = none) :
    (change.apply tables).profiles userId = tables.profiles userId := by
  cases change with
  | upsert data now =>
    have hne : userId ≠ data.userId := by
      rintro rfl
      simp [LeadChange.choice] at h
    exact Function.update_of_ne hne _ _
  | updateConsent user optIn now =>
    have hne : userId ≠ user := by
      rintro rfl
      simp [LeadChange.choice] at h
    cases hstored : tables.profiles user with
    | none => simp [LeadChange.apply, LeadTables.updateConsent, hstored]
    | some row =>
      simp only [LeadChange.apply, LeadTables.updateConsent, hstored]
      exact Function.update_of_ne hne _ _
  | saveScore user score => rfl

/-- Both statements keep the time of an unchanged consent, and set it for a new one. -/
theorem profiles_of_writes (hwrites : Writes userId history change optIn time) :
    ∃ row, (change.apply (tablesAfter history)).profiles userId = some row ∧ row.marketingOptIn = optIn ∧
      (storedOptIn (tablesAfter history) userId ≠ some optIn → row.marketingOptInAt = time) ∧
      ∀ old, (tablesAfter history).profiles userId = some old → old.marketingOptIn = optIn →
        row.marketingOptInAt = old.marketingOptInAt := by
  obtain ⟨hchoice, heffective⟩ := hwrites
  cases change with
  | saveScore user score => cases hchoice
  | upsert data now =>
    obtain ⟨rfl, rfl, rfl⟩ := choice_upsert.mp hchoice
    refine ⟨_, Function.update_self _ _ _, ?_⟩
    cases hstored : (tablesAfter history).profiles data.userId with
    | none => simp [SubmitOnboardingData.toRow]
    | some old =>
      by_cases hsame : old.marketingOptIn = data.marketingOptIn
      · simp [storedOptIn, hstored, OnboardingProfile.replace, SubmitOnboardingData.toRow, hsame]
      · simp [OnboardingProfile.replace, SubmitOnboardingData.toRow, hsame]
  | updateConsent user optIn now =>
    obtain ⟨rfl, rfl, rfl⟩ := choice_updateConsent.mp hchoice
    have hrow := heffective.resolve_left id
    cases hstored : (tablesAfter history).profiles user with
    | none => exact absurd (storedOptIn_eq_none.mpr hstored) hrow
    | some old =>
      refine ⟨old.consent optIn now, ?_, rfl, ?_, ?_⟩
      · simp only [LeadChange.apply, LeadTables.updateConsent, hstored]
        exact Function.update_self _ _ _
      · intro hchanged
        have hdiffers : old.marketingOptIn ≠ optIn := by
          simpa [storedOptIn, hstored] using hchanged
        exact if_pos hdiffers
      · intro old' hold' hsame
        obtain rfl := Option.some.inj hold'
        simp [OnboardingProfile.consent, hsame]

/-- An operation of the user that writes nothing finds no profile. -/
theorem eq_none_of_not_writes (hchoice : change.choice userId = some (optIn, time))
    (h : ¬Writes userId history change optIn time) :
    (tablesAfter history).profiles userId = none ∧
      change.apply (tablesAfter history) = tablesAfter history := by
  unfold Writes at h
  simp only [hchoice, true_and, not_or, not_not, storedOptIn_eq_none] at h
  obtain ⟨hkind, hnone⟩ := h
  refine ⟨hnone, ?_⟩
  cases change with
  | saveScore user score => cases hchoice
  | upsert data now =>
    exact absurd (choice_upsert.mp hchoice).1 hkind
  | updateConsent user optIn now =>
    obtain ⟨rfl, rfl, rfl⟩ := choice_updateConsent.mp hchoice
    simp only [LeadChange.apply, LeadTables.updateConsent, hnone]

/-- A later operation that writes no other value leaves the last change where it was. -/
theorem LastChanged.concat (h : LastChanged userId history optIn time)
    (hsame : ∀ value at', change.choice userId = some (value, at') →
      storedOptIn (tablesAfter history) userId = some value) :
    LastChanged userId (history ++ [change]) optIn time := by
  obtain ⟨before, last, after, rfl, hwrites, hdiffers, hlater⟩ := h
  refine ⟨before, last, after ++ [change], by simp, hwrites, hdiffers, ?_⟩
  intro earlier later next value at' heq hchoice
  rcases List.eq_nil_or_concat later with rfl | ⟨later, other, rfl⟩
  · obtain ⟨rfl, hnext⟩ := List.append_inj' heq rfl
    obtain rfl := List.singleton_inj.mp hnext
    exact hsame value at' hchoice
  · have heq' : after ++ [change] = (earlier ++ next :: later) ++ [other] := by simpa using heq
    exact hlater earlier later next value at' (List.append_inj' heq' rfl).1 hchoice

theorem LastWritten.concat (h : LastWritten userId history optIn)
    (hchoice : change.choice userId = none) : LastWritten userId (history ++ [change]) optIn := by
  obtain ⟨before, last, after, at', rfl, hwrites, hlater⟩ := h
  refine ⟨before, last, after ++ [change], at', by simp, hwrites, ?_⟩
  intro later hmem
  rcases List.mem_append.mp hmem with hmem | hmem
  · exact hlater later hmem
  · rwa [List.mem_singleton.mp hmem]

/-- What is stored as the consent of a user. -/
theorem stored_consent (userId : UserId) (history : List (LeadChange Time Score)) :
    ∀ row, (tablesAfter history).profiles userId = some row →
      LastWritten userId history row.marketingOptIn ∧
        LastChanged userId history row.marketingOptIn row.marketingOptInAt := by
  induction history using List.reverseRecOn with
  | nil =>
    intro row hrow
    cases hrow
  | append_singleton history change ih =>
    intro row hrow
    rw [tablesAfter_concat] at hrow
    cases hchoice : change.choice userId with
    | none =>
      rw [profiles_of_choice_none hchoice] at hrow
      obtain ⟨hwritten, hchanged⟩ := ih row hrow
      refine ⟨hwritten.concat hchoice, hchanged.concat fun value at' hvalue ↦ ?_⟩
      rw [hchoice] at hvalue
      cases hvalue
    | some written =>
      obtain ⟨optIn, time⟩ := written
      by_cases hwrites : Writes userId history change optIn time
      · obtain ⟨row', hrow', rfl, hnew, hold⟩ := profiles_of_writes hwrites
        obtain rfl := Option.some.inj (hrow'.symm.trans hrow)
        refine ⟨⟨history, change, [], time, rfl, hwrites, by simp⟩, ?_⟩
        by_cases hsame : storedOptIn (tablesAfter history) userId = some row'.marketingOptIn
        · obtain ⟨old, holdRow, holdValue⟩ := Option.map_eq_some_iff.mp hsame
          obtain ⟨-, hchanged⟩ := ih old holdRow
          rw [hold old holdRow holdValue, ← holdValue]
          refine hchanged.concat fun value at' hvalue ↦ ?_
          rw [hchoice] at hvalue
          cases hvalue
          exact hsame
        · rw [hnew hsame]
          refine ⟨history, change, [], rfl, hwrites, hsame, fun earlier later next value at' heq ↦ ?_⟩
          exact absurd heq (by simp)
      · obtain ⟨hnone, htables⟩ := eq_none_of_not_writes hchoice hwrites
        rw [htables, hnone] at hrow
        cases hrow

/-- A user has a profile from the first upsert on. -/
theorem profile_eq_none_iff (userId : UserId) (history : List (LeadChange Time Score)) :
    (tablesAfter history).profiles userId = none ↔ ∀ change ∈ history, ¬change.IsUpsert userId := by
  induction history using List.reverseRecOn with
  | nil => exact ⟨fun _ change hmem ↦ absurd hmem (List.not_mem_nil), fun _ ↦ rfl⟩
  | append_singleton history change ih =>
    have hforall : (∀ other ∈ history ++ [change], ¬other.IsUpsert userId) ↔
        (∀ other ∈ history, ¬other.IsUpsert userId) ∧ ¬change.IsUpsert userId := by
      simp [or_imp, forall_and]
    rw [tablesAfter_concat, hforall, ← ih]
    cases change with
    | upsert data now =>
      by_cases huser : data.userId = userId
      · subst huser
        simp [LeadChange.apply, LeadTables.upsert, LeadChange.IsUpsert]
      · have hchoice : (LeadChange.upsert data now : LeadChange Time Score).choice userId = none :=
          if_neg huser
        rw [profiles_of_choice_none hchoice]
        exact (and_iff_left huser).symm
    | updateConsent user optIn now =>
      refine Iff.trans ?_ (and_iff_left id).symm
      by_cases huser : user = userId
      · subst huser
        cases hstored : (tablesAfter history).profiles user with
        | none => simp [LeadChange.apply, LeadTables.updateConsent, hstored]
        | some row => simp [LeadChange.apply, LeadTables.updateConsent, hstored]
      · have hchoice : (LeadChange.updateConsent user optIn now : LeadChange Time Score).choice userId =
            none := if_neg huser
        rw [profiles_of_choice_none hchoice]
    | saveScore user score => exact (and_iff_left id).symm

/-- What an `updateConsent` that finds a profile changes. -/
theorem updateConsent_eq_some {tables tables' : LeadTables Time Score}
    (h : tables.updateConsent userId optIn now = (some row', tables')) :
    ∃ row, tables.profiles userId = some row ∧ row' = row.consent optIn now ∧
      tables' = { tables with profiles := Function.update tables.profiles userId (some row') } := by
  unfold LeadTables.updateConsent at h
  cases hstored : tables.profiles userId with
  | none =>
    simp only [hstored] at h
    cases h
  | some row =>
    simp only [hstored] at h
    obtain ⟨hrow, htables⟩ := Prod.mk.inj h
    obtain rfl := Option.some.inj hrow
    exact ⟨row, rfl, rfl, htables.symm⟩

/-- The request of a user without answers is a conflict that changes nothing. -/
theorem execute_of_no_upsert (h : ∀ change ∈ history, ¬change.IsUpsert userId) :
    UpdateConsentUseCase.execute (tablesAfter history) userId optIn now =
      (.error consentConflict, tablesAfter history) := by
  have hprofile := (profile_eq_none_iff userId history).mpr h
  unfold UpdateConsentUseCase.execute LeadTables.updateConsent
  simp only [hprofile]

end History

/-- Over every history, of any users, the stored consent is the last one written and its time is that
of the last operation that changed it; a consent without answers changes nothing, and one with answers
changes no answer and no score. -/
theorem consent_history (userId : UserId) (history : List (LeadChange Time Score)) :
    (∀ row, (tablesAfter history).profiles userId = some row →
      LastWritten userId history row.marketingOptIn ∧
        LastChanged userId history row.marketingOptIn row.marketingOptInAt) ∧
      ((tablesAfter history).profiles userId = none ↔ ∀ change ∈ history, ¬change.IsUpsert userId) ∧
      ∀ optIn now,
        ((∀ change ∈ history, ¬change.IsUpsert userId) →
          (tablesAfter history).updateConsent userId optIn now = (none, tablesAfter history)) ∧
        ∀ row' tables', (tablesAfter history).updateConsent userId optIn now = (some row', tables') →
          tables'.scores = (tablesAfter history).scores ∧
          (∀ other, other ≠ userId → tables'.profiles other = (tablesAfter history).profiles other) ∧
          ∃ row, (tablesAfter history).profiles userId = some row ∧ tables'.profiles userId = some row' ∧
            row' = { row with
              marketingOptIn := optIn
              marketingOptInAt := row'.marketingOptInAt
              updatedAt := now } := by
  refine ⟨stored_consent userId history, profile_eq_none_iff userId history, fun optIn now ↦ ⟨?_, ?_⟩⟩
  · intro hnone
    have hprofile := (profile_eq_none_iff userId history).mpr hnone
    unfold LeadTables.updateConsent
    simp only [hprofile]
  · intro row' tables' h
    obtain ⟨row, hrow, rfl, rfl⟩ := updateConsent_eq_some h
    refine ⟨rfl, fun other hother ↦ Function.update_of_ne hother _ _, row, hrow, ?_, rfl⟩
    exact Function.update_self _ _ _

end MemoFlowApi.Leads
