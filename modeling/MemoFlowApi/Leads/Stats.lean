import MemoFlowApi.Leads.Score
import MemoFlowApi.Lists.Tally

/-!
# Statistics of Leads

One pass over the eligible leads increments a dozen records of counts.  Each record counts what the
rows contribute to it, so the conservation laws are facts about tallies.
-/

namespace MemoFlowApi.Leads

open Calendar MemoFlowApi.Lists

/-- The read model of one eligible lead. -/
structure LeadRow where
  userId : UserId
  email : String
  displayName : String
  score : ℕ
  tier : LeadTier
  breakdown : List ScoreBreakdownEntry
  scoreComputedAt : Option ℕ
  onboardingCompleted : Bool
  persona : Option Persona
  deliverableType : Option DeliverableType
  /-- The text of a date. -/
  dueDate : Option (List Char)
  academicLevel : Option AcademicLevel
  workTools : Option (List WorkTool)
  blockers : Option (List Blocker)
  acquisitionChannel : Option AcquisitionChannel
  marketingOptIn : Bool
  hasActiveConnector : Bool
  hasPaywallSignal : Bool
  registeredAt : ℕ
  lastActiveAt : Option ℕ

structure Onboarding where
  notStarted : ℕ
  completed : ℕ

structure Distributions where
  persona : Counts Persona
  deliverableType : Counts DeliverableType
  academicLevel : Counts AcademicLevel
  workTools : Counts WorkTool
  blockers : Counts Blocker
  acquisitionChannel : Counts AcquisitionChannel

structure LeadStats where
  generatedAt : List Char
  totalLeads : ℕ
  tiers : Counts LeadTier
  suggestedActions : Counts SuggestedAction
  onboarding : Onboarding
  marketingOptIn : ℕ
  connectedTool : ℕ
  signals : Counts LeadSignalType
  distributions : Distributions

/-! ## The pass -/

section Pass

variable {κ : Type} [DecidableEq κ]

/-- An answer that is given is counted. -/
def countAnswer (counts : Counts κ) (answer : Option κ) : Counts κ :=
  match answer with
  | some value => increment counts value
  | none => counts

/-- Each value of a `Set` is counted. -/
def countAnswers (counts : Counts κ) (answers : Option (List κ)) : Counts κ :=
  (answers.getD []).dedup.foldl increment counts

end Pass

/-- The counts of a completed row's answers. -/
def Distributions.addRow (d : Distributions) (row : LeadRow) : Distributions where
  persona := countAnswer d.persona row.persona
  deliverableType := countAnswer d.deliverableType row.deliverableType
  academicLevel := countAnswer d.academicLevel row.academicLevel
  acquisitionChannel := countAnswer d.acquisitionChannel row.acquisitionChannel
  workTools := countAnswers d.workTools row.workTools
  blockers := countAnswers d.blockers row.blockers

/-- The body of the loop. -/
def LeadStats.addRow (stats : LeadStats) (row : LeadRow) : LeadStats where
  generatedAt := stats.generatedAt
  totalLeads := stats.totalLeads
  tiers := increment stats.tiers row.tier
  suggestedActions := increment stats.suggestedActions (suggestedAction row.tier row.marketingOptIn)
  onboarding :=
    if row.onboardingCompleted then { stats.onboarding with completed := stats.onboarding.completed + 1 }
    else { stats.onboarding with notStarted := stats.onboarding.notStarted + 1 }
  marketingOptIn := if row.marketingOptIn then stats.marketingOptIn + 1 else stats.marketingOptIn
  connectedTool := if row.hasActiveConnector then stats.connectedTool + 1 else stats.connectedTool
  signals := if row.hasPaywallSignal then increment stats.signals .exportPaywallHit else stats.signals
  distributions :=
    if row.onboardingCompleted then stats.distributions.addRow row else stats.distributions

def computeLeadStats (rows : List LeadRow) (now : Timestamp) : LeadStats :=
  rows.foldl LeadStats.addRow
    { generatedAt := toISOString now.ms
      totalLeads := rows.length
      tiers := zeroFilled Enumeration.values
      suggestedActions := zeroFilled Enumeration.values
      onboarding := ⟨0, 0⟩
      marketingOptIn := 0
      connectedTool := 0
      signals := zeroFilled Enumeration.values
      distributions :=
        { persona := zeroFilled Enumeration.values
          deliverableType := zeroFilled Enumeration.values
          academicLevel := zeroFilled Enumeration.values
          workTools := zeroFilled Enumeration.values
          blockers := zeroFilled Enumeration.values
          acquisitionChannel := zeroFilled Enumeration.values } }

/-! ## What is counted -/

section Counted

variable {κ : Type} [DecidableEq κ] [Enumeration κ]

/-- The number of occurrences of each value of an enumeration. -/
abbrev tallyAll (occurrences : List κ) : Counts κ := tally Enumeration.values occurrences

theorem countAnswer_tallyAll (occurrences : List κ) (answer : Option κ) :
    countAnswer (tallyAll occurrences) answer = tallyAll (occurrences ++ answer.toList) := by
  cases answer with
  | none => rw [Option.toList_none, List.append_nil]; rfl
  | some value => exact increment_tally _ _ _

theorem countAnswers_tallyAll (occurrences : List κ) (answers : Option (List κ)) :
    countAnswers (tallyAll occurrences) answers =
      tallyAll (occurrences ++ (answers.getD []).dedup) := foldl_increment _ _ _

theorem total_tallyAll (occurrences : List κ) : (tallyAll occurrences).total = occurrences.length :=
  total_tally Enumeration.nodup fun _ _ ↦ Enumeration.mem_values _

end Counted

/-- The rows of leads that submitted their answers. -/
def submitted (rows : List LeadRow) : List LeadRow := rows.filter (·.onboardingCompleted)

/-- What the answers of rows add up to. -/
def distributionsOf (rows : List LeadRow) : Distributions where
  persona := tallyAll (rows.flatMap (·.persona.toList))
  deliverableType := tallyAll (rows.flatMap (·.deliverableType.toList))
  academicLevel := tallyAll (rows.flatMap (·.academicLevel.toList))
  workTools := tallyAll (rows.flatMap fun row ↦ (row.workTools.getD []).dedup)
  blockers := tallyAll (rows.flatMap fun row ↦ (row.blockers.getD []).dedup)
  acquisitionChannel := tallyAll (rows.flatMap (·.acquisitionChannel.toList))

/-- The statistics, count by count. -/
def statsOf (rows : List LeadRow) (now : Timestamp) (total : ℕ) : LeadStats where
  generatedAt := toISOString now.ms
  totalLeads := total
  tiers := tallyAll (rows.map (·.tier))
  suggestedActions := tallyAll (rows.map fun row ↦ suggestedAction row.tier row.marketingOptIn)
  onboarding := ⟨rows.countP (!·.onboardingCompleted), (submitted rows).length⟩
  marketingOptIn := rows.countP (·.marketingOptIn)
  connectedTool := rows.countP (·.hasActiveConnector)
  signals := tallyAll ((rows.filter (·.hasPaywallSignal)).map fun _ ↦ .exportPaywallHit)
  distributions := distributionsOf (submitted rows)

theorem addRow_distributionsOf (rows : List LeadRow) (row : LeadRow) :
    (distributionsOf rows).addRow row = distributionsOf (rows ++ [row]) := by
  unfold Distributions.addRow distributionsOf
  simp only [countAnswer_tallyAll, countAnswers_tallyAll, List.flatMap_append, List.flatMap_singleton]

theorem addRow_statsOf (rows : List LeadRow) (row : LeadRow) (now : Timestamp) (total : ℕ) :
    (statsOf rows now total).addRow row = statsOf (rows ++ [row]) now total := by
  unfold LeadStats.addRow statsOf
  simp only [increment_tally, List.map_append, List.map_singleton, List.countP_append,
    List.filter_append, submitted]
  cases hcompleted : row.onboardingCompleted <;> cases hopted : row.marketingOptIn <;>
    cases hconnected : row.hasActiveConnector <;> cases hpaywall : row.hasPaywallSignal <;>
    simp [hcompleted, hopted, hconnected, hpaywall, addRow_distributionsOf]

theorem foldl_addRow (rows more : List LeadRow) (now : Timestamp) (total : ℕ) :
    more.foldl LeadStats.addRow (statsOf rows now total) = statsOf (rows ++ more) now total := by
  induction more generalizing rows with
  | nil => rw [List.append_nil, List.foldl_nil]
  | cons row more ih =>
    calc
      _ = more.foldl LeadStats.addRow (statsOf (rows ++ [row]) now total) := by
        rw [List.foldl_cons, addRow_statsOf]
      _ = statsOf (rows ++ [row] ++ more) now total := ih _
      _ = _ := by rw [List.append_assoc, List.singleton_append]

theorem computeLeadStats_eq (rows : List LeadRow) (now : Timestamp) :
    computeLeadStats rows now = statsOf rows now rows.length :=
  foldl_addRow [] rows now rows.length

/-! ## Conservation -/

/-- A completed row has all its single-choice answers. -/
def LeadRow.Answered (row : LeadRow) : Prop :=
  row.onboardingCompleted → row.persona.isSome ∧ row.deliverableType.isSome ∧
    row.academicLevel.isSome ∧ row.acquisitionChannel.isSome

/-- The statistics of two lists of rows together. -/
def LeadStats.add (a b : LeadStats) : LeadStats where
  generatedAt := a.generatedAt
  totalLeads := a.totalLeads + b.totalLeads
  tiers := a.tiers.add b.tiers
  suggestedActions := a.suggestedActions.add b.suggestedActions
  onboarding := ⟨a.onboarding.notStarted + b.onboarding.notStarted,
    a.onboarding.completed + b.onboarding.completed⟩
  marketingOptIn := a.marketingOptIn + b.marketingOptIn
  connectedTool := a.connectedTool + b.connectedTool
  signals := a.signals.add b.signals
  distributions :=
    { persona := a.distributions.persona.add b.distributions.persona
      deliverableType := a.distributions.deliverableType.add b.distributions.deliverableType
      academicLevel := a.distributions.academicLevel.add b.distributions.academicLevel
      workTools := a.distributions.workTools.add b.distributions.workTools
      blockers := a.distributions.blockers.add b.distributions.blockers
      acquisitionChannel := a.distributions.acquisitionChannel.add b.distributions.acquisitionChannel }

theorem notStarted_add_completed (rows : List LeadRow) :
    rows.countP (!·.onboardingCompleted) + (submitted rows).length = rows.length := by
  unfold submitted
  have hsplit := List.length_eq_countP_add_countP (l := rows) fun row ↦ row.onboardingCompleted
  rw [← List.countP_eq_length_filter, Nat.add_comm, hsplit]
  simp

theorem mem_submitted {rows : List LeadRow} {row : LeadRow} :
    row ∈ submitted rows ↔ row ∈ rows ∧ row.onboardingCompleted = true := List.mem_filter

/-- An answer that every row has is counted once for each. -/
theorem length_flatMap_answer {κ : Type} {answer : LeadRow → Option κ} {rows : List LeadRow}
    (h : ∀ row ∈ rows, (answer row).isSome) : (rows.flatMap (answer · |>.toList)).length = rows.length := by
  induction rows with
  | nil => rfl
  | cons row rows ih =>
    obtain ⟨value, hvalue⟩ := Option.isSome_iff_exists.mp (h row List.mem_cons_self)
    have hothers := ih fun other hother ↦ h other (List.mem_cons_of_mem _ hother)
    calc
      _ = (answer row).toList.length + (rows.flatMap (answer · |>.toList)).length := by
        rw [List.flatMap_cons, List.length_append]
      _ = 1 + rows.length := by
        rw [hvalue, hothers]
        rfl
      _ = _ := Nat.add_comm 1 _

/-- A value is counted at most once for each row. -/
theorem count_answers_le {κ : Type} [DecidableEq κ] [Enumeration κ] {answers : LeadRow → List κ}
    {rows : List LeadRow} {entry : κ × ℕ}
    (h : entry ∈ tallyAll (rows.flatMap fun row ↦ (answers row).dedup)) : entry.2 ≤ rows.length := by
  obtain ⟨key, -, rfl⟩ := List.mem_map.mp h
  exact count_flatMap_le (fun row _ ↦ List.nodup_dedup _) key

theorem statsOf_perm {rows rows' : List LeadRow} (h : rows.Perm rows') (now : Timestamp) (total : ℕ) :
    statsOf rows now total = statsOf rows' now total := by
  have hsubmitted : (submitted rows).Perm (submitted rows') := h.filter _
  unfold statsOf distributionsOf
  simp only [tallyAll, tally_perm (h.map _), tally_perm ((h.filter _).map _), h.countP_eq,
    hsubmitted.length_eq, tally_perm (hsubmitted.flatMap_right _)]

theorem statsOf_append (rows more : List LeadRow) (now : Timestamp) (total total' : ℕ) :
    statsOf (rows ++ more) now (total + total') =
      (statsOf rows now total).add (statsOf more now total') := by
  unfold statsOf distributionsOf LeadStats.add submitted
  simp only [tallyAll, List.map_append, List.filter_append, List.flatMap_append, tally_append,
    List.countP_append, List.length_append]

/-- The statistics conserve the number of leads, count every key, bound the multiple choices, and
depend on the rows as a collection only, additively. -/
theorem computeLeadStats_conserves (rows : List LeadRow) (now : Timestamp)
    (h : ∀ row ∈ rows, row.Answered) :
    let stats := computeLeadStats rows now
    let d := stats.distributions
    let completed := stats.onboarding.completed
    stats.totalLeads = rows.length ∧
      (stats.tiers.total = stats.totalLeads ∧ stats.suggestedActions.total = stats.totalLeads ∧
        stats.onboarding.notStarted + completed = stats.totalLeads) ∧
      (d.persona.total = completed ∧ d.deliverableType.total = completed ∧
        d.academicLevel.total = completed ∧ d.acquisitionChannel.total = completed) ∧
      ((∀ entry ∈ d.workTools, entry.2 ≤ completed) ∧ ∀ entry ∈ d.blockers, entry.2 ≤ completed) ∧
      (stats.tiers.map (·.1) = Enumeration.values ∧
        stats.suggestedActions.map (·.1) = Enumeration.values ∧
        stats.signals.map (·.1) = Enumeration.values ∧ d.persona.map (·.1) = Enumeration.values ∧
        d.deliverableType.map (·.1) = Enumeration.values ∧
        d.academicLevel.map (·.1) = Enumeration.values ∧ d.workTools.map (·.1) = Enumeration.values ∧
        d.blockers.map (·.1) = Enumeration.values ∧
        d.acquisitionChannel.map (·.1) = Enumeration.values) ∧
      (∀ rows', rows.Perm rows' → computeLeadStats rows' now = stats) ∧
      ∀ more, computeLeadStats (rows ++ more) now = stats.add (computeLeadStats more now) := by
  intro stats d completed
  have hstats : stats = statsOf rows now rows.length := computeLeadStats_eq rows now
  have hanswered (row : LeadRow) (hrow : row ∈ submitted rows) :=
    h row (mem_submitted.mp hrow).1 (mem_submitted.mp hrow).2
  have hkeys {κ : Type} [DecidableEq κ] [Enumeration κ] (occurrences : List κ) :
      (tallyAll occurrences).map (·.1) = Enumeration.values := map_fst_tally _ _
  simp only [d, completed, hstats]
  refine ⟨rfl, ⟨?_, ?_, notStarted_add_completed rows⟩, ⟨?_, ?_, ?_, ?_⟩, ⟨?_, ?_⟩,
    ⟨hkeys _, hkeys _, hkeys _, hkeys _, hkeys _, hkeys _, hkeys _, hkeys _, hkeys _⟩, fun rows' hperm ↦ ?_,
    fun more ↦ ?_⟩
  · exact (total_tallyAll _).trans (List.length_map _)
  · exact (total_tallyAll _).trans (List.length_map _)
  · exact (total_tallyAll _).trans (length_flatMap_answer fun row hrow ↦ (hanswered row hrow).1)
  · exact (total_tallyAll _).trans (length_flatMap_answer fun row hrow ↦ (hanswered row hrow).2.1)
  · exact (total_tallyAll _).trans (length_flatMap_answer fun row hrow ↦ (hanswered row hrow).2.2.1)
  · exact (total_tallyAll _).trans (length_flatMap_answer fun row hrow ↦ (hanswered row hrow).2.2.2)
  · exact fun entry hentry ↦ count_answers_le hentry
  · exact fun entry hentry ↦ count_answers_le hentry
  · rw [computeLeadStats_eq, statsOf_perm hperm.symm, hperm.length_eq]
  · rw [computeLeadStats_eq, computeLeadStats_eq, List.length_append]
    exact statsOf_append rows more now rows.length more.length

/-- A lead who names a tool twice. -/
def repeatingRow : LeadRow :=
  ⟨7, "", "", 3, .cold, [], none, true, some .intern, some .thesis, none, some .m1,
    some [.slack, .slack], some [], some .google, true, false, false, 0, none⟩

/-- A lead without answers. -/
def silentRow : LeadRow :=
  ⟨8, "", "", 70, .hot, [], some 0, false, none, none, none, none, none, none, none, false, true, false,
    0, some 4⟩

theorem computeLeadStats_conserves_repeating :
    (computeLeadStats [repeatingRow, silentRow] ⟨0, by decide⟩).totalLeads = 2 ∧
      (computeLeadStats [repeatingRow, silentRow] ⟨0, by decide⟩).tiers.total = 2 ∧
      (∀ entry ∈ (computeLeadStats [repeatingRow, silentRow] ⟨0, by decide⟩).distributions.workTools,
        entry.2 ≤ 1) ∧
      computeLeadStats [silentRow, repeatingRow] ⟨0, by decide⟩ =
        computeLeadStats [repeatingRow, silentRow] ⟨0, by decide⟩ := by
  have hanswered : ∀ row ∈ [repeatingRow, silentRow], row.Answered := by
    intro row hrow
    rcases List.mem_pair.mp hrow with rfl | rfl
    · exact fun _ ↦ ⟨rfl, rfl, rfl, rfl⟩
    · exact fun h ↦ Bool.noConfusion h
  obtain ⟨htotal, ⟨htiers, -⟩, -, ⟨htools, -⟩, -, hperm, -⟩ :=
    computeLeadStats_conserves [repeatingRow, silentRow] ⟨0, by decide⟩ hanswered
  exact ⟨htotal, htiers, htools, hperm _ (List.Perm.swap silentRow repeatingRow [])⟩

end MemoFlowApi.Leads
