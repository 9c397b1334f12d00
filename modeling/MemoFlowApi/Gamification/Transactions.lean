import MemoFlowApi.Gamification.Stages

/-!
# Transactions of the Gamification

A transaction that awards holds the locks of the rows it writes, so what it read of them is what its
commit replaces.  A milestone's document is locked until the commit, and a completed mission is never
written again.
-/

namespace MemoFlowApi.Gamification

open Concurrency Sql

/-! ## What statements do -/

section Effects

variable {ι : Type} [DecidableEq ι] {i j : ι} {s s' : Store ι} {catalogue : Catalogue}

/-- A caller holds a lock on a row. -/
def Holds (i : ι) (key : Key) (s : Store ι) : Prop :=
  ∃ lock ∈ s.locks, lock.holder = i ∧ lock.key = key

theorem references_eq {keys : List Key} {found : Bool} (h : references i keys s = some (found, s')) :
    Tables.Touched i (fun _ ↦ False) s s' ∧
      (found = true → ∀ key ∈ keys, s.view i key ≠ none ∧ Holds i key s') := by
  induction keys generalizing s with
  | nil =>
    cases h
    exact ⟨.refl i _ s', fun _ _ hkey ↦ (List.not_mem_nil hkey).elim⟩
  | cons key keys ih =>
    unfold references at h
    split at h
    · cases h
      exact ⟨.refl i _ s', by rintro ⟨⟩⟩
    · next hsome =>
      split at h
      · next grants =>
        obtain ⟨htouched, hfound⟩ := ih h
        refine ⟨Tables.Touched.lock.trans htouched, fun hf other hother ↦ ?_⟩
        rcases List.mem_cons.mp hother with rfl | hrest
        · refine ⟨fun hnone ↦ hsome (by rw [hnone]; rfl), ?_⟩
          exact ⟨_, htouched.kept _ List.mem_cons_self, rfl, rfl⟩
        · exact hfound hf other hrest
      · cases h

/-- The ways of an insert. -/
theorem insertOrIgnore_eq {key : Key} {row : Row key} {keys : List Key} {result : InsertResult}
    (h : insertOrIgnore i key row keys s = some (result, s')) :
    s' = s ∧ (result = .conflict → s.view i key ≠ none) ∧ result ≠ .inserted ∨
      result = .inserted ∧ s.view i key = none ∧ Tables.Touched i (· = key) s s' ∧
        s'.view i key = some row ∧ s'.Writes i key ∧
        ∀ other ∈ keys, other ≠ key → s.view i other ≠ none ∧ Holds i other s' := by
  unfold insertOrIgnore at h
  split at h
  · cases h
  · split at h
    · next hsome =>
      cases h
      refine .inl ⟨rfl, fun _ hnone ↦ ?_, by rintro ⟨⟩⟩
      rw [hnone] at hsome
      cases hsome
    · next hnone =>
      obtain ⟨inserted, hput, hrest⟩ := Option.bind_eq_some_iff.mp h
      obtain ⟨⟨found, checked⟩, hreferences, heq⟩ := Option.map_eq_some_iff.mp hrest
      obtain ⟨hfirst, hview, hwrites⟩ := Tables.Touched.put hput
      obtain ⟨hthen, hfound⟩ := references_eq hreferences
      cases found with
      | false =>
        cases heq
        exact .inl ⟨rfl, by rintro ⟨⟩, by rintro ⟨⟩⟩
      | true =>
        cases heq
        refine .inr ⟨rfl, Option.not_isSome_iff_eq_none.mp hnone,
          hfirst.trans (hthen.mono fun _ ↦ False.elim), ?_, hthen.writes hwrites,
          fun other hother hne ↦ ?_⟩
        · rw [hthen.view_of_not id, hview]
        · obtain ⟨hseen, hlock⟩ := hfound rfl other hother
          rw [hfirst.view_of_not hne] at hseen
          exact ⟨hseen, hlock⟩

theorem addXp_eq {userId : UserId} {delta : ℕ} {user : Option UserRow}
    (h : addXp i userId delta s = some (user, s')) :
    s' = s ∧ user = none ∨ ∃ row, s.view i (.user userId) = some row ∧
      Tables.Touched i (· = .user userId) s s' ∧ s'.view i (.user userId) = some (row.add delta) ∧
      s'.Writes i (.user userId) := by
  unfold addXp at h
  split at h
  · cases h
    exact .inl ⟨rfl, rfl⟩
  · next row hrow =>
    obtain ⟨after, hput, heq⟩ := Option.map_eq_some_iff.mp h
    cases heq
    exact .inr ⟨row, hrow, Tables.Touched.put hput⟩

theorem incrementProgress_eq {userId : UserId} {missionId : MissionId} {target : ℤ}
    {progress : Option MissionProgress}
    (h : incrementProgress i userId missionId target s = some (progress, s')) :
    s' = s ∧ progress = none ∧ (∀ row, s.view i (.progress userId missionId) = some row →
        row.completed = true) ∨
      ∃ row, s.view i (.progress userId missionId) = some row ∧ row.completed = false ∧
        progress = some (row.increment target) ∧
        Tables.Touched i (· = .progress userId missionId) s s' ∧
        s'.view i (.progress userId missionId) = some (row.increment target) ∧
        s'.Writes i (.progress userId missionId) := by
  unfold incrementProgress at h
  split at h
  · next hnone =>
    cases h
    refine .inl ⟨rfl, rfl, fun row hrow ↦ ?_⟩
    rw [hnone] at hrow
    cases hrow
  · next row hrow =>
    split at h
    · next hcompleted =>
      cases h
      refine .inl ⟨rfl, rfl, fun other hother ↦ ?_⟩
      cases hrow.symm.trans hother
      exact hcompleted
    · next hcompleted =>
      obtain ⟨after, hput, heq⟩ := Option.map_eq_some_iff.mp h
      cases heq
      exact .inr ⟨row, hrow, Bool.eq_false_iff.mpr hcompleted, rfl, Tables.Touched.put hput⟩

/-- The rows that go with a document. -/
def WithDocument (id : DocumentId) : Key → Prop
  | .document other => other = id
  | .milestone _ documentId _ => documentId = id
  | _ => False

theorem deleteDocument_eq {id : DocumentId} (h : deleteDocument i id s = some s') :
    s' = s ∨ ∃ deleted, s.Grants i (.document id) .update ∧
      Tables.Touched i (WithDocument id) s deleted ∧ deleted.view i (.document id) = none ∧
      s' = deleted.commit i := by
  unfold deleteDocument at h
  split at h
  · cases h
    exact .inl rfl
  · obtain ⟨first, hput, hrest⟩ := Option.bind_eq_some_iff.mp h
    obtain ⟨deleted, hdelete, heq⟩ := Option.map_eq_some_iff.mp hrest
    subst heq
    have hgrants : s.Grants i (.document id) .update := by
      by_contra hblocked
      unfold Tables.put at hput
      rw [dif_neg hblocked] at hput
      cases hput
    obtain ⟨hfirst, hview, -⟩ := Tables.Touched.put hput
    have hthen := Tables.Touched.deleteAll hdelete
    have hscan : ∀ key, key ∈ first.scan i (ofDocument id) →
        key ≠ .document id ∧ WithDocument id key := by
      intro key hkey
      obtain ⟨row, -, hof⟩ := Tables.mem_scan.mp hkey
      cases key with
      | milestone userId documentId milestoneType =>
        have hid : documentId = id := of_decide_eq_true hof
        exact ⟨by rintro ⟨⟩, hid⟩
      | _ => cases hof
    refine .inr ⟨deleted, hgrants, ?_, ?_, rfl⟩
    · refine (hfirst.mono fun key hkey ↦ ?_).trans (hthen.mono fun key hkey ↦ (hscan key hkey).2)
      subst hkey
      exact (rfl : id = id)
    · rw [hthen.view_of_not fun hmem ↦ (hscan _ hmem).1 rfl]
      exact hview

/-- A call is a statement, the end of its caller's transaction, or both. -/
theorem answer_eq {now : ℕ} {op : Op} {result : Ans op}
    (h : answer catalogue i now op s = some (result, s')) :
    Tables.Touched i (fun _ ↦ True) s s' ∨ op = .commitTransaction ∧ s' = s.commit i ∨
      op = .rollbackTransaction ∧ s' = s.rollback i ∨
      ∃ id, op = .deleteDocument id ∧ deleteDocument i id s = some s' := by
  have hsame : ∀ {after : Store ι}, after = s → Tables.Touched i (fun _ ↦ True) s after := by
    rintro after rfl
    exact .refl i _ after
  have hinsert : ∀ {key row keys result},
      insertOrIgnore i key row keys s = some (result, s') → Tables.Touched i (fun _ ↦ True) s s' := by
    intro key row keys result hinsert
    rcases insertOrIgnore_eq hinsert with ⟨heq, -⟩ | ⟨-, -, htouched, -⟩
    · exact hsame heq
    · exact htouched.mono fun _ _ ↦ trivial
  cases op with
  | now => cases h; exact .inl (.refl i _ s)
  | findActiveOn dateOnly => cases h; exact .inl (.refl i _ s)
  | startTransaction => cases h; exact .inl (.refl i _ s)
  | commitTransaction => cases h; exact .inr (.inl ⟨rfl, rfl⟩)
  | rollbackTransaction => cases h; exact .inr (.inr (.inl ⟨rfl, rfl⟩))
  | findProgress userId missionId => cases h; exact .inl (.refl i _ s)
  | insertMilestone data => exact .inl (hinsert h)
  | insertProgress userId missionId =>
    unfold answer at h
    by_cases hknown : catalogue.missions.any (·.id = missionId) = true
    · exact .inl (hinsert ((if_pos hknown).symm.trans h))
    · cases (if_neg hknown).symm.trans h
      exact .inl (.refl i _ s)
  | addXp userId delta =>
    rcases addXp_eq h with ⟨heq, -⟩ | ⟨-, -, htouched, -⟩
    · exact .inl (hsame heq)
    · exact .inl (htouched.mono fun _ _ ↦ trivial)
  | incrementProgress userId missionId target =>
    rcases incrementProgress_eq h with ⟨heq, -⟩ | ⟨-, -, -, -, htouched, -⟩
    · exact .inl (hsame heq)
    · exact .inl (htouched.mono fun _ _ ↦ trivial)
  | deleteDocument id =>
    obtain ⟨after, hdelete, heq⟩ := Option.map_eq_some_iff.mp h
    cases heq
    exact .inr (.inr (.inr ⟨id, rfl, hdelete⟩))

end Effects

/-! ## What a transaction holds -/

section Stages

variable {ι : Type} (i : ι) (s : Store ι)

/-- The transaction has written no rows but those under given keys. -/
def Writing (keys : List Key) : Prop := ∀ key, key ∉ keys → s.pending i key = none

/-- A milestone that is not committed is inserted, for a document that stays. -/
structure Awarding (data : AwardMilestoneData) : Prop where
  writes : s.Writes i data.key
  absent : s.committed data.key = none
  inserted : s.view i data.key ≠ none
  document : s.committed (.document data.documentId) ≠ none
  reference : Holds i (.document data.documentId) s

/-- The points of a user are added to the committed ones. -/
structure Crediting (userId : UserId) (xp : ℕ) : Prop where
  writes : s.Writes i (.user userId)
  added : ∃ row, s.committed (.user userId) = some row ∧ s.view i (.user userId) = some (row.add xp)

/-- There is a row of progress, perhaps of the transaction's own. -/
def Baselined (userId : UserId) (missionId : MissionId) : Prop :=
  s.pending i (.progress userId missionId) = none ∧
      s.committed (.progress userId missionId) ≠ none ∨
    s.Writes i (.progress userId missionId) ∧ s.committed (.progress userId missionId) = none ∧
      s.view i (.progress userId missionId) = some ⟨0, false⟩

/-- What a row of progress counts, and no row. -/
abbrev progressOf (row : Option MissionProgress) : MissionProgress := row.getD ⟨0, false⟩

/-- The committed progress is counted on by one. -/
structure Counting (userId : UserId) (mission : DailyMission) (row : MissionProgress) : Prop where
  known : s.Writes i (.progress userId mission.id)
  uncompleted : (progressOf (s.committed (.progress userId mission.id))).completed = false
  counted : row =
    (progressOf (s.committed (.progress userId mission.id))).increment mission.criteria.target
  written : s.view i (.progress userId mission.id) = some row

/-- What a request that has come so far has written. -/
def Stage.Holds (catalogue : Catalogue) : Stage → Prop
  | idle => Writing i s []
  | fresh => Writing i s []
  | inserted data => Writing i s [data.key] ∧ Awarding i s data
  | awarded data => Writing i s [data.key, .user data.userId] ∧ Awarding i s data ∧
      Crediting i s data.userId data.xpAwarded
  | baselined userId mission => mission ∈ catalogue.missions ∧
      Writing i s [.progress userId mission.id] ∧ Baselined i s userId mission.id
  | ignored userId mission => mission ∈ catalogue.missions ∧ Writing i s [] ∧
      ∃ row, s.committed (.progress userId mission.id) = some row ∧ row.completed = true
  | counted userId mission row => mission ∈ catalogue.missions ∧
      Writing i s [.progress userId mission.id] ∧ Counting i s userId mission row
  | paid userId mission row => mission ∈ catalogue.missions ∧
      Writing i s [.progress userId mission.id, .user userId] ∧ Counting i s userId mission row ∧
      row.completed = true ∧ Crediting i s userId mission.xpReward
  | broken => True

end Stages

/-! ## What other transactions leave -/

section Others

variable {ι : Type} {i j : ι} {s s' : Store ι} {catalogue : Catalogue}

/-- What a request relies on while another goes on. -/
structure Persists (i : ι) (s s' : Store ι) : Prop where
  apart : Tables.Apart i s s'
  document : ∀ id, Gamification.Holds i (.document id) s → s.committed (.document id) ≠ none →
    s'.committed (.document id) ≠ none
  progress : ∀ userId missionId, s.committed (.progress userId missionId) ≠ none →
    s'.committed (.progress userId missionId) ≠ none
  completed : ∀ userId missionId row, s.committed (.progress userId missionId) = some row →
    row.completed = true → s'.committed (.progress userId missionId) = some row

theorem Writing.persists {keys : List Key} (h : Writing i s keys) (persists : Persists i s s') :
    Writing i s' keys := by
  intro key hkey
  rw [persists.apart.pending]
  exact h key hkey

theorem Awarding.persists {data : AwardMilestoneData} (h : Awarding i s data)
    (persists : Persists i s s') : Awarding i s' data where
  writes := persists.apart.writes h.writes
  absent := by
    rw [persists.apart.committed _ h.writes]
    exact h.absent
  inserted := by
    rw [persists.apart.view h.writes]
    exact h.inserted
  document := persists.document _ h.reference h.document
  reference := by
    obtain ⟨lock, hlock, hholder, hkey⟩ := h.reference
    exact ⟨lock, (persists.apart.locks lock hholder).mpr hlock, hholder, hkey⟩

theorem Crediting.persists {userId : UserId} {xp : ℕ} (h : Crediting i s userId xp)
    (persists : Persists i s s') : Crediting i s' userId xp where
  writes := persists.apart.writes h.writes
  added := by
    rw [persists.apart.committed _ h.writes, persists.apart.view h.writes]
    exact h.added

theorem Baselined.persists {userId : UserId} {missionId : MissionId}
    (h : Baselined i s userId missionId) (persists : Persists i s s') :
    Baselined i s' userId missionId := by
  rcases h with ⟨hpending, hcommitted⟩ | ⟨hwrites, hcommitted, hview⟩
  · refine .inl ⟨?_, persists.progress _ _ hcommitted⟩
    rw [persists.apart.pending]
    exact hpending
  · refine .inr ⟨persists.apart.writes hwrites, ?_, ?_⟩
    · rw [persists.apart.committed _ hwrites]
      exact hcommitted
    · rw [persists.apart.view hwrites]
      exact hview

theorem Counting.persists {userId : UserId} {mission : DailyMission} {row : MissionProgress}
    (h : Counting i s userId mission row) (persists : Persists i s s') :
    Counting i s' userId mission row where
  known := persists.apart.writes h.known
  uncompleted := by
    rw [persists.apart.committed _ h.known]
    exact h.uncompleted
  counted := by
    rw [persists.apart.committed _ h.known]
    exact h.counted
  written := by
    rw [persists.apart.view h.known]
    exact h.written

/-- Other requests do not interfere. -/
theorem Stage.Holds.persists {stage : Stage} (h : stage.Holds i s catalogue)
    (persists : Persists i s s') : stage.Holds i s' catalogue := by
  cases stage with
  | idle => exact Writing.persists h persists
  | fresh => exact Writing.persists h persists
  | inserted data => exact ⟨h.1.persists persists, h.2.persists persists⟩
  | awarded data =>
    exact ⟨h.1.persists persists, h.2.1.persists persists, h.2.2.persists persists⟩
  | baselined userId mission => exact ⟨h.1, h.2.1.persists persists, h.2.2.persists persists⟩
  | ignored userId mission =>
    obtain ⟨hknown, hwriting, row, hrow, hcompleted⟩ := h
    exact ⟨hknown, hwriting.persists persists, row,
      persists.completed _ _ row hrow hcompleted, hcompleted⟩
  | counted userId mission row => exact ⟨h.1, h.2.1.persists persists, h.2.2.persists persists⟩
  | paid userId mission row =>
    obtain ⟨hknown, hwriting, hcounting, hcompleted, hcrediting⟩ := h
    exact ⟨hknown, hwriting.persists persists, hcounting.persists persists, hcompleted,
      hcrediting.persists persists⟩
  | broken => trivial

end Others

/-! ## Steps -/

section Steps

variable {ι : Type} [DecidableEq ι] {i j : ι} {s s' : Store ι} {catalogue : Catalogue}
  {op : Op} {o : Outcome GamificationError (Ans op)} {stage stage' : Stage}

theorem Writing.of_finish {keys : List Key} {rows : (key : Key) → Option (Row key)} {known} :
    Writing i (s.finish i rows known) keys := fun _ _ ↦ Tables.pending_finish

omit [DecidableEq ι] in
/-- A transaction that has not written a row sees the committed one. -/
theorem Writing.view {keys : List Key} (h : Writing i s keys) {key : Key} (hkey : key ∉ keys) :
    s.view i key = s.committed key := Tables.view_of_pending_none (h key hkey)

omit [DecidableEq ι] in
theorem Writing.mono {keys keys' : List Key} (h : Writing i s keys) (sub : keys ⊆ keys') :
    Writing i s keys' := fun key hkey ↦ h key fun hmem ↦ hkey (sub hmem)

omit [DecidableEq ι] in
/-- A transaction that writes one row more. -/
theorem Writing.touched {keys : List Key} {key : Key} (h : Writing i s keys)
    (touched : Tables.Touched i (· = key) s s') : Writing i s' (key :: keys) := by
  intro other hother
  rw [List.mem_cons, not_or] at hother
  rw [touched.untouched other hother.1]
  exact h other hother.2

omit [DecidableEq ι] in
theorem Awarding.touched {data : AwardMilestoneData} {keys : Key → Prop} (h : Awarding i s data)
    (touched : Tables.Touched i keys s s') (apart : ¬keys data.key) : Awarding i s' data where
  writes := touched.writes h.writes
  absent := by
    rw [touched.committed]
    exact h.absent
  inserted := by
    rw [touched.view_of_not apart]
    exact h.inserted
  document := by
    rw [touched.committed]
    exact h.document
  reference := by
    obtain ⟨lock, hlock, hrest⟩ := h.reference
    exact ⟨lock, touched.kept lock hlock, hrest⟩

omit [DecidableEq ι] in
theorem Counting.touched {userId : UserId} {mission : DailyMission} {row : MissionProgress}
    {keys : Key → Prop} (h : Counting i s userId mission row) (touched : Tables.Touched i keys s s')
    (apart : ¬keys (.progress userId mission.id)) : Counting i s' userId mission row where
  known := touched.writes h.known
  uncompleted := by
    rw [touched.committed]
    exact h.uncompleted
  counted := by
    rw [touched.committed]
    exact h.counted
  written := by
    rw [touched.view_of_not apart]
    exact h.written

/-- Points are added to a row that the transaction has not written. -/
theorem Crediting.of_addXp {userId : UserId} {delta : ℕ} {user : UserRow} {keys : List Key}
    (writing : Writing i s keys) (fresh : .user userId ∉ keys)
    (h : addXp i userId delta s = some (some user, s')) :
    Tables.Touched i (· = .user userId) s s' ∧ Crediting i s' userId delta := by
  rcases addXp_eq h with ⟨-, hnone⟩ | ⟨row, hrow, htouched, hview, hwrites⟩
  · cases hnone
  · refine ⟨htouched, hwrites, row, ?_, hview⟩
    rw [htouched.committed, ← writing.view fresh]
    exact hrow

/-- Progress is counted on a row that was there, or that the transaction has inserted. -/
theorem Counting.of_increment {userId : UserId} {mission : DailyMission} {row : MissionProgress}
    (baselined : Baselined i s userId mission.id)
    (h : incrementProgress i userId mission.id mission.criteria.target s = some (some row, s')) :
    Tables.Touched i (· = .progress userId mission.id) s s' ∧ Counting i s' userId mission row := by
  rcases incrementProgress_eq h with ⟨-, hnone, -⟩ | ⟨old, hold, huncompleted, hrow, htouched, hview, hwrites⟩
  · cases hnone
  · have hcommitted : progressOf (s.committed (.progress userId mission.id)) = old := by
      rcases baselined with ⟨hpending, -⟩ | ⟨-, hcommitted, hseen⟩
      · rw [← Tables.view_of_pending_none hpending, hold]
        rfl
      · rw [hcommitted]
        exact Option.some.inj (hseen.symm.trans hold)
    cases hrow
    refine ⟨htouched, hwrites, ?_, ?_, hview⟩
    · rw [htouched.committed, hcommitted]
      exact huncompleted
    · rw [htouched.committed, hcommitted]

/-- A mission that cannot be counted on has been completed. -/
theorem Baselined.completed {userId : UserId} {mission : DailyMission}
    (baselined : Baselined i s userId mission.id) (writing : Writing i s [.progress userId mission.id])
    (h : incrementProgress i userId mission.id mission.criteria.target s = some (none, s')) :
    s' = s ∧ Writing i s [] ∧
      ∃ row, s.committed (.progress userId mission.id) = some row ∧ row.completed = true := by
  rcases incrementProgress_eq h with ⟨hsame, -, hcompleted⟩ | ⟨_, -, -, hsome, -⟩
  · rcases baselined with ⟨hpending, hcommitted⟩ | ⟨-, -, hview⟩
    · refine ⟨hsame, fun key _ ↦ ?_, ?_⟩
      · by_cases hkey : key = .progress userId mission.id
        · subst hkey
          exact hpending
        · exact writing key fun hmem ↦ hkey (List.mem_singleton.mp hmem)
      · obtain ⟨row, hrow⟩ := Option.ne_none_iff_exists'.mp hcommitted
        exact ⟨row, hrow, hcompleted row ((Tables.view_of_pending_none hpending).trans hrow)⟩
    · cases hcompleted _ hview
  · cases hsome

/-- The row of progress that an insert leaves. -/
theorem Baselined.of_insert {userId : UserId} {missionId : MissionId} {result : InsertResult}
    {keys : List Key} (writing : Writing i s [])
    (h : insertOrIgnore i (.progress userId missionId) ⟨0, false⟩ keys s = some (result, s'))
    (found : result ≠ .foreignKeyViolation) :
    Writing i s' [.progress userId missionId] ∧ Baselined i s' userId missionId := by
  have hpending := writing (.progress userId missionId) List.not_mem_nil
  rcases insertOrIgnore_eq h with ⟨rfl, hconflict, hinserted⟩ | ⟨-, hnone, htouched, hview, hwrites, -⟩
  · refine ⟨fun key _ ↦ writing key List.not_mem_nil, .inl ⟨hpending, ?_⟩⟩
    rw [← Tables.view_of_pending_none hpending]
    cases result with
    | inserted => exact (hinserted rfl).elim
    | foreignKeyViolation => exact (found rfl).elim
    | conflict => exact hconflict rfl
  · refine ⟨writing.touched htouched, .inr ⟨hwrites, ?_, hview⟩⟩
    rw [htouched.committed, ← Tables.view_of_pending_none hpending]
    exact hnone

/-- The milestone that an insert leaves. -/
theorem Awarding.of_insert {data : AwardMilestoneData} (writing : Writing i s [])
    (h : insertOrIgnore i data.key ⟨data.xpAwarded⟩ [.user data.userId, .document data.documentId] s =
      some (.inserted, s')) : Writing i s' [data.key] ∧ Awarding i s' data := by
  rcases insertOrIgnore_eq h with ⟨-, -, hinserted⟩ | ⟨-, hnone, htouched, hview, hwrites, hkeys⟩
  · exact (hinserted rfl).elim
  · have hdocument := hkeys (.document data.documentId)
      (List.mem_cons_of_mem _ List.mem_cons_self) (by rintro ⟨⟩)
    refine ⟨writing.touched htouched, hwrites, ?_, ?_, ?_, hdocument.2⟩
    · rw [htouched.committed, ← writing.view List.not_mem_nil]
      exact hnone
    · rw [hview]
      rintro ⟨⟩
    · rw [htouched.committed, ← writing.view List.not_mem_nil]
      exact hdocument.1

/-- Every call of a request keeps what it knows. -/
theorem Stage.Holds.step (h : stage.Holds i s catalogue)
    (answers : (world ι catalogue).Answers GamificationError i op s o s')
    (next : Moves catalogue stage op o stage') : stage'.Holds i s' catalogue := by
  cases next with
  | fail => trivial
  | outside outside =>
    rcases answers.unchanged_or_effect with rfl | ⟨result, now, heffect⟩
    · exact h
    · cases op with
      | now => cases heffect; exact h
      | findActiveOn dateOnly => cases heffect; exact h
      | deleteDocument id =>
        obtain ⟨after, hdelete, heq⟩ := Option.map_eq_some_iff.mp heffect
        cases heq
        rcases deleteDocument_eq hdelete with rfl | ⟨deleted, -, -, -, rfl⟩
        · exact h
        · exact Writing.of_finish
      | _ => exact outside.elim
  | rollback =>
    obtain ⟨result, now, heffect⟩ := answers.effect_of_sure Bool.false_ne_true
    cases heffect
    exact Writing.of_finish
  | commit complete =>
    obtain ⟨result, now, heffect⟩ := answers.effect_of_sure Bool.false_ne_true
    cases heffect
    exact Writing.of_finish
  | start =>
    cases answers with
    | returned effect =>
      obtain ⟨now, heffect⟩ := effect
      cases heffect
      exact h
  | find =>
    cases answers with
    | returned effect =>
      obtain ⟨now, heffect⟩ := effect
      cases heffect
      exact h
  | conflict =>
    cases answers with
    | returned effect =>
      obtain ⟨now, heffect⟩ := effect
      rcases insertOrIgnore_eq heffect with ⟨rfl, -⟩ | ⟨hresult, -⟩
      · exact h
      · cases hresult
  | insert =>
    cases answers with
    | returned effect =>
      obtain ⟨now, heffect⟩ := effect
      exact Awarding.of_insert h heffect
  | award =>
    cases answers with
    | returned effect =>
      obtain ⟨now, heffect⟩ := effect
      obtain ⟨htouched, hcrediting⟩ := Crediting.of_addXp h.1 (by simp) heffect
      exact ⟨(h.1.touched htouched).mono (List.Perm.swap _ _ _).subset,
        h.2.touched htouched (by rintro ⟨⟩), hcrediting⟩
  | @baseline userId mission result known found =>
    cases answers with
    | returned effect =>
      obtain ⟨now, heffect⟩ := effect
      have hmission : catalogue.missions.any (·.id = mission.id) = true :=
        List.any_eq_true.mpr ⟨mission, known, decide_eq_true rfl⟩
      exact ⟨known, Baselined.of_insert h ((if_pos hmission).symm.trans heffect) found⟩
  | ignore =>
    cases answers with
    | returned effect =>
      obtain ⟨now, heffect⟩ := effect
      obtain ⟨rfl, hwriting, hrow⟩ := h.2.2.completed h.2.1 heffect
      exact ⟨h.1, hwriting, hrow⟩
  | count =>
    cases answers with
    | returned effect =>
      obtain ⟨now, heffect⟩ := effect
      obtain ⟨htouched, hcounting⟩ := Counting.of_increment h.2.2 heffect
      refine ⟨h.1, fun key hkey ↦ ?_, hcounting⟩
      rw [htouched.untouched key fun heq ↦ hkey (List.mem_singleton.mpr heq)]
      exact h.2.1 key hkey
  | pay completed =>
    cases answers with
    | returned effect =>
      obtain ⟨now, heffect⟩ := effect
      obtain ⟨htouched, hcrediting⟩ := Crediting.of_addXp h.2.1 (by simp) heffect
      exact ⟨h.1, (h.2.1.touched htouched).mono (List.Perm.swap _ _ _).subset,
        h.2.2.touched htouched (by rintro ⟨⟩), completed, hcrediting⟩

/-- The rows that a transaction has written. -/
def Stage.keys : Stage → List Key
  | inserted data => [data.key]
  | awarded data => [data.key, .user data.userId]
  | baselined userId mission => [.progress userId mission.id]
  | counted userId mission _ => [.progress userId mission.id]
  | paid userId mission _ => [.progress userId mission.id, .user userId]
  | _ => []

omit [DecidableEq ι] in
theorem Stage.Holds.writing (h : stage.Holds i s catalogue) (complete : stage.Complete) :
    Writing i s stage.keys := by
  cases stage with
  | fresh => exact h
  | awarded data => exact h.1
  | ignored userId mission => exact h.2.1
  | counted userId mission row => exact h.2.1
  | paid userId mission row => exact h.2.1
  | _ => exact complete.elim

/-- What a commit does to a row of progress. -/
theorem Stage.Holds.progress_commit (h : stage.Holds i s catalogue) (complete : stage.Complete)
    (userId : UserId) (missionId : MissionId) :
    (s.commit i).committed (.progress userId missionId) = s.committed (.progress userId missionId) ∨
      (s.commit i).committed (.progress userId missionId) ≠ none ∧
        (progressOf (s.committed (.progress userId missionId))).completed = false := by
  by_cases hkey : (.progress userId missionId : Key) ∈ stage.keys
  · have hcounting : ∀ {mission row}, Counting i s userId mission row → mission.id = missionId →
        (s.commit i).committed (.progress userId missionId) ≠ none ∧
          (progressOf (s.committed (.progress userId missionId))).completed = false := by
      rintro mission row hcounting rfl
      refine ⟨?_, hcounting.uncompleted⟩
      rw [Tables.commit_committed, hcounting.written]
      rintro ⟨⟩
    cases stage with
    | awarded data => simp [Stage.keys] at hkey
    | counted other mission row =>
      cases List.mem_singleton.mp hkey
      exact .inr (hcounting h.2.2 rfl)
    | paid other mission row =>
      rcases List.mem_cons.mp hkey with heq | hmem
      · cases heq
        exact .inr (hcounting h.2.2.1 rfl)
      · cases List.mem_singleton.mp hmem
    | fresh => exact (List.not_mem_nil hkey).elim
    | ignored other mission => exact (List.not_mem_nil hkey).elim
    | _ => exact complete.elim
  · exact .inl ((h.writing complete).view hkey)

/-- Only commits and deletions of documents change committed rows. -/
theorem committed_of_answers (answers : (world ι catalogue).Answers GamificationError i op s o s')
    (hcommit : op ≠ .commitTransaction) (hdelete : ∀ id, op ≠ .deleteDocument id) :
    s'.committed = s.committed := by
  rcases answers.unchanged_or_effect with rfl | ⟨result, now, heffect⟩
  · rfl
  · rcases answer_eq heffect with htouched | ⟨hop, -⟩ | ⟨-, rfl⟩ | ⟨id, hop, -⟩
    · exact htouched.committed
    · exact (hcommit hop).elim
    · rfl
    · exact (hdelete id hop).elim

/-- The rows that a deletion leaves. -/
theorem committed_of_deleted {id : DocumentId} {deleted : Store ι} (writing : Writing i s [])
    (touched : Tables.Touched i (WithDocument id) s deleted) {key : Key} (hkey : ¬WithDocument id key) :
    (deleted.commit i).committed key = s.committed key := by
  rw [Tables.commit_committed, touched.view_of_not hkey]
  exact writing.view List.not_mem_nil

theorem apart_of_answers (answers : (world ι catalogue).Answers GamificationError j op s o s')
    (hne : i ≠ j) : Tables.Apart i s s' := by
  have hsame : Tables.Apart i s s :=
    (Tables.Step.statements (.refl j (fun _ ↦ True) s)).apart hne
  rcases answers.unchanged_or_effect with rfl | ⟨result, now, heffect⟩
  · exact hsame
  · rcases answer_eq heffect with htouched | ⟨-, rfl⟩ | ⟨-, rfl⟩ | ⟨id, -, hdelete⟩
    · exact (Tables.Step.statements htouched).apart hne
    · exact Tables.Step.commit.apart hne
    · exact Tables.Step.rollback.apart hne
    · rcases deleteDocument_eq hdelete with rfl | ⟨deleted, -, htouched, -, rfl⟩
      · exact hsame
      · have hstatements : Tables.Step j s deleted :=
          .statements (htouched.mono fun _ _ ↦ trivial)
        exact (hstatements.apart hne).trans (Tables.Step.commit.apart hne)

omit [DecidableEq ι] in
theorem Persists.of_committed (apart : Tables.Apart i s s') (h : s'.committed = s.committed) :
    Persists i s s' := by
  refine ⟨apart, fun id _ hdocument ↦ ?_, fun userId missionId hrow ↦ ?_,
    fun userId missionId row hrow _ ↦ ?_⟩
  · rwa [h]
  · rwa [h]
  · rwa [h]

theorem Persists.of_commit (h : stage.Holds j s catalogue) (complete : stage.Complete)
    (hne : i ≠ j) : Persists i s (s.commit j) := by
  have hprogress := h.progress_commit complete
  refine ⟨Tables.Step.commit.apart hne, fun id _ hdocument ↦ ?_, fun userId missionId hrow ↦ ?_,
    fun userId missionId row hrow hcompleted ↦ ?_⟩
  · have hkey : (.document id : Key) ∉ stage.keys := by
      cases stage <;> simp [Stage.keys]
    rw [Tables.commit_committed, (h.writing complete).view hkey]
    exact hdocument
  · rcases hprogress userId missionId with heq | ⟨hsome, -⟩
    · rwa [heq]
    · exact hsome
  · rcases hprogress userId missionId with heq | ⟨-, huncompleted⟩
    · rwa [heq]
    · rw [hrow] at huncompleted
      cases hcompleted.symm.trans huncompleted

/-- A document that a transaction refers to is not deleted by another. -/
theorem Persists.of_delete {id : DocumentId} (writing : Writing j s [])
    (delete : deleteDocument j id s = some s') (apart : Tables.Apart i s s') (hne : i ≠ j) :
    Persists i s s' := by
  rcases deleteDocument_eq delete with rfl | ⟨deleted, hgrants, htouched, -, rfl⟩
  · exact .of_committed apart rfl
  · have hsame : ∀ key, ¬WithDocument id key → (deleted.commit j).committed key = s.committed key :=
      fun key ↦ committed_of_deleted writing htouched
    refine ⟨apart, fun other hlock hdocument ↦ ?_, fun userId missionId hrow ↦ ?_,
      fun userId missionId row hrow _ ↦ ?_⟩
    · by_cases hother : other = id
      · subst hother
        obtain ⟨lock, hmem, hholder, hkey⟩ := hlock
        rcases hgrants lock hmem hkey with hown | hfree
        · exact (hne (hholder.symm.trans hown)).elim
        · rw [LockMode.conflicts_update] at hfree
          cases hfree
      · rwa [hsame (.document other) hother]
    · rwa [hsame (.progress userId missionId) fun h ↦ h]
    · rwa [hsame (.progress userId missionId) fun h ↦ h]

/-- What a request relies on, the calls of others leave. -/
theorem Stage.Holds.others (h : stage.Holds j s catalogue)
    (answers : (world ι catalogue).Answers GamificationError j op s o s')
    (next : Moves catalogue stage op o stage') (hne : i ≠ j) : Persists i s s' := by
  have hapart := apart_of_answers answers hne
  by_cases hcommit : op = .commitTransaction
  · subst hcommit
    cases next with
    | fail inside failed => exact (failed rfl).elim
    | outside outside => exact outside.elim
    | commit complete =>
      obtain ⟨result, now, heffect⟩ := answers.effect_of_sure Bool.false_ne_true
      cases heffect
      exact .of_commit h complete hne
  · by_cases hdelete : ∃ id, op = .deleteDocument id
    · obtain ⟨id, rfl⟩ := hdelete
      cases next with
      | fail inside => exact (inside trivial).elim
      | outside =>
        rcases answers.unchanged_or_effect with rfl | ⟨result, now, heffect⟩
        · exact .of_committed hapart rfl
        · obtain ⟨after, hdeleted, heq⟩ := Option.map_eq_some_iff.mp heffect
          cases heq
          exact .of_delete h hdeleted hapart hne
    · exact .of_committed hapart (committed_of_answers answers hcommit fun id heq ↦ hdelete ⟨id, heq⟩)

end Steps

end MemoFlowApi.Gamification
