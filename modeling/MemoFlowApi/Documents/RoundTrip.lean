import MemoFlowApi.Documents.SectionList

/-!
# Saving and Restoring

A version keeps the listing of its document at the time of the save, and restoring it brings the
listing back, whatever was done to the sections in between.  The schema of the collection is
stricter than the API: it has no place for an empty string, so a document with a section whose title,
content or status is empty cannot be saved at all (`round_trips_iff`).
-/

namespace MemoFlowApi.Documents

open Concurrency

/-- Saving the document succeeds, and restoring the version at any later time makes the listing what
it was, without touching other documents or stored versions. -/
def Store.RoundTrips (s : Store) (userId : UserId) (documentId : DocumentId) (label : Option String)
    (reply : Reply) : Prop :=
  ∃ version saved,
    (saveVersion userId documentId label).run (respond reply) s = (.ok version, saved) ∧
    ∀ later, Served saved later → ∀ reply', ∃ sectionsRestored restored,
      (restoreVersion userId documentId version.id).run (respond reply') later =
        (.ok (version, sectionsRestored), restored) ∧
      (restored.listing documentId).map (·.data) = (s.listing documentId).map (·.data) ∧
      (∀ other ≠ documentId,
        restored.sections.ofDocument other = later.sections.ofDocument other) ∧
      restored.versions = later.versions

/-- The strings that the schema requires are there. -/
theorem valid_nextVersion_iff (s : Store) (userId : UserId) (documentId : DocumentId)
    (label : Option String) (savedAt : ℕ) :
    (s.nextVersion userId documentId label savedAt).Valid = true ↔
      ∀ row ∈ s.listing documentId, row.title ≠ "" ∧ row.content ≠ "" ∧ row.status ≠ "" := by
  simp only [NewVersion.Valid, Store.nextVersion, required, documentId.ne_empty, userId.ne_empty,
    ne_eq, not_false_eq_true, decide_true, Bool.true_and, List.all_eq_true, List.forall_mem_map,
    SectionData.Valid, Section.data, Bool.and_eq_true, decide_eq_true_eq, and_assoc]
  rfl

section Runs

variable {s : Store} {userId : UserId} {documentId : DocumentId} {label : Option String}
  {reply : Reply}

/-- The version that a save stores. -/
def Store.savedVersion (s : Store) (userId : UserId) (documentId : DocumentId)
    (label : Option String) (reply : Reply) : DocumentVersion :=
  { s.nextVersion userId documentId label (s.clock + reply.elapsed) with
    id := s.versions.docs.length }

/-- A save whose snapshot passes the validators stores it. -/
theorem run_saveVersion (owned : s.Owned userId documentId) (available : reply.refused = false)
    (valid : (s.nextVersion userId documentId label (s.clock + reply.elapsed)).Valid = true) :
    (saveVersion userId documentId label).run (respond reply) s =
      (.ok (s.savedVersion userId documentId label reply), { s with
        versions := s.versions.insert
          (s.nextVersion userId documentId label (s.clock + reply.elapsed))
          (fresh_nextVersion userId documentId label _)
        clock := s.clock + reply.elapsed }) := by
  obtain ⟨document, hdocument, howner⟩ := owned
  have hinsert := insertVersion_stored { s with clock := s.clock + reply.elapsed }
    (fresh_nextVersion userId documentId label (s.clock + reply.elapsed)) valid
  have hrun : (await (.insertVersion (s.nextVersion userId documentId label
      (s.clock + reply.elapsed)))).run (respond reply) { s with clock := s.clock + reply.elapsed } =
      answered (Store.insertVersion { s with clock := s.clock + reply.elapsed } false
        (s.nextVersion userId documentId label (s.clock + reply.elapsed))) := by
    rw [← available]
    rfl
  unfold saveVersion
  rw [run_await_bind]
  dsimp only [answer]
  rw [hdocument]
  dsimp only
  rw [if_neg (not_not.mpr howner), run_await_bind]
  unfold createWithRetry createNext
  rw [run_await_bind, run_await_bind]
  exact Program.run_bind_ok (hrun.trans (congrArg answered hinsert))

/-- A save succeeds only when its snapshot passes the validators. -/
theorem valid_of_saved {version : DocumentVersion} {saved : Store}
    (run : (saveVersion userId documentId label).run (respond reply) s = (.ok version, saved)) :
    ∃ savedAt, (s.nextVersion userId documentId label savedAt).Valid = true := by
  have hsettles : Settles _ reply s _ := saveVersion_settles userId documentId label
  rcases hsettles with ⟨error, clock, hrun⟩ | ⟨_, _, _, heffect⟩
  · rw [run] at hrun
    cases hrun
  · cases heffect with
    | saveVersion _ valid => exact ⟨_, valid⟩

/-- Stored versions stay, and documents keep their owners. -/
theorem Served.keeps {later : Store} {version : DocumentVersion} (served : Served s later)
    (stored : version ∈ s.versions.docs) :
    later.documents = s.documents ∧ version ∈ later.versions.docs := by
  refine served.induction (I := fun later ↦ later.documents = s.documents ∧
    version ∈ later.versions.docs) ⟨rfl, stored⟩ (fun _ _ h ↦ h) fun _ _ _ effect h ↦ ?_
  cases effect with
  | saveVersion => exact ⟨h.1, List.mem_cons_of_mem _ h.2⟩
  | _ => exact h

/-- Restoring a stored version replaces the sections of its document. -/
theorem run_restoreVersion {version : DocumentVersion} (owned : s.Owned userId documentId)
    (stored : version ∈ s.versions.docs) (own : version.documentId = documentId) :
    (restoreVersion userId documentId version.id).run (respond reply) s =
      (.ok (version, version.sectionsSnapshot.length), { s with
        sections := s.sections.replaceAll documentId version.sectionsSnapshot s.clock }) := by
  have hfound : s.versions.findById version.id = some version :=
    (VersionCollection.findById_eq_some _).mpr ⟨stored, rfl⟩
  obtain ⟨document, hdocument, howner⟩ := owned
  have hget : (getVersion userId documentId version.id).run (respond reply) s =
      (.ok version, s) := by
    unfold getVersion
    rw [run_await_bind]
    dsimp only [answer]
    rw [hdocument]
    dsimp only
    rw [if_neg (not_not.mpr howner), run_await_bind]
    dsimp only [answer]
    rw [hfound]
    dsimp only
    rw [if_neg (not_not.mpr own)]
    rfl
  unfold restoreVersion
  rw [Program.run_bind_ok hget]
  rfl

end Runs

/-- A save succeeds and every restore of it round-trips, exactly when no section has an empty title,
content or status. -/
theorem round_trips_iff {s : Store} {userId : UserId} {documentId : DocumentId}
    {label : Option String} {reply : Reply} (owned : s.Owned userId documentId)
    (distinct : s.sections.Distinct documentId) (available : reply.refused = false) :
    s.RoundTrips userId documentId label reply ↔
      ∀ row ∈ s.listing documentId, row.title ≠ "" ∧ row.content ≠ "" ∧ row.status ≠ "" := by
  constructor
  · rintro ⟨version, saved, hrun, -⟩
    obtain ⟨savedAt, hvalid⟩ := valid_of_saved hrun
    exact (valid_nextVersion_iff s userId documentId label savedAt).mp hvalid
  · intro hfilled
    have hvalid := (valid_nextVersion_iff s userId documentId label
      (s.clock + reply.elapsed)).mpr hfilled
    refine ⟨_, _, run_saveVersion owned available hvalid, fun later hserved reply' ↦ ?_⟩
    obtain ⟨hdocuments, hstored⟩ := hserved.keeps List.mem_cons_self
    have howned : later.Owned userId documentId := by
      unfold Store.Owned
      rw [hdocuments]
      exact owned
    have hascending : (s.savedVersion userId documentId label reply).sectionsSnapshot.Pairwise
        fun a b ↦ a.order < b.order :=
      List.pairwise_map.mpr (SectionTable.pairwise_findByDocument distinct)
    refine ⟨_, _, run_restoreVersion howned hstored rfl, ?_, fun other hother ↦ ?_, rfl⟩
    · exact SectionTable.findByDocument_replaceAll hascending
    · exact SectionTable.ofDocument_replaceAll_of_ne hother

/-- The document after the creation of one section. -/
def withSection (content : String) : Store :=
  ((Request.create ⟨ada, memo.id, "Intro", content, none⟩).execute {} (Store.ofDocument memo)).2

theorem round_trips_filled : (withSection "Text").RoundTrips ada memo.id none {} := by
  have hdistinct : (withSection "Text").sections.Distinct memo.id := List.nodup_singleton _
  refine (round_trips_iff ⟨memo, rfl, rfl⟩ hdistinct rfl).mpr fun row hrow ↦ ?_
  have hcreated : ∀ row ∈ (withSection "Text").sections.ofDocument memo.id,
      row.title ≠ "" ∧ row.content ≠ "" ∧ row.status ≠ "" := by decide
  exact hcreated row (SectionTable.mem_findByDocument.mp hrow)

/-- A section may be created without content, and then the document cannot be saved. -/
theorem not_round_trips_empty : ¬(withSection "").RoundTrips ada memo.id none {} := by
  rintro ⟨version, saved, hrun, -⟩
  obtain ⟨savedAt, hvalid⟩ := valid_of_saved hrun
  have hrow : (⟨0, memo.id, "Intro", "", 0, "draft", 0, 0, 0⟩ : Section) ∈
      (withSection "").sections.ofDocument memo.id := by decide
  have hfilled := (valid_nextVersion_iff (withSection "") ada memo.id none savedAt).mp hvalid _
    (SectionTable.mem_findByDocument.mpr hrow)
  exact hfilled.2.1 rfl

end MemoFlowApi.Documents
