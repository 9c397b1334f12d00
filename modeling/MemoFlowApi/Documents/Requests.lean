import MemoFlowApi.Documents.Listing
import MemoFlowApi.Documents.UseCases

/-!
# Requests One at a Time

A request that runs alone either is rejected, and leaves sections and versions as they are, or has
the one effect of its kind (`Request.run_cases`).
-/

namespace MemoFlowApi.Documents

open Concurrency Templates

/-- The answers to the calls of a request that runs alone. -/
def respond (reply : Reply) (op : Op) (s : Store) : Except HttpError (Ans op) × Store :=
  (.ok (answer reply op s).1, (answer reply op s).2)

/-- The outcome of a request that runs alone, with the state it leaves. -/
def Request.execute (request : Request) (reply : Reply) (s : Store) : Except HttpError Unit × Store :=
  request.program.run (respond reply) s

/-- The document belongs to the user. -/
def Store.Owned (s : Store) (userId : UserId) (documentId : DocumentId) : Prop :=
  ∃ document, s.documents documentId = some document ∧ document.userId = userId

/-- The order behind all sections of a document. -/
def Store.nextOrder (s : Store) (documentId : DocumentId) : ℤ :=
  (s.sections.maxOrder documentId).getD (-1) + 1

/-- The row that a create inserts. -/
def CreateSectionInput.data (input : CreateSectionInput) (order : ℤ) : SectionData where
  title := input.title
  content := input.content
  order := order
  status := input.status.getD "draft"
  wordCount := wordCount input.content

/-- The version that a save stores. -/
def Store.nextVersion (s : Store) (userId : UserId) (documentId : DocumentId)
    (label : Option String) (savedAt : ℕ) : NewVersion where
  documentId := documentId
  userId := userId
  version := (s.versions.maxVersion documentId).getD 0 + 1
  label := label
  sectionsSnapshot := (s.sections.findByDocument documentId).map (·.data)
  savedAt := savedAt

/-- What a request that is not rejected does. -/
inductive Request.Effect (s : Store) : Request → Store → Prop
  | create {input : CreateSectionInput} (owned : s.Owned input.userId input.documentId) :
      Effect s (.create input) { s with
        sections := s.sections.insert input.documentId [input.data (s.nextOrder input.documentId)]
          s.clock }
  | update {input : UpdateSectionInput} {row} (owned : s.Owned input.userId input.documentId)
      (found : s.sections.findById input.sectionId = some row)
      (own : row.documentId = input.documentId) :
      Effect s (.update input) { s with
        sections := s.sections.update (·.id = input.sectionId) input.patch s.clock }
  | delete {userId documentId sectionId row} (owned : s.Owned userId documentId)
      (found : s.sections.findById sectionId = some row) (own : row.documentId = documentId) :
      Effect s (.delete userId documentId sectionId) { s with
        sections := s.sections.delete (·.id = sectionId) }
  | reorder {userId documentId sectionIds} (owned : s.Owned userId documentId)
      (matched : mismatched ((s.sections.findByDocument documentId).map (·.id)) sectionIds = false) :
      Effect s (.reorder userId documentId sectionIds) { s with
        sections := s.sections.reorder documentId sectionIds s.clock }
  | applyTemplate {userId templateId documentId template applied clock}
      (owned : s.Owned userId documentId) (found : s.templates templateId = some template) :
      Effect s (.applyTemplate userId templateId documentId) { s with
        sections := s.sections.insert documentId
          (placeFrom (s.nextOrder documentId) (Template.appliedSections template)) clock
        applied := applied
        clock := clock }
  | saveVersion {userId documentId label clock} (owned : s.Owned userId documentId)
      (valid : (s.nextVersion userId documentId label clock).Valid = true) (fresh) :
      Effect s (.saveVersion userId documentId label) { s with
        versions := s.versions.insert (s.nextVersion userId documentId label clock) fresh
        clock := clock }
  | restoreVersion {userId documentId versionId version} (owned : s.Owned userId documentId)
      (found : s.versions.findById versionId = some version)
      (own : version.documentId = documentId) :
      Effect s (.restoreVersion userId documentId versionId) { s with
        sections := s.sections.replaceAll documentId version.sectionsSnapshot s.clock }

section Runs

variable {α : Type} {reply : Reply} {s : Store}

/-- Awaiting a call. -/
theorem run_await_bind {op : Op} {rest : Ans op → Async α} :
    (await op >>= rest).run (respond reply) s =
      (rest (answer reply op s).1).run (respond reply) (answer reply op s).2 := rfl

/-- The lookup finds a document of the user, or rejects the request. -/
theorem run_getDocument (reply : Reply) (s : Store) (userId : UserId) (documentId : DocumentId) :
    (∃ document, s.documents documentId = some document ∧ document.userId = userId ∧
      (getDocument userId documentId).run (respond reply) s = (.ok document, s)) ∨
    (getDocument userId documentId).run (respond reply) s =
      (.error (documentNotFound documentId), s) := by
  unfold getDocument
  rw [run_await_bind]
  cases hdocument : s.documents documentId with
  | none => simp [answer, hdocument]
  | some document =>
    by_cases howner : document.userId = userId
    · exact .inl ⟨document, rfl, howner, by simp [answer, hdocument, howner]⟩
    · exact .inr (by simp [answer, hdocument, howner])

theorem run_getSection (reply : Reply) (s : Store) (userId : UserId) (documentId : DocumentId)
    (sectionId : ℕ) :
    (∃ row, s.Owned userId documentId ∧ s.sections.findById sectionId = some row ∧
      row.documentId = documentId ∧
      (getSection userId documentId sectionId).run (respond reply) s = (.ok row, s)) ∨
    ∃ error, (getSection userId documentId sectionId).run (respond reply) s =
      (.error error, s) := by
  unfold getSection
  rcases run_getDocument reply s userId documentId with ⟨document, hdocument, howner, hrun⟩ | hrun
  · rw [Program.run_bind_ok hrun, run_await_bind]
    cases hfound : s.sections.findById sectionId with
    | none => exact .inr ⟨sectionNotFound sectionId, by simp [answer, hfound]⟩
    | some row =>
      by_cases hown : row.documentId = documentId
      · exact .inl ⟨row, ⟨document, hdocument, howner⟩, rfl, hown, by simp [answer, hfound, hown]⟩
      · exact .inr ⟨sectionNotFound sectionId, by simp [answer, hfound, hown]⟩
  · exact .inr ⟨_, Program.run_bind_error hrun⟩

theorem run_getVersion (reply : Reply) (s : Store) (userId : UserId) (documentId : DocumentId)
    (versionId : ℕ) :
    (∃ version, s.Owned userId documentId ∧ s.versions.findById versionId = some version ∧
      version.documentId = documentId ∧
      (getVersion userId documentId versionId).run (respond reply) s = (.ok version, s)) ∨
    ∃ error, (getVersion userId documentId versionId).run (respond reply) s =
      (.error error, s) := by
  unfold getVersion
  rw [run_await_bind]
  dsimp only [answer]
  cases hdocument : s.documents documentId with
  | none => exact .inr ⟨documentNotFound documentId, rfl⟩
  | some document =>
    by_cases howner : document.userId = userId
    · have howned : s.Owned userId documentId := ⟨document, hdocument, howner⟩
      cases hfound : s.versions.findById versionId with
      | none =>
        refine .inr ⟨versionNotFound versionId, ?_⟩
        dsimp only
        rw [if_neg (not_not.mpr howner), run_await_bind]
        simp only [answer, hfound, Program.run_throw]
      | some version =>
        by_cases hown : version.documentId = documentId
        · refine .inl ⟨version, howned, rfl, hown, ?_⟩
          dsimp only
          rw [if_neg (not_not.mpr howner), run_await_bind]
          simp [answer, hfound, hown]
        · refine .inr ⟨versionNotFound versionId, ?_⟩
          dsimp only
          rw [if_neg (not_not.mpr howner), run_await_bind]
          simp [answer, hfound, hown]
    · refine .inr ⟨documentNotFound documentId, ?_⟩
      dsimp only
      rw [if_pos howner, Program.run_throw]

/-- A row that is found is found again after an `UPDATE`. -/
theorem findById_update {table : SectionTable} {id : ℕ} (matching : Section → Bool)
    (patch : UpdateSectionData) (time : ℕ) {row : Section} (found : table.findById id = some row) :
    ∃ row', (table.update matching patch time).findById id = some row' := by
  have hsame : ((fun row : Section ↦ decide (row.id = id)) ∘
      fun row ↦ if matching row then row.update patch time else row) =
      fun row ↦ decide (row.id = id) := by
    funext row
    dsimp only [Function.comp_apply]
    split <;> rfl
  unfold SectionTable.findById at found ⊢
  unfold SectionTable.update
  rw [List.find?_map, hsame, found]
  exact ⟨_, rfl⟩

/-- The version behind all versions of a document is free. -/
theorem fresh_nextVersion (userId : UserId) (documentId : DocumentId) (label : Option String)
    (savedAt : ℕ) : (s.nextVersion userId documentId label savedAt).key ∉
      s.versions.docs.map (·.key) := by
  intro hmem
  obtain ⟨version, hversion, hkey⟩ := List.mem_map.mp hmem
  obtain ⟨hdocument, hnumber⟩ := Prod.mk.inj hkey
  have hmem : version.version ∈ (s.versions.ofDocument documentId).map (·.version) :=
    List.mem_map_of_mem (List.mem_filter.mpr ⟨hversion, decide_eq_true hdocument⟩)
  change version.version = (s.versions.maxVersion documentId).getD 0 + 1 at hnumber
  unfold VersionCollection.maxVersion at hnumber
  cases hmax : ((s.versions.ofDocument documentId).map (·.version)).max? with
  | none =>
    rw [List.max?_eq_none_iff] at hmax
    rw [hmax] at hmem
    cases hmem
  | some max =>
    have hle := (List.max?_eq_some_iff.mp hmax).2 version.version hmem
    rw [hmax, Option.getD_some] at hnumber
    omega

/-- What an insert of a free version number does. -/
theorem insertVersion_cases (s : Store) (refused : Bool) (data : NewVersion)
    (fresh : data.key ∉ s.versions.docs.map (·.key)) :
    s.insertVersion refused data = (.invalid, s) ∨ s.insertVersion refused data = (.failed, s) ∨
      data.Valid = true ∧ s.insertVersion refused data =
        (.stored { data with id := s.versions.docs.length },
          { s with versions := s.versions.insert data fresh }) := by
  unfold Store.insertVersion
  split
  · exact .inl rfl
  · next hvalid =>
    split
    · exact .inr (.inl rfl)
    · exact .inr (.inr ⟨Bool.not_eq_false _ ▸ hvalid, rfl⟩)

theorem insertVersion_stored (s : Store) {data : NewVersion}
    (fresh : data.key ∉ s.versions.docs.map (·.key)) (valid : data.Valid = true) :
    s.insertVersion false data = (.stored { data with id := s.versions.docs.length },
      { s with versions := s.versions.insert data fresh }) := by
  unfold Store.insertVersion
  rw [if_neg (Bool.not_eq_false _ ▸ valid), if_neg Bool.false_ne_true, dif_pos fresh]

/-- The answer to a call as the outcome of a run. -/
def answered {β : Type} (answer : β × Store) : Except HttpError β × Store := (.ok answer.1, answer.2)

/-- An insert that runs alone finds its version number free. -/
theorem run_createNext (reply : Reply) (s : Store) (userId : UserId) (documentId : DocumentId)
    (label : Option String) (onDuplicate : Async DocumentVersion) :
    (∃ error, (createNext ⟨documentId, userId, label,
        (s.sections.findByDocument documentId).map (·.data)⟩ onDuplicate).run (respond reply) s =
      (.error error, { s with clock := s.clock + reply.elapsed })) ∨
    ∃ version, (s.nextVersion userId documentId label (s.clock + reply.elapsed)).Valid = true ∧
      (createNext ⟨documentId, userId, label,
        (s.sections.findByDocument documentId).map (·.data)⟩ onDuplicate).run (respond reply) s =
      (.ok version, { s with
        versions := s.versions.insert
          (s.nextVersion userId documentId label (s.clock + reply.elapsed))
          (fresh_nextVersion userId documentId label _)
        clock := s.clock + reply.elapsed }) := by
  have hfresh := fresh_nextVersion (s := s) userId documentId label (s.clock + reply.elapsed)
  have hrun : (await (.insertVersion (s.nextVersion userId documentId label
      (s.clock + reply.elapsed)))).run (respond reply) { s with clock := s.clock + reply.elapsed } =
      answered (Store.insertVersion { s with clock := s.clock + reply.elapsed } reply.refused
        (s.nextVersion userId documentId label (s.clock + reply.elapsed))) := rfl
  unfold createNext
  rw [run_await_bind, run_await_bind]
  rcases insertVersion_cases { s with clock := s.clock + reply.elapsed } reply.refused
    (s.nextVersion userId documentId label (s.clock + reply.elapsed)) hfresh with
    hinvalid | hfailed | ⟨hvalid, hstored⟩
  · exact .inl ⟨validationError, Program.run_bind_ok (hrun.trans (congrArg answered hinvalid))⟩
  · exact .inl ⟨insertError, Program.run_bind_ok (hrun.trans (congrArg answered hfailed))⟩
  · exact .inr ⟨_, hvalid, Program.run_bind_ok (hrun.trans (congrArg answered hstored))⟩

/-- A program that runs alone is rejected without a trace in sections and versions, or has the effect
of a request. -/
def Settles (request : Request) (reply : Reply) (s : Store) (program : Async α) : Prop :=
  (∃ error clock, program.run (respond reply) s = (.error error, { s with clock := clock })) ∨
    ∃ value s', program.run (respond reply) s = (.ok value, s') ∧ request.Effect s s'

theorem Settles.ignore {request : Request} {program : Async α} (h : Settles request reply s program) :
    Settles request reply s (program >>= fun _ ↦ pure ()) := by
  rcases h with ⟨error, clock, hrun⟩ | ⟨value, s', hrun, heffect⟩
  · exact .inl ⟨error, clock, Program.run_bind_error hrun⟩
  · exact .inr ⟨(), s', Program.run_bind_ok hrun, heffect⟩

theorem createSection_settles (input : CreateSectionInput) :
    Settles (.create input) reply s (createSection input) := by
  unfold Settles createSection
  rcases run_getDocument reply s input.userId input.documentId with
    ⟨document, hdocument, howner, hrun⟩ | hrun
  · rw [Program.run_bind_ok hrun]
    exact .inr ⟨_, _, rfl, .create ⟨document, hdocument, howner⟩⟩
  · exact .inl ⟨_, s.clock, Program.run_bind_error hrun⟩

theorem updateSection_settles (input : UpdateSectionInput) :
    Settles (.update input) reply s (updateSection input) := by
  unfold Settles updateSection
  rcases run_getSection reply s input.userId input.documentId input.sectionId
    with ⟨row, howned, hfound, hown, hrun⟩ | ⟨error, hrun⟩
  · rw [Program.run_bind_ok hrun, run_await_bind, run_await_bind]
    obtain ⟨row', hfound'⟩ := findById_update (·.id = input.sectionId) input.patch
      s.clock hfound
    refine .inr ⟨row', _, ?_, .update howned hfound hown⟩
    simp only [answer, hfound']
    rfl
  · exact .inl ⟨error, s.clock, Program.run_bind_error hrun⟩

theorem deleteSection_settles (userId : UserId) (documentId : DocumentId) (sectionId : ℕ) :
    Settles (.delete userId documentId sectionId) reply s
      (deleteSection userId documentId sectionId) := by
  unfold Settles deleteSection
  rcases run_getSection reply s userId documentId sectionId
    with ⟨row, howned, hfound, hown, hrun⟩ | ⟨error, hrun⟩
  · rw [Program.run_bind_ok hrun]
    exact .inr ⟨_, _, rfl, .delete howned hfound hown⟩
  · exact .inl ⟨error, s.clock, Program.run_bind_error hrun⟩

theorem reorderSections_settles (userId : UserId) (documentId : DocumentId) (sectionIds : List ℕ) :
    Settles (.reorder userId documentId sectionIds) reply s
      (reorderSections userId documentId sectionIds) := by
  unfold Settles reorderSections
  rcases run_getDocument reply s userId documentId with
    ⟨document, hdocument, howner, hrun⟩ | hrun
  · rw [Program.run_bind_ok hrun, run_await_bind]
    by_cases hmatched : mismatched ((s.sections.findByDocument documentId).map (·.id)) sectionIds
    · exact .inl ⟨sectionIdsMismatch, s.clock, congrArg
        (fun program : Async (List Section) ↦ program.run (respond reply) s) (if_pos hmatched)⟩
    · refine .inr ⟨_, _, congrArg (fun program : Async (List Section) ↦
        program.run (respond reply) s) (if_neg hmatched), .reorder ⟨document, hdocument, howner⟩ ?_⟩
      exact Bool.not_eq_true _ ▸ hmatched
  · exact .inl ⟨_, s.clock, Program.run_bind_error hrun⟩

theorem applyTemplate_settles (userId : UserId) (templateId : TemplateId)
    (documentId : DocumentId) : Settles (.applyTemplate userId templateId documentId) reply s
      (applyTemplate userId templateId documentId) := by
  unfold Settles applyTemplate
  rw [run_await_bind]
  dsimp only [answer]
  cases hvisible : assertTemplateVisible (s.templates templateId) userId templateId with
  | error error => exact .inl ⟨error, s.clock, rfl⟩
  | ok template =>
    have hfound : s.templates templateId = some template := by
      unfold assertTemplateVisible at hvisible
      split at hvisible
      · cases hvisible
      · split at hvisible
        · cases hvisible
        · next heq _ =>
          cases hvisible
          exact heq
    have hlift : (liftExcept (.ok template)).run (respond reply) s = (.ok template, s) := rfl
    rw [Program.run_bind_ok hlift, run_await_bind]
    dsimp only [answer]
    cases hdocument : s.documents documentId with
    | none => exact .inl ⟨documentNotFound documentId, s.clock, rfl⟩
    | some document =>
      dsimp only
      split
      · exact .inl ⟨documentNotFound documentId, s.clock, rfl⟩
      · next howner =>
        split
        · exact .inl ⟨docTypeMismatch template.docType document.docType, s.clock, rfl⟩
        · exact .inr ⟨_, _, rfl, .applyTemplate ⟨document, hdocument, not_not.mp howner⟩ hfound⟩

theorem saveVersion_settles (userId : UserId) (documentId : DocumentId) (label : Option String) :
    Settles (.saveVersion userId documentId label) reply s (saveVersion userId documentId label) := by
  unfold Settles saveVersion
  rw [run_await_bind]
  dsimp only [answer]
  cases hdocument : s.documents documentId with
  | none => exact .inl ⟨documentNotFound documentId, s.clock, rfl⟩
  | some document =>
    dsimp only
    split
    · exact .inl ⟨documentNotFound documentId, s.clock, rfl⟩
    · next howner =>
      have howned : s.Owned userId documentId := ⟨document, hdocument, not_not.mp howner⟩
      rw [run_await_bind]
      rcases run_createNext reply s userId documentId label
        (createNext ⟨documentId, userId, label,
          (s.sections.findByDocument documentId).map (·.data)⟩ (.throw duplicateKeyError)) with
        ⟨error, hrun⟩ | ⟨version, hvalid, hrun⟩
      · exact .inl ⟨error, _, hrun⟩
      · exact .inr ⟨version, _, hrun, .saveVersion howned hvalid _⟩

theorem restoreVersion_settles (userId : UserId) (documentId : DocumentId) (versionId : ℕ) :
    Settles (.restoreVersion userId documentId versionId) reply s
      (restoreVersion userId documentId versionId) := by
  unfold Settles restoreVersion
  rcases run_getVersion reply s userId documentId versionId with
    ⟨version, howned, hfound, hown, hrun⟩ | ⟨error, hrun⟩
  · rw [Program.run_bind_ok hrun]
    exact .inr ⟨_, _, rfl, .restoreVersion howned hfound hown⟩
  · exact .inl ⟨error, s.clock, Program.run_bind_error hrun⟩

/-- A request that runs alone is rejected without a trace in sections and versions, or has the
effect of its kind. -/
theorem Request.run_cases (request : Request) (reply : Reply) (s : Store) :
    (∃ error clock, request.execute reply s = (.error error, { s with clock := clock })) ∨
      ∃ s', request.execute reply s = (.ok (), s') ∧ request.Effect s s' := by
  have hsettles : Settles request reply s request.program := by
    cases request with
    | create input => exact (createSection_settles input).ignore
    | update input => exact (updateSection_settles input).ignore
    | delete userId documentId sectionId => exact deleteSection_settles userId documentId sectionId
    | reorder userId documentId sectionIds =>
      exact (reorderSections_settles userId documentId sectionIds).ignore
    | applyTemplate userId templateId documentId =>
      exact (applyTemplate_settles userId templateId documentId).ignore
    | saveVersion userId documentId label =>
      exact (saveVersion_settles userId documentId label).ignore
    | restoreVersion userId documentId versionId =>
      exact (restoreVersion_settles userId documentId versionId).ignore
  rcases hsettles with hrejected | ⟨_, s', hrun, heffect⟩
  · exact .inl hrejected
  · exact .inr ⟨s', hrun, heffect⟩

end Runs

end MemoFlowApi.Documents
