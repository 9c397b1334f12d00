import Mathlib.Data.List.Dedup
import MemoFlowApi.Documents.Requests

/-!
# The Section List

Seven requests write the sections of a document, each with its own way to positions and word counts.
All of them keep the orders of every document distinct and the word counts right, and a create, a
template application and a reorder have the listing that they promise (`section_list_invariant`).
-/

namespace MemoFlowApi.Documents

open Concurrency Templates

/-- Sections have distinct orders and the word count of their content. -/
def SnapshotValid (sections : List SectionData) : Prop :=
  (sections.map (·.order)).Nodup ∧ ∀ data ∈ sections, data.wordCount = wordCount data.content

/-- What every request keeps. -/
structure Store.SectionsValid (s : Store) : Prop where
  distinct : ∀ documentId, s.sections.Distinct documentId
  counted : ∀ row ∈ s.sections.rows, row.wordCount = wordCount row.content
  snapshots : ∀ version ∈ s.versions.docs, SnapshotValid version.sectionsSnapshot

/-- The listing of a document. -/
def Store.listing (s : Store) (documentId : DocumentId) : List Section :=
  s.sections.findByDocument documentId

/-- The document of a request. -/
def Request.documentId : Request → DocumentId
  | create input => input.documentId
  | update input => input.documentId
  | delete _ documentId _ => documentId
  | reorder _ documentId _ => documentId
  | applyTemplate _ _ documentId => documentId
  | saveVersion _ documentId _ => documentId
  | restoreVersion _ documentId _ => documentId

/-- The listing that a request promises, if it promises one. -/
def Request.Lists (s s' : Store) : Request → Prop
  | create input => ∃ row, row.data = input.data row.order ∧
      s'.listing input.documentId = s.listing input.documentId ++ [row] ∧
      ∀ other ∈ s.listing input.documentId, other.order < row.order
  | applyTemplate _ templateId documentId => ∃ template rows,
      s.templates templateId = some template ∧
      rows.map (·.title) = (template.sections.mergeSort fun a b ↦ a.order ≤ b.order).map (·.title) ∧
      rows.Pairwise (fun a b ↦ a.order < b.order) ∧
      s'.listing documentId = s.listing documentId ++ rows ∧
      ∀ other ∈ s.listing documentId, ∀ row ∈ rows, other.order < row.order
  | reorder _ documentId sectionIds =>
      (s'.listing documentId).map (·.id) = sectionIds ∧
        sectionIds.Perm ((s.listing documentId).map (·.id))
  | _ => True

/-! ## Rows of a template -/

theorem placeFrom_order {nextOrder : ℤ} {sections : List ApplyTemplateSectionData}
    {data : SectionData} (mem : data ∈ placeFrom nextOrder sections) : nextOrder ≤ data.order := by
  induction sections generalizing nextOrder with
  | nil => cases mem
  | cons first rest ih =>
    rcases List.mem_cons.mp mem with rfl | hrest
    · exact le_rfl
    · have hnext := ih hrest
      omega

theorem pairwise_placeFrom (nextOrder : ℤ) (sections : List ApplyTemplateSectionData) :
    (placeFrom nextOrder sections).Pairwise fun a b ↦ a.order < b.order := by
  induction sections generalizing nextOrder with
  | nil => exact List.Pairwise.nil
  | cons first rest ih =>
    refine List.Pairwise.cons (fun data hdata ↦ ?_) (ih (nextOrder + 1))
    have hnext := placeFrom_order hdata
    change nextOrder < data.order
    omega

theorem placeFrom_title (nextOrder : ℤ) (sections : List ApplyTemplateSectionData) :
    (placeFrom nextOrder sections).map (·.title) = sections.map (·.title) := by
  induction sections generalizing nextOrder with
  | nil => rfl
  | cons first rest ih => rw [placeFrom, List.map_cons, List.map_cons, ih]

/-- What a template appends is empty. -/
theorem counted_placeFrom {template : Template} {nextOrder : ℤ} {data : SectionData}
    (mem : data ∈ placeFrom nextOrder (Template.appliedSections template)) :
    data.wordCount = wordCount data.content := by
  have hplaced : ∀ {sections : List ApplyTemplateSectionData} {nextOrder : ℤ},
      (∀ applied ∈ sections, applied.wordCount = wordCount applied.content) →
      data ∈ placeFrom nextOrder sections → data.wordCount = wordCount data.content := by
    intro sections
    induction sections with
    | nil =>
      intro _ _ hmem
      cases hmem
    | cons first rest ih =>
      intro nextOrder hcounted hmem
      rcases List.mem_cons.mp hmem with rfl | hrest
      · exact hcounted first List.mem_cons_self
      · exact ih (fun applied happlied ↦ hcounted applied (List.mem_cons_of_mem _ happlied)) hrest
  refine hplaced (fun applied happlied ↦ ?_) mem
  obtain ⟨templateSection, -, rfl⟩ := List.mem_map.mp happlied
  exact wordCount_empty.symm

/-! ## Permutations -/

/-- Ids that pass the check of a reorder are a permutation of the existing ones. -/
theorem perm_of_not_mismatched {existing requested : List ℕ} (nodup : existing.Nodup)
    (matched : mismatched existing requested = false) : requested.Perm existing := by
  simp only [mismatched, Bool.or_eq_false_iff, decide_eq_false_iff_not, not_not, Bool.not_eq_false',
    List.all_eq_true, decide_eq_true_eq] at matched
  obtain ⟨⟨hsize, hlength⟩, hall⟩ := matched
  rw [List.dedup_eq_self.mpr nodup, ← hlength] at hsize
  have hrequested : requested.Nodup := by
    rw [← List.dedup_eq_self]
    exact (List.dedup_sublist requested).eq_of_length hsize.symm
  exact ((List.subperm_of_subset nodup hall).perm_of_length_le hlength.le).symm

/-! ## One request -/

section Effects

variable {s s' : Store} {request : Request}

/-- An id has one row. -/
theorem eq_of_findById {table : SectionTable} {id : ℕ} {found row : Section}
    (hfound : table.findById id = some found) (mem : row ∈ table.rows) (hid : row.id = id) :
    row = found := by
  have hmem : found ∈ table.rows := List.mem_of_find?_eq_some hfound
  have hfoundId : found.id = id := by simpa using List.find?_some hfound
  exact List.inj_on_of_nodup_map table.nodup_id mem hmem (hid.trans hfoundId.symm)

/-- The ids of a listing are distinct. -/
theorem nodup_ids (table : SectionTable) (documentId : DocumentId) :
    ((table.findByDocument documentId).map (·.id)).Nodup := by
  have hrows : ((table.ofDocument documentId).map (·.id)).Nodup :=
    table.nodup_id.sublist (List.filter_sublist.map _)
  exact ((List.mergeSort_perm _ _).map _).nodup_iff.mpr hrows

/-- An accepted reorder names exactly the document's rows. -/
theorem reorder_matched {table : SectionTable} {documentId : DocumentId} {sectionIds : List ℕ}
    (matched : mismatched ((table.findByDocument documentId).map (·.id)) sectionIds = false) :
    sectionIds.Nodup ∧
      ∀ id, id ∈ sectionIds ↔ ∃ row ∈ table.ofDocument documentId, row.id = id := by
  have hperm := perm_of_not_mismatched (nodup_ids table documentId) matched
  refine ⟨hperm.nodup_iff.mpr (nodup_ids table documentId), fun id ↦ ?_⟩
  rw [hperm.mem_iff, List.mem_map]
  simp only [SectionTable.mem_findByDocument]

/-- Sections of other documents are left alone. -/
theorem Request.Effect.others (effect : request.Effect s s') {other : DocumentId}
    (h : other ≠ request.documentId) : s'.sections.ofDocument other = s.sections.ofDocument other := by
  cases effect with
  | create => exact SectionTable.ofDocument_insert_of_ne _ h
  | update _ found own =>
    refine SectionTable.ofDocument_update_of_ne fun row hrow hid hdocument ↦ h ?_
    rw [eq_of_findById found hrow (of_decide_eq_true hid), own] at hdocument
    exact hdocument.symm
  | delete _ found own =>
    refine SectionTable.ofDocument_delete_of_ne fun row hrow hid hdocument ↦ h ?_
    rw [eq_of_findById found hrow (of_decide_eq_true hid), own] at hdocument
    exact hdocument.symm
  | reorder _ matched => exact SectionTable.ofDocument_reorder_of_ne (reorder_matched matched).1 h
  | applyTemplate => exact SectionTable.ofDocument_insert_of_ne _ h
  | saveVersion => rfl
  | restoreVersion => exact SectionTable.ofDocument_replaceAll_of_ne h

/-- Rows that are placed from the first free order on lie behind all others. -/
theorem behind_placeFrom {s : Store} {documentId : DocumentId}
    {sections : List ApplyTemplateSectionData} {row : Section} {new : SectionData}
    (mem : row ∈ s.sections.ofDocument documentId)
    (placed : new ∈ placeFrom (s.nextOrder documentId) sections) : row.order < new.order :=
  lt_of_lt_of_le (SectionTable.order_lt_of_maxOrder mem) (placeFrom_order placed)

theorem behind_create {s : Store} {input : CreateSectionInput} {row : Section} {new : SectionData}
    (mem : row ∈ s.sections.ofDocument input.documentId)
    (created : new ∈ [input.data (s.nextOrder input.documentId)]) : row.order < new.order := by
  rw [List.mem_singleton.mp created]
  exact SectionTable.order_lt_of_maxOrder mem

theorem Request.Effect.distinct (effect : request.Effect s s') (valid : s.SectionsValid) :
    s'.sections.Distinct request.documentId := by
  have hdistinct := valid.distinct request.documentId
  cases effect with
  | create =>
    refine hdistinct.insert (List.nodup_singleton _) fun row hrow new hnew ↦ ?_
    exact (behind_create hrow hnew).ne
  | update => exact hdistinct.update rfl
  | delete => exact hdistinct.delete
  | reorder _ matched =>
    obtain ⟨hnodup, hall⟩ := reorder_matched matched
    exact SectionTable.distinct_reorder hnodup fun row hrow ↦ (hall row.id).mpr ⟨row, hrow, rfl⟩
  | applyTemplate =>
    refine hdistinct.insert ?_ fun row hrow new hnew ↦ (behind_placeFrom hrow hnew).ne
    exact List.pairwise_map.mpr ((pairwise_placeFrom _ _).imp fun hlt ↦ hlt.ne)
  | saveVersion => exact hdistinct
  | restoreVersion _ found =>
    have hmem := ((VersionCollection.findById_eq_some _).mp found).1
    exact SectionTable.distinct_replaceAll (valid.snapshots _ hmem).1

/-- Inserted rows have the word counts that they were given. -/
theorem counted_insert {table : SectionTable} {documentId : DocumentId} {data : List SectionData}
    {time : ℕ} (counted : ∀ row ∈ table.rows, row.wordCount = wordCount row.content)
    (new : ∀ section_ ∈ data, section_.wordCount = wordCount section_.content) :
    ∀ row ∈ (table.insert documentId data time).rows, row.wordCount = wordCount row.content := by
  intro row hrow
  rcases List.mem_append.mp hrow with hold | hadded
  · exact counted row hold
  · have hdata : row.data ∈ data := by
      rw [← SectionTable.newRows_data documentId time table.generated data]
      exact List.mem_map_of_mem hadded
    exact new row.data hdata

theorem counted_update {table : SectionTable} {matching : Section → Bool} {patch : UpdateSectionData}
    {time : ℕ} (counted : ∀ row ∈ table.rows, row.wordCount = wordCount row.content)
    (patched : patch.wordCount = patch.content.map wordCount) :
    ∀ row ∈ (table.update matching patch time).rows, row.wordCount = wordCount row.content := by
  intro row hrow
  obtain ⟨old, hold, rfl⟩ := List.mem_map.mp hrow
  have hcounted := counted old hold
  split
  · unfold Section.update
    rw [patched]
    cases patch.content with
    | none => exact hcounted
    | some content => rfl
  · exact hcounted

theorem Request.Effect.counted (effect : request.Effect s s') (valid : s.SectionsValid) :
    ∀ row ∈ s'.sections.rows, row.wordCount = wordCount row.content := by
  have hcounted := valid.counted
  cases effect with
  | create =>
    refine counted_insert hcounted fun new hnew ↦ ?_
    rw [List.mem_singleton.mp hnew]
    rfl
  | update => exact counted_update hcounted rfl
  | delete => exact fun row hrow ↦ hcounted row (List.mem_of_mem_filter hrow)
  | reorder _ matched =>
    intro row hrow
    rw [SectionTable.reorder_rows (reorder_matched matched).1] at hrow
    obtain ⟨old, hold, rfl⟩ := List.mem_map.mp hrow
    unfold SectionTable.placed
    split
    · exact hcounted old hold
    · exact hcounted old hold
  | applyTemplate => exact counted_insert hcounted fun new hnew ↦ counted_placeFrom hnew
  | saveVersion => exact hcounted
  | restoreVersion _ found =>
    have hmem := ((VersionCollection.findById_eq_some _).mp found).1
    refine counted_insert (fun row hrow ↦ ?_) (valid.snapshots _ hmem).2
    exact hcounted row (List.mem_of_mem_filter hrow)

/-- A snapshot of a valid document is valid. -/
theorem Store.SectionsValid.snapshot (valid : s.SectionsValid) (documentId : DocumentId) :
    SnapshotValid ((s.sections.findByDocument documentId).map (·.data)) := by
  constructor
  · rw [List.map_map]
    exact ((List.mergeSort_perm _ _).map _).nodup_iff.mpr (valid.distinct documentId)
  · intro data hdata
    obtain ⟨row, hrow, rfl⟩ := List.mem_map.mp hdata
    have hmem := SectionTable.mem_ofDocument.mp (SectionTable.mem_findByDocument.mp hrow)
    exact valid.counted row hmem.1

theorem Request.Effect.snapshots (effect : request.Effect s s') (valid : s.SectionsValid) :
    ∀ version ∈ s'.versions.docs, SnapshotValid version.sectionsSnapshot := by
  cases effect with
  | saveVersion =>
    intro version hversion
    rcases List.mem_cons.mp hversion with rfl | hold
    · exact valid.snapshot _
    · exact valid.snapshots version hold
  | _ => exact valid.snapshots

/-- An accepted request keeps sections valid. -/
theorem Request.Effect.valid (effect : request.Effect s s') (valid : s.SectionsValid) :
    s'.SectionsValid where
  distinct documentId := by
    by_cases hsame : documentId = request.documentId
    · rw [hsame]
      exact effect.distinct valid
    · unfold SectionTable.Distinct
      rw [effect.others hsame]
      exact valid.distinct documentId
  counted := effect.counted valid
  snapshots := effect.snapshots valid

/-- An accepted request has the listing that it promises. -/
theorem Request.Effect.lists (effect : request.Effect s s') (valid : s.SectionsValid) :
    request.Lists s s' := by
  have hdistinct := valid.distinct request.documentId
  cases effect with
  | create =>
    refine ⟨_, rfl, SectionTable.findByDocument_insert hdistinct (List.pairwise_singleton _ _)
      fun row hrow new hnew ↦ behind_create hrow hnew, fun other hother ↦ ?_⟩
    exact behind_create (SectionTable.mem_findByDocument.mp hother) List.mem_cons_self
  | @applyTemplate userId templateId documentId template applied clock _ found =>
    have hdata := SectionTable.newRows_data documentId clock s.sections.generated
      (placeFrom (s.nextOrder documentId) (Template.appliedSections template))
    refine ⟨template, SectionTable.newRows documentId clock s.sections.generated
      (placeFrom (s.nextOrder documentId) (Template.appliedSections template)), found, ?_,
      SectionTable.pairwise_newRows (pairwise_placeFrom _ _),
      SectionTable.findByDocument_insert hdistinct (pairwise_placeFrom _ _)
        fun row hrow new hnew ↦ behind_placeFrom hrow hnew, fun other hother row hrow ↦ ?_⟩
    · calc
        _ = ((SectionTable.newRows documentId clock s.sections.generated (placeFrom
              (s.nextOrder documentId) (Template.appliedSections template))).map (·.data)).map
              (·.title) := (List.map_map ..).symm
        _ = (Template.appliedSections template).map (·.title) := by rw [hdata, placeFrom_title]
        _ = _ := List.map_map ..
    · have hplaced : row.data ∈ placeFrom (s.nextOrder documentId)
          (Template.appliedSections template) := hdata ▸ List.mem_map_of_mem hrow
      exact behind_placeFrom (SectionTable.mem_findByDocument.mp hother) hplaced
  | reorder _ matched =>
    obtain ⟨hnodup, hall⟩ := reorder_matched matched
    exact ⟨SectionTable.findByDocument_reorder hnodup hall,
      perm_of_not_mismatched (nodup_ids _ _) matched⟩
  | _ => trivial

end Effects

/-! ## Sequences of requests -/

/-- A state that requests lead to, one at a time. -/
def Served (start s : Store) : Prop :=
  Relation.ReflTransGen (fun s s' ↦ ∃ request : Request, ∃ reply, s' = (request.execute reply s).2)
    start s

/-- What a request keeps, a sequence of requests keeps. -/
theorem Served.induction {start s : Store} {I : Store → Prop} (hstart : I start)
    (settled : ∀ s clock, I s → I { s with clock := clock })
    (step : ∀ request s s', Request.Effect s request s' → I s → I s') (served : Served start s) :
    I s := by
  induction served with
  | refl => exact hstart
  | tail _ hlast ih =>
    obtain ⟨request, reply, rfl⟩ := hlast
    rcases request.run_cases reply _ with ⟨error, clock, hrun⟩ | ⟨s', hrun, heffect⟩
    · rw [hrun]
      exact settled _ clock ih
    · rw [hrun]
      exact step request _ s' heffect ih

theorem Served.valid {start s : Store} (valid : start.SectionsValid) (served : Served start s) :
    s.SectionsValid :=
  served.induction valid (fun _ _ h ↦ ⟨h.distinct, h.counted, h.snapshots⟩)
    fun _ _ _ effect h ↦ effect.valid h

/-- Requests one at a time keep sections valid; a rejected one leaves all sections as they are, an
accepted one has the listing that it promises, and neither touches other documents. -/
theorem section_list_invariant {start s : Store} (valid : start.SectionsValid)
    (served : Served start s) :
    s.SectionsValid ∧ ∀ (request : Request) (reply : Reply),
      (∀ error, (request.execute reply s).1 = .error error →
        (request.execute reply s).2.sections = s.sections) ∧
      (∀ other ≠ request.documentId,
        (request.execute reply s).2.sections.ofDocument other = s.sections.ofDocument other) ∧
      ((request.execute reply s).1 = .ok () → request.Lists s (request.execute reply s).2) := by
  have hvalid := served.valid valid
  refine ⟨hvalid, fun request reply ↦ ?_⟩
  rcases request.run_cases reply s with ⟨error, clock, hrun⟩ | ⟨s', hrun, heffect⟩
  · rw [hrun]
    exact ⟨fun _ _ ↦ rfl, fun _ _ ↦ rfl, by rintro ⟨⟩⟩
  · rw [hrun]
    exact ⟨by rintro _ ⟨⟩, fun _ h ↦ heffect.others h, fun _ ↦ heffect.lists hvalid⟩

theorem Store.valid_ofDocument (document : Document) : (Store.ofDocument document).SectionsValid where
  distinct _ := List.nodup_nil
  counted _ h := by cases h
  snapshots _ h := by cases h

/-! ## Edits of one list -/

theorem mismatched_congr {existing existing' : List ℕ} (h : existing.Perm existing')
    (requested : List ℕ) : mismatched existing requested = mismatched existing' requested := by
  unfold mismatched
  rw [h.dedup.length_eq, h.length_eq, h.all_eq]

theorem run_getDocument_of_owned {reply : Reply} {s : Store} {userId : UserId}
    {documentId : DocumentId} (owned : s.Owned userId documentId) :
    ∃ document, (getDocument userId documentId).run (respond reply) s = (.ok document, s) := by
  obtain ⟨document, hdocument, howner⟩ := owned
  refine ⟨document, ?_⟩
  unfold getDocument
  rw [run_await_bind]
  simp [answer, hdocument, howner]

/-- A reorder compares the ids given with those of the sections of the document. -/
theorem execute_reorder {s : Store} {userId : UserId} {documentId : DocumentId}
    {sectionIds : List ℕ} {reply : Reply} (owned : s.Owned userId documentId) :
    (Request.reorder userId documentId sectionIds).execute reply s =
      if mismatched ((s.sections.ofDocument documentId).map (·.id)) sectionIds then
        (.error sectionIdsMismatch, s)
      else (.ok (), { s with sections := s.sections.reorder documentId sectionIds s.clock }) := by
  obtain ⟨document, hrun⟩ := @run_getDocument_of_owned reply _ _ _ owned
  have hperm : ((s.sections.findByDocument documentId).map (·.id)).Perm
      ((s.sections.ofDocument documentId).map (·.id)) := (List.mergeSort_perm _ _).map _
  have hreorder : (reorderSections userId documentId sectionIds).run (respond reply) s =
      if mismatched ((s.sections.findByDocument documentId).map (·.id)) sectionIds then
        (.error sectionIdsMismatch, s)
      else (.ok ((s.sections.reorder documentId sectionIds s.clock).findByDocument documentId),
        { s with sections := s.sections.reorder documentId sectionIds s.clock }) := by
    unfold reorderSections
    rw [Program.run_bind_ok hrun, run_await_bind]
    exact apply_ite (fun program : Async (List Section) ↦ program.run (respond reply) s) _ _ _
  rw [mismatched_congr hperm] at hreorder
  unfold Request.execute Request.program
  by_cases hmismatch : mismatched ((s.sections.ofDocument documentId).map (·.id)) sectionIds
  · rw [if_pos hmismatch] at hreorder ⊢
    exact Program.run_bind_error hreorder
  · rw [if_neg hmismatch] at hreorder ⊢
    exact Program.run_bind_ok hreorder

def created : Store :=
  ["Intro", "Body", "End"].foldl
    (fun s title ↦ ((Request.create ⟨ada, memo.id, title, "", none⟩).execute {} s).2)
    (Store.ofDocument memo)

/-- Three sections are created, the last one is moved to the front and the first one is deleted. -/
def edited : Store :=
  ((Request.delete ada memo.id 0).execute {} { created with
    sections := created.sections.reorder memo.id [2, 0, 1] created.clock }).2

theorem served_edited : Served (Store.ofDocument memo) edited := by
  have hcreated : Served (Store.ofDocument memo) created :=
    ((Relation.ReflTransGen.single ⟨_, _, rfl⟩).tail ⟨_, _, rfl⟩).tail ⟨_, _, rfl⟩
  have howned : created.Owned ada memo.id := ⟨memo, rfl, rfl⟩
  have hreorder := @execute_reorder _ _ _ [2, 0, 1] {} howned
  rw [if_neg (by decide +kernel)] at hreorder
  exact (hcreated.tail ⟨_, _, (congrArg Prod.snd hreorder).symm⟩).tail ⟨_, _, rfl⟩

/-- A reorder that names the deleted section is rejected and leaves the list as it is. -/
theorem section_list_invariant_edited :
    edited.SectionsValid ∧
    (edited.sections.ofDocument memo.id).map (fun row ↦ (row.title, row.order)) =
      [("Body", 2), ("End", 0)] ∧
    ((Request.reorder ada memo.id [2, 0, 1]).execute {} edited).1 = .error sectionIdsMismatch ∧
    ((Request.reorder ada memo.id [2, 0, 1]).execute {} edited).2.sections = edited.sections := by
  obtain ⟨hvalid, hrequests⟩ := section_list_invariant (Store.valid_ofDocument memo) served_edited
  have howned : edited.Owned ada memo.id := ⟨memo, rfl, rfl⟩
  have hrejected : ((Request.reorder ada memo.id [2, 0, 1]).execute {} edited).1 =
      .error sectionIdsMismatch := by
    rw [execute_reorder howned, if_pos (by decide +kernel)]
  exact ⟨hvalid, by decide +kernel, hrejected, (hrequests _ _).1 _ hrejected⟩

end MemoFlowApi.Documents
