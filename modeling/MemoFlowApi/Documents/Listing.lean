import MemoFlowApi.Documents.Section

/-!
# Listings

A document's sections are listed by their orders.  While these are distinct, the listing is the only
ascending arrangement of the document's rows, so it is determined by what a statement does to the
rows: an insert behind all rows appends, and a reorder lists the rows as requested.
-/

namespace MemoFlowApi.Documents.SectionTable

open MemoFlowApi.Lists

variable {table : SectionTable} {documentId other : DocumentId} {time : ℕ}

/-- The orders of a document's sections are distinct. -/
def Distinct (table : SectionTable) (documentId : DocumentId) : Prop :=
  ((table.ofDocument documentId).map (·.order)).Nodup

theorem mem_ofDocument {row : Section} :
    row ∈ table.ofDocument documentId ↔ row ∈ table.rows ∧ row.documentId = documentId := by
  unfold ofDocument
  simp

theorem mem_findByDocument {row : Section} :
    row ∈ table.findByDocument documentId ↔ row ∈ table.ofDocument documentId := by
  unfold findByDocument
  exact List.mem_mergeSort

/-- Distinct orders are listed strictly ascending. -/
theorem pairwise_findByDocument (distinct : table.Distinct documentId) :
    (table.findByDocument documentId).Pairwise fun a b ↦ a.order < b.order := by
  have hsorted : (table.findByDocument documentId).Pairwise fun a b ↦ comesBefore a b = true := by
    refine List.pairwise_mergeSort (fun a b c hab hbc ↦ ?_) (fun a b ↦ ?_) _
    · simp only [comesBefore, Bool.or_eq_true, Bool.and_eq_true, decide_eq_true_eq] at hab hbc ⊢
      omega
    · simp only [comesBefore, Bool.or_eq_true, Bool.and_eq_true, decide_eq_true_eq]
      omega
  have hne : (table.findByDocument documentId).Pairwise fun a b ↦ a.order ≠ b.order := by
    rw [← List.pairwise_map]
    exact ((List.mergeSort_perm _ _).map _).nodup_iff.mpr distinct
  refine hsorted.imp₂ (fun a b hab hne ↦ ?_) hne
  simp only [comesBefore, Bool.or_eq_true, Bool.and_eq_true, decide_eq_true_eq] at hab
  omega

/-- The listing is the ascending arrangement of the rows. -/
theorem findByDocument_eq {rows : List Section}
    (ascending : rows.Pairwise fun a b ↦ a.order < b.order)
    (members : ∀ row, row ∈ rows ↔ row ∈ table.ofDocument documentId)
    (distinct : table.Distinct documentId) : table.findByDocument documentId = rows := by
  refine eq_of_pairwise_lt Section.order (pairwise_findByDocument distinct) ascending fun row ↦ ?_
  rw [mem_findByDocument, members]

/-! ## Inserts -/

theorem pairwise_newRows {id : ℕ} {data : List SectionData}
    (ascending : data.Pairwise fun a b ↦ a.order < b.order) :
    (newRows documentId time id data).Pairwise fun a b ↦ a.order < b.order := by
  have hdata : ((newRows documentId time id data).map (·.data)).Pairwise
      fun a b ↦ a.order < b.order := by
    rwa [newRows_data]
  rwa [List.pairwise_map] at hdata

theorem ofDocument_insert (data : List SectionData) :
    (table.insert documentId data time).ofDocument documentId =
      table.ofDocument documentId ++ newRows documentId time table.generated data := by
  unfold ofDocument insert
  rw [List.filter_append]
  congr 1
  exact List.filter_eq_self.mpr fun row hrow ↦ decide_eq_true (newRows_documentId hrow)

theorem ofDocument_insert_of_ne (data : List SectionData) (h : other ≠ documentId) :
    (table.insert documentId data time).ofDocument other = table.ofDocument other := by
  unfold ofDocument insert
  have hnone : (newRows documentId time table.generated data).filter (·.documentId = other) = [] := by
    refine List.filter_eq_nil_iff.mpr fun row hrow hother ↦ h ?_
    rw [← of_decide_eq_true hother, newRows_documentId hrow]
  rw [List.filter_append, hnone, List.append_nil]

theorem Distinct.insert {data : List SectionData} (distinct : table.Distinct documentId)
    (nodup : (data.map (·.order)).Nodup)
    (fresh : ∀ row ∈ table.ofDocument documentId, ∀ new ∈ data, row.order ≠ new.order) :
    (table.insert documentId data time).Distinct documentId := by
  have hnew : (newRows documentId time table.generated data).map (·.order) =
      data.map (·.order) := by
    calc
      _ = ((newRows documentId time table.generated data).map (·.data)).map (·.order) :=
        (List.map_map ..).symm
      _ = _ := by rw [newRows_data]
  unfold Distinct
  rw [ofDocument_insert, List.map_append, hnew]
  refine distinct.append nodup ?_
  rw [List.disjoint_left]
  intro order hold hadded
  obtain ⟨row, hrow, rfl⟩ := List.mem_map.mp hold
  obtain ⟨new, hmem, hsame⟩ := List.mem_map.mp hadded
  exact fresh row hrow new hmem hsame.symm

/-- Rows that are inserted behind all others are listed behind them. -/
theorem findByDocument_insert {data : List SectionData} (distinct : table.Distinct documentId)
    (ascending : data.Pairwise fun a b ↦ a.order < b.order)
    (behind : ∀ row ∈ table.ofDocument documentId, ∀ new ∈ data, row.order < new.order) :
    (table.insert documentId data time).findByDocument documentId =
      table.findByDocument documentId ++ newRows documentId time table.generated data := by
  refine findByDocument_eq (List.pairwise_append.mpr ⟨pairwise_findByDocument distinct,
    pairwise_newRows ascending, fun row hrow new hnew ↦ ?_⟩) (fun row ↦ ?_) ?_
  · have hdata : new.data ∈ data := by
      rw [← newRows_data documentId time table.generated data]
      exact List.mem_map_of_mem hnew
    exact behind row (mem_findByDocument.mp hrow) new.data hdata
  · rw [ofDocument_insert, List.mem_append, List.mem_append, mem_findByDocument]
  · refine distinct.insert ?_ fun row hrow new hnew ↦ (behind row hrow new hnew).ne
    exact List.pairwise_map.mpr (ascending.imp fun hlt ↦ hlt.ne)

/-- No row has an order above the maximum. -/
theorem order_lt_of_maxOrder {row : Section} (mem : row ∈ table.ofDocument documentId) :
    row.order < (table.maxOrder documentId).getD (-1) + 1 := by
  have hmem : row.order ∈ (table.ofDocument documentId).map (·.order) := List.mem_map_of_mem mem
  unfold maxOrder
  cases hmax : ((table.ofDocument documentId).map (·.order)).max? with
  | none =>
    rw [List.max?_eq_none_iff] at hmax
    rw [hmax] at hmem
    cases hmem
  | some max =>
    have hle := (List.max?_eq_some_iff.mp hmax).2 row.order hmem
    rw [Option.getD_some]
    omega

/-! ## Updates, deletes and replacements -/

/-- Rows that an `UPDATE` may change keep their document. -/
theorem ofDocument_update_of_ne {matching : Section → Bool} {patch : UpdateSectionData}
    (h : ∀ row ∈ table.rows, matching row = true → row.documentId ≠ other) :
    (table.update matching patch time).ofDocument other = table.ofDocument other := by
  unfold ofDocument update
  rw [List.filter_map]
  have hsame : ((fun row : Section ↦ decide (row.documentId = other)) ∘
      fun row ↦ if matching row then row.update patch time else row) =
      fun row ↦ decide (row.documentId = other) := by
    funext row
    dsimp only [Function.comp_apply]
    split <;> rfl
  rw [hsame]
  refine (List.map_congr_left fun row hrow ↦ ?_).trans (List.map_id _)
  obtain ⟨hmem, hdocument⟩ := List.mem_filter.mp hrow
  rw [if_neg fun hmatching ↦ h row hmem hmatching (of_decide_eq_true hdocument), id_eq]

theorem Distinct.update {matching : Section → Bool} {patch : UpdateSectionData}
    (distinct : table.Distinct documentId) (kept : patch.order = none) :
    (table.update matching patch time).Distinct documentId := by
  have horder : ((table.update matching patch time).ofDocument documentId).map (·.order) =
      (table.ofDocument documentId).map (·.order) := by
    unfold ofDocument SectionTable.update
    rw [List.filter_map, List.map_map]
    have hsame : ((fun row : Section ↦ decide (row.documentId = documentId)) ∘
        fun row ↦ if matching row then row.update patch time else row) =
        fun row ↦ decide (row.documentId = documentId) := by
      funext row
      dsimp only [Function.comp_apply]
      split <;> rfl
    rw [hsame]
    refine List.map_congr_left fun row _ ↦ ?_
    dsimp only [Function.comp_apply]
    split
    · rw [Section.update, kept, Option.getD_none]
    · rfl
  unfold Distinct
  rw [horder]
  exact distinct

theorem ofDocument_delete {matching : Section → Bool} :
    (table.delete matching).ofDocument documentId =
      (table.ofDocument documentId).filter fun row ↦ !matching row := by
  unfold ofDocument delete
  rw [List.filter_filter, List.filter_filter]
  refine List.filter_congr fun row _ ↦ ?_
  rw [Bool.and_comm]

theorem Distinct.delete {matching : Section → Bool} (distinct : table.Distinct documentId) :
    (table.delete matching).Distinct documentId := by
  unfold Distinct
  rw [ofDocument_delete]
  exact distinct.sublist (List.filter_sublist.map _)

theorem ofDocument_delete_of_ne {matching : Section → Bool}
    (h : ∀ row ∈ table.rows, matching row = true → row.documentId ≠ other) :
    (table.delete matching).ofDocument other = table.ofDocument other := by
  rw [ofDocument_delete]
  refine List.filter_eq_self.mpr fun row hrow ↦ ?_
  obtain ⟨hmem, hdocument⟩ := mem_ofDocument.mp hrow
  cases hmatching : matching row with
  | false => rfl
  | true => exact (h row hmem hmatching hdocument).elim

theorem ofDocument_deleted :
    (table.delete (·.documentId = documentId)).ofDocument documentId = [] := by
  rw [ofDocument_delete]
  refine List.filter_eq_nil_iff.mpr fun row hrow ↦ ?_
  simp [(mem_ofDocument.mp hrow).2]

theorem ofDocument_replaceAll_of_ne {sections : List SectionData} (h : other ≠ documentId) :
    (table.replaceAll documentId sections time).ofDocument other = table.ofDocument other := by
  unfold replaceAll
  rw [ofDocument_insert_of_ne _ h, ofDocument_delete_of_ne]
  intro row _ hmatching
  rw [of_decide_eq_true hmatching]
  exact h.symm

theorem distinct_replaceAll {sections : List SectionData}
    (nodup : (sections.map (·.order)).Nodup) :
    (table.replaceAll documentId sections time).Distinct documentId := by
  refine Distinct.insert ?_ nodup fun row hrow ↦ ?_
  · unfold Distinct
    rw [ofDocument_deleted]
    exact List.nodup_nil
  · rw [ofDocument_deleted] at hrow
    cases hrow

/-- A replacement with ascending sections lists them. -/
theorem findByDocument_replaceAll {sections : List SectionData}
    (ascending : sections.Pairwise fun a b ↦ a.order < b.order) :
    ((table.replaceAll documentId sections time).findByDocument documentId).map (·.data) =
      sections := by
  have hempty : (table.delete (·.documentId = documentId)).findByDocument documentId = [] := by
    unfold findByDocument
    rw [ofDocument_deleted]
    exact List.mergeSort_nil
  have hdistinct : (table.delete (·.documentId = documentId)).Distinct documentId := by
    unfold Distinct
    rw [ofDocument_deleted]
    exact List.nodup_nil
  unfold replaceAll
  rw [findByDocument_insert hdistinct ascending, hempty, List.nil_append, newRows_data]
  intro row hrow
  rw [ofDocument_deleted] at hrow
  cases hrow

/-! ## Reorders -/

/-- A row after a reorder from `index` on. -/
def placed (documentId : DocumentId) (orderedIds : List ℕ) (index : ℕ) (time : ℕ) (row : Section) :
    Section :=
  if row.documentId = documentId ∧ row.id ∈ orderedIds then
    row.update { order := some ↑(index + orderedIds.idxOf row.id) } time
  else row

theorem placed_cons {id index : ℕ} {orderedIds : List ℕ} (fresh : id ∉ orderedIds) (row : Section) :
    placed documentId (id :: orderedIds) index time row =
      placed documentId orderedIds (index + 1) time
        (if row.id = id && row.documentId = documentId then row.update { order := some ↑index } time
          else row) := by
  unfold placed
  by_cases hdocument : row.documentId = documentId
  · by_cases hid : row.id = id
    · subst hid
      simp [hdocument, fresh, Section.update]
    · have hidx : (id :: orderedIds).idxOf row.id = orderedIds.idxOf row.id + 1 :=
        List.idxOf_cons_ne _ (Ne.symm hid)
      simp [hdocument, hid, hidx, Nat.add_assoc, Nat.add_comm 1]
  · simp [hdocument]

/-- A reorder gives every requested row its index. -/
theorem reorder_rows {orderedIds : List ℕ} (nodup : orderedIds.Nodup) :
    (table.reorder documentId orderedIds time).rows =
      table.rows.map (placed documentId orderedIds 0 time) := by
  have hfold : ∀ (index : ℕ) (table : SectionTable),
      ((orderedIds.zipIdx index).foldl (setOrder documentId time) table).rows =
        table.rows.map (placed documentId orderedIds index time) := by
    induction orderedIds with
    | nil =>
      intro index table
      refine (List.map_id _).symm.trans (List.map_congr_left fun row _ ↦ ?_)
      simp [placed]
    | cons id orderedIds ih =>
      intro index table
      obtain ⟨hfresh, hnodup⟩ := List.nodup_cons.mp nodup
      rw [List.zipIdx_cons, List.foldl_cons, ih hnodup]
      unfold setOrder update
      rw [List.map_map]
      refine List.map_congr_left fun row _ ↦ ?_
      rw [placed_cons hfresh]
      rfl
  exact hfold 0 table

theorem placed_id (orderedIds : List ℕ) (row : Section) :
    (placed documentId orderedIds 0 time row).id = row.id := by
  unfold placed
  split <;> rfl

theorem placed_documentId (orderedIds : List ℕ) (row : Section) :
    (placed documentId orderedIds 0 time row).documentId = row.documentId := by
  unfold placed
  split <;> rfl

theorem ofDocument_reorder {orderedIds : List ℕ} (nodup : orderedIds.Nodup) :
    (table.reorder documentId orderedIds time).ofDocument other =
      (table.ofDocument other).map (placed documentId orderedIds 0 time) := by
  have hsame : ((fun row : Section ↦ decide (row.documentId = other)) ∘
      placed documentId orderedIds 0 time) = fun row ↦ decide (row.documentId = other) := by
    funext row
    dsimp only [Function.comp_apply]
    rw [placed_documentId]
  unfold ofDocument
  rw [reorder_rows nodup, List.filter_map, hsame]

theorem ofDocument_reorder_of_ne {orderedIds : List ℕ} (nodup : orderedIds.Nodup)
    (h : other ≠ documentId) :
    (table.reorder documentId orderedIds time).ofDocument other = table.ofDocument other := by
  rw [ofDocument_reorder nodup]
  refine (List.map_congr_left fun row hrow ↦ ?_).trans (List.map_id _)
  have hdocument := (mem_ofDocument.mp hrow).2
  unfold placed
  rw [if_neg fun hplaced ↦ h (hdocument.symm.trans hplaced.1), id_eq]

/-- After a reorder of all ids, the order of a row is the index of its id. -/
theorem order_of_reorder {orderedIds : List ℕ} {row : Section} (nodup : orderedIds.Nodup)
    (all : ∀ row ∈ table.ofDocument documentId, row.id ∈ orderedIds)
    (mem : row ∈ (table.reorder documentId orderedIds time).ofDocument documentId) :
    row.id ∈ orderedIds ∧ row.order = orderedIds.idxOf row.id := by
  rw [ofDocument_reorder nodup] at mem
  obtain ⟨old, hold, rfl⟩ := List.mem_map.mp mem
  have hid := all old hold
  rw [placed_id]
  refine ⟨hid, ?_⟩
  unfold placed
  rw [if_pos ⟨(mem_ofDocument.mp hold).2, hid⟩, Section.update, Option.getD_some, Nat.zero_add]

theorem distinct_reorder {orderedIds : List ℕ} (nodup : orderedIds.Nodup)
    (all : ∀ row ∈ table.ofDocument documentId, row.id ∈ orderedIds) :
    (table.reorder documentId orderedIds time).Distinct documentId := by
  have hnodup : (((table.reorder documentId orderedIds time).ofDocument documentId).map
      (·.id)).Nodup := by
    have hids := (table.reorder documentId orderedIds time).nodup_id
    exact hids.sublist (List.filter_sublist.map _)
  refine (List.nodup_map_iff_inj_on hnodup.of_map).mpr fun row hrow row' hrow' horder ↦ ?_
  obtain ⟨hid, hrank⟩ := order_of_reorder nodup all hrow
  obtain ⟨hid', hrank'⟩ := order_of_reorder nodup all hrow'
  rw [hrank, hrank', Int.ofNat_inj, List.idxOf_inj hid] at horder
  exact List.inj_on_of_nodup_map hnodup hrow hrow' horder

/-- A reorder of all ids lists them as requested. -/
theorem findByDocument_reorder {orderedIds : List ℕ} (nodup : orderedIds.Nodup)
    (all : ∀ id, id ∈ orderedIds ↔ ∃ row ∈ table.ofDocument documentId, row.id = id) :
    ((table.reorder documentId orderedIds time).findByDocument documentId).map (·.id) =
      orderedIds := by
  have hall : ∀ row ∈ table.ofDocument documentId, row.id ∈ orderedIds :=
    fun row hrow ↦ (all row.id).mpr ⟨row, hrow, rfl⟩
  refine eq_of_pairwise_lt (fun id ↦ orderedIds.idxOf id) ?_ ?_ fun id ↦ ?_
  · rw [List.pairwise_map]
    refine (pairwise_findByDocument (distinct_reorder nodup hall)).imp_of_mem ?_
    intro row row' hrow hrow' hlt
    obtain ⟨-, hrank⟩ := order_of_reorder nodup hall (mem_findByDocument.mp hrow)
    obtain ⟨-, hrank'⟩ := order_of_reorder nodup hall (mem_findByDocument.mp hrow')
    rw [hrank, hrank'] at hlt
    exact Int.ofNat_lt.mp hlt
  · refine List.pairwise_iff_getElem.mpr fun i j hi hj hlt ↦ ?_
    rw [nodup.idxOf_getElem, nodup.idxOf_getElem]
    exact hlt
  · rw [List.mem_map]
    simp only [mem_findByDocument]
    rw [all, ofDocument_reorder nodup]
    constructor
    · rintro ⟨row, hrow, rfl⟩
      obtain ⟨old, hold, rfl⟩ := List.mem_map.mp hrow
      exact ⟨old, hold, (placed_id orderedIds old).symm⟩
    · rintro ⟨row, hrow, rfl⟩
      exact ⟨_, List.mem_map_of_mem hrow, placed_id orderedIds row⟩

end MemoFlowApi.Documents.SectionTable
