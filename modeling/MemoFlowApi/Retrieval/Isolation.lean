import MemoFlowApi.Retrieval.SectionRetriever

/-!
# Tenant Isolation

A search returns sections of the user's own documents only, and it is determined by them.  The
subquery that looks up the document of the bound section reads the sections of all users; but a
document of another user differs from all documents of this one, just as no document does, so what
the subquery finds there makes no difference.
-/

namespace MemoFlowApi.Retrieval

open Js Sql

/-- The user's documents and their sections are the same in two databases. -/
structure Agree (userId : Uuid) (db db' : Database) : Prop where
  documents : ∀ d : DocumentRow, d.userId = userId → (d ∈ db.documents ↔ d ∈ db'.documents)
  sections : ∀ d : DocumentRow, d.userId = userId → d ∈ db.documents →
    ∀ s : SectionRow, s.documentId = d.id → (s ∈ db.sections ↔ s ∈ db'.sections)

/-- What a search finds. -/
structure Sound (textSearch : TextSearch) (db : Database) (input : SectionSearchInput)
    (result : List RetrievedSection) : Prop where
  length : ∃ n : ℕ, limitOf input.limit = .finite (n : ℤ) ∧ result.length ≤ n
  nodup : (result.map (·.sectionId)).Nodup
  own : ∀ found ∈ result, ∃ d ∈ db.documents, ∃ s ∈ db.sections, d.userId = input.userId ∧
    s.documentId = d.id ∧ found = toRetrieved found.inBoundDocument found.matched (d, s) ∧
    (found.inBoundDocument = true ↔ boundDocument db input = some d.id) ∧
    (found.inBoundDocument = false → found.matched = true ∧
      vectorMatches textSearch (termsOf textSearch input.query) s = some true)
  boundFirst : result.Pairwise fun a b ↦ b.inBoundDocument = true → a.inBoundDocument = true
  sectionFirst : ∀ d ∈ db.documents, ∀ s ∈ db.sections, d.userId = input.userId →
    s.documentId = d.id → boundDocument db input = some d.id → input.sectionId = some s.id →
    result.head?.map (·.sectionId) = some s.id

section Rows

variable {db db' : Database} {input : SectionSearchInput} {textSearch : TextSearch}
  {terms : List String} {row : DocumentRow × SectionRow}

theorem Uuid.text_injective : Function.Injective Uuid.text := by
  intro a b h
  cases a
  cases b
  cases h
  rfl

theorem mem_joined :
    row ∈ joined db ↔ row.1 ∈ db.documents ∧ row.2 ∈ db.sections ∧ row.2.documentId = row.1.id := by
  unfold joined
  rw [List.mem_flatMap]
  constructor
  · rintro ⟨d, hd, hrow⟩
    obtain ⟨s, hs, rfl⟩ := List.mem_map.mp hrow
    obtain ⟨hs, hdocument⟩ := List.mem_filter.mp hs
    exact ⟨hd, hs, of_decide_eq_true hdocument⟩
  · rintro ⟨hd, hs, hdocument⟩
    exact ⟨row.1, hd, List.mem_map.mpr
      ⟨row.2, List.mem_filter.mpr ⟨hs, decide_eq_true hdocument⟩, rfl⟩⟩

/-- Ids tell the rows of the join apart. -/
theorem eq_of_joined {row' : DocumentRow × SectionRow} (h : row ∈ joined db) (h' : row' ∈ joined db)
    (hid : row.2.id = row'.2.id) : row = row' := by
  obtain ⟨hd, hs, hdocument⟩ := mem_joined.mp h
  obtain ⟨hd', hs', hdocument'⟩ := mem_joined.mp h'
  have hsection : row.2 = row'.2 := List.inj_on_of_nodup_map db.sections_nodup hs hs' hid
  have hdocument : row.1 = row'.1 := by
    apply List.inj_on_of_nodup_map db.documents_nodup hd hd'
    rw [← hdocument, ← hdocument', hsection]
  exact Prod.ext hdocument hsection

theorem nodup_joined : (joined db).Nodup := by
  unfold joined
  rw [List.nodup_flatMap]
  constructor
  · intro d _
    exact (db.sections_nodup.of_map.filter _).map (Prod.mk_right_injective d)
  · refine db.documents_nodup.of_map.imp fun {d d'} hne ↦ ?_
    intro row hrow hrow'
    obtain ⟨s, -, rfl⟩ := List.mem_map.mp hrow
    obtain ⟨s', -, heq⟩ := List.mem_map.mp hrow'
    exact hne (Prod.mk.inj heq).1.symm

/-- No section is found twice by a query. -/
theorem nodup_filter_joined (db : Database) (condition : DocumentRow × SectionRow → Option Bool) :
    ((filter condition (joined db)).map (·.2.id)).Nodup := by
  refine (nodup_joined.filter _).map_on fun row hrow row' hrow' hid ↦ ?_
  exact eq_of_joined (List.mem_filter.mp hrow).1 (List.mem_filter.mp hrow').1 hid

theorem nodup_filter_text (condition : DocumentRow × SectionRow → Option Bool) :
    ((filter condition (joined db)).map (·.2.id.text)).Nodup := by
  have hnodup := (nodup_filter_joined db condition).map Uuid.text_injective
  rwa [List.map_map] at hnodup

theorem nodup_boundKey (condition : DocumentRow × SectionRow → Option Bool) :
    ((filter condition (joined db)).map (boundKey textSearch input terms)).Nodup :=
  nodup_of_determines (fun key ↦ (ofLex (ofLex (ofLex (ofLex key).2).2).2).2) (fun _ ↦ rfl)
    (nodup_filter_text condition)

theorem nodup_otherKey (condition : DocumentRow × SectionRow → Option Bool) :
    ((filter condition (joined db)).map (otherKey textSearch terms)).Nodup :=
  nodup_of_determines (fun key ↦ (ofLex (ofLex key).2).2) (fun _ ↦ rfl) (nodup_filter_text condition)

/-- The documents of the user. -/
theorem eq_userId {d : DocumentRow} {userId : Uuid} :
    eq (some d.userId) (some userId) = some true ↔ d.userId = userId := by
  rw [eq_eq_true, Option.some_inj, and_iff_left (Option.some_ne_none _)]

theorem mem_inBound :
    row ∈ inBound db input ↔
      row ∈ joined db ∧ row.1.userId = input.userId ∧ boundDocument db input = some row.1.id := by
  unfold inBound
  rw [mem_filter, and_eq_true, eq_userId, eq_eq_true, and_iff_left (Option.some_ne_none _),
    eq_comm (a := some row.1.id)]

theorem mem_elsewhere :
    row ∈ elsewhere textSearch db input terms ↔
      row ∈ joined db ∧ row.1.userId = input.userId ∧
        vectorMatches textSearch terms row.2 = some true ∧
          boundDocument db input ≠ some row.1.id := by
  unfold elsewhere
  rw [mem_filter, and_eq_true, eq_userId, and_eq_true, isDistinctFrom_eq_true,
    ne_comm (a := some row.1.id)]

theorem mem_boundPairs : row ∈ boundPairs textSearch db input terms ↔ row ∈ inBound db input :=
  mem_orderBy

theorem mem_otherPairs :
    row ∈ otherPairs textSearch db input terms ↔ row ∈ elsewhere textSearch db input terms :=
  mem_orderBy

/-! ## One search -/

/-- The rows of both queries have different ids. -/
theorem nodup_pairs :
    ((boundPairs textSearch db input terms ++ otherPairs textSearch db input terms).map
      (·.2.id)).Nodup := by
  rw [List.map_append]
  refine List.Nodup.append ?_ ?_ ?_
  · exact ((orderBy_perm _ _).map _).nodup_iff.mpr (nodup_filter_joined _ _)
  · exact ((orderBy_perm _ _).map _).nodup_iff.mpr (nodup_filter_joined _ _)
  · rw [List.disjoint_left]
    intro id hbound hother
    obtain ⟨row, hrow, rfl⟩ := List.mem_map.mp hbound
    obtain ⟨row', hrow', hid⟩ := List.mem_map.mp hother
    obtain ⟨hjoined, -, hdocument⟩ := mem_inBound.mp (mem_boundPairs.mp hrow)
    obtain ⟨hjoined', -, -, hdocument'⟩ := mem_elsewhere.mp (mem_otherPairs.mp hrow')
    rw [eq_of_joined hjoined' hjoined hid] at hdocument'
    exact hdocument' hdocument

/-- What a search returns, with the rows it comes from. -/
theorem searchWithin_eq (textSearch : TextSearch) (db : Database) (input : SectionSearchInput)
    (terms : List String) (limit : ℕ) :
    ∃ others : List (DocumentRow × SectionRow), others.Sublist (otherPairs textSearch db input terms) ∧
      searchWithin textSearch db input terms limit =
        (((boundPairs textSearch db input terms).take limit).map
          (fun row ↦ toRetrieved true ((vectorMatches textSearch terms row.2).getD false) row) ++
            others.map (toRetrieved false true)).take limit := by
  unfold searchWithin
  dsimp only
  split
  · exact ⟨_, List.take_sublist _ _, rfl⟩
  · exact ⟨[], List.nil_sublist _, rfl⟩

theorem length_searchWithin (limit : ℕ) :
    (searchWithin textSearch db input terms limit).length ≤ limit := by
  obtain ⟨others, -, heq⟩ := searchWithin_eq textSearch db input terms limit
  rw [heq]
  exact List.length_take_le _ _

theorem nodup_searchWithin (limit : ℕ) :
    ((searchWithin textSearch db input terms limit).map (·.sectionId)).Nodup := by
  obtain ⟨others, hothers, heq⟩ := searchWithin_eq textSearch db input terms limit
  have hsub : ((searchWithin textSearch db input terms limit).map (·.sectionId)).Sublist
      ((boundPairs textSearch db input terms ++ otherPairs textSearch db input terms).map
        (·.2.id)) := by
    rw [heq, List.map_take, List.map_append, List.map_append, List.map_map, List.map_map]
    refine (List.take_sublist _ _).trans (List.Sublist.append ?_ ?_)
    · exact (List.take_sublist _ _).map fun row : DocumentRow × SectionRow ↦ row.2.id
    · exact hothers.map fun row ↦ row.2.id
  exact nodup_pairs.sublist hsub

/-- A section that is found comes from one of the queries. -/
theorem mem_searchWithin {limit : ℕ} {found : RetrievedSection}
    (h : found ∈ searchWithin textSearch db input terms limit) :
    (∃ row ∈ boundPairs textSearch db input terms,
      found = toRetrieved true ((vectorMatches textSearch terms row.2).getD false) row) ∨
    ∃ row ∈ otherPairs textSearch db input terms, found = toRetrieved false true row := by
  obtain ⟨others, hothers, heq⟩ := searchWithin_eq textSearch db input terms limit
  rw [heq] at h
  rcases List.mem_append.mp (List.mem_of_mem_take h) with hbound | hother
  · obtain ⟨row, hrow, rfl⟩ := List.mem_map.mp hbound
    exact .inl ⟨row, List.mem_of_mem_take hrow, rfl⟩
  · obtain ⟨row, hrow, rfl⟩ := List.mem_map.mp hother
    exact .inr ⟨row, hothers.subset hrow, rfl⟩

theorem pairwise_searchWithin (limit : ℕ) :
    (searchWithin textSearch db input terms limit).Pairwise
      fun a b ↦ b.inBoundDocument = true → a.inBoundDocument = true := by
  obtain ⟨others, -, heq⟩ := searchWithin_eq textSearch db input terms limit
  rw [heq]
  refine List.Pairwise.sublist (List.take_sublist _ _) (List.pairwise_append.mpr ⟨?_, ?_, ?_⟩)
  · exact List.pairwise_map.mpr (List.pairwise_of_forall fun _ _ _ ↦ rfl)
  · refine List.pairwise_map.mpr (List.pairwise_of_forall fun _ _ h ↦ ?_)
    cases h
  · intro a ha b _ _
    obtain ⟨row, -, rfl⟩ := List.mem_map.mp ha
    rfl

/-- The bound section has the least key. -/
theorem head?_boundPairs (hrow : row ∈ boundPairs textSearch db input terms)
    (hbound : input.sectionId = some row.2.id) :
    (boundPairs textSearch db input terms).head? = some row := by
  have hmem := mem_boundPairs.mp hrow
  refine head?_orderBy (nodup_boundKey _) hmem fun other hother ↦ ?_
  by_cases hid : other.2.id = row.2.id
  · rw [eq_of_joined (mem_inBound.mp hother).1 (mem_inBound.mp hmem).1 hid]
  · refine (Prod.Lex.toLex_le_toLex.mpr (.inl ?_))
    have hself : (eq (some row.2.id) input.sectionId).getD false = true := by
      rw [hbound]
      simp [eq]
    have hother : (eq (some other.2.id) input.sectionId).getD false = false := by
      rw [hbound]
      simp [eq, hid]
    rw [hself, hother]
    exact OrderDual.toDual_lt_toDual.mpr Bool.false_lt_true

theorem head?_searchWithin {limit : ℕ} (hlimit : 1 ≤ limit)
    (hrow : row ∈ boundPairs textSearch db input terms)
    (hbound : input.sectionId = some row.2.id) :
    (searchWithin textSearch db input terms limit).head?.map (·.sectionId) = some row.2.id := by
  obtain ⟨others, -, heq⟩ := searchWithin_eq textSearch db input terms limit
  have hhead := head?_boundPairs hrow hbound
  have hne : limit ≠ 0 := Nat.one_le_iff_ne_zero.mp hlimit
  have hbest : (((boundPairs textSearch db input terms).take limit).map fun row ↦
      toRetrieved true ((vectorMatches textSearch terms row.2).getD false) row).head? =
        some (toRetrieved true ((vectorMatches textSearch terms row.2).getD false) row) := by
    rw [List.head?_map, List.head?_take, if_neg hne, hhead]
    rfl
  calc
    _ = some (toRetrieved true ((vectorMatches textSearch terms row.2).getD false) row).sectionId := by
      rw [heq, List.head?_take, if_neg hne, List.head?_append, hbest]
      rfl
    _ = _ := rfl

/-- The limit is an integer between 1 and 50, unless the request's is no number. -/
theorem limitOf_eq {limit : Option Number} {n : ℤ} (h : (limitOf limit).toInt? = some n) :
    limitOf limit = .finite n ∧ 1 ≤ n ∧ n ≤ maxLimit := by
  have hle : (1 : ℤ) ≤ (maxLimit : ℤ) := by decide
  unfold limitOf at h ⊢
  by_cases hnan : limit.getD (.finite (defaultSectionRetrievalLimit : ℤ)) = .nan
  · rw [hnan] at h
    cases h
  · obtain ⟨m, heq, hlow, hhigh⟩ := Number.min_max_trunc hle hnan
    rw [heq, Number.toInt?_intCast, Option.some_inj] at h
    subst h
    exact ⟨heq, hlow, hhigh⟩

theorem search_sound {result : List RetrievedSection}
    (h : search textSearch db input = some result) : Sound textSearch db input result := by
  unfold search at h
  obtain ⟨n, hn, rfl⟩ := Option.map_eq_some_iff.mp h
  obtain ⟨hlimit, hlow, -⟩ := limitOf_eq hn
  obtain ⟨n, rfl⟩ := Int.eq_ofNat_of_zero_le (le_trans (by decide) hlow)
  refine ⟨⟨n, hlimit, length_searchWithin _⟩, nodup_searchWithin _, fun found hfound ↦ ?_,
    pairwise_searchWithin _, fun d hd s hs huser hdocument hbound hsection ↦ ?_⟩
  · rcases mem_searchWithin hfound with ⟨row, hrow, rfl⟩ | ⟨row, hrow, rfl⟩
    · obtain ⟨hjoined, huser, hbound⟩ := mem_inBound.mp (mem_boundPairs.mp hrow)
      obtain ⟨hd, hs, hdocument⟩ := mem_joined.mp hjoined
      exact ⟨row.1, hd, row.2, hs, huser, hdocument, rfl, iff_of_true rfl hbound, by rintro ⟨⟩⟩
    · obtain ⟨hjoined, huser, hmatches, hother⟩ := mem_elsewhere.mp (mem_otherPairs.mp hrow)
      obtain ⟨hd, hs, hdocument⟩ := mem_joined.mp hjoined
      exact ⟨row.1, hd, row.2, hs, huser, hdocument, rfl,
        iff_of_false Bool.false_ne_true hother, fun _ ↦ ⟨rfl, hmatches⟩⟩
  · have hrow : (d, s) ∈ boundPairs textSearch db input (termsOf textSearch input.query) :=
      mem_boundPairs.mpr (mem_inBound.mpr ⟨mem_joined.mpr ⟨hd, hs, hdocument⟩, huser, hbound⟩)
    exact head?_searchWithin (Int.ofNat_le.mp hlow) hrow hsection

/-! ## Two databases -/

theorem Agree.mem_joined {userId : Uuid} (h : Agree userId db db') (huser : row.1.userId = userId) :
    row ∈ joined db ↔ row ∈ joined db' := by
  rw [Retrieval.mem_joined, Retrieval.mem_joined, ← h.documents row.1 huser]
  refine and_congr_right fun hd ↦ and_congr_left fun hs ↦ ?_
  exact h.sections row.1 huser hd row.2 hs

/-- The subquery finds the document of the section of that id. -/
theorem boundDocument_eq {documentId : Uuid} (h : input.documentId = none) :
    boundDocument db input = some documentId ↔
      ∃ s ∈ db.sections, input.sectionId = some s.id ∧ s.documentId = documentId := by
  unfold boundDocument
  rw [h]
  change Option.map _ (List.head? _) = some documentId ↔ _
  rw [Option.map_eq_some_iff]
  constructor
  · rintro ⟨s, hs, hdocument⟩
    obtain ⟨hmem, hid⟩ := mem_filter.mp (List.mem_of_head? hs)
    exact ⟨s, hmem, (eq_eq_true.mp hid).1.symm, hdocument⟩
  · rintro ⟨s, hs, hid, hdocument⟩
    have hfound : s ∈ filter (fun s0 ↦ eq (some s0.id) input.sectionId) db.sections :=
      mem_filter.mpr ⟨hs, eq_eq_true.mpr ⟨hid.symm, Option.some_ne_none _⟩⟩
    cases hhead : (filter (fun s0 ↦ eq (some s0.id) input.sectionId) db.sections).head? with
    | none =>
      rw [List.head?_eq_none_iff.mp hhead] at hfound
      exact (List.not_mem_nil hfound).elim
    | some s' =>
      obtain ⟨hs', hid'⟩ := mem_filter.mp (List.mem_of_head? hhead)
      have hsame : s'.id = s.id := by
        have heq := (eq_eq_true.mp hid').1.trans hid
        exact Option.some.inj heq
      obtain rfl : s' = s := List.inj_on_of_nodup_map db.sections_nodup hs' hs hsame
      exact ⟨s', rfl, hdocument⟩

/-- Whether a document of the user is the bound one does not depend on other users. -/
theorem Agree.boundDocument {d : DocumentRow} (h : Agree input.userId db db')
    (hd : d ∈ db.documents) (huser : d.userId = input.userId) :
    boundDocument db input = some d.id ↔ boundDocument db' input = some d.id := by
  cases hdocument : input.documentId with
  | some documentId =>
    have hbound : ∀ db, Retrieval.boundDocument db input = some documentId := by
      intro db
      unfold Retrieval.boundDocument
      rw [hdocument]
      rfl
    rw [hbound, hbound]
  | none =>
    rw [boundDocument_eq hdocument, boundDocument_eq hdocument]
    refine exists_congr fun s ↦ ?_
    rw [and_left_comm, and_left_comm (a := s ∈ db'.sections)]
    refine and_congr_right fun _ ↦ and_congr_left fun hs ↦ ?_
    exact h.sections d huser hd s hs

theorem Agree.boundPairs (h : Agree input.userId db db') :
    boundPairs textSearch db input terms = boundPairs textSearch db' input terms := by
  refine orderBy_congr (nodup_boundKey _) (nodup_boundKey _) fun row ↦ ?_
  rw [mem_inBound, mem_inBound, and_left_comm, and_left_comm (a := row ∈ joined db')]
  refine and_congr_right fun huser ↦ ?_
  rw [← h.mem_joined huser]
  exact and_congr_right fun hjoined ↦ h.boundDocument (Retrieval.mem_joined.mp hjoined).1 huser

theorem Agree.otherPairs (h : Agree input.userId db db') :
    otherPairs textSearch db input terms = otherPairs textSearch db' input terms := by
  refine orderBy_congr (nodup_otherKey _) (nodup_otherKey _) fun row ↦ ?_
  rw [mem_elsewhere, mem_elsewhere, and_left_comm, and_left_comm (a := row ∈ joined db')]
  refine and_congr_right fun huser ↦ ?_
  rw [← h.mem_joined huser]
  refine and_congr_right fun hjoined ↦ and_congr_right fun _ ↦ not_congr ?_
  exact h.boundDocument (Retrieval.mem_joined.mp hjoined).1 huser

theorem Agree.search (h : Agree input.userId db db') :
    search textSearch db input = search textSearch db' input := by
  unfold Retrieval.search searchWithin
  rw [h.boundPairs, h.otherPairs]

end Rows

/-- A search finds at most as many sections as its limit allows, none twice, and only sections of the
user's own documents: those of the bound document first, the bound section before all, then matches.
What it finds is determined by the user's own rows. -/
theorem search_isolated (textSearch : TextSearch) (db : Database) (input : SectionSearchInput) :
    (∀ result, search textSearch db input = some result → Sound textSearch db input result) ∧
    ∀ db', Agree input.userId db db' → search textSearch db input = search textSearch db' input :=
  ⟨fun _ h ↦ search_sound h, fun _ h ↦ h.search⟩

/-- A search that matches sections by their titles. -/
def byTitle : TextSearch where
  toTsvector text := [⟨text, 1⟩]
  matchesTerms s terms := some (terms.contains s.title)
  tsRank _ _ := some 1

def owner : Uuid := ⟨"owner", by decide⟩

def stranger : Uuid := ⟨"stranger", by decide⟩

def plan : DocumentRow := ⟨⟨"plan", by decide⟩, owner, "Plan"⟩

def goals : SectionRow := ⟨⟨"goals", by decide⟩, plan.id, "goals", "Ship it.", 0⟩

def ledger : DocumentRow := ⟨⟨"ledger", by decide⟩, stranger, "Ledger"⟩

def secret : SectionRow := ⟨⟨"secret", by decide⟩, ledger.id, "goals", "Sell it.", 0⟩

def shared : Database := ⟨[plan, ledger], [goals, secret], by decide, by decide⟩

def alone : Database := ⟨[plan], [goals], by decide, by decide⟩

/-- A job that is bound to the section of a stranger. -/
def boundElsewhere : SectionSearchInput where
  userId := owner
  sectionId := some secret.id
  query := "goals"

theorem search_isolated_elsewhere :
    search byTitle shared boundElsewhere = some [toRetrieved false true (plan, goals)] ∧
      Sound byTitle shared boundElsewhere [toRetrieved false true (plan, goals)] ∧
      search byTitle shared boundElsewhere = search byTitle alone boundElsewhere := by
  have hsearch : search byTitle shared boundElsewhere =
      some [toRetrieved false true (plan, goals)] := by decide +kernel
  have hagree : Agree owner shared alone := by
    have hplan : ∀ d : DocumentRow, d.userId = owner → (d ∈ [plan, ledger] ↔ d ∈ [plan]) := by
      intro d hd
      have hne : d ≠ ledger := by
        rintro rfl
        exact absurd hd (by decide)
      rw [List.mem_cons, List.mem_singleton, List.mem_singleton, or_iff_left hne]
    refine ⟨hplan, fun d huser hd s hs ↦ ?_⟩
    obtain rfl := List.mem_singleton.mp ((hplan d huser).mp hd)
    have hne : s ≠ secret := by
      rintro rfl
      exact absurd hs (by decide)
    change s ∈ [goals, secret] ↔ s ∈ [goals]
    rw [List.mem_cons, List.mem_singleton, List.mem_singleton, or_iff_left hne]
  have hisolated := search_isolated byTitle shared boundElsewhere
  exact ⟨hsearch, hisolated.1 _ hsearch, hisolated.2 alone hagree⟩

end MemoFlowApi.Retrieval
