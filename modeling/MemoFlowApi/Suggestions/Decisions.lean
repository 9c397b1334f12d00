import MemoFlowApi.Concurrency.Steps
import MemoFlowApi.Suggestions.Reviews

/-!
# One Decision for Each Suggestion

However many reviews race, and whatever else happens to sections and documents meanwhile, one of them
decides.  A suggestion that is no longer pending stays as it is until it is deleted (`Later`), and a
review writes only rows that are pending.
-/

namespace MemoFlowApi.Suggestions.Reviews

open Concurrency Concurrency.Program Js Prompts

/-! ## Rows under known ids -/

section Kept

variable {α : Type} {ids ids' : List Text} {R : α → α → Prop} {rows rows' rows'' : Text → Option α}

/-- The rows under known ids come from rows before. -/
def Kept (ids : List Text) (R : α → α → Prop) (rows rows' : Text → Option α) : Prop :=
  ∀ id ∈ ids, ∀ row', rows' id = some row' → ∃ row, rows id = some row ∧ R row row'

theorem Kept.refl (hR : ∀ row, R row row) (ids : List Text) (rows : Text → Option α) :
    Kept ids R rows rows :=
  fun _ _ row hrow ↦ ⟨row, hrow, hR row⟩

theorem Kept.trans (hR : ∀ {a b c}, R a b → R b c → R a c) (hids : ∀ id ∈ ids, id ∈ ids')
    (h : Kept ids R rows rows') (h' : Kept ids' R rows' rows'') : Kept ids R rows rows'' := by
  intro id hid row'' hrow''
  obtain ⟨row', hrow', hlast⟩ := h' id (hids id hid) row'' hrow''
  obtain ⟨row, hrow, hfirst⟩ := h id hid row' hrow'
  exact ⟨row, hrow, hR hfirst hlast⟩

/-- Rows are removed. -/
theorem Kept.of_le (hR : ∀ row, R row row) (h : ∀ id row, rows' id = some row → rows id = some row) :
    Kept ids R rows rows' :=
  fun id _ row hrow ↦ ⟨row, h id row hrow, hR row⟩

theorem Kept.filter (hR : ∀ row, R row row) {p : α → Bool} :
    Kept ids R rows fun key ↦ (rows key).filter p :=
  .of_le hR fun _ _ hrow ↦ (Option.filter_eq_some_iff.mp hrow).1

theorem Kept.remove (hR : ∀ row, R row row) {id : Text} :
    Kept ids R rows (Function.update rows id none) := by
  refine .of_le hR fun key row hrow ↦ ?_
  by_cases hkey : key = id
  · rw [hkey, Function.update_self] at hrow
    cases hrow
  · rwa [Function.update_of_ne hkey] at hrow

/-- A row is added under a fresh id. -/
theorem Kept.add (hR : ∀ row, R row row) {id : Text} (fresh : id ∉ ids) {row : Option α} :
    Kept ids R rows (Function.update rows id row) := by
  intro key hkey row' hrow'
  rw [Function.update_of_ne fun h : key = id ↦ fresh (h ▸ hkey)] at hrow'
  exact ⟨row', hrow', hR row'⟩

/-- A row is changed. -/
theorem Kept.change (hR : ∀ row, R row row) {id : Text} {f : α → α}
    (hf : ∀ row, rows id = some row → R row (f row)) :
    Kept ids R rows (Function.update rows id ((rows id).map f)) := by
  intro key _ row' hrow'
  by_cases hkey : key = id
  · subst hkey
    rw [Function.update_self] at hrow'
    obtain ⟨row, hrow, rfl⟩ := Option.map_eq_some_iff.mp hrow'
    exact ⟨row, hrow, hf row hrow⟩
  · rw [Function.update_of_ne hkey] at hrow'
    exact ⟨row', hrow', hR row'⟩

end Kept

/-! ## Later states -/

/-- A suggestion later on.  One that was reviewed stays as it is. -/
structure SuggestionRow.Later (row row' : SuggestionRow) : Prop where
  data : row'.toCreateAiSuggestionData = row.toCreateAiSuggestionData
  createdAt : row'.createdAt = row.createdAt
  reviewed : row.status ≠ .pending → row' = row

theorem SuggestionRow.Later.refl (row : SuggestionRow) : row.Later row := ⟨rfl, rfl, fun _ ↦ rfl⟩

theorem SuggestionRow.Later.trans {a b c : SuggestionRow} (h : a.Later b) (h' : b.Later c) :
    a.Later c where
  data := h'.data.trans h.data
  createdAt := h'.createdAt.trans h.createdAt
  reviewed ha := by
    have hb := h.reviewed ha
    rw [← hb] at ha
    exact (h'.reviewed ha).trans hb

def SameDocument (row row' : SectionRow) : Prop := row'.documentId = row.documentId

def SameOwner (document document' : Document) : Prop := document'.userId = document.userId

theorem SameDocument.refl (row : SectionRow) : SameDocument row row := rfl

theorem SameOwner.refl (document : Document) : SameOwner document document := rfl

/-- A state later on: sections stay in their documents, and documents with their owners. -/
structure Later (s s' : Store) : Prop where
  ids : ∀ id ∈ s.ids, id ∈ s'.ids
  suggestions : Kept s.ids SuggestionRow.Later s.suggestions s'.suggestions
  sections : Kept s.ids SameDocument s.sections s'.sections
  documents : Kept s.ids SameOwner s.documents s'.documents

theorem Later.refl (s : Store) : Later s s where
  ids _ hid := hid
  suggestions := .refl .refl _ _
  sections := .refl .refl _ _
  documents := .refl .refl _ _

theorem Later.trans {a b c : Store} (h : Later a b) (h' : Later b c) : Later a c where
  ids id hid := h'.ids id (h.ids id hid)
  suggestions := h.suggestions.trans .trans h.ids h'.suggestions
  sections := h.sections.trans (fun h h' ↦ Eq.trans h' h) h.ids h'.sections
  documents := h.documents.trans (fun h h' ↦ Eq.trans h' h) h.ids h'.documents

/-- What refers to a row refers to one that is there. -/
structure Intact (s : Store) : Prop where
  suggestionIds : ∀ id row, s.suggestions id = some row → id ∈ s.ids
  sectionIds : ∀ id row, s.sections id = some row → id ∈ s.ids
  documentIds : ∀ id document, s.documents id = some document → id ∈ s.ids
  sections : ∀ id row, s.suggestions id = some row → s.sections row.sectionId ≠ none
  documents : ∀ id row, s.sections id = some row → s.documents row.documentId ≠ none

/-! ## Statements -/

section Statements

variable {s s' : Store} {reply : Reply}

/-- The two outcomes of the conditional `UPDATE`. -/
theorem markReviewed_cases (now : ℕ) (id : Text) (status : SuggestionStatus) (s : Store) :
    markReviewed now id status s = (none, s) ∧
        (∀ row, s.suggestions id = some row → row.status ≠ .pending) ∨
      ∃ row, s.suggestions id = some row ∧ row.status = .pending ∧
        markReviewed now id status s = (some (toDomain id (row.reviewed status now)),
          { s with suggestions := Function.update s.suggestions id (some (row.reviewed status now)) }) := by
  unfold markReviewed
  cases hrow : (s.suggestions id).filter (·.status = .pending) with
  | none =>
    refine .inl ⟨rfl, fun row hsome hpending ↦ ?_⟩
    rw [hsome, Option.filter_some, if_pos (decide_eq_true hpending)] at hrow
    cases hrow
  | some row =>
    obtain ⟨hsome, hpending⟩ := Option.filter_eq_some_iff.mp hrow
    exact .inr ⟨row, hsome, of_decide_eq_true hpending, rfl⟩

theorem insert_eq {id made : Text} {change : Store → Store} (h : insert id s change = some (made, s')) :
    id ∉ s.ids ∧ made = id ∧ s' = change { s with ids := id :: s.ids } := by
  unfold insert at h
  split at h
  · cases h
  · next hfresh =>
    cases h
    exact ⟨hfresh, rfl, rfl⟩

theorem createSuggestion_eq {data : CreateAiSuggestionData} {made : Text}
    (h : createSuggestion reply data s = some (made, s')) :
    s.sections data.sectionId ≠ none ∧ reply.id ∉ s.ids ∧ s' =
      { s with
        ids := reply.id :: s.ids
        suggestions := Function.update s.suggestions reply.id
          (some ⟨data, .pending, reply.now, reply.now⟩) } := by
  unfold createSuggestion at h
  split at h
  · cases h
  · next hsection =>
    obtain ⟨hfresh, -, rfl⟩ := insert_eq h
    exact ⟨hsection, hfresh, rfl⟩

theorem createSection_eq {documentId content made : Text}
    (h : createSection reply.id documentId content s = some (made, s')) :
    s.documents documentId ≠ none ∧ reply.id ∉ s.ids ∧ s' =
      { s with
        ids := reply.id :: s.ids
        sections := Function.update s.sections reply.id (some ⟨documentId, content⟩) } := by
  unfold createSection at h
  split at h
  · cases h
  · next hdocument =>
    obtain ⟨hfresh, -, rfl⟩ := insert_eq h
    exact ⟨hdocument, hfresh, rfl⟩

theorem createDocument_eq {document : Document} {made : Text}
    (h : createDocument reply.id document s = some (made, s')) :
    reply.id ∉ s.ids ∧ s' =
      { s with
        ids := reply.id :: s.ids
        documents := Function.update s.documents reply.id (some document) } := by
  obtain ⟨hfresh, -, rfl⟩ := insert_eq h
  exact ⟨hfresh, rfl⟩

theorem later_of_answer {op : Op} {result : Ans op} (h : answer reply op s = some (result, s')) :
    Later s s' := by
  have hids : ∀ {made}, ∀ id ∈ s.ids, id ∈ made :: s.ids := fun _ hid ↦ List.mem_cons_of_mem _ hid
  cases op with
  | findSuggestion id => cases h; exact .refl s
  | findSection id => cases h; exact .refl s
  | findDocument id => cases h; exact .refl s
  | emit event => cases h; exact .refl s
  | markReviewed id status =>
    rcases markReviewed_cases reply.now id status s with ⟨hmark, -⟩ | ⟨row, hrow, hpending, hmark⟩
    · cases (Option.some.inj h).symm.trans hmark
      exact .refl s
    · cases (Option.some.inj h).symm.trans hmark
      refine { Later.refl s with suggestions := ?_ }
      have hchange : (s.suggestions id).map (·.reviewed status reply.now) =
          some (row.reviewed status reply.now) := by rw [hrow, Option.map_some]
      dsimp only
      rw [← hchange]
      refine .change .refl fun row' hrow' ↦ ⟨rfl, rfl, fun hreviewed ↦ ?_⟩
      rw [Option.some.inj (hrow'.symm.trans hrow)] at hreviewed
      exact (hreviewed hpending).elim
  | createSuggestion data =>
    obtain ⟨-, hfresh, rfl⟩ := createSuggestion_eq h
    exact { Later.refl s with ids := hids, suggestions := .add .refl hfresh }
  | createSection documentId content =>
    obtain ⟨-, hfresh, rfl⟩ := createSection_eq h
    exact { Later.refl s with ids := hids, sections := .add .refl hfresh }
  | updateSection id content =>
    cases h
    exact { Later.refl s with sections := .change .refl fun row _ ↦ SameDocument.refl row }
  | deleteSection id =>
    cases h
    exact { Later.refl s with sections := .remove .refl, suggestions := .filter .refl }
  | createDocument document =>
    obtain ⟨hfresh, rfl⟩ := createDocument_eq h
    exact { Later.refl s with ids := hids, documents := .add .refl hfresh }
  | updateDocument id title =>
    cases h
    exact { Later.refl s with documents := .change .refl fun document _ ↦ SameOwner.refl document }
  | deleteDocument id =>
    cases h
    exact { Later.refl s with
      documents := .remove .refl, sections := .filter .refl, suggestions := .filter .refl }

theorem intact_of_answer (hs : Intact s) {op : Op} {result : Ans op}
    (h : answer reply op s = some (result, s')) : Intact s' := by
  obtain ⟨hsuggestions, hsections, hdocuments, hfound, hopen⟩ := hs
  cases op with
  | markReviewed id status =>
    rcases markReviewed_cases reply.now id status s with ⟨hmark, -⟩ | ⟨row, hrow, -, hmark⟩
    · cases (Option.some.inj h).symm.trans hmark
      exact ⟨hsuggestions, hsections, hdocuments, hfound, hopen⟩
    · cases (Option.some.inj h).symm.trans hmark
      refine ⟨?_, hsections, hdocuments, ?_, hopen⟩ <;>
        grind [Function.update_apply, SuggestionRow.reviewed]
  | createSuggestion data =>
    obtain ⟨hsection, hfresh, rfl⟩ := createSuggestion_eq h
    refine ⟨?_, ?_, ?_, ?_, hopen⟩ <;> grind [Function.update_apply]
  | createSection documentId content =>
    obtain ⟨hdocument, hfresh, rfl⟩ := createSection_eq h
    refine ⟨?_, ?_, ?_, ?_, ?_⟩ <;> grind [Function.update_apply]
  | updateSection id content =>
    cases h
    refine ⟨hsuggestions, ?_, hdocuments, ?_, ?_⟩ <;> dsimp only [updateSection] <;>
      grind [Function.update_apply, Option.map_eq_some_iff, Option.map_eq_none_iff,
        Option.filter_eq_some_iff, Option.filter_eq_none_iff, Option.all_eq_true]
  | deleteSection id =>
    cases h
    refine ⟨?_, ?_, hdocuments, ?_, ?_⟩ <;> dsimp only [deleteSection] <;>
      grind [Function.update_apply, Option.map_eq_some_iff, Option.map_eq_none_iff,
        Option.filter_eq_some_iff, Option.filter_eq_none_iff, Option.all_eq_true]
  | createDocument document =>
    obtain ⟨hfresh, rfl⟩ := createDocument_eq h
    refine ⟨?_, ?_, ?_, hfound, ?_⟩ <;> grind [Function.update_apply]
  | updateDocument id title =>
    cases h
    refine ⟨hsuggestions, hsections, ?_, hfound, ?_⟩ <;> dsimp only [updateDocument] <;>
      grind [Function.update_apply, Option.map_eq_some_iff, Option.map_eq_none_iff,
        Option.filter_eq_some_iff, Option.filter_eq_none_iff, Option.all_eq_true]
  | deleteDocument id =>
    cases h
    refine ⟨?_, ?_, ?_, fun key row hrow hnone ↦ ?_, ?_⟩
    rotate_left 3
    · obtain ⟨hrow, hall⟩ := Option.filter_eq_some_iff.mp hrow
      obtain ⟨found, hsome⟩ := Option.ne_none_iff_exists'.mp (hfound key row hrow)
      dsimp only [deleteDocument] at hnone
      rw [hsome, Option.all_some] at hall
      rw [hsome, Option.filter_some, if_pos hall] at hnone
      cases hnone
    all_goals
      dsimp only [deleteDocument]
      grind [Function.update_apply, Option.filter_eq_some_iff]
  | findSuggestion id => cases h; exact ⟨hsuggestions, hsections, hdocuments, hfound, hopen⟩
  | findSection id => cases h; exact ⟨hsuggestions, hsections, hdocuments, hfound, hopen⟩
  | findDocument id => cases h; exact ⟨hsuggestions, hsections, hdocuments, hfound, hopen⟩
  | emit event => cases h; exact ⟨hsuggestions, hsections, hdocuments, hfound, hopen⟩

end Statements

/-! ## The calls of a review -/

theorem Decision.status_ne (decision : Decision) : decision.status ≠ .pending := by
  cases decision <;> rintro ⟨⟩

section Rule

variable {input : ReviewSuggestionInput} {calls : List (Call Ans Thrown)}

/-- A review that has read the suggestion and found that its section is the user's. -/
def Owns (input : ReviewSuggestionInput) (calls : List (Call Ans Thrown)) : Prop :=
  ∃ suggestion found document,
    (⟨.findSuggestion input.suggestionId, .ok (some suggestion)⟩ : Call Ans Thrown) ∈ calls ∧
    (⟨.findSection suggestion.sectionId, .ok (some found)⟩ : Call Ans Thrown) ∈ calls ∧
    (⟨.findDocument found.documentId, .ok (some document)⟩ : Call Ans Thrown) ∈ calls ∧
    document.userId = input.userId

/-- The write of a review, which returned the row. -/
def Wrote (input : ReviewSuggestionInput) (reviewed : AiSuggestion) : Call Ans Thrown :=
  ⟨.markReviewed input.suggestionId input.status.status, .ok (some reviewed)⟩

def announcement (input : ReviewSuggestionInput) (reviewed : AiSuggestion) : SuggestionReviewed :=
  ⟨input.userId, reviewed.id, reviewed.status⟩

/-- Nothing is announced. -/
def Silent (calls : List (Call Ans Thrown)) : Prop := ∀ call ∈ calls, ∀ event, call.1 ≠ .emit event

/-- The rule of each call of a review. -/
def rule (input : ReviewSuggestionInput) (calls : List (Call Ans Thrown)) : Op → Prop
  | .markReviewed id status =>
      id = input.suggestionId ∧ status = input.status.status ∧ Owns input calls
  | .emit event => Silent calls ∧
      ∃ reviewed, Wrote input reviewed ∈ calls ∧ event = announcement input reviewed
  | _ => True

/-- The rule of each call of a request. -/
def Request.rule : Request → List (Call Ans Thrown) → Op → Prop
  | review input => Reviews.rule input
  | other _ _ => fun _ op ↦ Elsewhere op

/-- What a review that returned has done. -/
def Returned (input : ReviewSuggestionInput) (reviewed : AiSuggestion)
    (calls : List (Call Ans Thrown)) : Prop :=
  Wrote input reviewed ∈ calls ∧ ∃ call ∈ calls, call.1 = .emit (announcement input reviewed)

/-- What a review knows that ended with a 409. -/
def Refused (input : ReviewSuggestionInput) (error : Thrown) (calls : List (Call Ans Thrown)) : Prop :=
  error = .http ⟨.conflict, alreadyReviewed input.suggestionId⟩ →
    (∃ suggestion,
      (⟨.findSuggestion input.suggestionId, .ok (some suggestion)⟩ : Call Ans Thrown) ∈ calls ∧
        suggestion.status ≠ .pending) ∨
    (⟨.markReviewed input.suggestionId input.status.status, .ok none⟩ : Call Ans Thrown) ∈ calls

theorem refused_of_queryFailed : Refused input .queryFailed calls := by
  rintro ⟨⟩

theorem refused_of_notFound {message : Text} : Refused input (.http ⟨.notFound, message⟩) calls := by
  rintro ⟨⟩

theorem silent_nil : Silent [] := by rintro _ ⟨⟩

theorem Silent.append (h : Silent calls) (op : Op) (result : Except Thrown (Ans op))
    (hop : ∀ event, op ≠ .emit event) : Silent (calls ++ [⟨op, result⟩]) := by
  intro call hcall
  rcases List.mem_append.mp hcall with hcall | hcall
  · exact h call hcall
  · rw [List.mem_singleton.mp hcall]
    exact hop

/-- A statement that fails is thrown as such. -/
theorem wp_await {op : Op} {Q : Ans op → List (Call Ans Thrown) → Prop} (hrule : rule input calls op)
    (hQ : ∀ answer, Q answer (calls ++ [⟨op, .ok answer⟩])) :
    (await op).wp (ownSpec (rule input)) Q (Refused input) calls := by
  unfold await
  rw [wp_bind, wp_attempt]
  exact wp_ownSpec_perform hrule hQ fun _ ↦ refused_of_queryFailed

theorem wp_assertSectionOwnedByUser {suggestion : AiSuggestion} (hsilent : Silent calls)
    (hread : (⟨.findSuggestion input.suggestionId, .ok (some suggestion)⟩ : Call Ans Thrown) ∈ calls) :
    (assertSectionOwnedByUser (fun id ↦ await (.findSection id)) (fun id ↦ await (.findDocument id))
        input.userId suggestion.sectionId).wp (ownSpec (rule input))
      (fun _ calls' ↦ Silent calls' ∧ calls <+: calls' ∧ Owns input calls') (Refused input) calls := by
  unfold assertSectionOwnedByUser
  rw [wp_bind]
  refine wp_await trivial fun found ↦ ?_
  cases found with
  | none => exact refused_of_notFound
  | some found =>
    dsimp only
    rw [wp_bind]
    refine wp_await trivial fun document ↦ ?_
    cases document with
    | none => exact refused_of_notFound
    | some document =>
      by_cases howner : document.userId ≠ input.userId
      · simp only [if_pos howner]
        exact refused_of_notFound
      · simp only [if_neg howner]
        have hsection := hsilent.append (.findSection suggestion.sectionId) (.ok (some found))
          (by rintro _ ⟨⟩)
        refine ⟨hsection.append _ _ (by rintro _ ⟨⟩), ?_, suggestion, found, document, ?_, ?_, ?_,
          not_not.mp howner⟩
        · exact (List.prefix_append _ _).trans (List.prefix_append _ _)
        · exact List.mem_append_left _ (List.mem_append_left _ hread)
        · exact List.mem_append_left _ (List.mem_append_right _ List.mem_cons_self)
        · exact List.mem_append_right _ List.mem_cons_self

theorem wp_execute (input : ReviewSuggestionInput) :
    (execute input).wp (ownSpec (rule input)) (Returned input) (Refused input) [] := by
  unfold execute
  rw [wp_bind]
  refine wp_await trivial fun suggestion ↦ ?_
  cases suggestion with
  | none => exact refused_of_notFound
  | some suggestion =>
    dsimp only
    rw [wp_bind]
    have hsilent : Silent [(⟨.findSuggestion input.suggestionId, .ok (some suggestion)⟩ :
        Call Ans Thrown)] := silent_nil.append _ _ (by rintro _ ⟨⟩)
    refine wp_mono ?_ (fun _ _ h ↦ h) (wp_assertSectionOwnedByUser hsilent List.mem_cons_self)
    rintro _ calls ⟨hsilent, hprefix, howns⟩
    by_cases hpending : suggestion.status ≠ .pending
    · simp only [if_pos hpending]
      exact fun _ ↦ .inl ⟨suggestion, hprefix.subset List.mem_cons_self, hpending⟩
    · simp only [if_neg hpending]
      rw [wp_bind]
      refine wp_await ⟨rfl, rfl, howns⟩ fun reviewed ↦ ?_
      cases reviewed with
      | none => exact fun _ ↦ .inr (List.mem_append_right _ List.mem_cons_self)
      | some reviewed =>
        dsimp only
        rw [wp_bind]
        have hwrote : Wrote input reviewed ∈ calls ++ [Wrote input reviewed] :=
          List.mem_append_right _ List.mem_cons_self
        refine wp_await ⟨hsilent.append _ _ (by rintro _ ⟨⟩), reviewed, hwrote, rfl⟩ fun _ ↦ ?_
        exact ⟨List.mem_append_left _ hwrote, _, List.mem_append_right _ List.mem_cons_self, rfl⟩

theorem Request.wp_program (request : Request) :
    request.program.wp (ownSpec request.rule)
      (fun reviewed calls ↦ ∀ input, request = .review input → Returned input reviewed calls)
      (fun error calls ↦ ∀ input, request = .review input → Refused input error calls) [] := by
  cases request with
  | review input =>
    refine wp_mono ?_ ?_ (wp_execute input)
    · rintro reviewed calls h _ ⟨⟩
      exact h
    · rintro error calls h _ ⟨⟩
      exact h
  | other work elsewhere =>
    refine wp_mono ?_ ?_ (wp_ownSpec_of_only elsewhere fun _ hop _ ↦ hop)
    · rintro _ _ - _ ⟨⟩
    · rintro _ _ - _ ⟨⟩

end Rule

/-! ## Runs -/

section Runs

variable {ι : Type}

/-- A step that changes a stored suggestion. -/
def Changes (id : Text) (step : Event ι Store Ans Thrown × Store) : Prop :=
  ∃ row row', step.1.before.suggestions id = some row ∧ step.2.suggestions id = some row' ∧ row' ≠ row

/-- Only a review changes a row that stays. -/
theorem suggestion_of_answer {s s' : Store} {reply : Reply} {op : Op} {result : Ans op} {id : Text}
    {row row' : SuggestionRow} (hs : Intact s) (h : answer reply op s = some (result, s'))
    (hrow : s.suggestions id = some row) (hrow' : s'.suggestions id = some row') :
    row' = row ∨ ∃ status, op = .markReviewed id status ∧ row.status = .pending ∧
      row' = row.reviewed status reply.now := by
  have hsame : s'.suggestions id = s.suggestions id → row' = row := by
    intro hsame
    exact Option.some.inj (hrow'.symm.trans (hsame.trans hrow))
  have hfilter : ∀ p, s'.suggestions = (fun key ↦ (s.suggestions key).filter p) → row' = row := by
    rintro p hp
    rw [hp] at hrow'
    exact Option.some.inj ((Option.filter_eq_some_iff.mp hrow').1.symm.trans hrow)
  cases op with
  | markReviewed asked status =>
    rcases markReviewed_cases reply.now asked status s with ⟨hmark, -⟩ | ⟨found, hfound, hpending, hmark⟩
    · cases (Option.some.inj h).symm.trans hmark
      exact .inl (hsame rfl)
    · cases (Option.some.inj h).symm.trans hmark
      by_cases hid : id = asked
      · subst hid
        dsimp only at hrow'
        rw [Function.update_self] at hrow'
        obtain rfl := Option.some.inj (hfound.symm.trans hrow)
        exact .inr ⟨status, rfl, hpending, (Option.some.inj hrow').symm⟩
      · exact .inl (hsame (Function.update_of_ne hid _ _))
  | createSuggestion data =>
    obtain ⟨-, hfresh, rfl⟩ := createSuggestion_eq h
    refine .inl (hsame (Function.update_of_ne ?_ _ _))
    exact fun hid ↦ hfresh (hid ▸ hs.suggestionIds id row hrow)
  | createSection documentId content =>
    obtain ⟨-, -, rfl⟩ := createSection_eq h
    exact .inl (hsame rfl)
  | createDocument document =>
    obtain ⟨-, rfl⟩ := createDocument_eq h
    exact .inl (hsame rfl)
  | updateSection _ content => cases h; exact .inl (hsame rfl)
  | updateDocument _ title => cases h; exact .inl (hsame rfl)
  | deleteSection _ => cases h; exact .inl (hfilter _ rfl)
  | deleteDocument _ => cases h; exact .inl (hfilter _ rfl)
  | findSuggestion _ => cases h; exact .inl (hsame rfl)
  | findSection _ => cases h; exact .inl (hsame rfl)
  | findDocument _ => cases h; exact .inl (hsame rfl)
  | emit _ => cases h; exact .inl (hsame rfl)

/-- What led to a state. -/
structure Past (s : Store) (trace : List (Event ι Store Ans Thrown)) : Prop where
  intact : Intact s
  answers : ∀ step ∈ stepsOf s trace, machine.world.Answers Thrown step.1.caller step.1.op
    step.1.before step.1.outcome step.2
  intacts : ∀ step ∈ stepsOf s trace, Intact step.1.before
  later : ∀ step ∈ stepsOf s trace, Later step.1.before s ∧ Later step.2 s

theorem Past.step {s s' : Store} {trace : List (Event ι Store Ans Thrown)} {i : ι} {op : Op}
    {o : Outcome Thrown (Ans op)} (h : Past s trace)
    (answers : machine.world.Answers Thrown i op s o s') : Past s' (⟨s, i, op, o⟩ :: trace) := by
  have hstep : Intact s' ∧ Later s s' := by
    rcases answers.unchanged_or_effect with rfl | ⟨result, reply, heffect⟩
    · exact ⟨h.intact, .refl s'⟩
    · exact ⟨intact_of_answer h.intact heffect, later_of_answer heffect⟩
  refine ⟨hstep.1, ?_, ?_, ?_⟩
  · exact List.forall_mem_cons.mpr ⟨answers, h.answers⟩
  · exact List.forall_mem_cons.mpr ⟨h.intact, h.intacts⟩
  · refine List.forall_mem_cons.mpr ⟨⟨hstep.2, .refl s'⟩, fun step hmem ↦ ?_⟩
    exact ⟨(h.later step hmem).1.trans hstep.2, (h.later step hmem).2.trans hstep.2⟩

section Past

variable {s : Store} {trace : List (Event ι Store Ans Thrown)}
  {step : Event ι Store Ans Thrown × Store} {id : Text}

/-- A change is a review of a pending row. -/
theorem Past.of_changes (h : Past s trace) (hstep : step ∈ stepsOf s trace) (hchanges : Changes id step) :
    ∃ status now row, step.1.op = .markReviewed id status ∧
      step.1.before.suggestions id = some row ∧ row.status = .pending ∧
      step.2.suggestions id = some (row.reviewed status now) := by
  obtain ⟨row, row', hrow, hrow', hne⟩ := hchanges
  rcases (h.answers step hstep).unchanged_or_effect with heq | ⟨result, reply, heffect⟩
  · rw [heq] at hrow'
    exact (hne (Option.some.inj (hrow'.symm.trans hrow))).elim
  · rcases suggestion_of_answer (h.intacts step hstep) heffect hrow hrow' with rfl |
      ⟨status, hop, hpending, rfl⟩
    · exact (hne rfl).elim
    · exact ⟨status, reply.now, row, hop, hrow, hpending, hrow'⟩

/-- Every review is a decision. -/
def Deciding (trace : List (Event ι Store Ans Thrown)) : Prop :=
  ∀ event ∈ trace, ∀ id status, event.op = .markReviewed id status → status ≠ .pending

/-- What was reviewed is pending no more. -/
theorem Past.ne_pending (h : Past s trace) (hdeciding : Deciding trace) (hstep : step ∈ stepsOf s trace)
    (hchanges : Changes id step) {row : SuggestionRow} (hrow : s.suggestions id = some row) :
    row.status ≠ .pending := by
  obtain ⟨status, now, found, hop, hfound, -, hreviewed⟩ := h.of_changes hstep hchanges
  have hstatus := hdeciding step.1 (mem_of_mem_stepsOf hstep) id status hop
  have hid : id ∈ step.1.before.ids := (h.intacts step hstep).suggestionIds id found hfound
  have hids : id ∈ step.2.ids := by
    have hanswers := h.answers step hstep
    rcases hanswers.unchanged_or_effect with heq | ⟨result, reply, heffect⟩
    · rwa [heq]
    · exact (later_of_answer heffect).ids id hid
  obtain ⟨old, hold, hlater⟩ := (h.later step hstep).2.suggestions id hids row hrow
  obtain rfl := Option.some.inj (hold.symm.trans hreviewed)
  rw [hlater.reviewed hstatus]
  exact hstatus

variable [DecidableEq ι] {i : ι} {input : ReviewSuggestionInput}

/-- A call that returned was answered in some step. -/
theorem Past.returned {op : Op} {result : Ans op} (h : Past s trace)
    (hcall : (⟨op, .ok result⟩ : Call Ans Thrown) ∈ ownCalls i trace) :
    ∃ step ∈ stepsOf s trace, step.1.caller = i ∧
      ∃ reply, answer reply op step.1.before = some (result, step.2) := by
  obtain ⟨event, hevent, hcaller, hcall⟩ := mem_ownCalls.mp hcall
  obtain ⟨s', hstep⟩ := exists_mem_stepsOf (s := s) hevent
  obtain ⟨before, caller, op', o⟩ := event
  have answers : machine.world.Answers Thrown caller op' before o s' := h.answers _ hstep
  cases answers with
  | returned effect =>
    obtain ⟨reply, heffect⟩ := effect
    cases hcall
    exact ⟨_, hstep, hcaller, reply, heffect⟩
  | lost error mayFail => cases hcall
  | applied error mayFail effect => cases hcall

/-- A review writes in a state in which the section is the user's. -/
theorem Past.owner (h : Past s trace) (howns : Owns input (ownCalls i trace)) {row : SuggestionRow}
    (hrow : s.suggestions input.suggestionId = some row) :
    s.owner row.sectionId = some input.userId := by
  obtain ⟨suggestion, found, document, hsuggestion, hfound, hdocument, howner⟩ := howns
  obtain ⟨first, hfirst, -, reply, heffect⟩ := h.returned hsuggestion
  obtain ⟨second, hsecond, -, reply', heffect'⟩ := h.returned hfound
  obtain ⟨third, hthird, -, reply'', heffect''⟩ := h.returned hdocument
  obtain ⟨old, hold, rfl⟩ := Option.map_eq_some_iff.mp (Prod.mk.inj (Option.some.inj heffect)).1
  obtain ⟨place, hplace, rfl⟩ := Option.map_eq_some_iff.mp (Prod.mk.inj (Option.some.inj heffect')).1
  have hread := (Prod.mk.inj (Option.some.inj heffect'')).1
  obtain ⟨old', hold', hlater⟩ := (h.later first hfirst).1.suggestions _
    ((h.intacts first hfirst).suggestionIds _ old hold) row hrow
  obtain rfl := Option.some.inj (hold'.symm.trans hold)
  have hsection : row.sectionId = old'.sectionId := congrArg CreateAiSuggestionData.sectionId hlater.data
  obtain ⟨current, hcurrent⟩ := Option.ne_none_iff_exists'.mp (h.intact.sections _ row hrow)
  rw [hsection] at hcurrent
  obtain ⟨place', hplace', hsame⟩ := (h.later second hsecond).1.sections _
    ((h.intacts second hsecond).sectionIds _ place hplace) current hcurrent
  obtain rfl := Option.some.inj (hplace'.symm.trans hplace)
  obtain ⟨owned, howned⟩ := Option.ne_none_iff_exists'.mp (h.intact.documents _ current hcurrent)
  have hdocumentId : current.documentId = place'.documentId := hsame
  obtain ⟨document', hdocument', huser⟩ := (h.later third hthird).1.documents _
    ((h.intacts third hthird).documentIds _ document hread) owned (hdocumentId ▸ howned)
  obtain rfl := Option.some.inj (hdocument'.symm.trans hread)
  unfold Store.owner
  rw [hsection, hcurrent, Option.bind_some, howned, Option.map_some, huser, howner]

/-- A review whose write returned a row has changed it. -/
theorem Past.wrote (h : Past s trace) {reviewed : AiSuggestion}
    (hwrote : Wrote input reviewed ∈ ownCalls i trace) :
    ∃ step ∈ stepsOf s trace, step.1.caller = i ∧ Changes input.suggestionId step ∧
      step.2.suggestions input.suggestionId = some reviewed.toSuggestionRow ∧
      reviewed.id = input.suggestionId ∧ reviewed.status = input.status.status := by
  obtain ⟨step, hstep, hcaller, reply, heffect⟩ := h.returned hwrote
  have heffect := Option.some.inj heffect
  rcases markReviewed_cases reply.now input.suggestionId input.status.status step.1.before with
    ⟨hmark, -⟩ | ⟨row, hrow, hpending, hmark⟩
  · cases (Prod.mk.inj (heffect.symm.trans hmark)).1
  · obtain ⟨hresult, hafter⟩ := Prod.mk.inj (heffect.symm.trans hmark)
    obtain rfl := Option.some.inj hresult
    have hnew : step.2.suggestions input.suggestionId =
        some (row.reviewed input.status.status reply.now) := by
      rw [hafter]
      exact Function.update_self _ _ _
    refine ⟨step, hstep, hcaller, ⟨row, _, hrow, hnew, fun heq ↦ ?_⟩, hnew, rfl, rfl⟩
    have hstatus : input.status.status = row.status := congrArg SuggestionRow.status heq
    rw [hpending] at hstatus
    exact input.status.status_ne hstatus

/-- A review that was refused has met a state in which the suggestion was not pending. -/
theorem Past.refused (h : Past s trace)
    (hfound : (∃ suggestion,
        (⟨.findSuggestion input.suggestionId, .ok (some suggestion)⟩ : Call Ans Thrown) ∈
          ownCalls i trace ∧ suggestion.status ≠ .pending) ∨
      (⟨.markReviewed input.suggestionId input.status.status, .ok none⟩ : Call Ans Thrown) ∈
        ownCalls i trace) :
    ∃ step ∈ stepsOf s trace, step.1.caller = i ∧
      ∀ row, step.1.before.suggestions input.suggestionId = some row → row.status ≠ .pending := by
  rcases hfound with ⟨suggestion, hread, hstatus⟩ | hlost
  · obtain ⟨step, hstep, hcaller, reply, heffect⟩ := h.returned hread
    obtain ⟨old, hold, rfl⟩ := Option.map_eq_some_iff.mp (Prod.mk.inj (Option.some.inj heffect)).1
    refine ⟨step, hstep, hcaller, fun row hrow ↦ ?_⟩
    obtain rfl := Option.some.inj (hrow.symm.trans hold)
    exact hstatus
  · obtain ⟨step, hstep, hcaller, reply, heffect⟩ := h.returned hlost
    have heffect := Option.some.inj heffect
    rcases markReviewed_cases reply.now input.suggestionId input.status.status step.1.before with
      ⟨-, hnone⟩ | ⟨row, -, -, hmark⟩
    · exact ⟨step, hstep, hcaller, hnone⟩
    · cases (Prod.mk.inj (heffect.symm.trans hmark)).1

end Past

/-- What holds of the suggestions in a run. -/
structure Settled (requests : ι → Request) (config : Config ι Store Ans Thrown AiSuggestion) : Prop where
  /-- No suggestion is changed twice. -/
  once : (stepsOf config.shared config.trace).Pairwise fun step step' ↦
    ∀ id, ¬(Changes id step ∧ Changes id step')
  /-- A suggestion is only changed by a review of the user who owns its section at that time, and of
  a pending suggestion nothing but the status and the update time. -/
  changed : ∀ step ∈ stepsOf config.shared config.trace, ∀ id, Changes id step →
    ∃ input row now, requests step.1.caller = .review input ∧ input.suggestionId = id ∧
      step.1.before.suggestions id = some row ∧ row.status = .pending ∧
      step.2.suggestions id = some (row.reviewed input.status.status now) ∧
      step.1.before.owner row.sectionId = some input.userId
  /-- What is announced was decided by the request that announces it. -/
  announced : ∀ event ∈ config.trace, ∀ announced, event.op = .emit announced →
    ∃ input, requests event.caller = .review input ∧
      announced = ⟨input.userId, input.suggestionId, input.status.status⟩ ∧
      ∃ step ∈ stepsOf config.shared config.trace,
        step.1.caller = event.caller ∧ Changes input.suggestionId step
  /-- No suggestion is announced twice. -/
  announcedOnce : config.trace.Pairwise fun event event' ↦ ∀ announced announced',
    event.op = .emit announced → event'.op = .emit announced' →
      announced.suggestionId ≠ announced'.suggestionId
  /-- A review that returns has decided, returns the row that it left, and has announced it. -/
  returned : ∀ i input reviewed, requests i = .review input → config.threads i = .pure reviewed →
    reviewed.id = input.suggestionId ∧
    (∃ step ∈ stepsOf config.shared config.trace, step.1.caller = i ∧
      Changes input.suggestionId step ∧
      step.2.suggestions input.suggestionId = some reviewed.toSuggestionRow) ∧
    ∃ event ∈ config.trace, event.caller = i ∧
      event.op = .emit ⟨input.userId, input.suggestionId, input.status.status⟩
  /-- Of the reviews of a suggestion, one returns at most. -/
  winner : ∀ i j input input' reviewed reviewed', requests i = .review input →
    requests j = .review input' → config.threads i = .pure reviewed →
      config.threads j = .pure reviewed' → input.suggestionId = input'.suggestionId → i = j
  /-- A review is answered 409 only where the suggestion was no longer pending in some state that it
  met. -/
  refused : ∀ i input, requests i = .review input →
    config.threads i = .throw (.http ⟨.conflict, alreadyReviewed input.suggestionId⟩) →
      ∃ step ∈ stepsOf config.shared config.trace, step.1.caller = i ∧
        ∀ row, step.1.before.suggestions input.suggestionId = some row → row.status ≠ .pending

section Rules

variable [DecidableEq ι] {requests : ι → Request} {trace : List (Event ι Store Ans Thrown)}

/-- Every call of a run obeys the rule of its request. -/
def Ruled (requests : ι → Request) : List (Event ι Store Ans Thrown) → Prop :=
  EachCall fun event earlier ↦ (requests event.caller).rule (ownCalls event.caller earlier) event.op

/-- A review is written by a request that reviews, and owns the section. -/
theorem rule_of_markReviewed {request : Request} {calls : List (Call Ans Thrown)} {id : Text}
    {status : SuggestionStatus} (h : request.rule calls (.markReviewed id status)) :
    ∃ input, request = .review input ∧ id = input.suggestionId ∧ status = input.status.status ∧
      Owns input calls := by
  cases request with
  | review input => exact ⟨input, rfl, h⟩
  | other work elsewhere => exact h.elim

theorem rule_of_emit {request : Request} {calls : List (Call Ans Thrown)} {event : SuggestionReviewed}
    (h : request.rule calls (.emit event)) :
    ∃ input, request = .review input ∧ Silent calls ∧
      ∃ reviewed, Wrote input reviewed ∈ calls ∧ event = announcement input reviewed := by
  cases request with
  | review input => exact ⟨input, rfl, h⟩
  | other work elsewhere => exact h.elim

theorem deciding_of_ruled (h : Ruled requests trace) : Deciding trace := by
  intro event hevent id status hop
  obtain ⟨later, earlier, rfl⟩ := List.append_of_mem hevent
  have hrule := EachCall.at h
  rw [hop] at hrule
  obtain ⟨input, -, -, rfl, -⟩ := rule_of_markReviewed hrule
  exact input.status.status_ne

/-- A caller announces once. -/
theorem pairwise_of_ruled (h : Ruled requests trace) :
    trace.Pairwise fun event event' ↦ event'.caller = event.caller →
      ∀ announced announced', event.op = .emit announced → event'.op ≠ .emit announced' := by
  refine EachCall.pairwise ?_
  induction trace with
  | nil => trivial
  | cons event trace ih =>
    refine ⟨fun event' hevent' hcaller announced announced' hop ↦ ?_, ih h.2⟩
    have hrule : (requests event.caller).rule (ownCalls event.caller trace) event.op := h.1
    rw [hop] at hrule
    obtain ⟨-, -, hsilent, -⟩ := rule_of_emit hrule
    exact hsilent _ (mem_ownCalls.mpr ⟨event', hevent', hcaller, rfl⟩) announced'

end Rules

variable [DecidableEq ι] {requests : ι → Request} {config : Config ι Store Ans Thrown AiSuggestion}
  {s : Store} {trace : List (Event ι Store Ans Thrown)}

theorem once_of_past (hpast : Past s trace)
    (heach : EachCall (fun event earlier ↦ Past event.before earlier) trace)
    (hrules : Ruled requests trace) :
    (stepsOf s trace).Pairwise fun step step' ↦ ∀ id, ¬(Changes id step ∧ Changes id step') := by
  refine pairwise_stepsOf (Q := fun step ↦ ∀ id, Changes id step →
    ∃ row, step.1.before.suggestions id = some row ∧ row.status = .pending) ?_ ?_
  · intro step hstep id hchanges
    obtain ⟨-, -, row, -, hrow, hpending, -⟩ := hpast.of_changes hstep hchanges
    exact ⟨row, hrow, hpending⟩
  · clear hpast
    induction trace with
    | nil => trivial
    | cons event trace ih =>
      refine ⟨fun s' hpending step hstep id hboth ↦ ?_, ih heach.2 hrules.2⟩
      obtain ⟨row, hrow, hstatus⟩ := hpending id hboth.1
      exact heach.1.ne_pending (deciding_of_ruled hrules.2) hstep hboth.2 hrow hstatus

omit [DecidableEq ι] in
/-- Where suggestions change once, two steps that change one are the same. -/
theorem eq_of_once
    (h : (stepsOf s trace).Pairwise fun step step' ↦ ∀ id, ¬(Changes id step ∧ Changes id step'))
    {id : Text} {step step' : Event ι Store Ans Thrown × Store} (hstep : step ∈ stepsOf s trace)
    (hstep' : step' ∈ stepsOf s trace) (hchanges : Changes id step) (hchanges' : Changes id step') :
    step = step' := by
  have hsame := List.Pairwise.forall_of_forall_of_flip
    (R := fun step step' ↦ Changes id step → Changes id step' → step = step')
    (fun _ _ _ _ ↦ rfl) (h.imp fun hnever hfirst hsecond ↦ (hnever id ⟨hfirst, hsecond⟩).elim)
    (h.imp fun hnever hfirst hsecond ↦ (hnever id ⟨hsecond, hfirst⟩).elim)
  exact hsame hstep hstep' hchanges hchanges'

theorem changed_of_past (hpast : Past s trace)
    (heach : EachCall (fun event earlier ↦ Past event.before earlier) trace)
    (hrules : Ruled requests trace) :
    ∀ step ∈ stepsOf s trace, ∀ id, Changes id step →
      ∃ input row now, requests step.1.caller = .review input ∧ input.suggestionId = id ∧
        step.1.before.suggestions id = some row ∧ row.status = .pending ∧
        step.2.suggestions id = some (row.reviewed input.status.status now) ∧
        step.1.before.owner row.sectionId = some input.userId := by
  intro step hstep id hchanges
  obtain ⟨status, now, row, hop, hrow, hpending, hafter⟩ := hpast.of_changes hstep hchanges
  obtain ⟨later, earlier, rfl⟩ := List.append_of_mem (mem_of_mem_stepsOf hstep)
  have hrule := EachCall.at hrules
  rw [hop] at hrule
  obtain ⟨input, hrequest, rfl, rfl, howns⟩ := rule_of_markReviewed hrule
  exact ⟨input, row, now, hrequest, rfl, hrow, hpending, hafter, (EachCall.at heach).owner howns hrow⟩

theorem announced_of_past (hpast : Past s trace) (hrules : Ruled requests trace) :
    ∀ event ∈ trace, ∀ announced, event.op = .emit announced →
      ∃ input, requests event.caller = .review input ∧
        announced = ⟨input.userId, input.suggestionId, input.status.status⟩ ∧
        ∃ step ∈ stepsOf s trace, step.1.caller = event.caller ∧ Changes input.suggestionId step := by
  intro event hevent announced hop
  obtain ⟨later, earlier, rfl⟩ := List.append_of_mem hevent
  have hrule := EachCall.at hrules
  rw [hop] at hrule
  obtain ⟨input, hrequest, -, reviewed, hwrote, rfl⟩ := rule_of_emit hrule
  have hgrown : ownCalls event.caller earlier <+: ownCalls event.caller (later ++ event :: earlier) := by
    have h := ownCalls_isPrefix event.caller (later ++ [event]) earlier
    rwa [List.append_assoc, List.singleton_append] at h
  obtain ⟨step, hstep, hcaller, hchanges, -, hid, hstatus⟩ := hpast.wrote (hgrown.subset hwrote)
  refine ⟨input, hrequest, ?_, step, hstep, hcaller, hchanges⟩
  unfold announcement
  rw [hid, hstatus]

/-- In every run of reviews among other requests, each suggestion is decided once at most, by the
owner of its section, and announced as it was decided. -/
theorem reviews_settled (requests : ι → Request) {start : Store} (intact : Intact start)
    (reachable : machine.world.Reachable
      (Config.initial start fun i ↦ (requests i).program) config) : Settled requests config := by
  have hstart : Past (ι := ι) start [] :=
    ⟨intact, by rintro _ ⟨⟩, by rintro _ ⟨⟩, by rintro _ ⟨⟩⟩
  obtain ⟨hpast, heach⟩ := World.each_invariant (J := Past) rfl hstart
    (fun h answers ↦ h.step answers) reachable
  obtain ⟨hrules, hends⟩ := World.each_of_own rfl (fun i ↦ (requests i).wp_program) reachable
  have honce := once_of_past hpast heach hrules
  have hannounced := announced_of_past hpast hrules
  have hreturned : ∀ i input reviewed, requests i = .review input →
      config.threads i = .pure reviewed → Returned input reviewed (ownCalls i config.trace) := by
    intro i input reviewed hrequest hthread
    have hend := hends i
    rw [hthread] at hend
    exact hend input hrequest
  refine ⟨honce, changed_of_past hpast heach hrules, hannounced, ?_, ?_, ?_, ?_⟩
  · refine (pairwise_of_ruled hrules).imp_of_mem ?_
    intro event event' hevent hevent' hsilent announced announced' hop hop' hid
    obtain ⟨input, -, rfl, step, hstep, hcaller, hchanges⟩ := hannounced event hevent _ hop
    obtain ⟨input', -, rfl, step', hstep', hcaller', hchanges'⟩ := hannounced event' hevent' _ hop'
    have hid : input.suggestionId = input'.suggestionId := hid
    have hsame := eq_of_once honce hstep hstep' hchanges (hid ▸ hchanges')
    refine hsilent ?_ _ _ hop hop'
    rw [← hcaller, ← hcaller', hsame]
  · intro i input reviewed hrequest hthread
    obtain ⟨hwrote, call, hcall, hemit⟩ := hreturned i input reviewed hrequest hthread
    obtain ⟨step, hstep, hcaller, hchanges, hafter, hid, hstatus⟩ := hpast.wrote hwrote
    obtain ⟨event, hevent, hown, rfl⟩ := mem_ownCalls.mp hcall
    refine ⟨hid, ⟨step, hstep, hcaller, hchanges, hafter⟩, event, hevent, hown, ?_⟩
    unfold announcement at hemit
    rwa [hid, hstatus] at hemit
  · intro i j input input' reviewed reviewed' hi hj hthread hthread' hid
    obtain ⟨step, hstep, hcaller, hchanges, -⟩ := hpast.wrote (hreturned i _ _ hi hthread).1
    obtain ⟨step', hstep', hcaller', hchanges', -⟩ := hpast.wrote (hreturned j _ _ hj hthread').1
    rw [← hcaller, ← hcaller', eq_of_once honce hstep hstep' hchanges (hid ▸ hchanges')]
  · intro i input hrequest hthread
    have hend := hends i
    rw [hthread] at hend
    exact hpast.refused (hend input hrequest rfl)

end Runs

/-! ## Two reviews of one suggestion -/

/-- A single row. -/
def only {α : Type} (id : Text) (row : α) (key : Text) : Option α := if key = id then some row else none

theorem only_eq_some {α : Type} {id key : Text} {row row' : α} (h : only id row key = some row') :
    key = id ∧ row' = row := by
  unfold only at h
  split at h
  · next hkey => exact ⟨hkey, (Option.some.inj h).symm⟩
  · cases h

theorem only_self {α : Type} (id : Text) (row : α) : only id row id = some row := if_pos rfl

/-- A suggestion for the one section of a user. -/
def draftRow : SuggestionRow :=
  ⟨⟨Text.of "s1", Text.of "u1", Text.of "rewrite", Text.of "Hi", Text.of "Hello", Text.of "v1", none⟩,
    .pending, 1, 1⟩

def draft : Store where
  ids := [Text.of "g1", Text.of "s1", Text.of "d1"]
  suggestions := only (Text.of "g1") draftRow
  sections := only (Text.of "s1") ⟨Text.of "d1", Text.of "Hi"⟩
  documents := only (Text.of "d1") ⟨Text.of "u1", Text.of "T"⟩

theorem intact_draft : Intact draft := by
  have hsection : draft.sections (Text.of "s1") ≠ none :=
    ne_of_eq_of_ne (only_self (Text.of "s1") _) (Option.some_ne_none _)
  have hdocument : draft.documents (Text.of "d1") ≠ none :=
    ne_of_eq_of_ne (only_self (Text.of "d1") _) (Option.some_ne_none _)
  constructor
  · intro id row hrow
    rw [(only_eq_some hrow).1]
    simp [draft]
  · intro id row hrow
    rw [(only_eq_some hrow).1]
    simp [draft]
  · intro id document hdocument
    rw [(only_eq_some hdocument).1]
    simp [draft]
  · intro id row hrow
    rw [(only_eq_some hrow).2]
    exact hsection
  · intro id row hrow
    rw [(only_eq_some hrow).2]
    exact hdocument

/-- The first caller accepts the suggestion, all others reject it. -/
def racing (caller : ℕ) : Request :=
  .review ⟨Text.of "u1", Text.of "g1", if caller = 0 then .accepted else .rejected⟩

/-- Two reviews read the pending suggestion before either writes. -/
def race : List (Move ℕ Reply Thrown) :=
  [.mk 0 {} (.returned ()), .mk 1 {} (.returned ()), .mk 0 {} (.returned ()), .mk 1 {} (.returned ()),
    .mk 0 {} (.returned ()), .mk 1 {} (.returned ()), .mk 1 ⟨7, []⟩ (.returned ()),
    .mk 0 ⟨8, []⟩ (.returned ()), .mk 1 {} (.returned ())]

/-- What was announced, and what a caller threw. -/
def ending (config : Config ℕ Store Ans Thrown AiSuggestion) :
    List SuggestionReviewed × Option Thrown :=
  (config.trace.filterMap fun event ↦
    match event.op with
    | .emit announced => some announced
    | _ => none, (config.threads 0).thrown)

theorem ending_race :
    (machine.replay (Config.initial draft fun i ↦ (racing i).program) race).map ending =
      some ([⟨Text.of "u1", Text.of "g1", .rejected⟩],
        some (.http ⟨.conflict, alreadyReviewed (Text.of "g1")⟩)) := by
  decide +kernel

theorem reviews_settled_race : ∃ config : Config ℕ Store Ans Thrown AiSuggestion,
    ending config = ([⟨Text.of "u1", Text.of "g1", .rejected⟩],
      some (.http ⟨.conflict, alreadyReviewed (Text.of "g1")⟩)) ∧ Settled racing config := by
  obtain ⟨config, reachable, hending⟩ := machine.exists_reachable ending_race
  exact ⟨config, hending, reviews_settled racing intact_draft reachable⟩

end MemoFlowApi.Suggestions.Reviews
