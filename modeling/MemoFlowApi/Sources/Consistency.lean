import MemoFlowApi.Sources.Nesting

/-!
# Consistency of the Citations

The cleaning is a single pass: what it leaves of a text may read as a citation that the text did not
have.  A validated result is consistent exactly if the texts given have no brackets around removed
citations that enclose anything but ids as the cleaning writes them.
-/

namespace MemoFlowApi.Sources

open Js Js.Regex MemoFlowApi.Lists

/-! ## Assembled texts without the white space before them -/

variable {known : List Text}

theorem trimStart_citation (spaced : Bool) (ids : List Text) (rest : Text) :
    trimStart (citation spaced ids ++ rest) = citation false ids ++ rest := by
  cases spaced <;> rfl

/-- The kept citations of one text are those of another up to the space before them. -/
def SameCitations (others others' : List (Text × Text)) : Prop :=
  List.Forall₂ (fun piece piece' ↦ idsOf piece.1 = idsOf piece'.1 ∧ piece.2 = piece'.2) others others'

/-- Trimming at the start trims the first stretch, and the space before a citation kept right after
it. -/
theorem trimStart_assemble {first : Text} {others : List (Text × Text)} (h : Proper known first others) :
    ∃ others', trimStart (assemble first others) = assemble (trimStart first) others' ∧
      Proper known (trimStart first) others' ∧ SameCitations others others' := by
  have hsame : ∀ others, SameCitations others others := fun others ↦
    List.forall₂_same.mpr fun _ _ ↦ ⟨rfl, rfl⟩
  by_cases hfirst : trimStart first = []
  · cases others with
    | nil =>
      refine ⟨[], ?_, trivial, .nil⟩
      simp only [assemble, List.flatMap_nil, List.append_nil]
    | cons piece others =>
      obtain ⟨kept, next⟩ := piece
      obtain ⟨-, ⟨spaced, ids, hne, hnodup, hids, rfl⟩, hothers⟩ := h
      refine ⟨(citation false ids, next) :: others, ?_,
        ⟨by rw [hfirst]; rintro _ ⟨⟩, ⟨false, ids, hne, hnodup, hids, rfl⟩, hothers⟩,
        .cons ⟨?_, rfl⟩ (hsame others)⟩
      · rw [assemble_cons, assemble_cons, trimStart_append, if_pos hfirst, trimStart_citation, hfirst,
          List.nil_append]
      · rw [idsOf_citation _ fun id hid ↦ (hids id hid).2, idsOf_citation _ fun id hid ↦ (hids id hid).2]
  · refine ⟨others, ?_, h.of_first fun _ ↦ endsUnblank_trimStart, hsame others⟩
    rw [assemble, trimStart_append, if_neg hfirst]
    rfl

/-! ## Cleaning a text again -/

theorem mem_citations {text word : Text} :
    word ∈ citations text ↔ ∃ captures, .found captures word ∈ scan inlineCitation text := by
  rw [citations, List.mem_map]
  constructor
  · rintro ⟨⟨captures, _⟩, hfound, rfl⟩
    exact ⟨captures, mem_matchAll.mp hfound⟩
  · rintro ⟨captures, hfound⟩
    exact ⟨⟨captures, word⟩, mem_matchAll.mpr hfound, rfl⟩

/-- A text whose citations are all as the cleaning writes them is left alone. -/
theorem cleanText_of_canonical {text : Text}
    (h : ∀ word ∈ citations text, IsCanonical known word) : cleanText text known = text := by
  calc cleanText text known = (scan inlineCitation text).flatMap Token.text := by
        refine List.flatMap_congr fun token htoken ↦ ?_
        cases token with
        | lit c => rfl
        | found captures word => exact (h word (mem_citations.mpr ⟨captures, htoken⟩)).rewrite_eq
    _ = text := (scans_scan consuming_inlineCitation text).flatMap_text

/-- A citation names at least one id. -/
theorem idsOf_ne_nil {word : Text} (h : IsCitation word) : idsOf word ≠ [] := by
  obtain ⟨blanks, _, -, ⟨lead, _, items, trail, -, ⟨s, digits, hs, hdigits, rfl⟩, -, -, rfl⟩, rfl⟩ := h
  have hoccurs : ∃ token ∈ scan inlineId (blanks ++ openBracket :: (lead ++ (s :: digits ++
      (items.flatten ++ trail)) ++ [closeBracket])), token.isFound := by
    rw [(scans_scan consuming_inlineId _).isFound_iff]
    refine ⟨blanks ++ openBracket :: lead, [digits], s :: digits,
      items.flatten ++ trail ++ [closeBracket], by simp, List.cons_ne_nil _ _, ?_⟩
    exact ⟨[], [digits], [s], digits, rfl, rfl, ⟨rfl, s, hs, rfl⟩, [], rfl,
      (describes_number _ _ _ _).mpr ⟨rfl, hdigits⟩⟩
  obtain ⟨token, htoken, hfound⟩ := hoccurs
  cases token with
  | lit c => cases hfound
  | found captures matched =>
    exact List.ne_nil_of_mem (List.mem_map_of_mem (mem_matchAll.mpr htoken))

/-- A citation of known ids is kept. -/
theorem rewrite_ne_nil {word : Text} (h : IsCitation word)
    (hknown : ∀ cited ∈ idsOf word, cited ∈ known) : rewrite known word ≠ [] := by
  intro hnil
  rcases rewrite_cases known word with ⟨-, hunknown⟩ | ⟨hcanonical, -⟩
  · obtain ⟨cited, hcited⟩ := List.exists_mem_of_ne_nil _ (idsOf_ne_nil h)
    exact hunknown cited hcited (hknown cited hcited)
  · exact hcanonical.isCitation.ne_nil hnil

/-- If cleaning keeps all citations of a text and does not change it, it changes none of them. -/
theorem rewrite_eq_of_scans {before : Option CodeUnit} {text : Text} {tokens : List (Token CodeUnit)}
    (h : Scans inlineCitation before text tokens)
    (hkept : ∀ captures word, .found captures word ∈ tokens → rewrite known word ≠ [])
    (heq : tokens.flatMap (Token.replace fun _ found ↦ rewrite known found) = text) :
    ∀ captures word, .found captures word ∈ tokens → rewrite known word = word := by
  induction h with
  | nil => rintro _ _ ⟨⟩
  | lit none _ ih =>
    rw [List.flatMap_cons] at heq
    intro captures word hmem
    cases hmem with
    | tail _ hmem =>
      exact ih (fun captures word hmem ↦ hkept captures word (List.mem_cons_of_mem _ hmem))
        (List.cons_eq_cons.mp heq).2 captures word hmem
  | @found before captures matched rest tokens found _ _ ih =>
    rw [List.flatMap_cons] at heq
    have hmatched := ((describes_inlineCitation _ _ _ _).mp (matches_of_exec found).1).2
    have hrewrite := isCanonical_rewrite (hkept captures matched List.mem_cons_self)
    have hsame : rewrite known matched = matched :=
      prefixFree_citations _ hrewrite.isCitation _ hmatched _ _ heq
    change rewrite known matched ++ _ = _ at heq
    rw [hsame] at heq
    intro captures' word hmem
    cases hmem with
    | head => exact hsame
    | tail _ hmem =>
      exact ih (fun captures word hmem ↦ hkept captures word (List.mem_cons_of_mem _ hmem))
        (List.append_cancel_left heq) captures' word hmem

/-- A kept citation is written after a space exactly if it was. -/
theorem rewrite_eq_citation {word : Text} (h : rewrite known word ≠ []) :
    ∃ ids, rewrite known word = citation (word.head?.any isSpace) ids := by
  by_cases hnone : (idsOf word).filter known.contains = []
  · exact (h (if_pos hnone)).elim
  · exact ⟨_, if_neg hnone⟩

theorem head?_replaced {before : Option CodeUnit} {text : Text} {tokens : List (Token CodeUnit)}
    (h : Scans inlineCitation before text tokens)
    (hkept : ∀ captures word, .found captures word ∈ tokens → rewrite known word ≠ [])
    (htext : ∀ c, text.head? = some c → isSpace c = false) :
    ∀ c, (tokens.flatMap (Token.replace fun _ found ↦ rewrite known found)).head? = some c →
      isSpace c = false := by
  cases h with
  | nil => rintro _ ⟨⟩
  | lit _ _ => exact fun c hc ↦ htext c hc
  | @found _ captures matched rest tokens found nonempty _ =>
    obtain ⟨ids, hids⟩ := rewrite_eq_citation (hkept captures matched List.mem_cons_self)
    have hspaced : matched.head?.any isSpace = false := by
      cases matched with
      | nil => rfl
      | cons c matched => exact htext c rfl
    intro c hc
    rw [List.flatMap_cons, Token.replace, hids, hspaced] at hc
    obtain rfl := Option.some.inj hc
    decide

theorem getLast?_citation (spaced : Bool) (ids : List Text) :
    (citation spaced ids).getLast? = some closeBracket := by
  rw [citation, ← List.append_assoc, ← List.append_assoc]
  exact List.getLast?_concat

theorem eq_nil_of_replaced {before : Option CodeUnit} {text : Text} {tokens : List (Token CodeUnit)}
    (h : Scans inlineCitation before text tokens)
    (hkept : ∀ captures word, .found captures word ∈ tokens → rewrite known word ≠ [])
    (hnil : tokens.flatMap (Token.replace fun _ found ↦ rewrite known found) = []) : text = [] := by
  cases h with
  | nil => rfl
  | lit _ _ => cases hnil
  | found _ _ _ =>
    rw [List.flatMap_cons] at hnil
    exact (hkept _ _ List.mem_cons_self (List.append_eq_nil_iff.mp hnil).1).elim

theorem getLast?_replaced {before : Option CodeUnit} {text : Text} {tokens : List (Token CodeUnit)}
    (h : Scans inlineCitation before text tokens)
    (hkept : ∀ captures word, .found captures word ∈ tokens → rewrite known word ≠ [])
    (htext : ∀ c, text.getLast? = some c → isSpace c = false) :
    ∀ c, (tokens.flatMap (Token.replace fun _ found ↦ rewrite known found)).getLast? = some c →
      isSpace c = false := by
  induction h with
  | nil => rintro _ ⟨⟩
  | @lit before c text tokens none others ih =>
    have hothers := fun captures word hmem ↦ hkept captures word (List.mem_cons_of_mem _ hmem)
    have hih := ih hothers fun d hd ↦ htext d (by rw [List.getLast?_cons, hd]; rfl)
    intro d hd
    rw [List.flatMap_cons, Token.replace, List.singleton_append, List.getLast?_cons] at hd
    cases hlast : (tokens.flatMap (Token.replace fun _ found ↦ rewrite known found)).getLast? with
    | none =>
      rw [hlast] at hd
      have htext' := eq_nil_of_replaced others hothers (List.getLast?_eq_none_iff.mp hlast)
      rw [htext'] at htext
      exact htext d hd
    | some e =>
      rw [hlast] at hd
      obtain rfl := Option.some.inj hd
      exact hih _ hlast
  | @found before captures matched rest tokens found nonempty others ih =>
    have hothers := fun captures word hmem ↦ hkept captures word (List.mem_cons_of_mem _ hmem)
    have hih := ih hothers fun d hd ↦ htext d (by rw [List.getLast?_append, hd]; rfl)
    obtain ⟨ids, hids⟩ := rewrite_eq_citation (hkept captures matched List.mem_cons_self)
    intro d hd
    rw [List.flatMap_cons, List.getLast?_append] at hd
    cases hlast : (tokens.flatMap (Token.replace fun _ found ↦ rewrite known found)).getLast? with
    | none =>
      rw [hlast, Token.replace, hids, Option.none_or, getLast?_citation] at hd
      obtain rfl := Option.some.inj hd
      decide
    | some e =>
      rw [hlast] at hd
      obtain rfl := Option.some.inj hd
      exact hih _ hlast

theorem kept_of_known {text : Text}
    (hknown : ∀ word ∈ citations text, ∀ cited ∈ idsOf word, cited ∈ known) :
    ∀ captures word, .found captures word ∈ scan inlineCitation text → rewrite known word ≠ [] := by
  intro captures word hmem
  have hword := mem_citations.mpr ⟨captures, hmem⟩
  exact rewrite_ne_nil ((cites_citations text).isCitation word hword) (hknown word hword)

/-- A text of known citations is unchanged by a second cleaning exactly if its citations are as the
cleaning writes them. -/
theorem cleanText_eq_iff {text : Text}
    (hknown : ∀ word ∈ citations text, ∀ cited ∈ idsOf word, cited ∈ known) :
    cleanText text known = text ↔ ∀ word ∈ citations text, IsCanonical known word := by
  refine ⟨fun h word hword ↦ ?_, cleanText_of_canonical⟩
  obtain ⟨captures, hmem⟩ := mem_citations.mp hword
  exact isCanonical_of_rewrite_eq ((cites_citations text).isCitation word hword).ne_nil
    (rewrite_eq_of_scans (scans_scan consuming_inlineCitation text) (kept_of_known hknown) h captures
      word hmem)

/-- A trimmed text of known citations stays trimmed. -/
theorem trim_cleanText {text : Text} (htrim : trim text = text)
    (hknown : ∀ word ∈ citations text, ∀ cited ∈ idsOf word, cited ∈ known) :
    trim (cleanText text known) = cleanText text known := by
  have hscan := scans_scan consuming_inlineCitation text
  obtain ⟨hhead, hlast⟩ := trim_ends text
  rw [htrim] at hhead hlast
  exact trim_eq_self (head?_replaced hscan (kept_of_known hknown) hhead)
    (getLast?_replaced hscan (kept_of_known hknown) hlast)

/-! ## Citations that are kept -/

/-- The sets of ids that the citations of some texts name. -/
def citedSets (texts : List Text) : List (Finset Text) :=
  (texts.flatMap citations).map fun word ↦ (idsOf word).toFinset

/-- The sets of known ids only. -/
def knownSets (known : List Text) (texts : List Text) : List (Finset Text) :=
  (citedSets texts).filter (· ⊆ known.toFinset)

theorem citedSets_singleton (text : Text) :
    citedSets [text] = (citations text).map fun word ↦ (idsOf word).toFinset := by
  rw [citedSets, List.flatMap_cons, List.flatMap_nil, List.append_nil]

theorem citedSets_cons (text : Text) (texts : List Text) :
    citedSets (text :: texts) = citedSets [text] ++ citedSets texts := by
  rw [citedSets, citedSets, citedSets, ← List.map_append, ← List.flatMap_append]
  rfl

theorem citedSets_of_citations_eq_nil {text : Text} (h : citations text = []) :
    citedSets [text] = [] := by
  rw [citedSets, List.flatMap_cons, h]
  rfl

theorem knownSets_cons (text : Text) (texts : List Text) :
    knownSets known (text :: texts) = knownSets known [text] ++ knownSets known texts := by
  rw [knownSets, citedSets_cons, List.filter_append]
  rfl

/-- A citation of known ids is kept with its ids. -/
theorem sublist_stretches (known : List Text) (tokens : List (Token CodeUnit))
    (h : ∀ captures word, .found captures word ∈ tokens → IsCitation word) :
    List.Sublist
      (((tokens.filterMap captures?).map fun found ↦ (idsOf found.2).toFinset).filter
        (· ⊆ known.toFinset))
      ((stretches known tokens).2.map fun piece ↦ (idsOf piece.1).toFinset) := by
  induction tokens with
  | nil => exact List.Sublist.refl _
  | cons token tokens ih =>
    have hothers := ih fun captures word hmem ↦ h captures word (List.mem_cons_of_mem _ hmem)
    cases token with
    | lit c => exact hothers
    | found captures word =>
      rw [stretches]
      change List.Sublist (List.filter _ ((idsOf word).toFinset :: _)) _
      by_cases hknown : (idsOf word).toFinset ⊆ known.toFinset
      · have hmem : ∀ cited ∈ idsOf word, cited ∈ known := fun cited hcited ↦
          List.mem_toFinset.mp (hknown (List.mem_toFinset.mpr hcited))
        have hkept := rewrite_ne_nil (h captures word List.mem_cons_self) hmem
        have hids := ((rewrite_cases known word).resolve_left fun hnone ↦ hkept hnone.1).2
        have hsame : (idsOf (rewrite known word)).toFinset = (idsOf word).toFinset := by
          ext cited
          rw [List.mem_toFinset, List.mem_toFinset, hids]
          exact ⟨And.left, fun hcited ↦ ⟨hcited, hmem cited hcited⟩⟩
        rw [List.filter_cons, if_pos (decide_eq_true hknown), if_neg hkept, List.map_cons, hsame]
        exact hothers.cons_cons _
      · rw [List.filter_cons, if_neg fun hsubset ↦ hknown (of_decide_eq_true hsubset)]
        split
        · exact hothers
        · exact hothers.cons _

theorem sublist_citedSets_assemble {first : Text} {others : List (Text × Text)}
    (h : Proper known first others) :
    List.Sublist (others.map fun piece ↦ (idsOf piece.1).toFinset)
      (citedSets [assemble first others]) := by
  rw [citedSets_singleton, citations_assemble h, List.map_append]
  refine List.Sublist.trans ?_ (List.sublist_append_right _ _)
  clear h
  induction others with
  | nil => exact List.Sublist.refl _
  | cons piece others ih =>
    rw [List.flatMap_cons, List.map_cons, List.cons_append, List.map_cons, List.map_append]
    exact (ih.trans (List.sublist_append_right _ _)).cons_cons _

theorem SameCitations.idsOf_eq {others others' : List (Text × Text)} (h : SameCitations others others') :
    (others.map fun piece ↦ (idsOf piece.1).toFinset) =
      others'.map fun piece ↦ (idsOf piece.1).toFinset := by
  induction h with
  | nil => rfl
  | cons h _ ih => rw [List.map_cons, List.map_cons, h.1, ih]

theorem knownSets_sublist_stretches (known : List Text) (text : Text) :
    List.Sublist (knownSets known [text])
      ((stretches known (scan inlineCitation text)).2.map fun piece ↦ (idsOf piece.1).toFinset) := by
  have h := sublist_stretches known (scan inlineCitation text) fun captures word hmem ↦
    (cites_citations text).isCitation word (mem_citations.mpr ⟨captures, hmem⟩)
  rw [knownSets, citedSets_singleton, citations, List.map_map]
  exact h

/-- The cleaning keeps the citations of known ids. -/
theorem knownSets_sublist_cleanText (known : List Text) (text : Text) :
    List.Sublist (knownSets known [text]) (citedSets [cleanText text known]) := by
  rw [cleanText_eq, ← assemble_stretches]
  exact (knownSets_sublist_stretches known text).trans
    (sublist_citedSets_assemble (proper_stretches known (scans_scan consuming_inlineCitation text)))

theorem knownSets_sublist_trim_cleanText (known : List Text) (text : Text) :
    List.Sublist (knownSets known [text]) (citedSets [trim (cleanText text known)]) := by
  obtain ⟨others', hassemble, hproper, hsame⟩ :=
    trimStart_assemble (proper_stretches known (scans_scan consuming_inlineCitation text))
  have h := (knownSets_sublist_stretches known text).trans
    (hsame.idsOf_eq ▸ sublist_citedSets_assemble hproper)
  rwa [← hassemble, assemble_stretches, ← cleanText_eq, citedSets, List.flatMap_cons,
    ← citations_trimEnd, ← List.flatMap_cons, ← citedSets] at h

/-! ## Consistent results -/

/-- The outline as a text, if it is a string. -/
def outlineTexts : Unknown → List Text
  | .string text => [text]
  | _ => []

/-- A validated result is consistent with its sources. -/
structure Consistent (sources : List CitedSource) (result : PlanningResult)
    (validated : ValidatedPlanningResult) : Prop where
  /-- No citation names an id that is not among the sources. -/
  known_only : ∀ text ∈ validated.suggestions ++ outlineTexts validated.outline,
    ∀ word ∈ citations text, ∀ cited ∈ idsOf word, cited ∈ sources.map (·.id)
  /-- The citations of known ids are still there, in their order. -/
  suggestions_kept : List.Sublist (knownSets (sources.map (·.id)) result.suggestions)
    (citedSets validated.suggestions)
  outline_kept : List.Sublist (knownSets (sources.map (·.id)) (outlineTexts result.outline))
    (citedSets (outlineTexts validated.outline))
  /-- The sources are those that the entries name, each at its first mention. -/
  sources_eq : validated.sources =
    firstByKey (·.id) (result.sources.filterMap (mentioned sources))
  sources_nodup : (validated.sources.map (·.id)).Nodup
  sources_given : ∀ source ∈ validated.sources, source ∈ sources
  /-- The texts stay as they are when they are validated again. -/
  idempotent : ∀ entries,
    let again := validateCitations ⟨validated.suggestions, validated.outline, entries⟩ sources
    again.suggestions = validated.suggestions ∧ again.outline = validated.outline

/-- The loop over the entries collects the first mention of each source. -/
theorem foldl_cite (sources : List CitedSource) (entries : List Unknown) :
    entries.foldl (cite sources) [] =
      firstByKey (·.id) (entries.filterMap (mentioned sources)) := by
  induction entries using List.reverseRecOn with
  | nil => rfl
  | append_singleton entries entry ih =>
    rw [List.foldl_concat, ih, List.filterMap_append, cite]
    cases hentry : mentioned sources entry with
    | none => rw [List.filterMap_cons_none hentry, List.filterMap_nil, List.append_nil]
    | some source =>
      rw [List.filterMap_cons_some hentry, List.filterMap_nil]
      have hany : ((firstByKey (·.id) (entries.filterMap (mentioned sources))).any
          (·.id = source.id) = true) ↔
            source.id ∈ (entries.filterMap (mentioned sources)).map (·.id) := by
        rw [← mem_map_firstByKey, List.any_eq_true, List.mem_map]
        simp only [decide_eq_true_eq]
      by_cases hseen : source.id ∈ (entries.filterMap (mentioned sources)).map (·.id)
      · rw [firstByKey_concat_of_mem _ hseen]
        exact if_pos (hany.mpr hseen)
      · rw [firstByKey_concat_of_not_mem _ hseen]
        exact if_neg fun h ↦ hseen (hany.mp h)

theorem mem_of_mentioned {sources : List CitedSource} {entry : Unknown} {source : CitedSource}
    (h : mentioned sources entry = some source) : source ∈ sources := by
  obtain ⟨id, -, hid⟩ := Option.bind_eq_some_iff.mp h
  exact List.mem_reverse.mp (List.mem_of_find?_eq_some hid)

theorem map_eq_self_of_filter {α : Type} {f : α → α} {p : α → Bool} {l : List α}
    (h : (l.map f).filter p = l) : ∀ a ∈ l, f a = a := by
  have hlength : ((l.map f).filter p).length = (l.map f).length := by rw [h, List.length_map]
  have hall := List.filter_eq_self.mpr (List.length_filter_eq_length_iff.mp hlength)
  have hmap : l.map f = l.map id := (hall.symm.trans h).trans l.map_id.symm
  exact List.map_eq_map_iff.mp hmap

theorem trim_trim (text : Text) : trim (trim text) = trim text :=
  trim_eq_self (trim_ends text).1 (trim_ends text).2

theorem citations_of_trim_eq_nil {text : Text} (h : trim text = []) : citations text = [] := by
  have hstart : trimStart text = [] := by
    by_contra hne
    have hspace := List.rdropWhile_eq_nil_iff.mp h _ (List.head_mem hne)
    have hhead := head?_trimStart text _ (List.head?_eq_some_head hne)
    exact Bool.noConfusion (hspace.symm.trans hhead)
  exact (Cites.nil.append_gap (List.dropWhile_eq_nil_iff.mp hstart)).eq_citations

/-! ## Texts that are validated again -/

/-- A trimmed text is left as it is, and cites known ids only, exactly if its citations are as the
cleaning writes them. -/
theorem trim_stable_iff {text : Text} (htrim : trim text = text) :
    (∀ word ∈ citations text, ∀ cited ∈ idsOf word, cited ∈ known) ∧
        trim (cleanText text known) = text ↔
      ∀ word ∈ citations text, IsCanonical known word := by
  constructor
  · rintro ⟨hknown, hstable⟩
    rw [trim_cleanText htrim hknown] at hstable
    exact (cleanText_eq_iff hknown).mp hstable
  · intro h
    refine ⟨fun word hword ↦ (h word hword).forall_known, ?_⟩
    rw [cleanText_of_canonical h, htrim]

theorem outline_stable_iff {text : Text} :
    (∀ word ∈ citations text, ∀ cited ∈ idsOf word, cited ∈ known) ∧
        (trim text ≠ [] → cleanOutline (.string text) known = .string text) ↔
      ∀ word ∈ citations text, IsCanonical known word := by
  constructor
  · rintro ⟨hknown, hstable⟩
    by_cases hblank : trim text = []
    · rw [citations_of_trim_eq_nil hblank]
      rintro _ ⟨⟩
    · have houtline := hstable hblank
      simp only [cleanOutline] at houtline
      split at houtline
      · cases houtline
      · injection houtline with hclean
        exact (cleanText_eq_iff hknown).mp hclean
  · intro h
    refine ⟨fun word hword ↦ (h word hword).forall_known, fun hblank ↦ ?_⟩
    simp only [cleanOutline, cleanText_of_canonical h, if_neg hblank]

/-- The suggestions returned. -/
def cleanSuggestions (known : List Text) (suggestions : List Text) : List Text :=
  (suggestions.map fun suggestion ↦ trim (cleanText suggestion known)).filter (· ≠ [])

theorem mem_cleanSuggestions {suggestions : List Text} {text : Text} :
    text ∈ cleanSuggestions known suggestions ↔
      (∃ suggestion ∈ suggestions, trim (cleanText suggestion known) = text) ∧ text ≠ [] := by
  rw [cleanSuggestions, List.mem_filter, List.mem_map, decide_eq_true_eq]

theorem trim_of_mem_cleanSuggestions {suggestions : List Text} {text : Text}
    (h : text ∈ cleanSuggestions known suggestions) : trim text = text := by
  obtain ⟨⟨suggestion, -, rfl⟩, -⟩ := mem_cleanSuggestions.mp h
  exact trim_trim _

/-- The suggestions returned cite known ids only and are left as they are exactly if the suggestions
given are settled. -/
theorem suggestions_stable_iff (known : List Text) (suggestions : List Text) :
    (∀ text ∈ cleanSuggestions known suggestions,
        ∀ word ∈ citations text, ∀ cited ∈ idsOf word, cited ∈ known) ∧
        cleanSuggestions known (cleanSuggestions known suggestions) =
          cleanSuggestions known suggestions ↔
      ∀ suggestion ∈ suggestions, Settled known true suggestion := by
  calc _ ↔ ∀ text ∈ cleanSuggestions known suggestions,
        ∀ word ∈ citations text, IsCanonical known word := by
        constructor
        · rintro ⟨hknown, hstable⟩ text htext
          exact (trim_stable_iff (trim_of_mem_cleanSuggestions htext)).mp
            ⟨hknown text htext, map_eq_self_of_filter hstable text htext⟩
        · intro h
          have hstable := fun text htext ↦
            (trim_stable_iff (trim_of_mem_cleanSuggestions htext)).mpr (h text htext)
          refine ⟨fun text htext ↦ (hstable text htext).1, ?_⟩
          have hmap : (cleanSuggestions known suggestions).map
              (fun suggestion ↦ trim (cleanText suggestion known)) =
                cleanSuggestions known suggestions :=
            (List.map_congr_left fun text htext ↦ (hstable text htext).2).trans (List.map_id _)
          rw [cleanSuggestions, hmap]
          exact List.filter_eq_self.mpr fun text htext ↦
            decide_eq_true (mem_cleanSuggestions.mp htext).2
    _ ↔ _ := by
        refine ⟨fun h suggestion hsuggestion ↦ ?_, fun h text htext ↦ ?_⟩
        · rw [← canonical_trim_iff]
          by_cases hnil : trim (cleanText suggestion known) = []
          · rw [hnil]
            rintro _ ⟨⟩
          · exact h _ (mem_cleanSuggestions.mpr ⟨⟨suggestion, hsuggestion, rfl⟩, hnil⟩)
        · obtain ⟨⟨suggestion, hsuggestion, rfl⟩, -⟩ := mem_cleanSuggestions.mp htext
          exact (canonical_trim_iff known suggestion).mpr (h suggestion hsuggestion)

theorem knownSets_sublist_cleanSuggestions (known : List Text) (suggestions : List Text) :
    List.Sublist (knownSets known suggestions) (citedSets (cleanSuggestions known suggestions)) := by
  induction suggestions with
  | nil => exact List.Sublist.refl _
  | cons suggestion suggestions ih =>
    have hfirst := knownSets_sublist_trim_cleanText known suggestion
    rw [knownSets_cons, cleanSuggestions, List.map_cons, List.filter_cons]
    split
    · rw [citedSets_cons]
      exact hfirst.append ih
    · next hnil =>
      have hempty : trim (cleanText suggestion known) = [] := by
        by_contra hne
        exact hnil (decide_eq_true hne)
      rw [hempty] at hfirst
      have hnone := List.sublist_nil.mp hfirst
      rw [hnone]
      exact ih

/-- What is returned of the outline is consistent exactly if it is settled, where it is a string. -/
theorem outline_consistent_iff (known : List Text) (outline : Unknown) :
    (∀ text ∈ outlineTexts (cleanOutline outline known),
        ∀ word ∈ citations text, ∀ cited ∈ idsOf word, cited ∈ known) ∧
        cleanOutline (cleanOutline outline known) known = cleanOutline outline known ↔
      ∀ text ∈ outlineTexts outline, Settled known false text := by
  cases outline with
  | string text =>
    rw [outlineTexts, List.forall_mem_singleton, ← canonical_cleanText_iff, ← outline_stable_iff]
    by_cases hblank : trim (cleanText text known) = []
    · have hnull : cleanOutline (.string text) known = .null := if_pos hblank
      rw [hnull, citations_of_trim_eq_nil hblank]
      constructor
      · exact fun _ ↦ ⟨by rintro _ ⟨⟩, fun hne ↦ (hne hblank).elim⟩
      · exact fun _ ↦ ⟨by rintro _ ⟨⟩, rfl⟩
    · have hstring : cleanOutline (.string text) known = .string (cleanText text known) :=
        if_neg hblank
      rw [hstring, outlineTexts, List.forall_mem_singleton]
      exact and_congr_right' ⟨fun h _ ↦ h, fun h ↦ h hblank⟩
  | null => exact ⟨fun _ ↦ by rintro _ ⟨⟩, fun _ ↦ ⟨by rintro _ ⟨⟩, rfl⟩⟩
  | object members => exact ⟨fun _ ↦ by rintro _ ⟨⟩, fun _ ↦ ⟨by rintro _ ⟨⟩, rfl⟩⟩
  | other => exact ⟨fun _ ↦ by rintro _ ⟨⟩, fun _ ↦ ⟨by rintro _ ⟨⟩, rfl⟩⟩

theorem knownSets_sublist_cleanOutline (known : List Text) (outline : Unknown) :
    List.Sublist (knownSets known (outlineTexts outline))
      (citedSets (outlineTexts (cleanOutline outline known))) := by
  cases outline with
  | string text =>
    have h := knownSets_sublist_cleanText known text
    by_cases hblank : trim (cleanText text known) = []
    · have hnull : cleanOutline (.string text) known = .null := if_pos hblank
      rw [citedSets_of_citations_eq_nil (citations_of_trim_eq_nil hblank)] at h
      rw [hnull]
      exact h
    · have hstring : cleanOutline (.string text) known = .string (cleanText text known) :=
        if_neg hblank
      rw [hstring]
      exact h
  | null => exact List.Sublist.refl _
  | object members => exact List.Sublist.refl _
  | other => exact List.Sublist.refl _

/-- Validated texts are consistent exactly if every text given is settled. -/
theorem consistent_iff (result : PlanningResult) (sources : List CitedSource) :
    Consistent sources result (validateCitations result sources) ↔
      (∀ suggestion ∈ result.suggestions, Settled (sources.map (·.id)) true suggestion) ∧
        ∀ text ∈ outlineTexts result.outline, Settled (sources.map (·.id)) false text := by
  rw [← suggestions_stable_iff, ← outline_consistent_iff]
  constructor
  · intro h
    obtain ⟨hsuggestions, houtline⟩ := List.forall_mem_append.mp h.known_only
    obtain ⟨hstable, hstable'⟩ := h.idempotent []
    exact ⟨⟨hsuggestions, hstable⟩, houtline, hstable'⟩
  · rintro ⟨⟨hsuggestions, hstable⟩, houtline, hstable'⟩
    exact {
      known_only := List.forall_mem_append.mpr ⟨hsuggestions, houtline⟩
      suggestions_kept := knownSets_sublist_cleanSuggestions _ _
      outline_kept := knownSets_sublist_cleanOutline _ _
      sources_eq := foldl_cite sources result.sources
      sources_nodup := by
        rw [validateCitations, foldl_cite]
        exact nodup_map_firstByKey _ _
      sources_given := by
        rw [validateCitations, foldl_cite]
        intro source hsource
        obtain ⟨entry, -, hentry⟩ := List.mem_filterMap.mp (mem_of_mem_firstByKey _ hsource)
        exact mem_of_mentioned hentry
      idempotent := fun _ ↦ ⟨hstable, hstable'⟩ }

/-- One source, and a suggestion with a citation of an unknown source around another. -/
def outlineSources : List CitedSource := [⟨Text.of "S1", .section, Text.of "Introduction"⟩]

def nestedResult : PlanningResult := ⟨[Text.of "[S9[S8]]"], .null, []⟩

/-- What is left around a removed citation is a citation of an unknown source. -/
theorem not_consistent_nestedResult :
    ¬Consistent outlineSources nestedResult (validateCitations nestedResult outlineSources) := by
  intro h
  have hvalid : (validateCitations nestedResult outlineSources).suggestions = [Text.of "[S9]"] := by
    decide +kernel
  have hmem : Text.of "[S9]" ∈ (validateCitations nestedResult outlineSources).suggestions ++
      outlineTexts (validateCitations nestedResult outlineSources).outline := by
    rw [hvalid]
    exact List.mem_append_left _ (List.mem_singleton_self _)
  have hknown := h.known_only _ hmem (Text.of "[S9]") (by decide +kernel) (Text.of "S9")
    (by decide +kernel)
  exact absurd hknown (by decide +kernel)

end MemoFlowApi.Sources
