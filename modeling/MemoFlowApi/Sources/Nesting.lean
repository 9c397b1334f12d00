import MemoFlowApi.Sources.Stretches

/-!
# Citations around Citations

The cleaning is a single pass, so a bracket before a removed citation and a bracket after it may enclose
what reads as a citation once the removed one is gone.  These are the only citations of a cleaned text
that are not as the cleaning writes them.
-/

namespace MemoFlowApi.Sources

open Js Js.Regex Prompts

/-! ## Brackets in a text -/

/-- Some text, removed citations and text again, each citation with all the blanks before it. -/
def Separated (known : List Text) : Text → List (Text × Text) → Prop
  | _, [] => True
  | first, (removed, next) :: others =>
    EndsUnblank first ∧ IsCitation removed ∧ (∀ cited ∈ idsOf removed, cited ∉ known) ∧
      Separated known next others

/-- The text that is left where the citations between its pieces are removed. -/
def remains (first : Text) (others : List (Text × Text)) : Text := first ++ others.flatMap (·.2)

/-- A text consists of another and of citations of unknown sources. -/
def Leaves (known : List Text) (text left : Text) : Prop :=
  ∃ first others, Separated known first others ∧ text = assemble first others ∧ left = remains first others

/-- In a text, after some blanks, brackets are around citations of unknown sources and what is the
inside of a citation without them. -/
def Nests (known : List Text) (text lead blanks inner : Text) : Prop :=
  ∃ nested rest, text = lead ++ (blanks ++ openBracket :: (nested ++ closeBracket :: rest)) ∧
    EndsUnblank lead ∧ (∀ c ∈ blanks, isBlank c = true) ∧ IsInner inner ∧ Leaves known nested inner ∧
    nested ≠ inner

/-- The inside of a citation as the cleaning writes it: known ids without repetition. -/
def IsWritten (known : List Text) (inner : Text) : Prop :=
  ∃ ids, ids ≠ [] ∧ ids.Nodup ∧ (∀ id ∈ ids, id ∈ known ∧ IsSourceId id) ∧
    inner = join (Text.of ", ") ids

/-- Brackets around removed citations are left around ids as the cleaning writes them, after one space
or none; at the start of a trimmed text the blanks before them do not matter. -/
def Settled (known : List Text) (trimmed : Bool) (text : Text) : Prop :=
  ∀ lead blanks inner, Nests known text lead blanks inner → IsWritten known inner ∧
    (blanks = [] ∨ blanks = Text.of " " ∨ trimmed = true ∧ ∃ gap, IsGap gap ∧ Leaves known lead gap)

variable {known : List Text}

theorem openBracket_not_mem_blanks {blanks : Text} (h : ∀ c ∈ blanks, isBlank c = true) :
    openBracket ∉ blanks := fun hmem ↦ absurd (h _ hmem) (by decide)

theorem closeBracket_not_mem_blanks {blanks : Text} (h : ∀ c ∈ blanks, isBlank c = true) :
    closeBracket ∉ blanks := fun hmem ↦ absurd (h _ hmem) (by decide)

theorem openBracket_not_mem_gap {gap : Text} (h : IsGap gap) : openBracket ∉ gap :=
  fun hmem ↦ absurd (h _ hmem) (by decide)

theorem IsCitation.openBracket_mem {word : Text} (h : IsCitation word) : openBracket ∈ word := by
  obtain ⟨blanks, inner, -, -, rfl⟩ := h
  exact List.mem_append_right _ List.mem_cons_self

/-- No citation begins before a closing bracket that no opening one is before. -/
theorem IsCitation.not_prefix_close {word left : Text} (h : IsCitation word) (hopen : openBracket ∉ left)
    (right : Text) : ¬word <+: left ++ closeBracket :: right := by
  rintro ⟨rest, heq⟩
  obtain ⟨blanks, inner, hblanks, -, rfl⟩ := h
  rw [List.append_assoc, List.cons_append] at heq
  rcases append_eq_append_cons heq with ⟨more, rfl, -⟩ | ⟨more, rfl, hmore⟩
  · exact closeBracket_not_mem_blanks hblanks (List.mem_append_right _ List.mem_cons_self)
  · cases more with
    | nil => exact absurd (List.cons_eq_cons.mp hmore).1 (by decide)
    | cons c more =>
      obtain ⟨rfl, -⟩ := List.cons_eq_cons.mp hmore
      exact hopen (List.mem_append_right _ List.mem_cons_self)

/-- No citation has a second opening bracket. -/
theorem IsCitation.not_prefix_open {word blanks left : Text} (h : IsCitation word)
    (hblanks : ∀ c ∈ blanks, isBlank c = true) (hclose : closeBracket ∉ left) (right : Text) :
    ¬word <+: blanks ++ openBracket :: (left ++ openBracket :: right) := by
  rintro ⟨rest, heq⟩
  obtain ⟨blanks', inner, hblanks', hinner, rfl⟩ := h
  simp only [List.append_assoc, List.cons_append, List.nil_append] at heq
  obtain ⟨-, hright⟩ := append_cons_inj (openBracket_not_mem_blanks hblanks')
    (openBracket_not_mem_blanks hblanks) heq
  rcases append_eq_append_cons hright with ⟨more, rfl, -⟩ | ⟨more, rfl, hmore⟩
  · exact hinner.not_mem (c := openBracket) rfl (List.mem_append_right _ List.mem_cons_self)
  · cases more with
    | nil => exact absurd (List.cons_eq_cons.mp hmore).1 (by decide)
    | cons c more =>
      obtain ⟨rfl, -⟩ := List.cons_eq_cons.mp hmore
      exact hclose (List.mem_append_right _ List.mem_cons_self)

/-- No citation begins in another, unless with its blanks. -/
theorem IsCitation.not_prefix_behind {word left more : Text} (h : IsCitation word) (hne : left ≠ [])
    (hunblank : EndsUnblank left) (hwhole : IsCitation (left ++ more)) (hmore : more ≠ [])
    (rest : Text) : ¬word <+: more ++ rest := by
  have hopen : openBracket ∉ more := by
    obtain ⟨blanks, inner, hblanks, hinner, heq⟩ := hwhole
    rcases append_eq_append_cons heq with ⟨middle, rfl, hmiddle⟩ | ⟨middle, rfl, -⟩
    · intro hmem
      have hinside : openBracket ∈ inner ++ [closeBracket] := hmiddle ▸ List.mem_append_right _ hmem
      rcases List.mem_append.mp hinside with hinside | hinside
      · exact hinner.not_mem (c := openBracket) rfl hinside
      · exact absurd (List.mem_singleton.mp hinside) (by decide)
    · have hlast := hunblank _ (List.getLast?_eq_getLast_of_ne_nil hne)
      have hblank := hblanks _ (List.mem_append_left _ (List.getLast_mem hne))
      exact Bool.noConfusion (hblank.symm.trans hlast)
  obtain ⟨before, behind, rfl⟩ := List.append_of_mem (hwhole.closeBracket_mem hmore)
  rw [List.append_assoc, List.cons_append]
  exact h.not_prefix_close (fun hmem ↦ hopen (List.mem_append_left _ hmem)) _

/-! ## Where the citations of a text are -/

theorem EndsUnblank.append {left right : Text} (hleft : right = [] → EndsUnblank left)
    (hright : EndsUnblank right) : EndsUnblank (left ++ right) := by
  intro c hc
  cases right with
  | nil =>
    rw [List.append_nil] at hc
    exact hleft rfl c hc
  | cons d right =>
    rw [List.getLast?_append_of_ne_nil _ (List.cons_ne_nil _ _)] at hc
    exact hright c hc

theorem IsCitation.endsUnblank {word : Text} (h : IsCitation word) : EndsUnblank word := by
  obtain ⟨blanks, inner, -, -, rfl⟩ := h
  intro c hc
  rw [← List.cons_append, ← List.append_assoc, List.getLast?_concat] at hc
  obtain rfl := Option.some.inj hc
  decide

/-- A blank at which no citation begins has none behind it. -/
theorem endsUnblank_of_none {c : CodeUnit} {text word : Text}
    (none : ∀ word, IsCitation word → ¬word <+: c :: text) (hword : IsCitation word)
    (hstarts : word <+: text) : EndsUnblank [c] := by
  rintro _ ⟨⟩
  by_contra hblank
  exact none _ (isCitation_cons (Bool.not_eq_false _ |>.mp hblank) hword)
    (List.cons_prefix_cons.mpr ⟨rfl, hstarts⟩)

/-- The citations of a text are all its parts that are citations with all the blanks before them. -/
theorem mem_citations_iff {text word : Text} :
    word ∈ citations text ↔
      IsCitation word ∧ ∃ lead rest, EndsUnblank lead ∧ text = lead ++ (word ++ rest) := by
  constructor
  · intro hmem
    have h := cites_citations text
    refine ⟨h.isCitation word hmem, ?_⟩
    generalize citations text = words at h hmem
    induction h with
    | nil => cases hmem
    | @lit c text words none others ih =>
      obtain ⟨lead, rest, hlead, rfl⟩ := ih hmem
      refine ⟨c :: lead, rest, @EndsUnblank.append [c] _ ?_ hlead, rfl⟩
      rintro rfl
      exact endsUnblank_of_none none (others.isCitation word hmem) (List.prefix_append _ _)
    | @found first text words hfirst others ih =>
      cases hmem with
      | head => exact ⟨[], text, by rintro _ ⟨⟩, rfl⟩
      | tail _ hmem =>
        obtain ⟨lead, rest, hlead, rfl⟩ := ih hmem
        exact ⟨first ++ lead, rest, EndsUnblank.append (fun _ ↦ hfirst.endsUnblank) hlead, by simp⟩
  · rintro ⟨hword, lead, rest, hlead, rfl⟩
    rw [((cites_citations lead).append hlead hword (cites_citations rest)).eq_citations]
    exact List.mem_append_right _ List.mem_cons_self

theorem Nests.prefix {text lead blanks inner : Text} (h : Nests known text lead blanks inner) :
    lead <+: text := by
  obtain ⟨nested, rest, rfl, -⟩ := h
  exact List.prefix_append _ _

/-- A text before brackets is before them. -/
theorem Nests.append {first text lead blanks inner : Text} (h : Nests known text lead blanks inner)
    (hfirst : lead = [] → EndsUnblank first) : Nests known (first ++ text) (first ++ lead) blanks inner := by
  obtain ⟨nested, rest, rfl, hlead, hnested⟩ := h
  exact ⟨nested, rest, (List.append_assoc _ _ _).symm, EndsUnblank.append hfirst hlead, hnested⟩

/-! ## Cleaning step by step -/

/-- The cleaning of a text, step by step. -/
inductive Cleans (known : List Text) : Text → Text → Prop
  | nil : Cleans known [] []
  | lit {c text cleaned} (none : ∀ word, IsCitation word → ¬word <+: c :: text)
      (others : Cleans known text cleaned) : Cleans known (c :: text) (c :: cleaned)
  | found {word text cleaned} (h : IsCitation word) (others : Cleans known text cleaned) :
      Cleans known (word ++ text) (rewrite known word ++ cleaned)

theorem cleanText_eq (text : Text) (known : List Text) :
    cleanText text known = (scan inlineCitation text).flatMap
      (Token.replace fun _ found ↦ rewrite known found) := rfl

theorem cleans_of_scans {before : Option CodeUnit} {text : Text} {tokens : List (Token CodeUnit)}
    (h : Scans inlineCitation before text tokens) :
    Cleans known text (tokens.flatMap (Token.replace fun _ found ↦ rewrite known found)) := by
  induction h with
  | nil => exact .nil
  | lit none _ ih => exact .lit (describes_inlineCitation.exec_eq_none_iff.mp none) ih
  | found found _ _ ih =>
    exact .found ((describes_inlineCitation _ _ _ _).mp (matches_of_exec found).1).2 ih

theorem cleans_cleanText (known : List Text) (text : Text) :
    Cleans known text (cleanText text known) :=
  cleans_of_scans (scans_scan consuming_inlineCitation text)

namespace Cleans

theorem scanFrom_eq {text cleaned : Text} (h : Cleans known text cleaned) (before : Option CodeUnit) :
    (scanFrom inlineCitation before 0 text).flatMap
      (Token.replace fun _ found ↦ rewrite known found) = cleaned := by
  induction h generalizing before with
  | nil =>
    rw [scanFrom_nil consuming_inlineCitation]
    rfl
  | lit none _ ih =>
    rw [scanFrom_of_none (describes_inlineCitation.exec_eq_none_iff.mpr none)]
    exact congrArg _ (ih _)
  | found h _ ih =>
    rw [scanFrom_of_some (IsCitation.ne_nil h)
      (describes_inlineCitation.exec_eq_some prefixFree_citations h before _)]
    exact congrArg _ (ih _)

/-- A text is cleaned in one way. -/
theorem eq_cleanText {text cleaned : Text} (h : Cleans known text cleaned) :
    cleanText text known = cleaned := h.scanFrom_eq none

theorem unique {text cleaned cleaned' : Text} (h : Cleans known text cleaned)
    (h' : Cleans known text cleaned') : cleaned = cleaned' := h.eq_cleanText.symm.trans h'.eq_cleanText

/-- The cleaning leaves no blank at the end of a text that ends in none. -/
theorem endsUnblank {text cleaned : Text} (h : Cleans known text cleaned) (hunblank : EndsUnblank text) :
    EndsUnblank cleaned := by
  induction h with
  | nil => exact hunblank
  | @lit c text cleaned none others ih =>
    refine @EndsUnblank.append [c] _ ?_ (ih hunblank.of_cons)
    intro hnil
    cases others with
    | nil => exact hunblank
    | lit _ _ => cases hnil
    | found hword _ => exact endsUnblank_of_none none hword (List.prefix_append _ _)
  | @found word text cleaned hword _ ih =>
    refine EndsUnblank.append (fun _ ↦ ?_) (ih hunblank.of_append)
    by_cases hnone : rewrite known word = []
    · rw [hnone]
      rintro _ ⟨⟩
    · exact (isCanonical_rewrite hnone).isCitation.endsUnblank

/-! ## What is left of brackets around removed citations -/

/-- A text goes on with brackets where no citation goes on. -/
theorem append_open {left cleaned blanks rest cleaned' : Text} (h : Cleans known left cleaned)
    (hunblank : EndsUnblank left) (hblanks : ∀ c ∈ blanks, isBlank c = true)
    (hrest : Cleans known (blanks ++ openBracket :: rest) cleaned') :
    Cleans known (left ++ (blanks ++ openBracket :: rest)) (cleaned ++ cleaned') := by
  induction h with
  | nil => exact hrest
  | lit none _ ih =>
    exact .lit (not_prefix_append_open (List.cons_ne_nil _ _) hunblank hblanks none)
      (ih hunblank.of_cons)
  | found h _ ih =>
    rw [List.append_assoc, List.append_assoc]
    exact .found h (ih hunblank.of_append)

/-- Units at which no citation begins are left as they are. -/
theorem append_lits {left right cleaned : Text} (h : Cleans known right cleaned)
    (hnone : ∀ rest, rest ≠ [] → rest <:+ left → ∀ word, IsCitation word → ¬word <+: rest ++ right) :
    Cleans known (left ++ right) (left ++ cleaned) := by
  induction left with
  | nil => exact h
  | cons c left ih =>
    refine .lit (hnone (c :: left) (List.cons_ne_nil _ _) List.suffix_rfl) (ih fun rest hne hrest ↦ ?_)
    exact hnone rest hne (hrest.trans (List.suffix_cons _ _))

end Cleans

theorem rewrite_of_unknown {word : Text} (h : ∀ cited ∈ idsOf word, cited ∉ known) :
    rewrite known word = [] := by
  have hnone : (idsOf word).filter known.contains = [] :=
    List.filter_eq_nil_iff.mpr fun cited hcited hknown ↦ h cited hcited (List.contains_iff_mem.mp hknown)
  exact if_pos hnone

theorem remains_cons (first removed next : Text) (others : List (Text × Text)) :
    remains first ((removed, next) :: others) = first ++ remains next others := by
  simp only [remains, List.flatMap_cons]

/-- Citations of unknown sources between pieces of text are removed. -/
theorem Separated.cleans {first : Text} {others : List (Text × Text)} (h : Separated known first others)
    (hopen : openBracket ∉ remains first others) {tail cleaned : Text} (hcleans : Cleans known tail cleaned)
    (htail : ∀ left, openBracket ∉ left → ∀ word, IsCitation word → ¬word <+: left ++ tail) :
    Cleans known (assemble first others ++ tail) (remains first others ++ cleaned) := by
  induction others generalizing first with
  | nil =>
    simp only [assemble, remains, List.flatMap_nil, List.append_nil] at hopen ⊢
    exact hcleans.append_lits fun rest _ hrest ↦ htail rest fun hmem ↦ hopen (hrest.subset hmem)
  | cons piece others ih =>
    obtain ⟨removed, next⟩ := piece
    obtain ⟨hunblank, hremoved, hunknown, hothers⟩ := h
    rw [remains_cons, List.mem_append, not_or] at hopen
    have hnext := Cleans.found hremoved (ih hothers hopen.2)
    rw [rewrite_of_unknown hunknown, List.nil_append] at hnext
    rw [assemble_cons, remains_cons, List.append_assoc, List.append_assoc, List.append_assoc]
    apply hnext.append_lits
    rintro rest hne ⟨before, rfl⟩
    obtain ⟨blanks, inner, hblanks, -, rfl⟩ := hremoved
    rw [List.append_assoc, List.cons_append]
    refine not_prefix_append_open hne hunblank.of_append hblanks fun word hword hstarts ↦ hopen.1 ?_
    exact List.mem_append_right _ (hstarts.subset hword.openBracket_mem)

theorem Leaves.cleans {text left : Text} (h : Leaves known text left) (hopen : openBracket ∉ left) :
    Cleans known text left := by
  obtain ⟨first, others, hseparated, rfl, rfl⟩ := h
  have hcleans := hseparated.cleans hopen .nil fun left hleft word hword hstarts ↦ hleft (by
    rw [List.append_nil] at hstarts
    exact hstarts.subset hword.openBracket_mem)
  rwa [List.append_nil, List.append_nil] at hcleans

/-- Brackets around citations of unknown sources are left around what is the inside of a citation. -/
theorem Nests.cleans {text lead blanks inner : Text} (h : Nests known text lead blanks inner) :
    ∃ rest, Cleans known text
      (cleanText lead known ++ (blanks ++ openBracket :: (inner ++ closeBracket :: rest))) := by
  obtain ⟨nested, rest, rfl, hunblank, hblanks, hinner, ⟨first, others, hseparated, rfl, rfl⟩, hne⟩ := h
  refine ⟨cleanText rest known, (cleans_cleanText known lead).append_open hunblank hblanks ?_⟩
  have hclose : Cleans known (closeBracket :: rest) (closeBracket :: cleanText rest known) :=
    .lit (fun word hword ↦ @IsCitation.not_prefix_close word [] hword List.not_mem_nil rest)
      (cleans_cleanText known rest)
  have hnested := hseparated.cleans (hinner.not_mem (c := openBracket) rfl) hclose
    fun left hleft word hword ↦ hword.not_prefix_close hleft rest
  have hlits : ∀ suffix, suffix ≠ [] → suffix <:+ blanks ++ [openBracket] → ∀ word, IsCitation word →
      ¬word <+: suffix ++ (assemble first others ++ closeBracket :: rest) := by
    intro suffix hsuffix hends word hword
    cases others with
    | nil => exact (hne (by simp [assemble, remains])).elim
    | cons piece others =>
      obtain ⟨blanks', rfl, hblanks'⟩ := (List.suffix_concat_iff.mp hends).resolve_left hsuffix
      obtain ⟨_, next⟩ := piece
      obtain ⟨-, ⟨blanks'', inner', hblanks'', -, rfl⟩, -, -⟩ := hseparated
      have hfirst : closeBracket ∉ first ++ blanks'' := by
        rw [List.mem_append, not_or]
        refine ⟨fun hmem ↦ hinner.not_mem (c := closeBracket) rfl ?_,
          closeBracket_not_mem_blanks hblanks''⟩
        exact List.mem_append_left _ hmem
      have hstart := hword.not_prefix_open (fun c hc ↦ hblanks c (hblanks'.subset hc)) hfirst
        (inner' ++ closeBracket :: (assemble next others ++ closeBracket :: rest))
      simpa [assemble_cons] using hstart
  have hbrackets := hnested.append_lits hlits
  rwa [List.append_assoc, List.append_assoc, List.singleton_append, List.singleton_append] at hbrackets

/-! ## Where the citations of a cleaned text come from -/

namespace Cleans

/-- A text that is cleaned to one without an opening bracket has citations of unknown sources only. -/
theorem leaves {text cleaned : Text} (h : Cleans known text cleaned) (hopen : openBracket ∉ cleaned) :
    Leaves known text cleaned := by
  induction h with
  | nil => exact ⟨[], [], trivial, rfl, rfl⟩
  | @lit c text cleaned none _ ih =>
    obtain ⟨first, others, hseparated, rfl, rfl⟩ := ih (List.not_mem_of_not_mem_cons hopen)
    refine ⟨c :: first, others, ?_, rfl, rfl⟩
    cases others with
    | nil => trivial
    | cons piece others =>
      obtain ⟨removed, next⟩ := piece
      obtain ⟨hunblank, hremoved, hothers⟩ := hseparated
      refine ⟨@EndsUnblank.append [c] _ ?_ hunblank, hremoved, hothers⟩
      rintro rfl
      exact endsUnblank_of_none none hremoved ⟨_, by rw [assemble_cons, List.nil_append]⟩
  | @found word text cleaned hword _ ih =>
    rw [List.mem_append, not_or] at hopen
    rcases rewrite_cases known word with ⟨hnone, hunknown⟩ | ⟨hcanonical, -⟩
    · obtain ⟨first, others, hseparated, rfl, rfl⟩ := ih hopen.2
      refine ⟨[], (word, first) :: others, ⟨by rintro _ ⟨⟩, hword, hunknown, hseparated⟩, ?_, ?_⟩
      · rw [assemble_cons, List.nil_append]
      · rw [hnone, remains_cons, List.nil_append]
    · exact (hopen.1 hcanonical.isCitation.openBracket_mem).elim

/-- The start of a text up to a closing bracket that no opening one is before is cleaned on its own. -/
theorem split_close {text left right : Text} (h : Cleans known text (left ++ closeBracket :: right))
    (hopen : openBracket ∉ left) :
    ∃ nested rest, text = nested ++ closeBracket :: rest ∧ Cleans known nested left := by
  generalize hcleaned : left ++ closeBracket :: right = cleaned at h
  induction h generalizing left with
  | nil => exact absurd hcleaned (by simp)
  | @lit c text cleaned none _ ih =>
    cases left with
    | nil =>
      obtain ⟨rfl, -⟩ := List.cons_eq_cons.mp hcleaned
      exact ⟨[], text, rfl, .nil⟩
    | cons d left =>
      obtain ⟨rfl, htail⟩ := List.cons_eq_cons.mp hcleaned
      obtain ⟨nested, rest, rfl, hnested⟩ := ih (List.not_mem_of_not_mem_cons hopen) htail
      refine ⟨d :: nested, rest, rfl, .lit (fun word hword hstarts ↦ none word hword ?_) hnested⟩
      exact hstarts.trans (List.prefix_append (d :: nested) _)
  | @found word text cleaned hword _ ih =>
    by_cases hnone : rewrite known word = []
    · rw [hnone] at hcleaned
      obtain ⟨nested, rest, rfl, hnested⟩ := ih hopen hcleaned
      have hfound := Cleans.found hword hnested
      rw [hnone] at hfound
      exact ⟨word ++ nested, rest, (List.append_assoc _ _ _).symm, hfound⟩
    · refine ((isCanonical_rewrite hnone).isCitation.not_prefix_close hopen right ?_).elim
      rw [hcleaned]
      exact List.prefix_append _ _

/-- Blanks and the opening bracket after them at which no citation begins were not changed. -/
theorem split_open {text blanks right : Text} (h : Cleans known text (blanks ++ openBracket :: right))
    (hblanks : ∀ c ∈ blanks, isBlank c = true) (hnone : ∀ word, IsCitation word → ¬word <+: text) :
    ∃ rest, text = blanks ++ openBracket :: rest ∧ Cleans known rest right := by
  induction blanks generalizing text with
  | nil =>
    rw [List.nil_append] at h
    generalize hcleaned : openBracket :: right = cleaned at h
    cases h with
    | nil => cases hcleaned
    | lit _ others =>
      obtain ⟨rfl, rfl⟩ := List.cons_eq_cons.mp hcleaned
      exact ⟨_, rfl, others⟩
    | found hword _ => exact (hnone _ hword (List.prefix_append _ _)).elim
  | cons c blanks ih =>
    obtain ⟨hc, hblanks⟩ := List.forall_mem_cons.mp hblanks
    generalize hcleaned : c :: blanks ++ openBracket :: right = cleaned at h
    cases h with
    | nil => cases hcleaned
    | lit _ others =>
      obtain ⟨rfl, rfl⟩ := List.cons_eq_cons.mp hcleaned
      obtain ⟨rest, rfl, hrest⟩ := ih others hblanks fun word hword hstarts ↦
        hnone (c :: word) (isCitation_cons hc hword) (List.cons_prefix_cons.mpr ⟨rfl, hstarts⟩)
      exact ⟨rest, rfl, hrest⟩
    | found hword _ => exact (hnone _ hword (List.prefix_append _ _)).elim

/-- A citation of a cleaned text is as the cleaning writes it or was around removed ones. -/
theorem exists_nests {text lead blanks inner rest : Text}
    (h : Cleans known text (lead ++ (blanks ++ openBracket :: (inner ++ closeBracket :: rest))))
    (hunblank : EndsUnblank lead) (hblanks : ∀ c ∈ blanks, isBlank c = true) (hinner : IsInner inner) :
    IsCanonical known (blanks ++ openBracket :: (inner ++ [closeBracket])) ∨
      ∃ before, Cleans known before lead ∧ Nests known text before blanks inner := by
  have hword : IsCitation (blanks ++ openBracket :: (inner ++ [closeBracket])) :=
    ⟨blanks, inner, hblanks, hinner, rfl⟩
  have hshape : blanks ++ openBracket :: (inner ++ closeBracket :: rest) =
      (blanks ++ openBracket :: (inner ++ [closeBracket])) ++ rest := by simp
  generalize hcleaned : lead ++ (blanks ++ openBracket :: (inner ++ closeBracket :: rest)) = cleaned at h
  induction h generalizing lead with
  | nil => exact absurd hcleaned (by simp)
  | @lit c text cleaned none others ih =>
    cases lead with
    | nil =>
      have hwhole := Cleans.lit none others
      rw [← hcleaned, List.nil_append] at hwhole
      obtain ⟨behind, hbehind, hrest⟩ := hwhole.split_open hblanks none
      have hopen := hinner.not_mem (c := openBracket) rfl
      obtain ⟨nested, rest', rfl, hnested⟩ := hrest.split_close hopen
      refine .inr ⟨[], .nil, nested, rest', hbehind, by rintro _ ⟨⟩, hblanks, hinner,
        hnested.leaves hopen, ?_⟩
      rintro rfl
      exact none _ hword (hbehind ▸ ⟨rest', by simp⟩)
    | cons d lead =>
      obtain ⟨rfl, htail⟩ := List.cons_eq_cons.mp hcleaned
      refine (ih hunblank.of_cons htail).imp_right ?_
      rintro ⟨before, hbefore, hnests⟩
      refine ⟨d :: before, .lit (fun word hword hstarts ↦ none word hword ?_) hbefore,
        @Nests.append _ [d] _ _ _ _ hnests ?_⟩
      · exact hstarts.trans (List.cons_prefix_cons.mpr ⟨rfl, hnests.prefix⟩)
      · rintro rfl
        rwa [hbefore.unique .nil] at hunblank
  | @found word text cleaned hfirst _ ih =>
    have hlater {lead : Text} (hunblank : EndsUnblank lead)
        (htail : lead ++ (blanks ++ openBracket :: (inner ++ closeBracket :: rest)) = cleaned) :
        IsCanonical known (blanks ++ openBracket :: (inner ++ [closeBracket])) ∨
          ∃ before, Cleans known before (rewrite known word ++ lead) ∧
            Nests known (word ++ text) before blanks inner := by
      refine (ih hunblank htail).imp_right ?_
      rintro ⟨before, hbefore, hnests⟩
      exact ⟨word ++ before, .found hfirst hbefore, hnests.append fun _ ↦ hfirst.endsUnblank⟩
    by_cases hnone : rewrite known word = []
    · rw [hnone] at hcleaned hlater
      exact hlater hunblank hcleaned
    · have hcanonical := isCanonical_rewrite hnone
      rcases List.append_eq_append_iff.mp hcleaned with ⟨more, hmore, hbehind⟩ | ⟨more, rfl, hbehind⟩
      · by_cases hend : more = []
        · have hnext := @hlater [] (by rintro _ ⟨⟩) (by rw [hbehind, hend]; rfl)
          rwa [hmore, hend, List.append_nil, List.append_nil] at hnext
        · rw [hshape] at hbehind
          cases lead with
          | nil =>
            rw [hmore, List.nil_append] at hcanonical
            left
            rwa [prefixFree_citations _ hword _ hcanonical.isCitation _ _ hbehind]
          | cons c lead =>
            refine (hword.not_prefix_behind (List.cons_ne_nil _ _) hunblank (hmore ▸ hcanonical.isCitation)
              hend cleaned ?_).elim
            rw [← hbehind]
            exact List.prefix_append _ _
      · exact hlater hunblank.of_append hbehind.symm

end Cleans

/-! ## Settled texts -/

/-- A citation is as the cleaning writes it if its inside is, and one space or none is before it. -/
theorem isCanonical_iff {blanks inner : Text} (hblanks : ∀ c ∈ blanks, isBlank c = true) :
    IsCanonical known (blanks ++ openBracket :: (inner ++ [closeBracket])) ↔
      IsWritten known inner ∧ (blanks = [] ∨ blanks = Text.of " ") := by
  constructor
  · rintro ⟨spaced, ids, hne, hnodup, hids, heq⟩
    have hspace : openBracket ∉ if spaced then Text.of " " else [] := by
      cases spaced <;> decide
    obtain ⟨rfl, hinner⟩ := append_cons_inj (openBracket_not_mem_blanks hblanks) hspace heq
    refine ⟨⟨ids, hne, hnodup, hids, List.append_cancel_right hinner⟩, ?_⟩
    cases spaced with
    | false => exact .inl rfl
    | true => exact .inr rfl
  · rintro ⟨⟨ids, hne, hnodup, hids, rfl⟩, rfl | rfl⟩
    · exact ⟨false, ids, hne, hnodup, hids, rfl⟩
    · exact ⟨true, ids, hne, hnodup, hids, rfl⟩

/-- All citations of a cleaned text are as the cleaning writes them exactly if the text is settled. -/
theorem canonical_cleanText_iff (known : List Text) (text : Text) :
    (∀ word ∈ citations (cleanText text known), IsCanonical known word) ↔ Settled known false text := by
  constructor
  · intro h lead blanks inner hnests
    obtain ⟨rest, hcleans⟩ := hnests.cleans
    obtain ⟨_, _, -, hunblank, hblanks, hinner, -⟩ := hnests
    have hmem : blanks ++ openBracket :: (inner ++ [closeBracket]) ∈ citations (cleanText text known) :=
      mem_citations_iff.mpr ⟨⟨blanks, inner, hblanks, hinner, rfl⟩, cleanText lead known, rest,
        (cleans_cleanText known lead).endsUnblank hunblank, by rw [hcleans.eq_cleanText]; simp⟩
    exact ((isCanonical_iff hblanks).mp (h _ hmem)).imp_right fun hblank ↦ hblank.elim .inl (.inr ∘ .inl)
  · intro h word hmem
    obtain ⟨⟨blanks, inner, hblanks, hinner, rfl⟩, lead, rest, hunblank, heq⟩ := mem_citations_iff.mp hmem
    have hcleans := cleans_cleanText known text
    rw [heq, List.append_assoc, List.cons_append, List.append_assoc, List.singleton_append] at hcleans
    rcases hcleans.exists_nests hunblank hblanks hinner with hcanonical | ⟨before, -, hnests⟩
    · exact hcanonical
    · obtain ⟨hwritten, hblank⟩ := h before blanks inner hnests
      exact (isCanonical_iff hblanks).mpr ⟨hwritten, hblank.imp_right fun hblank ↦
        hblank.resolve_right fun htrimmed ↦ Bool.false_ne_true htrimmed.1⟩

/-! ## Settled suggestions -/

theorem citations_trimEnd (text : Text) : citations (trimEnd text) = citations text := by
  obtain ⟨gap, hgap, htext⟩ := exists_trimEnd_append text
  have h := (cites_citations (trimEnd text)).append_gap hgap
  rw [← htext] at h
  exact h.eq_citations.symm

theorem endsUnblank_trimStart {text : Text} (h : EndsUnblank text) : EndsUnblank (trimStart text) := by
  rw [← List.takeWhile_append_dropWhile (p := isSpace) (l := text)] at h
  exact h.of_append

theorem isGap_blanks {blanks : Text} (h : ∀ c ∈ blanks, isBlank c = true) : IsGap blanks := by
  have hall : (Text.of " \t").all isSpace = true := by decide
  exact fun c hc ↦ List.all_eq_true.mp hall c (List.contains_iff_mem.mp (h c hc))

/-- White space is some text that ends in no blank, and blanks. -/
theorem exists_blanks (gap : Text) :
    ∃ before blanks, EndsUnblank before ∧ (∀ c ∈ blanks, isBlank c = true) ∧ gap = before ++ blanks := by
  refine ⟨gap.rdropWhile isBlank, gap.rtakeWhile isBlank, ?_, fun c hc ↦ List.mem_rtakeWhile_imp hc,
    (rdropWhile_append_rtakeWhile isBlank gap).symm⟩
  intro c hc
  have hne : gap.rdropWhile isBlank ≠ [] := fun hnil ↦ by rw [hnil] at hc; cases hc
  rw [List.getLast?_eq_getLast_of_ne_nil hne] at hc
  obtain rfl := Option.some.inj hc
  exact Bool.not_eq_true _ |>.mp (List.rdropWhile_last_not isBlank gap hne)

/-- A citation at the start of what is left of a text has no blanks once the text is trimmed. -/
theorem trimStart_bracket {before blanks rest : Text} (hbefore : IsGap before)
    (hblanks : ∀ c ∈ blanks, isBlank c = true) :
    trimStart (before ++ (blanks ++ openBracket :: rest)) = openBracket :: rest := by
  rw [trimStart_append_of_spaces hbefore, trimStart_append_of_spaces (isGap_blanks hblanks)]
  exact trimStart_eq_self (by rintro _ ⟨⟩; decide)

/-- All citations of a cleaned and trimmed text are as the cleaning writes them exactly if the text is
settled. -/
theorem canonical_trim_iff (known : List Text) (text : Text) :
    (∀ word ∈ citations (trim (cleanText text known)), IsCanonical known word) ↔
      Settled known true text := by
  rw [trim, citations_trimEnd]
  constructor
  · intro h lead blanks inner hnests
    obtain ⟨rest, hcleans⟩ := hnests.cleans
    obtain ⟨_, _, -, hunblank, hblanks, hinner, -⟩ := hnests
    rw [hcleans.eq_cleanText] at h
    by_cases hgap : trimStart (cleanText lead known) = []
    · have hlead : IsGap (cleanText lead known) := List.dropWhile_eq_nil_iff.mp hgap
      have hmem : [] ++ openBracket :: (inner ++ [closeBracket]) ∈ citations (trimStart (cleanText lead known ++
          (blanks ++ openBracket :: (inner ++ closeBracket :: rest)))) := by
        rw [trimStart_bracket hlead hblanks]
        exact mem_citations_iff.mpr ⟨⟨[], inner, by rintro _ ⟨⟩, hinner, rfl⟩, [], rest, by rintro _ ⟨⟩,
          by simp⟩
      have hwritten := ((isCanonical_iff (by rintro _ ⟨⟩)).mp (h _ hmem)).1
      exact ⟨hwritten, .inr (.inr ⟨rfl, _, hlead,
        (cleans_cleanText known lead).leaves (openBracket_not_mem_gap hlead)⟩)⟩
    · have hmem : blanks ++ openBracket :: (inner ++ [closeBracket]) ∈ citations (trimStart
          (cleanText lead known ++ (blanks ++ openBracket :: (inner ++ closeBracket :: rest)))) := by
        rw [trimStart_append, if_neg hgap]
        exact mem_citations_iff.mpr ⟨⟨blanks, inner, hblanks, hinner, rfl⟩, _, rest,
          endsUnblank_trimStart ((cleans_cleanText known lead).endsUnblank hunblank), by simp⟩
      exact ((isCanonical_iff hblanks).mp (h _ hmem)).imp_right
        fun hblank ↦ hblank.elim .inl (.inr ∘ .inl)
  · intro h word hmem
    obtain ⟨⟨blanks, inner, hblanks, hinner, rfl⟩, lead, rest, hunblank, heq⟩ := mem_citations_iff.mp hmem
    have hsplit : cleanText text known = (cleanText text known).takeWhile isSpace ++
        (lead ++ (blanks ++ openBracket :: (inner ++ closeBracket :: rest))) := by
      have hshape : lead ++ (blanks ++ openBracket :: (inner ++ [closeBracket]) ++ rest) =
          lead ++ (blanks ++ openBracket :: (inner ++ closeBracket :: rest)) := by simp
      rw [← hshape, ← heq]
      exact (List.takeWhile_append_dropWhile).symm
    have hgap : IsGap ((cleanText text known).takeWhile isSpace) := fun c hc ↦ List.mem_takeWhile_imp hc
    have hhead := head?_trimStart (cleanText text known)
    rw [heq] at hhead
    have hcleans := cleans_cleanText known text
    rw [hsplit] at hcleans
    generalize (cleanText text known).takeWhile isSpace = gap at hgap hcleans
    cases lead with
    | nil =>
      have hnil : blanks = [] := by
        cases blanks with
        | nil => rfl
        | cons c blanks =>
          have hspace := isGap_blanks hblanks c List.mem_cons_self
          exact Bool.noConfusion (hspace.symm.trans (hhead c rfl))
      obtain ⟨before, blanks', hbefore, hblanks', rfl⟩ := exists_blanks gap
      rw [hnil, List.nil_append, List.nil_append, List.append_assoc] at hcleans
      refine (isCanonical_iff hblanks).mpr ⟨?_, .inl hnil⟩
      rcases hcleans.exists_nests hbefore hblanks' hinner with hcanonical | ⟨_, -, hnests⟩
      · exact ((isCanonical_iff hblanks').mp hcanonical).1
      · exact (h _ _ _ hnests).1
    | cons c lead =>
      rw [← List.append_assoc] at hcleans
      have hunblank' := @EndsUnblank.append gap _ (by rintro ⟨⟩) hunblank
      rcases hcleans.exists_nests hunblank' hblanks hinner with hcanonical | ⟨before, hbefore, hnests⟩
      · exact hcanonical
      · obtain ⟨hwritten, hblank⟩ := h before blanks inner hnests
        refine (isCanonical_iff hblanks).mpr ⟨hwritten, hblank.imp_right fun hblank ↦
          hblank.resolve_right ?_⟩
        rintro ⟨-, gap', hgap', hleaves⟩
        have hsame := (hleaves.cleans (openBracket_not_mem_gap hgap')).unique hbefore
        have hspace := hgap' c (hsame ▸ List.mem_append_right _ List.mem_cons_self)
        exact Bool.noConfusion (hspace.symm.trans (hhead c rfl))

end MemoFlowApi.Sources
