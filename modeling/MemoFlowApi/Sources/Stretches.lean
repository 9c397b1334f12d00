import MemoFlowApi.Sources.CitationWords
import MemoFlowApi.Sources.Fence

/-!
# Stretches of a Cleaned Text

A cleaned text is what its kept citations leave between them, with the kept citations in their places.
The citations of such a text are the kept ones and those within its stretches; none of the latter was
in the original text.
-/

namespace MemoFlowApi.Sources

open Js Js.Regex Prompts

/-- The inline citations of a text. -/
def citations (text : Text) : List Text := (matchAll inlineCitation text).map (·.2)

/-- The citations of a text, step by step. -/
inductive Cites : Text → List Text → Prop
  | nil : Cites [] []
  | lit {c text words} (none : ∀ word, IsCitation word → ¬word <+: c :: text)
      (others : Cites text words) : Cites (c :: text) words
  | found {word text words} (h : IsCitation word) (others : Cites text words) :
      Cites (word ++ text) (word :: words)

theorem cites_of_scans {before : Option CodeUnit} {text : Text} {tokens : List (Token CodeUnit)}
    (h : Scans inlineCitation before text tokens) :
    Cites text ((tokens.filterMap captures?).map (·.2)) := by
  induction h with
  | nil => exact .nil
  | lit none _ ih => exact .lit (describes_inlineCitation.exec_eq_none_iff.mp none) ih
  | found found _ _ ih =>
    exact .found ((describes_inlineCitation _ _ _ _).mp (matches_of_exec found).1).2 ih

theorem cites_citations (text : Text) : Cites text (citations text) :=
  cites_of_scans (scans_scan consuming_inlineCitation text)

theorem Cites.scanFrom_eq {text : Text} {words : List Text} (h : Cites text words)
    (before : Option CodeUnit) :
    ((scanFrom inlineCitation before 0 text).filterMap captures?).map (·.2) = words := by
  induction h generalizing before with
  | nil =>
    rw [scanFrom_nil consuming_inlineCitation]
    rfl
  | lit none _ ih =>
    rw [scanFrom_of_none (describes_inlineCitation.exec_eq_none_iff.mpr none)]
    exact ih _
  | found h _ ih =>
    rw [scanFrom_of_some (IsCitation.ne_nil h)
      (describes_inlineCitation.exec_eq_some prefixFree_citations h before _)]
    exact congrArg _ (ih _)

/-- The citations of a text are determined by it. -/
theorem Cites.eq_citations {text : Text} {words : List Text} (h : Cites text words) :
    citations text = words := h.scanFrom_eq none

theorem Cites.isCitation {text : Text} {words : List Text} (h : Cites text words) :
    ∀ word ∈ words, IsCitation word := by
  induction h with
  | nil => rintro _ ⟨⟩
  | lit _ _ ih => exact ih
  | found h _ ih => exact List.forall_mem_cons.mpr ⟨h, ih⟩

/-! ## Texts in a row -/

/-- The last unit of a text is no blank. -/
def EndsUnblank (text : Text) : Prop := ∀ c, text.getLast? = some c → isBlank c = false

theorem EndsUnblank.of_append {left right : Text} (h : EndsUnblank (left ++ right)) :
    EndsUnblank right := by
  intro c hc
  apply h
  rw [List.getLast?_append, hc]
  rfl

theorem EndsUnblank.of_cons {c : CodeUnit} {text : Text} (h : EndsUnblank (c :: text)) :
    EndsUnblank text :=
  @EndsUnblank.of_append [c] text h

/-- The start of two texts in a row is within the first or goes on in the second. -/
theorem prefix_append_cases {word left right : Text} (h : word <+: left ++ right) :
    word <+: left ∨ ∃ more, more ≠ [] ∧ word = left ++ more ∧ more <+: right := by
  obtain ⟨rest, hrest⟩ := h
  rcases List.append_eq_append_iff.mp hrest with ⟨more, rfl, -⟩ | ⟨more, rfl, rfl⟩
  · exact .inl (List.prefix_append _ _)
  · cases more with
    | nil => exact .inl (by simp)
    | cons c more => exact .inr ⟨c :: more, List.cons_ne_nil _ _, rfl, List.prefix_append _ _⟩

/-- A citation ends with its bracket. -/
theorem IsCitation.closeBracket_mem {left more : Text} (h : IsCitation (left ++ more))
    (hne : more ≠ []) : closeBracket ∈ more := by
  obtain ⟨blanks, inner, -, -, heq⟩ := h
  have hlast : more.getLast? = some closeBracket := by
    have hwhole := congrArg List.getLast? heq
    rw [List.getLast?_append_of_ne_nil _ hne] at hwhole
    rw [hwhole, ← List.cons_append, ← List.append_assoc]
    exact List.getLast?_concat
  exact List.mem_of_getLast? hlast

/-- No citation goes on beyond a unit that is no blank into the next bracket: one whose own bracket is on
the left contains no other. -/
theorem not_prefix_append_open {left blanks rest : Text} (hleft : left ≠ [])
    (hunblank : EndsUnblank left) (hblanks : ∀ c ∈ blanks, isBlank c = true)
    (hnone : ∀ word, IsCitation word → ¬word <+: left) :
    ∀ word, IsCitation word → ¬word <+: left ++ (blanks ++ openBracket :: rest) := by
  intro word hword hstarts
  rcases prefix_append_cases hstarts with h | ⟨more, hne, rfl, hmore⟩
  · exact hnone word hword h
  · have hclose := hword.closeBracket_mem hne
    obtain ⟨blanks', inner, hblanks', hinner, heq⟩ := hword
    rcases append_eq_append_cons heq with ⟨middle, rfl, hmiddle⟩ | ⟨middle, rfl, rfl⟩
    · have hopen : openBracket ∉ more := by
        intro hmem
        have h : openBracket ∈ inner ++ [closeBracket] := hmiddle ▸ List.mem_append_right _ hmem
        rcases List.mem_append.mp h with h | h
        · exact hinner.not_mem (c := openBracket) rfl h
        · exact absurd (List.mem_singleton.mp h) (by decide)
      rcases prefix_append_cases hmore with h | ⟨more', hne', rfl, hmore'⟩
      · exact absurd (hblanks _ (h.subset hclose)) (by decide)
      · cases more' with
        | nil => exact hne' rfl
        | cons c more' =>
          obtain ⟨rfl, -⟩ := List.cons_prefix_cons.mp hmore'
          exact hopen (List.mem_append_right _ List.mem_cons_self)
    · have hlast := List.getLast?_eq_getLast_of_ne_nil hleft
      have hblank := hblanks' _ (List.mem_append_left _ (List.getLast_mem hleft))
      exact Bool.noConfusion (hblank.symm.trans (hunblank _ hlast))

/-- No citation goes on into the next one. -/
theorem not_prefix_append_citation {left kept rest : Text} (hleft : left ≠ [])
    (hunblank : EndsUnblank left) (hkept : IsCitation kept)
    (hnone : ∀ word, IsCitation word → ¬word <+: left) :
    ∀ word, IsCitation word → ¬word <+: left ++ (kept ++ rest) := by
  obtain ⟨blanks, inner, hblanks, -, rfl⟩ := hkept
  rw [List.append_assoc, List.cons_append]
  exact not_prefix_append_open hleft hunblank hblanks hnone

theorem Cites.append {left kept rest : Text} {words words' : List Text} (h : Cites left words)
    (hunblank : EndsUnblank left) (hkept : IsCitation kept) (hrest : Cites rest words') :
    Cites (left ++ (kept ++ rest)) (words ++ kept :: words') := by
  induction h with
  | nil => exact .found hkept hrest
  | lit none _ ih =>
    exact .lit (not_prefix_append_citation (List.cons_ne_nil _ _) hunblank hkept none)
      (ih hunblank.of_cons)
  | found h _ ih =>
    rw [List.append_assoc]
    exact .found h (ih hunblank.of_append)

/-- White space at the end has no part in a citation. -/
theorem Cites.append_gap {text gap : Text} {words : List Text} (h : Cites text words)
    (hgap : IsGap gap) : Cites (text ++ gap) words := by
  have hclose : closeBracket ∉ gap := fun hmem ↦ absurd (hgap _ hmem) (by decide)
  have hnone : ∀ left, (∀ word, IsCitation word → ¬word <+: left) →
      ∀ word, IsCitation word → ¬word <+: left ++ gap := by
    intro left hleft word hword hstarts
    rcases prefix_append_cases hstarts with h | ⟨more, hne, rfl, hmore⟩
    · exact hleft word hword h
    · exact hclose (hmore.subset (hword.closeBracket_mem hne))
  induction h with
  | nil =>
    clear hnone
    induction gap with
    | nil => exact .nil
    | cons c gap ih =>
      obtain ⟨hc, hgap'⟩ := List.forall_mem_cons.mp hgap
      refine .lit (fun word hword hstarts ↦ hclose (hstarts.subset ?_)) (ih hgap'
        (List.not_mem_of_not_mem_cons hclose))
      exact @IsCitation.closeBracket_mem [] _ hword hword.ne_nil
  | lit none _ ih => exact .lit (hnone _ none) ih
  | found h _ ih =>
    rw [List.append_assoc]
    exact .found h ih

/-! ## Stretches between kept citations -/

/-- The text up to the first citation kept, and each citation kept with the text after it. -/
def stretches (known : List Text) : List (Token CodeUnit) → Text × List (Text × Text)
  | [] => ([], [])
  | .lit c :: tokens => (c :: (stretches known tokens).1, (stretches known tokens).2)
  | .found _ found :: tokens =>
    if rewrite known found = [] then stretches known tokens
    else ([], (rewrite known found, (stretches known tokens).1) :: (stretches known tokens).2)

def assemble (first : Text) (others : List (Text × Text)) : Text :=
  first ++ others.flatMap fun piece ↦ piece.1 ++ piece.2

theorem assemble_cons (first kept next : Text) (others : List (Text × Text)) :
    assemble first ((kept, next) :: others) = first ++ (kept ++ assemble next others) := by
  simp only [assemble, List.flatMap_cons, List.append_assoc]

variable {known : List Text}

theorem assemble_stretches (known : List Text) (tokens : List (Token CodeUnit)) :
    assemble (stretches known tokens).1 (stretches known tokens).2 =
      tokens.flatMap (Token.replace fun _ found ↦ rewrite known found) := by
  induction tokens with
  | nil => rfl
  | cons token tokens ih =>
    rw [List.flatMap_cons, ← ih]
    cases token with
    | lit c => rfl
    | found captures found =>
      simp only [stretches, Token.replace]
      split
      · next hnone => rw [hnone]; rfl
      · exact assemble_cons _ _ _ _

/-- Kept citations are as the cleaning writes them, and no blank is directly before one. -/
def Proper (known : List Text) : Text → List (Text × Text) → Prop
  | _, [] => True
  | first, (kept, next) :: others =>
    EndsUnblank first ∧ IsCanonical known kept ∧ Proper known next others

theorem Proper.of_first {first first' : Text} {others : List (Text × Text)}
    (h : Proper known first others)
    (hfirst : others ≠ [] → EndsUnblank first → EndsUnblank first') : Proper known first' others := by
  cases others with
  | nil => trivial
  | cons piece others => exact ⟨hfirst (List.cons_ne_nil _ _) h.1, h.2⟩

theorem isCanonical_rewrite {found : Text} (h : rewrite known found ≠ []) :
    IsCanonical known (rewrite known found) :=
  ((rewrite_cases known found).resolve_left fun hnone ↦ h hnone.1).1

/-- A blank before a citation belongs to it. -/
theorem isCitation_cons {c : CodeUnit} {word : Text} (hc : isBlank c = true) (h : IsCitation word) :
    IsCitation (c :: word) := by
  obtain ⟨blanks, inner, hblanks, hinner, rfl⟩ := h
  exact ⟨c :: blanks, inner, List.forall_mem_cons.mpr ⟨hc, hblanks⟩, hinner, rfl⟩

/-- A unit directly before a kept citation is no blank. -/
theorem endsUnblank_of_scans {before before' : Option CodeUnit} {c : CodeUnit} {text : Text}
    {tokens : List (Token CodeUnit)} (none : exec inlineCitation before (c :: text) = none)
    (h : Scans inlineCitation before' text tokens) (hne : (stretches known tokens).2 ≠ [])
    (hfirst : (stretches known tokens).1 = []) : EndsUnblank [c] := by
  rintro _ ⟨⟩
  cases h with
  | nil => exact (hne rfl).elim
  | lit _ _ => cases hfirst
  | found found _ _ =>
    have hword := ((describes_inlineCitation _ _ _ _).mp (matches_of_exec found).1).2
    by_contra hblank
    refine describes_inlineCitation.exec_eq_none_iff.mp none _
      (isCitation_cons (Bool.not_eq_false _ |>.mp hblank) hword) ?_
    exact List.cons_prefix_cons.mpr ⟨rfl, List.prefix_append _ _⟩

theorem proper_stretches (known : List Text) {before : Option CodeUnit} {text : Text}
    {tokens : List (Token CodeUnit)} (h : Scans inlineCitation before text tokens) :
    Proper known (stretches known tokens).1 (stretches known tokens).2 := by
  induction h with
  | nil => trivial
  | @lit before c text tokens none others ih =>
    rw [stretches]
    refine ih.of_first fun hne hunblank ↦ ?_
    cases hfirst : (stretches known tokens).1 with
    | nil => exact endsUnblank_of_scans none others hne hfirst
    | cons d first =>
      rw [hfirst] at hunblank
      intro a ha
      rw [List.getLast?_cons_cons] at ha
      exact hunblank a ha
  | found found nonempty others ih =>
    rw [stretches]
    split
    · exact ih
    · next hkept => exact ⟨by rintro _ ⟨⟩, isCanonical_rewrite hkept, ih⟩

/-- The citations of an assembled text are the kept ones and those within its stretches. -/
theorem citations_assemble {first : Text} {others : List (Text × Text)}
    (h : Proper known first others) :
    citations (assemble first others) =
      citations first ++ others.flatMap fun piece ↦ piece.1 :: citations piece.2 := by
  induction others generalizing first with
  | nil =>
    rw [assemble, List.flatMap_nil, List.append_nil, List.flatMap_nil, List.append_nil]
  | cons piece others ih =>
    obtain ⟨kept, next⟩ := piece
    obtain ⟨hunblank, hkept, hothers⟩ := h
    rw [assemble_cons]
    have hrest := cites_citations (assemble next others)
    rw [ih hothers] at hrest
    exact ((cites_citations first).append hunblank hkept.isCitation hrest).eq_citations

end MemoFlowApi.Sources
