import MemoFlowApi.Prompts.Guards

/-!
# Fence Tags

What looks like a tag of the fence around untrusted text, and that defusing a text leaves no such tag.
-/

namespace MemoFlowApi.Js

/-- A word without a unit that occurs in a text lies on one side of the unit. -/
theorem infix_of_infix_append_cons {word left right : Text} {c : CodeUnit} (hc : c ∉ word)
    (h : word <:+: left ++ c :: right) : word <:+: left ∨ word <:+: right := by
  rcases List.infix_append_iff.mp h with h | h | ⟨front, back, rfl, hfront, hback⟩
  · exact .inl h
  · rcases List.infix_cons_iff.mp h with h | h
    · cases word with
      | nil => exact .inl (List.nil_infix)
      | cons d word =>
        obtain ⟨rfl, -⟩ := List.cons_prefix_cons.mp h
        exact (hc List.mem_cons_self).elim
    · exact .inr h
  · cases back with
    | nil =>
      rw [List.append_nil]
      exact .inl hfront.isInfix
    | cons d back =>
      obtain ⟨rfl, -⟩ := List.cons_prefix_cons.mp hback
      exact (hc (List.mem_append_right _ List.mem_cons_self)).elim

end MemoFlowApi.Js

namespace MemoFlowApi.Prompts

open Js Js.Regex

/-- White space. -/
def IsGap (text : Text) : Prop := ∀ c ∈ text, isSpace c = true

/-- The name of the fence in any case. -/
def IsName (text : Text) : Prop := text.map lowerUnit = Text.of "untrusted"

/-- What may stand between the bracket and the name. -/
def IsSlash (text : Text) : Prop := text = [] ∨ ∃ gap, IsGap gap ∧ text = unitOf '/' :: gap

/-- A tag up to its underscore. -/
def IsTag (text : Text) : Prop :=
  ∃ gap slash name, IsGap gap ∧ IsSlash slash ∧ IsName name ∧
    text = unitOf '<' :: (gap ++ (slash ++ name))

theorem describes_plain (text : String) : Describes (plain text) {Text.of text} :=
  describes_literal _

theorem describes_inAnyCase (text : String) :
    Describes (inAnyCase text) (wordsOf fun word ↦ word.map lowerUnit = Text.of text) := by
  intro before captures word rest
  have hclasses := describes_classes ((Text.of text).map fun c d ↦ lowerUnit d == c)
  rw [List.map_map] at hclasses
  have heq : (fun c d : CodeUnit ↦ d = c) = (· = ·) := by
    funext c d
    exact propext eq_comm
  rw [inAnyCase, show (fun c : CodeUnit ↦ unit fun d ↦ lowerUnit d == c) =
    unit ∘ (fun c d ↦ lowerUnit d == c) from rfl, hclasses before captures word rest,
    mem_prod_units, List.forall₂_map_left_iff]
  simp only [beq_iff_eq]
  rw [← List.forall₂_map_right_iff (f := lowerUnit) (R := fun c d ↦ d = c), heq,
    List.forall₂_eq_eq_eq, eq_comm (a := Text.of text), mem_wordsOf]

theorem mem_gap {text : Text} : text ∈ KStar.kstar (units isSpace) ↔ IsGap text := mem_kstar_units

/-- The texts between the bracket and the name. -/
theorem describes_slash :
    Describes (opt (seq (plain "/") (star (unit isSpace)))) (wordsOf IsSlash) := by
  intro before captures text rest
  rw [describes_opt (describes_seq (describes_plain _) (describes_star (describes_unit _)))
    before captures text rest, Language.mem_add, Language.mem_mul, Language.mem_one, mem_wordsOf]
  constructor
  · rintro ⟨rfl, ⟨_, rfl, gap, hgap, rfl⟩ | rfl⟩
    · exact ⟨rfl, .inr ⟨gap, mem_gap.mp hgap, rfl⟩⟩
    · exact ⟨rfl, .inl rfl⟩
  · rintro ⟨rfl, rfl | ⟨gap, hgap, rfl⟩⟩
    · exact ⟨rfl, .inr rfl⟩
    · exact ⟨rfl, .inl ⟨_, rfl, gap, mem_gap.mpr hgap, rfl⟩⟩

/-- The pattern of a tag up to its underscore. -/
def tagStart : Regex CodeUnit :=
  sequence [plain "<", star (unit isSpace), opt (seq (plain "/") (star (unit isSpace))),
    inAnyCase "untrusted"]

theorem describes_tagStart : Describes tagStart (wordsOf IsTag) := by
  intro before captures text rest
  rw [tagStart, describes_sequence (.cons (describes_plain _) (.cons (describes_star (describes_unit _))
    (.cons describes_slash (.cons (describes_inAnyCase "untrusted") .nil)))) before captures text rest]
  simp only [List.prod_cons, List.prod_nil, mul_one, Language.mem_mul, mem_wordsOf]
  constructor
  · rintro ⟨rfl, _, rfl, _, ⟨gap, hgap, _, ⟨slash, hslash, name, hname, rfl⟩, rfl⟩, rfl⟩
    exact ⟨rfl, gap, slash, name, mem_gap.mp hgap, hslash, hname, rfl⟩
  · rintro ⟨rfl, gap, slash, name, hgap, hslash, hname, rfl⟩
    exact ⟨rfl, _, rfl, _, ⟨gap, mem_gap.mpr hgap, _, ⟨slash, hslash, name, hname, rfl⟩, rfl⟩, rfl⟩

/-- `/<\s*(?:\/\s*)?untrusted_/i`. -/
def fenceTag : Regex CodeUnit := seq tagStart (plain "_")

def underscore : CodeUnit := unitOf '_'

/-- A text with a tag of the fence. -/
def Marked (text : Text) : Prop := ∃ tag, IsTag tag ∧ tag ++ [underscore] <:+: text

theorem describes_fenceTag :
    Describes fenceTag (wordsOf fun word ↦ ∃ tag, IsTag tag ∧ tag ++ [underscore] = word) := by
  intro before captures text rest
  rw [fenceTag, describes_seq describes_tagStart (describes_plain _) before captures text rest,
    Language.mem_mul, mem_wordsOf]
  constructor
  · rintro ⟨rfl, tag, htag, _, rfl, rfl⟩
    exact ⟨rfl, tag, htag, rfl⟩
  · rintro ⟨rfl, tag, htag, rfl⟩
    exact ⟨rfl, tag, htag, _, rfl, rfl⟩

theorem test_fenceTag (text : Text) : test fenceTag text = true ↔ Marked text := by
  rw [describes_fenceTag.test_eq_true_iff (fun ⟨_, _, h⟩ ↦ List.append_ne_nil_of_right_ne_nil _
    (List.cons_ne_nil _ _) h)]
  constructor
  · rintro ⟨_, ⟨tag, htag, rfl⟩, hwithin⟩
    exact ⟨tag, htag, hwithin⟩
  · rintro ⟨tag, htag, hwithin⟩
    exact ⟨_, ⟨tag, htag, rfl⟩, hwithin⟩

theorem Marked.of_within {text whole : Text} (h : Marked text) (hwithin : text <:+: whole) :
    Marked whole := by
  obtain ⟨tag, htag, hmark⟩ := h
  exact ⟨tag, htag, hmark.trans hwithin⟩

/-! ## The units of a tag -/

/-- The units that a tag consists of, up to its underscore. -/
def isTagUnit (c : CodeUnit) : Bool :=
  c = unitOf '<' || isSpace c || c = unitOf '/' || (Text.of "untrusted").contains (lowerUnit c)

theorem IsTag.forall_isTagUnit {tag : Text} (h : IsTag tag) : ∀ c ∈ tag, isTagUnit c = true := by
  obtain ⟨gap, slash, name, hgap, hslash, hname, rfl⟩ := h
  intro c hc
  simp only [isTagUnit, Bool.or_eq_true, decide_eq_true_eq, List.contains_iff_mem]
  simp only [List.mem_cons, List.mem_append] at hc
  rcases hc with rfl | hc | hc | hc
  · exact .inl (.inl (.inl rfl))
  · exact .inl (.inl (.inr (hgap c hc)))
  · rcases hslash with rfl | ⟨gap', hgap', rfl⟩
    · cases hc
    · rcases List.mem_cons.mp hc with rfl | hc
      · exact .inl (.inr rfl)
      · exact .inl (.inl (.inr (hgap' c hc)))
  · exact .inr (hname ▸ List.mem_map_of_mem hc)

theorem IsTag.not_mem {tag : Text} (h : IsTag tag) {c : CodeUnit} (hc : isTagUnit c = false) :
    c ∉ tag := fun hmem ↦ Bool.noConfusion ((h.forall_isTagUnit c hmem).symm.trans hc)

theorem IsTag.not_mem_marker {tag : Text} (h : IsTag tag) {c : CodeUnit} (hc : isTagUnit c = false)
    (hne : c ≠ underscore) : c ∉ tag ++ [underscore] := by
  rw [List.mem_append, List.mem_singleton, not_or]
  exact ⟨h.not_mem hc, hne⟩

/-- A unit that no tag has separates the tags of a text. -/
theorem marked_append_cons {left right : Text} {c : CodeUnit} (hc : isTagUnit c = false)
    (hne : c ≠ underscore) (h : Marked (left ++ c :: right)) : Marked left ∨ Marked right := by
  obtain ⟨tag, htag, hwithin⟩ := h
  rcases infix_of_infix_append_cons (htag.not_mem_marker hc hne) hwithin with h | h
  · exact .inl ⟨tag, htag, h⟩
  · exact .inr ⟨tag, htag, h⟩

/-- A tag begins with its bracket. -/
theorem marked_of_marked_cons {text : Text} {c : CodeUnit} (hc : c ≠ unitOf '<')
    (h : Marked (c :: text)) : Marked text := by
  obtain ⟨tag, htag, hwithin⟩ := h
  rcases List.infix_cons_iff.mp hwithin with hstarts | hwithin
  · obtain ⟨gap, slash, name, -, -, -, rfl⟩ := htag
    exact (hc (List.cons_prefix_cons.mp hstarts).1.symm).elim
  · exact ⟨tag, htag, hwithin⟩

/-- A tag ends with its underscore. -/
theorem marked_of_marked_concat {text : Text} {c : CodeUnit} (hc : c ≠ underscore)
    (h : Marked (text ++ [c])) : Marked text := by
  obtain ⟨tag, htag, hwithin⟩ := h
  rcases List.infix_concat_iff.mp hwithin with hsuffix | hwithin
  · obtain ⟨lead, hlead⟩ := hsuffix
    rw [← List.append_assoc] at hlead
    exact (hc (List.cons_eq_cons.mp (List.append_inj_right' hlead rfl)).1.symm).elim
  · exact ⟨tag, htag, hwithin⟩

/-! ## Defusing -/

/-- Defusing changes underscores to hyphens only. -/
def Defused (c d : CodeUnit) : Prop := c = d ∨ c = underscore ∧ d = unitOf '-'

theorem prefix_of_defused {word text defused : Text} (hword : unitOf '-' ∉ word)
    (h : List.Forall₂ Defused text defused) (hstarts : word <+: defused) : word <+: text := by
  induction word generalizing text defused with
  | nil => exact List.nil_prefix
  | cons c word ih =>
    cases h with
    | nil => exact absurd hstarts (by simp)
    | @cons a b text defused hab h =>
      obtain ⟨rfl, htail⟩ := List.cons_prefix_cons.mp hstarts
      rw [List.mem_cons, not_or] at hword
      rcases hab with rfl | ⟨rfl, rfl⟩
      · exact List.cons_prefix_cons.mpr ⟨rfl, ih hword.2 h htail⟩
      · exact (hword.1 rfl).elim

/-- A match of the marker is a tag, which its group captures, with its underscore. -/
theorem matches_untrustedTagMarker {before : Option CodeUnit} {captures : List Text}
    {text rest : Text} : Matches untrustedTagMarker before captures text rest ↔
      ∃ tag, IsTag tag ∧ captures = [tag] ∧ text = tag ++ [underscore] := by
  constructor
  · rintro ⟨_, _, tag, _, rfl, rfl, ⟨_, rfl, htag⟩, hunderscore⟩
    obtain ⟨rfl, hstart⟩ := (describes_tagStart _ _ _ _).mp htag
    obtain ⟨rfl, rfl⟩ := (describes_plain _ _ _ _ _).mp hunderscore
    exact ⟨tag, hstart, rfl, rfl⟩
  · rintro ⟨tag, htag, rfl, rfl⟩
    exact ⟨_, [], tag, [underscore], rfl, rfl, ⟨[], rfl, (describes_tagStart _ _ _ _).mpr ⟨rfl, htag⟩⟩,
      (describes_plain _ _ _ _ _).mpr ⟨rfl, rfl⟩⟩

theorem consuming_untrustedTagMarker : Consuming untrustedTagMarker := by
  intro before captures rest h
  obtain ⟨tag, -, -, hnil⟩ := matches_untrustedTagMarker.mp h
  exact List.append_ne_nil_of_right_ne_nil _ (List.cons_ne_nil _ _) hnil.symm

/-- The replacement of a tag. -/
def defuse (captures : List Text) (_text : Text) : Text := captures.headD [] ++ [unitOf '-']

theorem forall₂_defused {before : Option CodeUnit} {text : Text} {tokens : List (Token CodeUnit)}
    (h : Scans untrustedTagMarker before text tokens) :
    List.Forall₂ Defused text (tokens.flatMap (Token.replace defuse)) := by
  induction h with
  | nil => exact .nil
  | lit _ _ ih => exact .cons (.inl rfl) ih
  | found found _ _ ih =>
    obtain ⟨tag, -, rfl, rfl⟩ := matches_untrustedTagMarker.mp (matches_of_exec found).1
    refine List.rel_append (List.rel_append ?_ (.cons (.inr ⟨rfl, rfl⟩) .nil)) ih
    exact List.forall₂_same.mpr fun _ _ ↦ .inl rfl

theorem not_marked_of_scans {before : Option CodeUnit} {text : Text}
    {tokens : List (Token CodeUnit)} (h : Scans untrustedTagMarker before text tokens) :
    ¬Marked (tokens.flatMap (Token.replace defuse)) := by
  have hdefused := forall₂_defused h
  induction h with
  | nil =>
    rintro ⟨tag, -, hwithin⟩
    exact List.append_ne_nil_of_right_ne_nil _ (List.cons_ne_nil _ _) (List.infix_nil.mp hwithin)
  | @lit before c text tokens none others ih =>
    rintro ⟨tag, htag, hwithin⟩
    rcases List.infix_cons_iff.mp hwithin with hstarts | hwithin
    · obtain ⟨rest, hrest⟩ := prefix_of_defused (htag.not_mem_marker rfl (by decide)) hdefused hstarts
      exact exec_eq_none_iff.mp none _ _ rest hrest
        (matches_untrustedTagMarker.mpr ⟨tag, htag, rfl, rfl⟩)
    · exact ih (forall₂_defused others) ⟨tag, htag, hwithin⟩
  | found found _ others ih =>
    obtain ⟨tag, htag, rfl, rfl⟩ := matches_untrustedTagMarker.mp (matches_of_exec found).1
    intro hmarked
    rw [List.flatMap_cons] at hmarked
    change Marked ((tag ++ [unitOf '-']) ++ _) at hmarked
    rw [List.append_assoc] at hmarked
    rcases marked_append_cons rfl (by decide) hmarked with h | h
    · obtain ⟨tag', -, hwithin⟩ := h
      exact htag.not_mem (c := underscore) rfl
        (hwithin.subset (List.mem_append_right _ (List.mem_singleton_self _)))
    · exact ih (forall₂_defused others) h

/-- A defused text has no tag of the fence. -/
theorem not_marked_neutralizeUntrustedTags (text : Text) : ¬Marked (neutralizeUntrustedTags text) :=
  not_marked_of_scans (scans_scan consuming_untrustedTagMarker text)

end MemoFlowApi.Prompts
