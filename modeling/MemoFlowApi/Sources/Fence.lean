import MemoFlowApi.Prompts.FenceTags
import MemoFlowApi.Sources.Cuts

/-!
# The Fence around the Planning Sources

The rendered sources go into the fence as they are.  Titles and excerpts have no tag of the fence each,
but a tag may be split between a title and the excerpt on the line below it.
-/

namespace MemoFlowApi.Sources

open Js Js.Regex Prompts

def newline : CodeUnit := unitOf '\n'

/-! ## Squeezing -/

/-- A text with some of its runs of white space replaced by a single space. -/
inductive Squeezes : Text → Text → Prop
  | nil : Squeezes [] []
  | keep {c text squeezed} (others : Squeezes text squeezed) : Squeezes (c :: text) (c :: squeezed)
  | gap {gap text squeezed} (h : IsGap gap) (others : Squeezes text squeezed) :
      Squeezes (gap ++ text) (unitOf ' ' :: squeezed)

namespace Squeezes

theorem split {text left right : Text} (h : Squeezes text (left ++ right)) :
    ∃ before rest, text = before ++ rest ∧ Squeezes before left ∧ Squeezes rest right := by
  induction left generalizing text with
  | nil => exact ⟨[], text, rfl, .nil, h⟩
  | cons c left ih =>
    cases h with
    | keep others =>
      obtain ⟨before, rest, rfl, hbefore, hrest⟩ := ih others
      exact ⟨_ :: before, rest, rfl, .keep hbefore, hrest⟩
    | gap hgap others =>
      obtain ⟨before, rest, rfl, hbefore, hrest⟩ := ih others
      exact ⟨_ ++ before, rest, (List.append_assoc _ _ _).symm, .gap hgap hbefore, hrest⟩

/-- A text without spaces was not squeezed. -/
theorem eq {text squeezed : Text} (h : Squeezes text squeezed) (hspace : unitOf ' ' ∉ squeezed) :
    text = squeezed := by
  induction h with
  | nil => rfl
  | keep _ ih => rw [ih (List.not_mem_of_not_mem_cons hspace)]
  | gap _ _ _ => exact (hspace List.mem_cons_self).elim

theorem isGap {text squeezed : Text} (h : Squeezes text squeezed) (hgap : IsGap squeezed) :
    IsGap text := by
  induction h with
  | nil => exact hgap
  | keep _ ih =>
    obtain ⟨hc, hgap⟩ := List.forall_mem_cons.mp hgap
    exact List.forall_mem_cons.mpr ⟨hc, ih hgap⟩
  | gap h _ ih =>
    exact List.forall_mem_append.mpr ⟨h, ih (List.forall_mem_cons.mp hgap).2⟩

theorem isSlash {text squeezed : Text} (h : Squeezes text squeezed) (hslash : IsSlash squeezed) :
    IsSlash text := by
  rcases hslash with rfl | ⟨gap, hgap, rfl⟩
  · cases h
    exact .inl rfl
  · obtain ⟨before, rest, rfl, hbefore, hrest⟩ := split (show Squeezes text ([unitOf '/'] ++ gap) from h)
    rw [hbefore.eq (by decide)]
    exact .inr ⟨rest, hrest.isGap hgap, rfl⟩

theorem isName {text squeezed : Text} (h : Squeezes text squeezed) (hname : IsName squeezed) :
    IsName text := by
  rwa [h.eq fun hspace ↦ ?_]
  have hmem := List.mem_map_of_mem (f := lowerUnit) hspace
  rw [hname] at hmem
  revert hmem
  decide

/-- What was squeezed to a tag is one. -/
theorem isTag {text squeezed : Text} (h : Squeezes text squeezed) (htag : IsTag squeezed) :
    IsTag text := by
  obtain ⟨gap, slash, name, hgap, hslash, hname, rfl⟩ := htag
  obtain ⟨bracket, _, rfl, hbracket, h⟩ := split (show Squeezes text ([unitOf '<'] ++ _) from h)
  obtain ⟨gap', _, rfl, hgap', h⟩ := h.split
  obtain ⟨slash', name', rfl, hslash', hname'⟩ := h.split
  rw [hbracket.eq (by decide)]
  exact ⟨gap', slash', name', hgap'.isGap hgap, hslash'.isSlash hslash, hname'.isName hname, rfl⟩

theorem marked {text squeezed : Text} (h : Squeezes text squeezed) (hmarked : Marked squeezed) :
    Marked text := by
  obtain ⟨tag, htag, lead, rest, rfl⟩ := hmarked
  obtain ⟨before, _, rfl, hbefore, -⟩ := h.split
  obtain ⟨_, marker, rfl, -, hmarker⟩ := hbefore.split
  obtain ⟨tag', last, rfl, htag', hlast⟩ := hmarker.split
  rw [hlast.eq (by decide)]
  refine ⟨tag', htag'.isTag htag, _, _, rfl⟩

end Squeezes

theorem squeezes_of_scans {before : Option CodeUnit} {text : Text} {tokens : List (Token CodeUnit)}
    (h : Scans (plus (unit isSpace)) before text tokens) :
    Squeezes text (tokens.flatMap (Token.replace fun _ _ ↦ [unitOf ' '])) := by
  induction h with
  | nil => exact .nil
  | lit _ _ ih => exact .keep ih
  | found found _ _ ih =>
    obtain ⟨-, hspace⟩ := (describes_plus (describes_unit _) _ _ _ _).mp (matches_of_exec found).1
    obtain ⟨_, ⟨c, hc, rfl⟩, tail, htail, rfl⟩ := Language.mem_mul.mp hspace
    exact .gap (List.forall_mem_cons.mpr ⟨hc, mem_kstar_units.mp htail⟩) ih

theorem infix_trim (text : Text) : trim text <:+: text :=
  (prefix_trimEnd _).isInfix.trans (List.dropWhile_suffix _).isInfix

theorem consuming_gap : Consuming (plus (unit isSpace)) := consuming_seq (describes_unit _ |>.consuming
  fun ⟨_, _, h⟩ ↦ List.cons_ne_nil _ _ h.symm)

/-! ## Titles and excerpts -/

theorem marked_of_singleLine {text : Text} (h : Marked (singleLine text)) : Marked text :=
  (squeezes_of_scans (scans_scan consuming_gap text)).marked (h.of_within (infix_trim _))

theorem marked_of_cutAtBoundary {text : Text} {max : Number} (h : Marked (cutAtBoundary text max)) :
    Marked text := by
  rcases cutAtBoundary_cases text max with heq | ⟨kept, hkept, heq⟩
  · rwa [heq] at h
  · rw [heq] at h
    rcases marked_append_cons (c := 0x2026) rfl (by decide) h with h | h
    · exact h.of_within hkept.isInfix
    · exact h.of_within List.nil_infix

variable {isLetter : CodePoint → Bool}

theorem not_marked_shownTitle (candidate : SourceCandidate) :
    ¬Marked (shownTitle isLetter candidate) := fun h ↦
  not_marked_neutralizeUntrustedTags _ (marked_of_singleLine (marked_of_cutAtBoundary h))

theorem not_marked_excerpt (state : Budgeting) (candidate : SourceCandidate) :
    ¬Marked (state.excerpt isLetter candidate) := fun h ↦
  not_marked_neutralizeUntrustedTags _ ((marked_of_cutAtBoundary h).of_within (infix_trim _))

/-! ## The seam -/

/-- A text ends in an opening bracket. -/
def EndsInBracket (title : Text) : Prop :=
  ∃ lead gap, IsGap gap ∧ title = lead ++ unitOf '<' :: gap

/-- A text ends in an opening bracket and a slash. -/
def EndsInSlash (title : Text) : Prop :=
  ∃ lead gap gap', IsGap gap ∧ IsGap gap' ∧
    title = lead ++ unitOf '<' :: (gap ++ unitOf '/' :: gap')

/-- A text begins with the name of the fence and an underscore. -/
def BeginsWithName (excerpt : Text) : Prop :=
  ∃ gap name rest, IsGap gap ∧ IsName name ∧ excerpt = gap ++ (name ++ underscore :: rest)

/-- A text begins with a slash and the name of the fence. -/
def BeginsWithSlash (excerpt : Text) : Prop :=
  ∃ gap rest, IsGap gap ∧ BeginsWithName rest ∧ excerpt = gap ++ unitOf '/' :: rest

/-- A title begins a tag that the excerpt below it ends. -/
def SplitsTag (title excerpt : Text) : Prop :=
  EndsInBracket title ∧ (BeginsWithName excerpt ∨ BeginsWithSlash excerpt) ∨
    EndsInSlash title ∧ BeginsWithName excerpt

theorem isSpace_newline : isSpace newline = true := by decide

theorem isGap_append_newline {gap gap' : Text} (h : IsGap gap) (h' : IsGap gap') :
    IsGap (gap ++ newline :: gap') :=
  List.forall_mem_append.mpr ⟨h, List.forall_mem_cons.mpr ⟨isSpace_newline, h'⟩⟩

theorem marked_of_splitsTag {title excerpt : Text} (h : SplitsTag title excerpt) :
    Marked (title ++ newline :: excerpt) := by
  rcases h with ⟨⟨lead, gap, hgap, rfl⟩, h⟩ | ⟨⟨lead, gap, gap', hgap, hgap', rfl⟩,
    gap'', name, rest, hgap'', hname, rfl⟩
  · rcases h with ⟨gap', name, rest, hgap', hname, rfl⟩ |
      ⟨gap', _, hgap', ⟨gap'', name, rest, hgap'', hname, rfl⟩, rfl⟩
    · refine ⟨_, ⟨gap ++ newline :: gap', [], name, isGap_append_newline hgap hgap', .inl rfl, hname,
        rfl⟩, lead, rest, ?_⟩
      simp
    · refine ⟨_, ⟨gap ++ newline :: gap', unitOf '/' :: gap'', name, isGap_append_newline hgap hgap',
        .inr ⟨gap'', hgap'', rfl⟩, hname, rfl⟩, lead, rest, ?_⟩
      simp
  · refine ⟨_, ⟨gap, unitOf '/' :: (gap' ++ newline :: gap''), name, hgap,
      .inr ⟨_, isGap_append_newline hgap' hgap'', rfl⟩, hname, rfl⟩, lead, rest, ?_⟩
    simp

/-- A unit of two texts in a row is in the first or in the second. -/
theorem append_eq_append_cons {left right before rest : Text} {c : CodeUnit}
    (h : left ++ right = before ++ c :: rest) :
    (∃ more, left = before ++ c :: more ∧ rest = more ++ right) ∨
      ∃ more, before = left ++ more ∧ right = more ++ c :: rest := by
  rcases List.append_eq_append_iff.mp h with ⟨more, rfl, hright⟩ | ⟨more, rfl, hright⟩
  · exact .inr ⟨more, rfl, hright⟩
  · cases more with
    | nil => exact .inr ⟨[], by simp, hright.symm⟩
    | cons d more =>
      obtain ⟨rfl, rfl⟩ := List.cons_eq_cons.mp hright
      exact .inl ⟨more, rfl, rfl⟩

theorem newline_not_mem_name {name : Text} (hname : IsName name) : newline ∉ name ++ [underscore] := by
  rw [List.mem_append, List.mem_singleton, not_or]
  refine ⟨fun h ↦ ?_, by decide⟩
  have hmem := List.mem_map_of_mem (f := lowerUnit) h
  rw [hname] at hmem
  revert hmem
  decide

/-- A tag on both sides of a line break is one that is split there: the line break is in the gap after
the bracket or in the one after the slash. -/
theorem splitsTag_of_tag {tag before rest lead more : Text} (htag : IsTag tag) (hne : before ≠ [])
    (h : tag ++ [underscore] = before ++ newline :: rest) :
    SplitsTag (lead ++ before) (rest ++ more) := by
  obtain ⟨gap, slash, name, hgap, hslash, hname, rfl⟩ := htag
  cases before with
  | nil => exact (hne rfl).elim
  | cons c before =>
    simp only [List.cons_append, List.append_assoc] at h
    obtain ⟨rfl, htail⟩ := List.cons_eq_cons.mp h
    rcases append_eq_append_cons htail with ⟨gap', rfl, rfl⟩ | ⟨before', rfl, hright⟩
    · obtain ⟨hbefore, hgap'⟩ := List.forall_mem_append.mp hgap
      have hgap' := (List.forall_mem_cons.mp hgap').2
      refine .inl ⟨⟨lead, before, hbefore, rfl⟩, ?_⟩
      rcases hslash with rfl | ⟨gap'', hgap'', rfl⟩
      · exact .inl ⟨gap', name, more, hgap', hname, by simp⟩
      · exact .inr ⟨gap', _, hgap', ⟨gap'', name, more, hgap'', hname, rfl⟩, by simp⟩
    · rcases append_eq_append_cons hright with ⟨gap', hsplit, rfl⟩ | ⟨before'', rfl, hlast⟩
      · rcases hslash with rfl | ⟨gap'', hgap'', rfl⟩
        · exact absurd hsplit (by simp)
        · cases before' with
          | nil => exact absurd (List.cons_eq_cons.mp hsplit).1 (by decide)
          | cons d before' =>
            obtain ⟨rfl, rfl⟩ := List.cons_eq_cons.mp hsplit
            obtain ⟨hbefore, hgap'⟩ := List.forall_mem_append.mp hgap''
            exact .inr ⟨⟨lead, gap, before', hgap, hbefore, by simp⟩,
              gap', name, more, (List.forall_mem_cons.mp hgap').2, hname, by simp⟩
      · exact (newline_not_mem_name hname (hlast ▸ by simp)).elim

/-- A title over its excerpt has a tag exactly where it splits one. -/
theorem marked_title_excerpt {title excerpt : Text} (htitle : ¬Marked title)
    (hexcerpt : ¬Marked excerpt) :
    Marked (title ++ newline :: excerpt) ↔ SplitsTag title excerpt := by
  refine ⟨fun ⟨tag, htag, hwithin⟩ ↦ ?_, marked_of_splitsTag⟩
  rcases List.infix_append_iff_ne_nil.mp hwithin with h | h |
    ⟨before, rest, hbefore, hrest, heq, ⟨lead, rfl⟩, hstarts⟩
  · exact (htitle ⟨tag, htag, h⟩).elim
  · exact (hexcerpt (marked_of_marked_cons (by decide) ⟨tag, htag, h⟩)).elim
  · cases rest with
    | nil => exact (hrest rfl).elim
    | cons c rest =>
      obtain ⟨rfl, more, rfl⟩ := List.cons_prefix_cons.mp hstarts
      exact splitsTag_of_tag htag hbefore heq

/-! ## The rendered text -/

/-- Blocks that begin with the bracket of their number keep the tags of a text apart. -/
theorem marked_join {blocks : List Text} (hblocks : ∀ block ∈ blocks, block.head? = some (unitOf '[')) :
    Marked (join (Text.of "\n\n") blocks) ↔ ∃ block ∈ blocks, Marked block := by
  induction blocks with
  | nil =>
    constructor
    · rintro ⟨tag, -, hwithin⟩
      exact (List.append_ne_nil_of_right_ne_nil _ (List.cons_ne_nil _ _)
        (List.infix_nil.mp hwithin)).elim
    · rintro ⟨_, ⟨⟩, -⟩
  | cons block blocks ih =>
    obtain ⟨hblock, hothers⟩ := List.forall_mem_cons.mp hblocks
    rw [List.exists_mem_cons_iff, ← ih hothers]
    cases blocks with
    | nil => exact ⟨.inl, fun h ↦ h.resolve_right fun ⟨tag, _, hwithin⟩ ↦
        List.append_ne_nil_of_right_ne_nil _ (List.cons_ne_nil _ _) (List.infix_nil.mp hwithin)⟩
    | cons second others =>
      have hnext : ∃ rest, join (Text.of "\n\n") (second :: others) = unitOf '[' :: rest := by
        have hsecond := (List.forall_mem_cons.mp hothers).1
        cases second with
        | nil => cases hsecond
        | cons c second =>
          obtain rfl := Option.some.inj hsecond
          cases others with
          | nil => exact ⟨_, rfl⟩
          | cons third others => exact ⟨_, rfl⟩
      obtain ⟨rest, hnext⟩ := hnext
      have hjoin : join (Text.of "\n\n") (block :: second :: others) =
          (block ++ [newline] ++ [newline]) ++ unitOf '[' :: rest := by
        change block ++ ([newline, newline] ++ join (Text.of "\n\n") (second :: others)) = _
        rw [hnext]
        simp
      rw [hjoin, hnext]
      constructor
      · intro h
        rcases marked_append_cons rfl (by decide) h with h | h
        · exact .inl (marked_of_marked_concat (by decide) (marked_of_marked_concat (by decide) h))
        · exact .inr (h.of_within (List.suffix_cons _ _).isInfix)
      · rintro (h | h)
        · exact h.of_within ⟨[], [newline] ++ [newline] ++ unitOf '[' :: rest, by simp⟩
        · exact h.of_within (List.suffix_append _ _).isInfix

theorem not_mem_sourceId (number : ℕ) : unitOf '<' ∉ sourceId number := by
  rintro (_ | ⟨_, h⟩)
  exact absurd (isDigit_of_mem_decimal h) (by decide)

theorem not_marked_of_not_mem {text : Text} (h : unitOf '<' ∉ text) : ¬Marked text := by
  rintro ⟨_, ⟨_, _, _, _, _, _, rfl⟩, hwithin⟩
  exact h (hwithin.subset List.mem_cons_self)

theorem not_mem_type_text (type : PlanningSourceType) : unitOf '<' ∉ type.text := by
  cases type <;> decide

theorem head?_block (source : BudgetedSource) : source.block.head? = some (unitOf '[') := rfl

/-- The tags of a block are those of its title over its excerpt. -/
theorem marked_block {source : BudgetedSource} (hid : unitOf '<' ∉ source.id) :
    Marked source.block ↔ Marked (source.title ++ newline :: source.excerpt) := by
  have hblock : source.block = (Text.of "[" ++ source.id ++ Text.of "] " ++ source.type.text) ++
      unitOf ':' :: unitOf ' ' :: (source.title ++ newline :: source.excerpt) := by
    simp [BudgetedSource.block, header, newline, Text.of, encode]
  rw [hblock]
  constructor
  · intro h
    rcases marked_append_cons rfl (by decide) h with h | h
    · refine (not_marked_of_not_mem ?_ h).elim
      simp only [List.mem_append, not_or]
      exact ⟨⟨⟨by decide, hid⟩, by decide⟩, not_mem_type_text source.type⟩
    · exact marked_of_marked_cons (by decide) h
  · intro h
    rw [List.append_cons, List.append_cons]
    exact h.of_within (List.suffix_append _ _).isInfix

/-! ## Seams of the candidates -/

theorem endsInUnderscore (lead : Text) :
    EndsInWord (lead ++ [underscore]) ∧ (lead ++ [underscore]).getLast? ≠ ellipsis.getLast? := by
  have hlast : (lead ++ [underscore]).getLast? = some underscore := List.getLast?_concat
  refine ⟨⟨underscore, hlast, by decide⟩, ?_⟩
  rw [hlast]
  decide

/-- The start of a text up to an underscore is shown in an allowance if it is in less room. -/
theorem shows_of_min {text lead rest : Text} {max : ℕ} {room : Number}
    (h : cutAtBoundary text (Number.min max room) = lead ++ underscore :: rest) :
    ∃ more, cutAtBoundary text max = lead ++ underscore :: more := by
  have hshown : lead ++ [underscore] <+: cutAtBoundary text (Number.min max room) := by
    rw [h]
    exact List.prefix_append_right_inj lead |>.mpr (List.prefix_append [underscore] rest)
  obtain ⟨hends, hellipsis⟩ := endsInUnderscore lead
  obtain ⟨more, hmore⟩ := prefix_cutAtBoundary_of_min hends hellipsis hshown
  exact ⟨more, by rw [← hmore, List.append_assoc, List.singleton_append]⟩

/-- A title that splits a tag over an excerpt in less room splits it over that in the allowance. -/
theorem SplitsTag.of_min {title text : Text} {max : ℕ} {room : Number}
    (h : SplitsTag title (cutAtBoundary text (Number.min max room))) :
    SplitsTag title (cutAtBoundary text max) := by
  have hname (hbegins : BeginsWithName (cutAtBoundary text (Number.min max room))) :
      BeginsWithName (cutAtBoundary text max) := by
    obtain ⟨gap, name, rest, hgap, hname, heq⟩ := hbegins
    rw [← List.append_assoc] at heq
    obtain ⟨more, hmore⟩ := shows_of_min heq
    exact ⟨gap, name, more, hgap, hname, by rw [hmore, List.append_assoc]⟩
  have hslash (hbegins : BeginsWithSlash (cutAtBoundary text (Number.min max room))) :
      BeginsWithSlash (cutAtBoundary text max) := by
    obtain ⟨gap, _, hgap, ⟨gap', name, rest, hgap', hname, rfl⟩, heq⟩ := hbegins
    have hlead : cutAtBoundary text (Number.min max room) =
        (gap ++ unitOf '/' :: (gap' ++ name)) ++ underscore :: rest := by
      rw [heq]
      simp
    obtain ⟨more, hmore⟩ := shows_of_min hlead
    exact ⟨gap, _, hgap, ⟨gap', name, more, hgap', hname, rfl⟩, by rw [hmore]; simp⟩
  exact h.imp (And.imp_right (Or.imp hname hslash)) (And.imp_right hname)

/-- What one round does to the sources and the blocks. -/
theorem next_cases (state : Budgeting) (candidate : SourceCandidate) :
    prepared isLetter candidate ≠ [] ∧ state.drops isLetter candidate = false ∧
        state.next isLetter candidate = state.use isLetter candidate ∨
      ¬(prepared isLetter candidate ≠ [] ∧ state.drops isLetter candidate = false) ∧
        (state.next isLetter candidate).sources = state.sources ∧
        (state.next isLetter candidate).blocks = state.blocks := by
  unfold Budgeting.next
  split_ifs with hprepared hdrops
  · exact .inr ⟨fun h ↦ h.1 hprepared, rfl, rfl⟩
  · exact .inr ⟨fun h ↦ Bool.noConfusion (hdrops.symm.trans h.2), rfl, rfl⟩
  · exact .inl ⟨hprepared, Bool.not_eq_true _ |>.mp hdrops, rfl⟩

/-- Every source has its block. -/
theorem run_blocks (isLetter : CodePoint → Bool) (state : Budgeting) (candidates : List SourceCandidate)
    (hblocks : state.blocks = state.sources.map BudgetedSource.block) :
    (state.run isLetter candidates).blocks =
      (state.run isLetter candidates).sources.map BudgetedSource.block := by
  induction candidates generalizing state with
  | nil => exact hblocks
  | cons candidate candidates ih =>
    rw [Budgeting.run_cons]
    apply ih
    rcases next_cases state candidate with ⟨-, -, h⟩ | ⟨-, h, h'⟩
    · rw [h, Budgeting.use_blocks, Budgeting.use_sources, List.map_append, ← hblocks,
        List.map_singleton, Budgeting.block_shown]
    · rw [h, h', hblocks]

/-- What holds of everything that is shown of the candidates holds of every source. -/
theorem run_sources {P : BudgetedSource → Prop} (state : Budgeting) (candidates : List SourceCandidate)
    (hstate : ∀ source ∈ state.sources, P source)
    (hshown : ∀ before : Budgeting, ∀ candidate ∈ candidates, prepared isLetter candidate ≠ [] →
      P (before.shown isLetter candidate)) :
    ∀ source ∈ (state.run isLetter candidates).sources, P source := by
  induction candidates generalizing state with
  | nil => exact hstate
  | cons candidate candidates ih =>
    rw [Budgeting.run_cons]
    apply ih
    · rcases next_cases state candidate with ⟨hprepared, -, h⟩ | ⟨-, h, -⟩
      · rw [h, Budgeting.use_sources]
        refine List.forall_mem_append.mpr ⟨hstate, List.forall_mem_singleton.mpr ?_⟩
        exact hshown state candidate List.mem_cons_self hprepared
      · rwa [h]
    · exact fun before other hother ↦ hshown before other (List.mem_cons_of_mem _ hother)

theorem sources_subset_run (state : Budgeting) (candidates : List SourceCandidate) :
    state.sources ⊆ (state.run isLetter candidates).sources := by
  induction candidates generalizing state with
  | nil => exact List.Subset.refl _
  | cons candidate candidates ih =>
    rw [Budgeting.run_cons]
    refine List.Subset.trans ?_ (ih _)
    rcases next_cases state candidate with ⟨-, -, h⟩ | ⟨-, h, -⟩
    · rw [h, Budgeting.use_sources]
      exact List.subset_append_left _ _
    · rw [h]
      exact List.Subset.refl _

/-- An infinite budget shows each candidate that has a text, cut to the longest excerpt. -/
theorem shown_of_infinity {state : Budgeting} (hremaining : state.remaining = .infinity)
    {candidates : List SourceCandidate} {candidate : SourceCandidate} (hmem : candidate ∈ candidates)
    (hprepared : prepared isLetter candidate ≠ []) :
    ∃ source ∈ (state.run isLetter candidates).sources, source.title = shownTitle isLetter candidate ∧
      source.excerpt = cutAtBoundary (prepared isLetter candidate) (maxExcerptChars : ℕ) := by
  induction candidates generalizing state with
  | nil => cases hmem
  | cons first candidates ih =>
    rw [Budgeting.run_cons]
    have hroom (candidate : SourceCandidate) : state.room isLetter candidate = .infinity := by
      rw [Budgeting.room, hremaining, Number.infinity_sub_natCast, Number.infinity_sub_natCast]
    have hdrops (candidate : SourceCandidate) : state.drops isLetter candidate = false := by
      unfold Budgeting.drops
      rw [hroom]
      rfl
    rcases List.mem_cons.mp hmem with rfl | hmem
    · refine ⟨state.shown isLetter candidate, sources_subset_run _ _ ?_, state.shown_title _ _, ?_⟩
      · rcases next_cases state candidate with ⟨-, -, h⟩ | ⟨h, -, -⟩
        · rw [h, Budgeting.use_sources]
          exact List.mem_append_right _ (List.mem_singleton_self _)
        · exact (h ⟨hprepared, hdrops candidate⟩).elim
      · rw [Budgeting.shown_excerpt, Budgeting.excerpt, hroom]
        rfl
    · refine ih ?_ hmem
      unfold Budgeting.next
      rw [if_neg (hdrops first ▸ Bool.false_ne_true : ¬state.drops isLetter first = true)]
      split_ifs with hfirst
      · exact hremaining
      · rw [Budgeting.use_remaining, hremaining, Number.infinity_sub_natCast]

/-- The rendered sources have a tag exactly where one of them splits it. -/
theorem marked_text (isLetter : CodePoint → Bool) (candidates : List SourceCandidate)
    (maxChars : Number) :
    Marked (budgetSources isLetter candidates maxChars).text ↔
      ∃ source ∈ (budgetSources isLetter candidates maxChars).sources,
        SplitsTag source.title source.excerpt := by
  have hblocks := run_blocks isLetter (Budgeting.start maxChars) candidates rfl
  have hseam : ∀ source ∈ (budgetSources isLetter candidates maxChars).sources,
      (Marked source.block ↔ SplitsTag source.title source.excerpt) := by
    apply run_sources
    · rintro _ ⟨⟩
    · intro before candidate _ _
      rw [marked_block (before.shown_id isLetter candidate ▸ not_mem_sourceId _), Budgeting.shown_title,
        Budgeting.shown_excerpt]
      exact marked_title_excerpt (not_marked_shownTitle candidate) (not_marked_excerpt before candidate)
  have hheads : ∀ block ∈ ((Budgeting.start maxChars).run isLetter candidates).blocks,
      block.head? = some (unitOf '[') := by
    rw [hblocks]
    exact List.forall_mem_map.mpr fun source _ ↦ head?_block source
  calc Marked (budgetSources isLetter candidates maxChars).text
      ↔ ∃ block ∈ ((Budgeting.start maxChars).run isLetter candidates).blocks, Marked block :=
        marked_join hheads
    _ ↔ ∃ source ∈ (budgetSources isLetter candidates maxChars).sources, Marked source.block := by
        simp only [hblocks, List.mem_map, exists_exists_and_eq_and]
        rfl
    _ ↔ _ := exists_congr fun source ↦ and_congr_right (hseam source)

/-- The rendered sources have no tag of the fence under any budget exactly where no candidate has a title
that splits one with the longest excerpt of its text. -/
theorem fenced_iff (isLetter : CodePoint → Bool) (candidates : List SourceCandidate) :
    (∀ maxChars, test fenceTag (budgetSources isLetter candidates maxChars).text = false) ↔
      ∀ candidate ∈ candidates, prepared isLetter candidate ≠ [] →
        ¬SplitsTag (shownTitle isLetter candidate)
          (cutAtBoundary (prepared isLetter candidate) (maxExcerptChars : ℕ)) := by
  simp only [← Bool.not_eq_true, test_fenceTag, marked_text, not_exists, not_and]
  constructor
  · intro h candidate hcandidate hprepared hsplits
    obtain ⟨source, hsource, htitle, hexcerpt⟩ :=
      @shown_of_infinity isLetter (.start .infinity) rfl _ _ hcandidate hprepared
    apply h .infinity source hsource
    rwa [htitle, hexcerpt]
  · intro h maxChars
    apply run_sources
    · rintro _ ⟨⟩
    · intro before candidate hcandidate hprepared hsplits
      rw [Budgeting.shown_title, Budgeting.shown_excerpt, Budgeting.excerpt] at hsplits
      exact h candidate hcandidate hprepared hsplits.of_min

/-- A provider named by a bracket, over a text that begins with the name of the fence. -/
def bracketCandidate : SourceCandidate :=
  ⟨.connector, Text.of "<", Text.of "<", Text.of "untrusted_x"⟩

theorem not_fenced_bracketCandidate :
    test fenceTag (budgetSources isAsciiLetter [bracketCandidate] (.finite 10000)).text = true := by
  decide +kernel

end MemoFlowApi.Sources
