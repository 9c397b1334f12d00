import MemoFlowApi.Sources.Budget

/-!
# Bounds of the Planning Sources

The rendered sources fit in their budget, whatever the candidates are, and account for each of them.
-/

namespace MemoFlowApi.Js

/-! ## Prefixes -/

theorem prefix_sliceTo (text : Text) (stop : Number) : sliceTo text stop <+: text := by
  cases stop with
  | nan => exact List.nil_prefix
  | negInfinity => exact List.nil_prefix
  | infinity => exact List.prefix_rfl
  | finite stop => exact List.take_prefix _ _

theorem prefix_trimEnd (text : Text) : trimEnd text <+: text := List.rdropWhile_prefix isSpace text

theorem length_sliceTo_finite (text : Text) {stop : ℚ} (h : 0 ≤ stop) :
    ((sliceTo text (.finite stop)).length : ℚ) ≤ stop := by
  have hfloor : 0 ≤ ⌊stop⌋ := Int.floor_nonneg.mpr h
  have hlength : (sliceTo text (.finite stop)).length ≤ ⌊stop⌋.toNat := by
    simp only [sliceTo, if_neg (not_lt.mpr h), if_neg (not_lt.mpr hfloor)]
    exact List.length_take_le _ _
  calc ((sliceTo text (.finite stop)).length : ℚ) ≤ (⌊stop⌋.toNat : ℚ) := by exact_mod_cast hlength
    _ = (⌊stop⌋ : ℚ) := by exact_mod_cast congrArg (Int.cast (R := ℚ)) (Int.toNat_of_nonneg hfloor)
    _ ≤ stop := Int.floor_le stop

/-! ## Joining -/

theorem join_append_singleton (separator : Text) (parts : List Text) (part : Text) :
    join separator (parts ++ [part]) =
      join separator parts ++ ((if parts = [] then [] else separator) ++ part) := by
  induction parts with
  | nil => rfl
  | cons first parts ih =>
    rw [if_neg (List.cons_ne_nil _ _)]
    cases parts with
    | nil => rfl
    | cons second parts =>
      rw [if_neg (List.cons_ne_nil _ _)] at ih
      change first ++ (separator ++ join separator (second :: parts ++ [part])) =
        first ++ (separator ++ join separator (second :: parts)) ++ (separator ++ part)
      simp only [ih, List.append_assoc]

namespace Number

theorem sub_natCast_natCast (x : Number) (a b : ℕ) : (x.sub a).sub b = x.sub (a + b : ℕ) := by
  cases x with
  | nan => rfl
  | negInfinity => rfl
  | infinity => rfl
  | finite x =>
    change finite (x - a - b) = finite (x - (a + b : ℕ))
    rw [Nat.cast_add, sub_sub]

theorem infinity_sub_natCast (k : ℕ) : infinity.sub k = infinity := rfl

/-- What fits in a difference fits in the whole with what was taken away. -/
theorem le_of_le_sub {n k : ℕ} {x : Number} (h : Number.le n (x.sub k) = true) :
    Number.le (k + n : ℕ) x = true := by
  cases x with
  | nan => cases h
  | negInfinity => cases h
  | infinity => rfl
  | finite x =>
    have h : (n : ℚ) ≤ x - k := of_decide_eq_true h
    refine decide_eq_true (?_ : ((k + n : ℕ) : ℚ) ≤ x)
    rw [Nat.cast_add]
    linarith

theorem sub_natCast_ne_nan {n k : ℕ} {x : Number} (h : Number.le n x = true) : x.sub k ≠ nan := by
  cases x with
  | nan => cases h
  | _ => rintro ⟨⟩

end Number

end MemoFlowApi.Js

namespace MemoFlowApi.Sources

open Js Prompts

/-! ## Cutting -/

/-- A text that is too long is cut to some of its start with an ellipsis. -/
theorem cutAtBoundary_of_not_le {text : Text} {max : Number}
    (h : ¬Number.le text.length max = true) :
    ∃ kept, kept <+: sliceTo text ((max.sub ellipsis.length).max (.finite 0)) ∧
      cutAtBoundary text max = trimEnd kept ++ ellipsis := by
  unfold cutAtBoundary
  rw [if_neg h]
  dsimp only
  split
  · exact ⟨_, List.prefix_rfl, rfl⟩
  · exact ⟨_, prefix_sliceTo _ _, rfl⟩

theorem cutAtBoundary_of_le {text : Text} {max : Number} (h : Number.le text.length max = true) :
    cutAtBoundary text max = text := if_pos h

theorem cutAtBoundary_cases (text : Text) (max : Number) :
    cutAtBoundary text max = text ∨
      ∃ kept, kept <+: text ∧ cutAtBoundary text max = kept ++ ellipsis := by
  by_cases h : Number.le text.length max = true
  · exact .inl (cutAtBoundary_of_le h)
  · obtain ⟨kept, hkept, heq⟩ := cutAtBoundary_of_not_le h
    exact .inr ⟨_, (prefix_trimEnd _).trans (hkept.trans (prefix_sliceTo _ _)), heq⟩

theorem cutAtBoundary_ne_nil {text : Text} (htext : text ≠ []) (max : Number) :
    cutAtBoundary text max ≠ [] := by
  rcases cutAtBoundary_cases text max with h | ⟨kept, -, h⟩
  · rwa [h]
  · rw [h]
    exact List.append_ne_nil_of_right_ne_nil _ (List.cons_ne_nil _ _)

/-- A cut text is no longer than asked for, with its ellipsis. -/
theorem length_cutAtBoundary (text : Text) {max : ℚ} (hmax : 1 ≤ max) :
    ((cutAtBoundary text (.finite max)).length : ℚ) ≤ max := by
  by_cases h : Number.le text.length (.finite max) = true
  · rw [cutAtBoundary_of_le h]
    exact of_decide_eq_true h
  · obtain ⟨kept, hkept, heq⟩ := cutAtBoundary_of_not_le h
    have hroom : ((Number.finite max).sub ellipsis.length).max (.finite 0) = .finite (max - 1) := by
      change Number.finite (Max.max (max - 1) 0) = _
      rw [max_eq_left (sub_nonneg.mpr hmax)]
    rw [hroom] at hkept
    have hhead := length_sliceTo_finite text (sub_nonneg.mpr hmax)
    have htrim : ((trimEnd kept).length : ℚ) ≤ (sliceTo text (.finite (max - 1))).length := by
      exact_mod_cast ((prefix_trimEnd kept).trans hkept).length_le
    have hellipsis : ellipsis.length = 1 := rfl
    calc
      _ = ((trimEnd kept).length : ℚ) + 1 := by
        rw [heq, List.length_append, hellipsis, Nat.cast_add, Nat.cast_one]
      _ ≤ (sliceTo text (.finite (max - 1))).length + 1 := by gcongr
      _ ≤ max - 1 + 1 := by gcongr
      _ = max := sub_add_cancel max 1

/-! ## One round -/

variable {isLetter : CodePoint → Bool}

/-- An excerpt that is shown is short and fits in the room left for it. -/
theorem Budgeting.length_excerpt {state : Budgeting} {candidate : SourceCandidate}
    (hprepared : prepared isLetter candidate ≠ []) (hroom : state.room isLetter candidate ≠ .nan)
    (hkept : ¬state.drops isLetter candidate = true) :
    (state.excerpt isLetter candidate).length ≤ maxExcerptChars ∧
      Number.le (state.excerpt isLetter candidate).length (state.room isLetter candidate) = true := by
  have hpos : 1 ≤ min minExcerptChars (prepared isLetter candidate).length :=
    le_min (by decide) (List.length_pos_of_ne_nil hprepared)
  unfold Budgeting.drops at hkept
  unfold Budgeting.excerpt
  generalize state.room isLetter candidate = room at hroom hkept ⊢
  generalize min minExcerptChars (prepared isLetter candidate).length = fewest at hpos hkept
  cases room with
  | nan => exact (hroom rfl).elim
  | negInfinity => exact (hkept rfl).elim
  | infinity =>
    have hone : (1 : ℚ) ≤ (maxExcerptChars : ℕ) := by
      exact_mod_cast (by decide : 1 ≤ maxExcerptChars)
    have hlength := length_cutAtBoundary (prepared isLetter candidate) hone
    exact ⟨by exact_mod_cast hlength, rfl⟩
  | finite room =>
    have hfewest : (fewest : ℚ) ≤ room := not_lt.mp fun h ↦ hkept (decide_eq_true h)
    have hone : 1 ≤ min (maxExcerptChars : ℚ) room :=
      le_min (by exact_mod_cast (by decide : 1 ≤ maxExcerptChars))
        (le_trans (by exact_mod_cast hpos) hfewest)
    have hlength := length_cutAtBoundary (prepared isLetter candidate) hone
    exact ⟨by exact_mod_cast hlength.trans (min_le_left _ _),
      decide_eq_true (hlength.trans (min_le_right _ _))⟩

def BudgetedSource.block (source : BudgetedSource) : Text :=
  header source.id source.type source.title ++ source.excerpt

theorem Budgeting.block_shown (state : Budgeting) (candidate : SourceCandidate) :
    (state.shown isLetter candidate).block = state.block isLetter candidate := by
  simp only [BudgetedSource.block, Budgeting.block, Budgeting.nextHeader, Budgeting.shown]

/-- The candidate that a source was made from. -/
def BudgetedSource.candidate (source : BudgetedSource) : SourceCandidate :=
  ⟨source.type, source.ref, source.rawTitle, source.rawText⟩

/-- A candidate with something to show. -/
def HasText (isLetter : CodePoint → Bool) (candidate : SourceCandidate) : Bool :=
  prepared isLetter candidate ≠ []

/-- What holds of the sources shown so far of some candidates. -/
structure Sound (isLetter : CodePoint → Bool) (candidates : List SourceCandidate) (maxChars : Number)
    (state : Budgeting) : Prop where
  remaining : state.remaining = maxChars.sub (join (Text.of "\n\n") state.blocks).length
  fits : Number.le (join (Text.of "\n\n") state.blocks).length maxChars = true
  blocks : state.blocks = state.sources.map BudgetedSource.block
  numbered : state.sources.map (·.id) =
    (List.range state.sources.length).map fun index ↦ sourceId (index + 1)
  excerpts : ∀ source ∈ state.sources,
    source.excerpt ≠ [] ∧ source.excerpt.length ≤ maxExcerptChars
  subsequence : (state.sources.map BudgetedSource.candidate).Sublist
    (candidates.filter (HasText isLetter))
  counted : state.sources.length + state.dropped = (candidates.filter (HasText isLetter)).length
  whole : ∀ source ∈ state.sources, source.truncated = false →
    source.excerpt = trim (prepareUntrustedText isLetter source.rawText)

namespace Sound

variable {candidates : List SourceCandidate} {maxChars : Number} {state : Budgeting}

theorem start (h : Number.le (0 : ℕ) maxChars = true) :
    Sound isLetter [] maxChars (Budgeting.start maxChars) where
  remaining := by
    cases maxChars with
    | finite value => exact congrArg Number.finite (sub_zero value).symm
    | _ => rfl
  fits := h
  blocks := rfl
  numbered := rfl
  excerpts := by rintro _ ⟨⟩
  subsequence := List.Sublist.slnil
  counted := rfl
  whole := by rintro _ ⟨⟩

/-- The room for a candidate is the budget without the text so far and what precedes the excerpt. -/
theorem room_eq (h : Sound isLetter candidates maxChars state) (candidate : SourceCandidate) :
    state.room isLetter candidate =
      maxChars.sub ((join (Text.of "\n\n") state.blocks).length + state.separator +
        (state.nextHeader isLetter candidate).length : ℕ) := by
  calc
    _ = ((maxChars.sub (join (Text.of "\n\n") state.blocks).length).sub state.separator).sub
        (state.nextHeader isLetter candidate).length := by rw [Budgeting.room, h.remaining]
    _ = _ := by rw [Number.sub_natCast_natCast, Number.sub_natCast_natCast, Nat.add_assoc]

theorem use {candidate : SourceCandidate} (h : Sound isLetter candidates maxChars state)
    (hprepared : prepared isLetter candidate ≠ []) (hkept : ¬state.drops isLetter candidate = true) :
    Sound isLetter (candidates ++ [candidate]) maxChars (state.use isLetter candidate) := by
  have hroom : state.room isLetter candidate ≠ .nan := by
    rw [h.room_eq]
    exact Number.sub_natCast_ne_nan h.fits
  obtain ⟨hshort, hfits⟩ := Budgeting.length_excerpt hprepared hroom hkept
  have hseparator : (if state.blocks = [] then [] else Text.of "\n\n").length = state.separator := by
    unfold Budgeting.separator
    split <;> rfl
  have hlength : (join (Text.of "\n\n") (state.use isLetter candidate).blocks).length =
      (join (Text.of "\n\n") state.blocks).length + state.separator +
        (state.nextHeader isLetter candidate).length + (state.excerpt isLetter candidate).length := by
    calc
      _ = (join (Text.of "\n\n") state.blocks).length + (state.separator +
          (state.block isLetter candidate).length) := by
        rw [Budgeting.use_blocks, join_append_singleton, List.length_append, List.length_append,
          hseparator]
      _ = _ := by rw [Budgeting.block, List.length_append, ← Nat.add_assoc, ← Nat.add_assoc]
  have hfilter : (candidates ++ [candidate]).filter (HasText isLetter) =
      candidates.filter (HasText isLetter) ++ [candidate] := by
    rw [List.filter_append, List.filter_singleton]
    simp [HasText, hprepared]
  have hsources : ∀ source ∈ (state.use isLetter candidate).sources,
      source ∈ state.sources ∨ source = state.shown isLetter candidate := by
    intro source hsource
    rwa [Budgeting.use_sources, List.mem_append, List.mem_singleton] at hsource
  constructor
  · rw [hlength, Budgeting.use_remaining, h.remaining, Number.sub_natCast_natCast, Budgeting.block,
      List.length_append]
    simp only [Nat.add_assoc]
  · rw [hlength]
    rw [h.room_eq] at hfits
    exact Number.le_of_le_sub hfits
  · calc
      _ = state.blocks ++ [(state.shown isLetter candidate).block] := by
        rw [Budgeting.use_blocks, Budgeting.block_shown]
      _ = _ := by rw [Budgeting.use_sources, List.map_append, ← h.blocks, List.map_singleton]
  · calc
      _ = ((List.range state.sources.length).map fun index ↦ sourceId (index + 1)) ++
          [sourceId (state.sources.length + 1)] := by
        rw [Budgeting.use_sources, List.map_append, h.numbered]
        rfl
      _ = _ := by
        rw [Budgeting.use_sources, List.length_append, List.length_singleton, List.range_succ,
          List.map_append, List.map_singleton]
  · intro source hsource
    rcases hsources source hsource with hsource | rfl
    · exact h.excerpts source hsource
    · exact ⟨cutAtBoundary_ne_nil hprepared _, hshort⟩
  · rw [hfilter, Budgeting.use_sources, List.map_append]
    exact h.subsequence.append (List.Sublist.refl [candidate])
  · calc
      _ = state.sources.length + 1 + state.dropped := by
        rw [Budgeting.use_sources, Budgeting.use_dropped, List.length_append, List.length_singleton]
      _ = state.sources.length + state.dropped + 1 := Nat.add_right_comm _ _ _
      _ = _ := by rw [hfilter, List.length_append, ← h.counted, List.length_singleton]
  · intro source hsource
    rcases hsources source hsource with hsource | rfl
    · exact h.whole source hsource
    · intro hwhole
      obtain ⟨hsame, hlong⟩ := Bool.or_eq_false_iff.mp hwhole
      have hraw := not_lt.mp (of_decide_eq_false hlong)
      calc state.excerpt isLetter candidate = prepared isLetter candidate :=
            not_not.mp (of_decide_eq_false hsame)
        _ = _ := by rw [prepared, List.take_of_length_le hraw]; rfl

/-- Every round keeps the account. -/
theorem next (h : Sound isLetter candidates maxChars state) (candidate : SourceCandidate) :
    Sound isLetter (candidates ++ [candidate]) maxChars (state.next isLetter candidate) := by
  unfold Budgeting.next
  split_ifs with hprepared hdrops
  · have hfilter : (candidates ++ [candidate]).filter (HasText isLetter) =
        candidates.filter (HasText isLetter) := by
      rw [List.filter_append, List.filter_singleton]
      simp [HasText, hprepared]
    exact { h with
      subsequence := hfilter ▸ h.subsequence
      counted := hfilter ▸ h.counted }
  · have hfilter : (candidates ++ [candidate]).filter (HasText isLetter) =
        candidates.filter (HasText isLetter) ++ [candidate] := by
      rw [List.filter_append, List.filter_singleton]
      simp [HasText, hprepared]
    exact { h with
      subsequence := by
        rw [hfilter]
        exact h.subsequence.trans (List.sublist_append_left _ _)
      counted := by
        rw [hfilter, List.length_append, ← h.counted]
        rfl }
  · exact h.use hprepared hdrops

theorem run (h : Sound isLetter candidates maxChars state) (others : List SourceCandidate) :
    Sound isLetter (candidates ++ others) maxChars (state.run isLetter others) := by
  induction others generalizing candidates state with
  | nil => rwa [List.append_nil]
  | cons candidate others ih =>
    rw [List.append_cons, Budgeting.run_cons]
    exact ih (h.next candidate)

end Sound

/-! ## The whole loop -/

/-- The account of a result: what it shows of the candidates, and what it left out. -/
structure Accounts (isLetter : CodePoint → Bool) (candidates : List SourceCandidate)
    (maxChars : Number) (result : BudgetResult) : Prop where
  fits : Number.le result.text.length maxChars = true
  text_eq : result.text = join (Text.of "\n\n") (result.sources.map BudgetedSource.block)
  numbered : result.sources.map (·.id) =
    (List.range result.sources.length).map fun index ↦ sourceId (index + 1)
  excerpts : ∀ source ∈ result.sources,
    source.excerpt ≠ [] ∧ source.excerpt.length ≤ maxExcerptChars
  subsequence : (result.sources.map BudgetedSource.candidate).Sublist
    (candidates.filter (HasText isLetter))
  counted : result.sources.length + result.dropped = (candidates.filter (HasText isLetter)).length
  whole : ∀ source ∈ result.sources, source.truncated = false →
    source.excerpt = trim (prepareUntrustedText isLetter source.rawText)

theorem Sound.accounts {candidates : List SourceCandidate} {maxChars : Number} {state : Budgeting}
    (h : Sound isLetter candidates maxChars state) :
    Accounts isLetter candidates maxChars
      ⟨state.sources, state.dropped, join (Text.of "\n\n") state.blocks⟩ where
  fits := h.fits
  text_eq := congrArg (join _) h.blocks
  numbered := h.numbered
  excerpts := h.excerpts
  subsequence := h.subsequence
  counted := h.counted
  whole := h.whole

/-- The sources of every list of candidates fit in every budget and account for the candidates. -/
theorem budgetSources_accounts (isLetter : CodePoint → Bool) (candidates : List SourceCandidate)
    (maxChars : Number) (h : Number.le (0 : ℕ) maxChars = true) :
    Accounts isLetter candidates maxChars (budgetSources isLetter candidates maxChars) :=
  ((Sound.start h).run candidates).accounts

/-- A short section, one that is longer than what is left, and a connector for which nothing is left. -/
def crowdedCandidates : List SourceCandidate :=
  [⟨.section, Text.of "s2", Text.of "Plan", Text.of "Go."⟩,
    ⟨.section, Text.of "s1", Text.of "Aims", (List.replicate 22 (Text.of "word ")).flatten⟩,
    ⟨.connector, Text.of "c", Text.of "Mail", Text.of "Hello there"⟩]

/-- Which sources are cut, how long they are shown, and how many are dropped. -/
def BudgetResult.summary (result : BudgetResult) : List (Bool × ℕ) × ℕ :=
  (result.sources.map fun source ↦ (source.truncated, source.excerpt.length), result.dropped)

theorem budgetSources_accounts_crowded :
    (budgetSources isAsciiLetter crowdedCandidates (.finite 145)).summary =
        ([(false, 3), (true, 100)], 1) ∧
      Accounts isAsciiLetter crowdedCandidates (.finite 145)
        (budgetSources isAsciiLetter crowdedCandidates (.finite 145)) :=
  ⟨by decide +kernel, budgetSources_accounts isAsciiLetter _ _ (by decide)⟩

end MemoFlowApi.Sources
