import MemoFlowApi.Sources.Bounds

/-!
# Cuts of One Text

What a short cut of a text shows up to the end of a word, every longer cut of it shows as well.
-/

namespace MemoFlowApi.Js

/-- A text ends in a unit that is no white space. -/
def EndsInWord (text : Text) : Prop := ∃ c, text.getLast? = some c ∧ isSpace c = false

theorem EndsInWord.ne_nil {text : Text} (h : EndsInWord text) : text ≠ [] := by
  rintro rfl
  obtain ⟨c, hc, -⟩ := h
  cases hc

/-- What is left of a text from an index before its end ends in the same unit. -/
theorem EndsInWord.drop {text : Text} (h : EndsInWord text) {index : ℕ} (hindex : index < text.length) :
    EndsInWord (text.drop index) := by
  obtain ⟨c, hc, hspace⟩ := h
  refine ⟨c, ?_, hspace⟩
  rw [List.getLast?_drop, if_neg (Nat.not_le_of_lt hindex), hc]

theorem EndsInWord.exists_mem {text : Text} (h : EndsInWord text) : ∃ c ∈ text, isSpace c = false := by
  obtain ⟨c, hc, hspace⟩ := h
  exact ⟨c, List.mem_of_getLast? hc, hspace⟩

/-- Trimming the end of a text keeps each of its starts that end in a word. -/
theorem EndsInWord.prefix_trimEnd {shown text : Text} (h : EndsInWord shown) (hstart : shown <+: text) :
    shown <+: trimEnd text := by
  obtain ⟨gap, hgap, htext⟩ := exists_trimEnd_append text
  rw [htext] at hstart
  by_contra hshort
  have hlength : (trimEnd text).length < shown.length := by
    by_contra hle
    exact hshort (List.prefix_of_prefix_length_le hstart (List.prefix_append _ _) (not_lt.mp hle))
  have hmore := hstart.drop (trimEnd text).length
  rw [List.drop_left] at hmore
  obtain ⟨c, hc, hspace⟩ := (h.drop hlength).exists_mem
  exact Bool.noConfusion (hspace.symm.trans (hgap c (hmore.subset hc)))

/-! ## Last indices -/

theorem neg_one_le_lastIndexOf (pattern text : Text) : -1 ≤ lastIndexOf pattern text := by
  induction text with
  | nil =>
    unfold lastIndexOf
    split_ifs <;> omega
  | cons c text ih =>
    unfold lastIndexOf
    dsimp only
    split_ifs <;> omega

/-- A text has the pattern at its last index. -/
theorem prefix_drop_of_lastIndexOf {pattern text : Text} {index : ℕ}
    (h : lastIndexOf pattern text = index) : pattern <+: text.drop index := by
  induction text generalizing index with
  | nil =>
    unfold lastIndexOf at h
    split_ifs at h with hpattern
    rw [hpattern]
    exact List.nil_prefix
  | cons c text ih =>
    unfold lastIndexOf at h
    dsimp only at h
    split_ifs at h with hlater hhere
    · cases index with
      | zero => omega
      | succ index => exact ih (by omega)
    · obtain rfl : index = 0 := by omega
      exact List.isPrefixOf_iff_prefix.mp hhere

/-- No pattern is behind its last index. -/
theorem le_lastIndexOf {pattern text : Text} (hpattern : pattern ≠ []) {index : ℕ}
    (h : pattern <+: text.drop index) : (index : ℤ) ≤ lastIndexOf pattern text := by
  induction text generalizing index with
  | nil =>
    rw [List.drop_nil] at h
    exact (hpattern (List.prefix_nil.mp h)).elim
  | cons c text ih =>
    unfold lastIndexOf
    dsimp only
    cases index with
    | zero =>
      split_ifs with hlater hhere
      · omega
      · exact le_rfl
      · exact (hhere (List.isPrefixOf_iff_prefix.mpr h)).elim
    | succ index =>
      have hlater := ih h
      rw [if_pos (by omega)]
      omega

/-- The last index in a text is no later than in a longer one. -/
theorem lastIndexOf_mono {pattern head text : Text} (hpattern : pattern ≠ []) (h : head <+: text) :
    lastIndexOf pattern head ≤ lastIndexOf pattern text := by
  have hneg := neg_one_le_lastIndexOf pattern head
  rcases Int.eq_ofNat_of_zero_le (a := lastIndexOf pattern head + 1) (by omega) with ⟨_ | index, hindex⟩
  · have hneg' := neg_one_le_lastIndexOf pattern text
    omega
  · have heq : lastIndexOf pattern head = index := by omega
    rw [heq]
    exact le_lastIndexOf hpattern ((prefix_drop_of_lastIndexOf heq).trans (h.drop index))

/-- A pattern that ends in white space, and begins its white space before the end of a word, is before
that end. -/
theorem lastIndexOf_le_of_lt {pattern shown text : Text} (mark : ℕ) (hpattern : pattern ≠ [])
    (hspace : (pattern.drop mark).all isSpace = true) (hshown : EndsInWord shown)
    (h : shown <+: text) (hlt : lastIndexOf pattern text + mark < shown.length) :
    lastIndexOf pattern text ≤ lastIndexOf pattern shown := by
  have hneg := neg_one_le_lastIndexOf pattern text
  rcases Int.eq_ofNat_of_zero_le (a := lastIndexOf pattern text + 1) (by omega) with ⟨_ | index, hindex⟩
  · have hneg' := neg_one_le_lastIndexOf pattern shown
    omega
  · have heq : lastIndexOf pattern text = index := by omega
    rw [heq]
    apply le_lastIndexOf hpattern
    rcases List.prefix_or_prefix_of_prefix (prefix_drop_of_lastIndexOf heq) (h.drop index) with
      hstarts | hstarts
    · exact hstarts
    · have hends : EndsInWord (shown.drop (index + mark)) := hshown.drop (by omega)
      obtain ⟨c, hc, hword⟩ := hends.exists_mem
      have hmem : c ∈ pattern.drop mark := by
        have hsuffix := (hstarts.drop mark).subset
        rw [List.drop_drop] at hsuffix
        exact hsuffix hc
      exact Bool.noConfusion (hword.symm.trans (List.all_eq_true.mp hspace c hmem))

end MemoFlowApi.Js

namespace MemoFlowApi.Sources

open Js

/-! ## Boundaries -/

/-- The boundaries of a text are no earlier than those of a start of it, and the same where they are
before the end of a word that both have. -/
theorem boundaries_forall₂ {shown head text : Text} (hshown : EndsInWord shown) (hhead : shown <+: head)
    (htext : head <+: text) :
    List.Forall₂ (fun index later : ℤ ↦ index ≤ later ∧ (later < shown.length → later ≤ index))
      (boundaries head) (boundaries text) := by
  have hspaces (pattern : Text) (hpattern : pattern ≠ []) (hspace : pattern.all isSpace = true) :
      lastIndexOf pattern head ≤ lastIndexOf pattern text ∧
        (lastIndexOf pattern text < shown.length →
          lastIndexOf pattern text ≤ lastIndexOf pattern head) := by
    refine ⟨lastIndexOf_mono hpattern htext, fun hlt ↦ ?_⟩
    have hle := lastIndexOf_le_of_lt 0 hpattern hspace hshown (hhead.trans htext) (by simpa)
    exact hle.trans (lastIndexOf_mono hpattern hhead)
  have hsentence (pattern : Text) (hpattern : pattern ≠ [])
      (hspace : (pattern.drop 1).all isSpace = true) :
      lastIndexOf pattern head ≤ lastIndexOf pattern text ∧
        (lastIndexOf pattern text + 1 < shown.length →
          lastIndexOf pattern text ≤ lastIndexOf pattern head) := by
    refine ⟨lastIndexOf_mono hpattern htext, fun hlt ↦ ?_⟩
    have hle := lastIndexOf_le_of_lt 1 hpattern hspace hshown (hhead.trans htext) (by simpa)
    exact hle.trans (lastIndexOf_mono hpattern hhead)
  have hstop := hsentence (Text.of ". ") (by decide) (by decide)
  have hquestion := hsentence (Text.of "? ") (by decide) (by decide)
  have hcall := hsentence (Text.of "! ") (by decide) (by decide)
  have hparagraph := hspaces (Text.of "\n\n") (by decide) (by decide)
  have hline := hspaces (Text.of "\n") (by decide) (by decide)
  have hblank := hspaces (Text.of " ") (by decide) (by decide)
  refine .cons hparagraph (.cons hline (.cons ?_ (.cons hblank .nil)))
  omega

/-- The boundary chosen in a start of a text is no later than one chosen in the text before its end. -/
theorem find?_boundary {indices laters : List ℤ} {stop : ℤ}
    (h : List.Forall₂ (fun index later ↦ index ≤ later ∧ (later < stop → later ≤ index)) indices laters)
    {floor floor' : ℤ} (hfloor : floor ≤ floor') {later : ℤ}
    (hfind : laters.find? (floor' < ·) = some later) (hlater : later < stop) :
    ∃ index, index ≤ later ∧ indices.find? (floor < ·) = some index := by
  induction h with
  | nil => cases hfind
  | @cons index first indices laters hfirst _ ih =>
    by_cases hfound : floor' < first
    · rw [List.find?_cons_of_pos (by simpa)] at hfind
      obtain rfl := Option.some.inj hfind
      refine ⟨index, hfirst.1, List.find?_cons_of_pos ?_⟩
      have := hfirst.2 hlater
      exact decide_eq_true (by omega)
    · rw [List.find?_cons_of_neg (by simpa using hfound)] at hfind
      have hlast : floor' < later := by simpa using List.find?_some hfind
      by_cases hindex : floor < index
      · exact ⟨index, by omega, List.find?_cons_of_pos (by simpa)⟩
      · rw [List.find?_cons_of_neg (by simpa using hindex)]
        exact ih hfind

/-! ## Longer cuts -/

/-- The head of a text up to the boundary behind a floor. -/
def keptTo (head : Text) (floor : ℤ) : Text :=
  match (boundaries head).find? (floor < ·) with
  | none => head
  | some index => head.take index.toNat

theorem prefix_keptTo (head : Text) (floor : ℤ) : keptTo head floor <+: head := by
  unfold keptTo
  split
  · exact List.prefix_rfl
  · exact List.take_prefix _ _

/-- What is kept of a start up to the end of a word is kept of the text. -/
theorem isPrefix_keptTo {shown head text : Text} (hshown : EndsInWord shown)
    (htext : head <+: text) {floor floor' : ℤ} (hfloor : floor ≤ floor')
    (h : shown <+: keptTo head floor) : shown <+: keptTo text floor' := by
  have hhead := h.trans (prefix_keptTo head floor)
  unfold keptTo
  split
  · exact hhead.trans htext
  · rename_i later hfind
    refine List.prefix_take_iff.mpr ⟨hhead.trans htext, ?_⟩
    by_contra hlater
    obtain ⟨index, hindex, hfirst⟩ :=
      find?_boundary (boundaries_forall₂ hshown hhead htext) hfloor hfind (by omega)
    unfold keptTo at h
    rw [hfirst] at h
    have hlength := (List.prefix_take_iff.mp h).2
    omega

/-- The room for a cut text in an allowance. -/
def roomIn (max : ℚ) : ℚ := Max.max (max - 1) 0

theorem cutAtBoundary_finite {text : Text} {max : ℚ} (h : max < text.length) :
    cutAtBoundary text (.finite max) =
      trimEnd (keptTo (text.take ⌊roomIn max⌋.toNat) ⌊roomIn max / 2⌋) ++ ellipsis := by
  have hroom : 0 ≤ roomIn max := le_max_right _ _
  have hslice (text : Text) {stop : ℚ} (hstop : 0 ≤ stop) :
      sliceTo text (.finite stop) = text.take ⌊stop⌋.toNat := by
    have hfloor : 0 ≤ ⌊stop⌋ := Int.floor_nonneg.mpr hstop
    simp only [sliceTo, if_neg (not_lt.mpr hstop), if_neg (not_lt.mpr hfloor)]
  have hfloor : (0 : ℤ) ≤ ⌊roomIn max / 2⌋ := Int.floor_nonneg.mpr (by linarith)
  have hlt : ((fun index : ℚ ↦ (Number.finite (⌊roomIn max / 2⌋ : ℤ)).lt (.finite index)) ∘
      fun index : ℤ ↦ (index : ℚ)) = fun index ↦ decide (⌊roomIn max / 2⌋ < index) := by
    ext index
    simp only [Function.comp_apply, Number.lt, Int.cast_lt]
  have hnot : ¬Number.le text.length (.finite max) = true := fun hle ↦
    absurd (of_decide_eq_true hle) (not_le.mpr h)
  have hsub : ((Number.finite max).sub ellipsis.length).max (.finite 0) = .finite (roomIn max) := rfl
  unfold cutAtBoundary keptTo
  simp only [if_neg hnot, hsub, hslice text hroom, Number.half, Number.floor, bind_pure_comp,
    List.map_eq_map, List.find?_map, hlt]
  cases hfind : (boundaries (text.take ⌊roomIn max⌋.toNat)).find? (⌊roomIn max / 2⌋ < ·) with
  | none => rfl
  | some index =>
    have hindex : ⌊roomIn max / 2⌋ < index := by simpa using List.find?_some hfind
    dsimp only [Option.map_some]
    rw [hslice _ (by exact_mod_cast hfloor.trans hindex.le), Int.floor_intCast]

theorem prefix_of_prefix_ellipsis {shown kept : Text} (hellipsis : shown.getLast? ≠ ellipsis.getLast?)
    (h : shown <+: kept ++ ellipsis) : shown <+: kept := by
  apply (List.prefix_concat_iff.mp h).resolve_left
  rintro rfl
  exact hellipsis (List.getLast?_append_of_ne_nil _ (List.cons_ne_nil _ _))

/-- What a cut shows up to the end of a word before its ellipsis, a longer cut shows as well. -/
theorem prefix_cutAtBoundary_of_le {shown text : Text} {max max' : ℚ} (hshown : EndsInWord shown)
    (hellipsis : shown.getLast? ≠ ellipsis.getLast?) (hmax : max ≤ max')
    (h : shown <+: cutAtBoundary text (.finite max)) :
    shown <+: cutAtBoundary text (.finite max') := by
  have hwhole : shown <+: text := by
    rcases cutAtBoundary_cases text (.finite max) with heq | ⟨kept, hkept, heq⟩
    · rwa [heq] at h
    · rw [heq] at h
      exact (prefix_of_prefix_ellipsis hellipsis h).trans hkept
  by_cases hlong : max' < text.length
  · rw [cutAtBoundary_finite (hmax.trans_lt hlong)] at h
    rw [cutAtBoundary_finite hlong]
    have hroom : roomIn max ≤ roomIn max' := max_le_max_right 0 (sub_le_sub_right hmax 1)
    have hkept := (prefix_of_prefix_ellipsis hellipsis h).trans (prefix_trimEnd _)
    have hhead : text.take ⌊roomIn max⌋.toNat <+: text.take ⌊roomIn max'⌋.toNat :=
      List.take_prefix_take_left (Int.toNat_le_toNat (Int.floor_le_floor hroom))
    have hfloor : ⌊roomIn max / 2⌋ ≤ ⌊roomIn max' / 2⌋ := Int.floor_le_floor (by linarith)
    exact (hshown.prefix_trimEnd (isPrefix_keptTo hshown hhead hfloor hkept)).trans
      (List.prefix_append _ _)
  · have hle : Number.le text.length (.finite max') = true := decide_eq_true (not_lt.mp hlong)
    rwa [cutAtBoundary_of_le hle]

/-- What the least of an allowance and any number shows up to the end of a word, the allowance shows. -/
theorem prefix_cutAtBoundary_of_min {shown text : Text} {max : ℕ} {room : Number}
    (hshown : EndsInWord shown) (hellipsis : shown.getLast? ≠ ellipsis.getLast?)
    (h : shown <+: cutAtBoundary text (Number.min max room)) : shown <+: cutAtBoundary text max := by
  have hnothing {number : Number} (hle : Number.le text.length number = false)
      (hslice : sliceTo text ((number.sub ellipsis.length).max (.finite 0)) = []) :
      ¬shown <+: cutAtBoundary text number := by
    intro hshort
    obtain ⟨kept, hkept, heq⟩ := cutAtBoundary_of_not_le (hle ▸ Bool.false_ne_true)
    rw [hslice, List.prefix_nil] at hkept
    rw [heq, hkept] at hshort
    exact hshown.ne_nil (List.prefix_nil.mp (prefix_of_prefix_ellipsis hellipsis hshort))
  cases room with
  | nan => exact (hnothing rfl rfl h).elim
  | negInfinity => exact (hnothing rfl rfl h).elim
  | infinity => exact h
  | finite room => exact prefix_cutAtBoundary_of_le hshown hellipsis (min_le_left _ _) h

end MemoFlowApi.Sources
