import MemoFlowApi.Prompts.FenceTags
import MemoFlowApi.Sources.Citations

/-!
# Citations as Words

What an inline citation looks like, which ids it names, and that a citation as the cleaning writes it is
one that the cleaning leaves alone.
-/

namespace MemoFlowApi.Sources

open Js Js.Regex MemoFlowApi.Lists Prompts

/-! ## Ids -/

/-- Digits of a number in an id. -/
def IsNumber (digits : Text) : Prop :=
  1 ≤ digits.length ∧ digits.length ≤ 4 ∧ ∀ c ∈ digits, isDigit c = true

/-- An id in a citation. -/
def IsId (text : Text) : Prop := ∃ s digits, isS s = true ∧ IsNumber digits ∧ text = s :: digits

theorem describes_number : Describes (between 1 4 (unit isDigit)) (wordsOf IsNumber) :=
  describes_between_unit isDigit (by decide)

theorem describes_plainId : Describes plainId (wordsOf IsId) := by
  intro before captures text rest
  rw [plainId, describes_seq (describes_unit _) describes_number _ _ _ _, Language.mem_mul]
  constructor
  · rintro ⟨rfl, _, ⟨s, hs, rfl⟩, digits, hdigits, rfl⟩
    exact ⟨rfl, s, digits, hs, hdigits, rfl⟩
  · rintro ⟨rfl, s, digits, hs, hdigits, rfl⟩
    exact ⟨rfl, [s], ⟨s, hs, rfl⟩, digits, hdigits, rfl⟩

/-- The ids that the cleaning can write. -/
def IsSourceId (id : Text) : Prop := ∃ number < 10000, id = sourceId number

theorem isNumber_decimal {number : ℕ} (h : number < 10000) : IsNumber (decimal number) := by
  refine ⟨?_, ?_, fun c hc ↦ isDigit_of_mem_decimal hc⟩
  · rw [decimal, List.length_map]
    exact Nat.length_toDigits_pos
  · rw [decimal, List.length_map]
    exact (Nat.length_toDigits_le_iff (by decide) (by decide)).mpr h

theorem IsSourceId.isId {id : Text} (h : IsSourceId id) : IsId id := by
  obtain ⟨number, hnumber, rfl⟩ := h
  exact ⟨_, _, by decide, isNumber_decimal hnumber, rfl⟩

theorem numberOf_decimal (number : ℕ) : numberOf (decimal number) = number := by
  have hdigits : ∀ (digits : List Char), (∀ c ∈ digits, c.isDigit) → ∀ value,
      (digits.map unitOf).foldl (fun value c ↦ 10 * value + (c.toNat - 48)) value =
        Nat.ofDigitChars 10 digits value := by
    intro digits hdigits
    induction digits with
    | nil => exact fun _ ↦ rfl
    | cons c digits ih =>
      obtain ⟨hc, htail⟩ := List.forall_mem_cons.mp hdigits
      intro value
      have hbound := Char.isDigit_iff_toNat.mp hc
      have hnine : ('9' : Char).toNat = 57 := rfl
      have hunit : (unitOf c).toNat = c.toNat := by
        change c.toNat % 2 ^ 16 = c.toNat
        omega
      rw [List.map_cons, List.foldl_cons, ih htail, Nat.ofDigitChars_cons, hunit]
      rfl
  rw [numberOf, decimal, hdigits _ fun c hc ↦ Nat.isDigit_of_mem_toDigits (by decide) le_rfl hc]
  exact Nat.ofDigitChars_toDigits (by decide) le_rfl

theorem numberOf_lt {digits : Text} (h : IsNumber digits) : numberOf digits < 10000 := by
  have hbound : ∀ (digits : Text), (∀ c ∈ digits, isDigit c = true) → ∀ value,
      digits.foldl (fun value c ↦ 10 * value + (c.toNat - 48)) value <
        (value + 1) * 10 ^ digits.length := by
    intro digits hdigits
    induction digits with
    | nil => intro value; simp
    | cons c digits ih =>
      obtain ⟨hc, htail⟩ := List.forall_mem_cons.mp hdigits
      intro value
      have hdigit : c.toNat ≤ 57 := by
        have hle : c ≤ unitOf '9' := of_decide_eq_true (Bool.and_eq_true _ _ |>.mp hc).2
        exact UInt16.le_iff_toNat_le.mp hle
      calc _ < (10 * value + (c.toNat - 48) + 1) * 10 ^ digits.length := ih htail _
        _ ≤ (10 * (value + 1)) * 10 ^ digits.length := Nat.mul_le_mul_right _ (by omega)
        _ = _ := by rw [List.length_cons, pow_succ]; ring
  calc numberOf digits < (0 + 1) * 10 ^ digits.length := hbound digits h.2.2 0
    _ ≤ (0 + 1) * 10 ^ 4 := Nat.mul_le_mul_left _ (Nat.pow_le_pow_right (by decide) h.2.1)

/-! ## Citations -/

/-- A further id with its separator. -/
def IsItem (text : Text) : Prop :=
  ∃ lead separator trail id, IsGap lead ∧ isSeparator separator = true ∧ IsGap trail ∧ IsId id ∧
    text = lead ++ separator :: (trail ++ id)

/-- What a citation has between its brackets. -/
def IsInner (text : Text) : Prop :=
  ∃ (lead id : Text) (items : List Text) (trail : Text), IsGap lead ∧ IsId id ∧
    (∀ item ∈ items, IsItem item) ∧ IsGap trail ∧ text = lead ++ (id ++ (items.flatten ++ trail))

def openBracket : CodeUnit := unitOf '['

def closeBracket : CodeUnit := unitOf ']'

/-- An inline citation with the blanks before it. -/
def IsCitation (text : Text) : Prop :=
  ∃ blanks inner, (∀ c ∈ blanks, isBlank c = true) ∧ IsInner inner ∧
    text = blanks ++ openBracket :: (inner ++ [closeBracket])

theorem describes_gap : Describes gap (wordsOf IsGap) := by
  intro before captures text rest
  rw [gap, describes_star (describes_unit _) _ _ _ _, mem_gap, mem_wordsOf]

theorem describes_item :
    Describes (sequence [gap, unit isSeparator, gap, plainId]) (wordsOf IsItem) := by
  intro before captures text rest
  rw [describes_sequence (.cons describes_gap (.cons (describes_unit _) (.cons describes_gap
    (.cons describes_plainId .nil)))) _ _ _ _]
  simp only [List.prod_cons, List.prod_nil, mul_one, Language.mem_mul, mem_wordsOf]
  constructor
  · rintro ⟨rfl, lead, hlead, _, ⟨_, ⟨c, hc, rfl⟩, _, ⟨trail, htrail, id, hid, rfl⟩, rfl⟩, rfl⟩
    exact ⟨rfl, lead, c, trail, id, hlead, hc, htrail, hid, rfl⟩
  · rintro ⟨rfl, lead, c, trail, id, hlead, hc, htrail, hid, rfl⟩
    exact ⟨rfl, lead, hlead, _, ⟨[c], ⟨c, hc, rfl⟩, _, ⟨trail, htrail, id, hid, rfl⟩, rfl⟩, rfl⟩

theorem describes_inlineCitation : Describes inlineCitation (wordsOf IsCitation) := by
  intro before captures text rest
  rw [inlineCitation, describes_sequence (.cons (describes_star (describes_unit _))
    (.cons (describes_literal _) (.cons describes_gap (.cons describes_plainId
      (.cons (describes_star describes_item) (.cons describes_gap
        (.cons (describes_literal _) .nil))))))) _ _ _ _]
  simp only [List.prod_cons, List.prod_nil, mul_one, Language.mem_mul, mem_wordsOf]
  constructor
  · rintro ⟨rfl, blanks, hblanks, _, ⟨_, rfl, _, ⟨lead, hlead, _, ⟨id, hid, _, ⟨_, hitems, _,
      ⟨trail, htrail, _, rfl, rfl⟩, rfl⟩, rfl⟩, rfl⟩, rfl⟩, rfl⟩
    obtain ⟨items, rfl, hall⟩ := Language.mem_kstar.mp hitems
    refine ⟨rfl, blanks, _, mem_kstar_units.mp hblanks,
      ⟨lead, id, items, trail, hlead, hid, hall, htrail, rfl⟩, ?_⟩
    simp [openBracket, closeBracket]
  · rintro ⟨rfl, blanks, _, hblanks, ⟨lead, id, items, trail, hlead, hid, hitems, htrail, rfl⟩, rfl⟩
    refine ⟨rfl, blanks, mem_kstar_units.mpr hblanks, _, ⟨_, rfl, _, ⟨lead, hlead, _, ⟨id, hid, _,
      ⟨items.flatten, Language.join_mem_kstar hitems, _, ⟨trail, htrail, _, rfl, rfl⟩, rfl⟩, rfl⟩,
      rfl⟩, rfl⟩, ?_⟩
    simp [openBracket, closeBracket]

/-- The units between the brackets of a citation. -/
def isInnerUnit (c : CodeUnit) : Bool := isSpace c || isS c || isDigit c || isSeparator c

theorem isInnerUnit_of_isGap {text : Text} (h : IsGap text) : ∀ c ∈ text, isInnerUnit c = true := by
  intro c hc
  rw [isInnerUnit, h c hc]
  rfl

theorem IsId.inner {text : Text} (h : IsId text) : ∀ c ∈ text, isInnerUnit c = true := by
  obtain ⟨s, digits, hs, ⟨-, -, hdigits⟩, rfl⟩ := h
  refine List.forall_mem_cons.mpr ⟨?_, fun c hc ↦ ?_⟩
  · simp [isInnerUnit, hs]
  · simp [isInnerUnit, hdigits c hc]

theorem IsItem.inner {text : Text} (h : IsItem text) : ∀ c ∈ text, isInnerUnit c = true := by
  obtain ⟨lead, separator, trail, id, hlead, hseparator, htrail, hid, rfl⟩ := h
  refine List.forall_mem_append.mpr ⟨isInnerUnit_of_isGap hlead, List.forall_mem_cons.mpr ⟨?_,
    List.forall_mem_append.mpr ⟨isInnerUnit_of_isGap htrail, hid.inner⟩⟩⟩
  simp [isInnerUnit, hseparator]

theorem IsInner.inner {text : Text} (h : IsInner text) : ∀ c ∈ text, isInnerUnit c = true := by
  obtain ⟨lead, id, items, trail, hlead, hid, hitems, htrail, rfl⟩ := h
  refine List.forall_mem_append.mpr ⟨isInnerUnit_of_isGap hlead, List.forall_mem_append.mpr ⟨hid.inner,
    List.forall_mem_append.mpr ⟨fun c hc ↦ ?_, isInnerUnit_of_isGap htrail⟩⟩⟩
  obtain ⟨item, hitem, hc⟩ := List.mem_flatten.mp hc
  exact (hitems item hitem).inner c hc

theorem IsInner.not_mem {text : Text} (h : IsInner text) {c : CodeUnit} (hc : isInnerUnit c = false) :
    c ∉ text := fun hmem ↦ Bool.noConfusion ((h.inner c hmem).symm.trans hc)

/-- The first occurrence of a unit divides a text in one way. -/
theorem append_cons_inj {left left' right right' : Text} {c : CodeUnit} (h : c ∉ left)
    (h' : c ∉ left') (heq : left ++ c :: right = left' ++ c :: right') :
    left = left' ∧ right = right' := by
  induction left generalizing left' with
  | nil =>
    cases left' with
    | nil => exact ⟨rfl, (List.cons_eq_cons.mp heq).2⟩
    | cons d left' => exact (h' ((List.cons_eq_cons.mp heq).1 ▸ List.mem_cons_self)).elim
  | cons d left ih =>
    cases left' with
    | nil => exact (h ((List.cons_eq_cons.mp heq).1 ▸ List.mem_cons_self)).elim
    | cons d' left' =>
      obtain ⟨rfl, htail⟩ := List.cons_eq_cons.mp heq
      obtain ⟨rfl, rfl⟩ := ih (List.not_mem_of_not_mem_cons h) (List.not_mem_of_not_mem_cons h') htail
      exact ⟨rfl, rfl⟩

/-- No citation begins another. -/
theorem prefixFree_citations : PrefixFree (wordsOf IsCitation) := by
  rintro _ ⟨blanks, inner, hblanks, hinner, rfl⟩ _ ⟨blanks', inner', hblanks', hinner', rfl⟩ rest rest'
    heq
  have hnot : ∀ blanks : Text, (∀ c ∈ blanks, isBlank c = true) → openBracket ∉ blanks :=
    fun blanks hblanks hmem ↦ absurd (hblanks _ hmem) (by decide)
  simp only [List.append_assoc, List.cons_append, List.nil_append] at heq
  obtain ⟨rfl, hrest⟩ := append_cons_inj (hnot _ hblanks) (hnot _ hblanks') heq
  obtain ⟨rfl, -⟩ := append_cons_inj (hinner.not_mem (c := closeBracket) rfl)
    (hinner'.not_mem (c := closeBracket) rfl) hrest
  rfl

theorem IsCitation.ne_nil {text : Text} (h : IsCitation text) : text ≠ [] := by
  obtain ⟨blanks, inner, -, -, rfl⟩ := h
  exact List.append_ne_nil_of_right_ne_nil _ (List.cons_ne_nil _ _)

theorem consuming_inlineCitation : Consuming inlineCitation :=
  describes_inlineCitation.consuming fun h ↦ IsCitation.ne_nil h rfl

/-! ## Citations as they are written -/

theorem join_cons (separator part : Text) (parts : List Text) :
    join separator (part :: parts) = part ++ (parts.map (separator ++ ·)).flatten := by
  induction parts generalizing part with
  | nil => exact (List.append_nil _).symm
  | cons second parts ih =>
    change part ++ (separator ++ join separator (second :: parts)) = _
    rw [ih, List.map_cons, List.flatten_cons, List.append_assoc]

theorem isCitation_citation (spaced : Bool) {ids : List Text} (hne : ids ≠ [])
    (hids : ∀ id ∈ ids, IsSourceId id) : IsCitation (citation spaced ids) := by
  have hblank : ∀ c ∈ Text.of " ", isBlank c = true ∧ isSpace c = true := by
    intro c hc
    obtain rfl := List.mem_singleton.mp hc
    decide
  cases ids with
  | nil => exact (hne rfl).elim
  | cons first ids =>
    obtain ⟨hfirst, hothers⟩ := List.forall_mem_cons.mp hids
    refine ⟨if spaced then Text.of " " else [], join (Text.of ", ") (first :: ids), ?_,
      ⟨[], first, ids.map (Text.of ", " ++ ·), [], by simp [IsGap], hfirst.isId, ?_, by simp [IsGap],
        ?_⟩, rfl⟩
    · cases spaced with
      | false => rintro _ ⟨⟩
      | true => exact fun c hc ↦ (hblank c hc).1
    · intro item hitem
      obtain ⟨id, hid, rfl⟩ := List.mem_map.mp hitem
      exact ⟨[], unitOf ',', Text.of " ", id, by simp [IsGap], by decide,
        fun c hc ↦ (hblank c hc).2, (hothers id hid).isId, rfl⟩
    · rw [join_cons, List.append_nil, List.nil_append]

/-- An id is read as far as its digits go. -/
theorem exec_inlineId {s : CodeUnit} {digits rest : Text} (hs : isS s = true) (hdigits : IsNumber digits)
    (hrest : ∀ c, rest.head? = some c → isDigit c = false) (before : Option CodeUnit) :
    exec inlineId before (s :: digits ++ rest) = some ⟨[digits], s :: digits, rest⟩ := by
  obtain ⟨hpos, hle, hall⟩ := hdigits
  cases digits with
  | nil => exact absurd hpos (by decide)
  | cons d digits =>
    obtain ⟨hd, htail⟩ := List.forall_mem_cons.mp hall
    have htimes := @exec_times_unit _ isDigit (some s) [d] (digits ++ rest) (by simpa using hd)
    have hupTo := @exec_upTo_unit _ isDigit (some d) digits rest 3 htail (Nat.le_of_succ_le_succ hle)
      hrest
    exact exec_seq (exec_unit hs) (exec_capture (exec_seq htimes hupTo))

theorem exec_inlineId_of_not {c : CodeUnit} (hc : isS c = false) (before : Option CodeUnit)
    (text : Text) : exec inlineId before (c :: text) = none := by
  rw [exec_eq_none_iff]
  rintro captures matched rest htext ⟨_, _, _, _, rfl, rfl, ⟨-, d, hd, rfl⟩, -⟩
  obtain ⟨rfl, -⟩ := List.cons_eq_cons.mp htext
  exact Bool.noConfusion (hc.symm.trans hd)

theorem consuming_inlineId : Consuming inlineId :=
  consuming_seq ((describes_unit isS).consuming (by rintro ⟨_, _, ⟨⟩⟩))

/-- The ids found from a unit on. -/
def idsFrom (before : Option CodeUnit) (text : Text) : List Text :=
  ((scanFrom inlineId before 0 text).filterMap captures?).map fun found ↦
    sourceId (numberOf (found.1.headD []))

theorem idsFrom_cons_of_not {c : CodeUnit} (hc : isS c = false) (before : Option CodeUnit)
    (text : Text) : idsFrom before (c :: text) = idsFrom (some c) text := by
  rw [idsFrom, scanFrom_of_none (exec_inlineId_of_not hc before text)]
  rfl

theorem idsFrom_id {id rest : Text} (hid : IsSourceId id)
    (hrest : ∀ c, rest.head? = some c → isDigit c = false) (before : Option CodeUnit) :
    idsFrom before (id ++ rest) = id :: idsFrom (after before id) rest := by
  obtain ⟨number, hnumber, rfl⟩ := hid
  have hexec := exec_inlineId (s := unitOf 'S') (by decide) (isNumber_decimal hnumber) hrest before
  rw [idsFrom, sourceId, scanFrom_of_some (List.cons_ne_nil _ _) hexec, List.filterMap_cons]
  change sourceId (numberOf (decimal number)) :: _ = _
  rw [numberOf_decimal]
  rfl

theorem idsFrom_join {ids : List Text} (hids : ∀ id ∈ ids, IsSourceId id)
    (before : Option CodeUnit) : idsFrom before (join (Text.of ", ") ids ++ [closeBracket]) = ids := by
  induction ids generalizing before with
  | nil =>
    have hnil : idsFrom (some closeBracket) [] = [] := by
      rw [idsFrom, scanFrom_nil consuming_inlineId]
      rfl
    exact (idsFrom_cons_of_not (by decide) before []).trans hnil
  | cons id ids ih =>
    obtain ⟨hid, hothers⟩ := List.forall_mem_cons.mp hids
    cases ids with
    | nil =>
      calc
        _ = idsFrom before (id ++ [closeBracket]) := by
          rw [join_cons, List.map_nil, List.flatten_nil, List.append_nil]
        _ = id :: idsFrom (after before id) [closeBracket] :=
          idsFrom_id hid (by rintro _ ⟨⟩; decide) before
        _ = _ := congrArg _ (ih hothers _)
    | cons second ids =>
      change idsFrom before (id ++ (unitOf ',' :: unitOf ' ' :: join _ (second :: ids)) ++ _) = _
      rw [List.append_assoc, idsFrom_id hid (by rintro _ ⟨⟩; decide), List.cons_append,
        List.cons_append, idsFrom_cons_of_not (by decide), idsFrom_cons_of_not (by decide),
        ih hothers]

/-- A citation names the ids that it was written with. -/
theorem idsOf_citation (spaced : Bool) {ids : List Text} (hids : ∀ id ∈ ids, IsSourceId id) :
    idsOf (citation spaced ids) = ids := by
  change idsFrom none (citation spaced ids) = ids
  cases spaced with
  | false => exact (idsFrom_cons_of_not (by decide) none _).trans (idsFrom_join hids _)
  | true =>
    exact (idsFrom_cons_of_not (by decide) none _).trans
      ((idsFrom_cons_of_not (by decide) _ _).trans (idsFrom_join hids _))

/-! ## Rewriting -/

theorem isSourceId_of_mem_idsOf {found id : Text} (h : id ∈ idsOf found) : IsSourceId id := by
  obtain ⟨⟨captures, matched⟩, hfound, rfl⟩ := List.mem_map.mp h
  obtain ⟨before, rest, hmatch⟩ := (scans_scan consuming_inlineId found).matches_of_found
    (mem_matchAll.mp hfound)
  obtain ⟨_, _, _, digits, rfl, rfl, ⟨rfl, -⟩, _, rfl, hdigits⟩ := hmatch
  obtain ⟨rfl, hnumber⟩ := (describes_number _ _ _ _).mp hdigits
  exact ⟨_, numberOf_lt hnumber, rfl⟩

/-- A citation as the cleaning writes it: known ids without repetition, after one space or none. -/
def IsCanonical (known : List Text) (found : Text) : Prop :=
  ∃ spaced ids, ids ≠ [] ∧ ids.Nodup ∧ (∀ id ∈ ids, id ∈ known ∧ IsSourceId id) ∧
    found = citation spaced ids

variable {known : List Text}

theorem IsCanonical.isCitation {found : Text} (h : IsCanonical known found) : IsCitation found := by
  obtain ⟨spaced, ids, hne, -, hids, rfl⟩ := h
  exact isCitation_citation spaced hne fun id hid ↦ (hids id hid).2

theorem IsCanonical.forall_known {found : Text} (h : IsCanonical known found) :
    ∀ id ∈ idsOf found, id ∈ known := by
  obtain ⟨spaced, ids, -, -, hids, rfl⟩ := h
  rw [idsOf_citation spaced fun id hid ↦ (hids id hid).2]
  exact fun id hid ↦ (hids id hid).1

theorem head?_citation (spaced : Bool) (ids : List Text) :
    (citation spaced ids).head?.any isSpace = spaced := by
  cases spaced <;> rfl

/-- What the cleaning writes is left alone. -/
theorem IsCanonical.rewrite_eq {found : Text} (h : IsCanonical known found) :
    rewrite known found = found := by
  obtain ⟨spaced, ids, hne, hnodup, hids, rfl⟩ := h
  have hfilter : ids.filter known.contains = ids :=
    List.filter_eq_self.mpr fun id hid ↦ List.contains_iff_mem.mpr (hids id hid).1
  have hfirst : firstByKey id ids = ids := firstByKey_of_nodup _ (by rwa [List.map_id])
  calc
    _ = citation ((citation spaced ids).head?.any isSpace) (firstByKey id ids) := by
      rw [rewrite, idsOf_citation spaced fun id hid ↦ (hids id hid).2, hfilter, if_neg hne]
    _ = _ := by rw [head?_citation, hfirst]

/-- A citation with no known id is removed, any other is written with its known ids. -/
theorem rewrite_cases (known : List Text) (found : Text) :
    rewrite known found = [] ∧ (∀ cited ∈ idsOf found, cited ∉ known) ∨
      IsCanonical known (rewrite known found) ∧
        ∀ cited, cited ∈ idsOf (rewrite known found) ↔ cited ∈ idsOf found ∧ cited ∈ known := by
  by_cases hnone : (idsOf found).filter known.contains = []
  · refine .inl ⟨if_pos hnone, fun cited hcited hknown ↦ ?_⟩
    exact List.filter_eq_nil_iff.mp hnone cited hcited (List.contains_iff_mem.mpr hknown)
  · have hmem : ∀ cited, cited ∈ firstByKey id ((idsOf found).filter known.contains) ↔
        cited ∈ idsOf found ∧ cited ∈ known := by
      intro cited
      rw [mem_firstByKey_of_injOn id fun _ _ _ _ h ↦ h, List.mem_filter, List.contains_iff_mem]
    have hids : ∀ cited ∈ firstByKey id ((idsOf found).filter known.contains),
        cited ∈ known ∧ IsSourceId cited := fun cited hcited ↦
      ⟨((hmem cited).mp hcited).2, isSourceId_of_mem_idsOf ((hmem cited).mp hcited).1⟩
    have hne : firstByKey id ((idsOf found).filter known.contains) ≠ [] := by
      obtain ⟨cited, hcited⟩ := List.exists_mem_of_ne_nil _ hnone
      exact List.ne_nil_of_mem ((mem_firstByKey_of_injOn id fun _ _ _ _ h ↦ h).mpr hcited)
    have hnodup := nodup_map_firstByKey id ((idsOf found).filter known.contains)
    rw [List.map_id] at hnodup
    have heq : rewrite known found = citation (found.head?.any isSpace)
        (firstByKey id ((idsOf found).filter known.contains)) := if_neg hnone
    rw [heq]
    refine .inr ⟨⟨_, _, hne, hnodup, hids, rfl⟩, fun cited ↦ ?_⟩
    rw [idsOf_citation _ fun id hid ↦ (hids id hid).2, hmem]

theorem isCanonical_of_rewrite_eq {found : Text} (hne : found ≠ []) (h : rewrite known found = found) :
    IsCanonical known found := by
  rcases rewrite_cases known found with ⟨hnil, -⟩ | ⟨hcanonical, -⟩
  · exact (hne (h.symm.trans hnil)).elim
  · rwa [h] at hcanonical

end MemoFlowApi.Sources
