import MemoFlowApi.Js.JsonText

/-!
# Reading JSON Texts

What is read of a text ends with a unit that is no white space, and does not depend on the text after
it as long as that is not continued.  So white space around a JSON text does not matter.
-/

namespace MemoFlowApi.Js

/-- A unit that is neither white space nor a back quote. -/
def Solid (c : CodeUnit) : Prop := isSpace c = false ∧ c ≠ unitOf '`'

def EndsSolid (used : Text) : Prop := ∃ front c, used = front ++ [c] ∧ Solid c

theorem EndsSolid.append (lead : Text) {used : Text} (h : EndsSolid used) : EndsSolid (lead ++ used) := by
  obtain ⟨front, c, rfl, hc⟩ := h
  exact ⟨lead ++ front, c, (List.append_assoc ..).symm, hc⟩

theorem endsSolid_singleton {c : CodeUnit} (h : Solid c) : EndsSolid [c] := ⟨[], c, rfl, h⟩

/-- Nothing, or what ends with a solid unit. -/
def EndsWell (used : Text) : Prop := used = [] ∨ EndsSolid used

theorem EndsSolid.append_well {used more : Text} (h : EndsSolid used) (hmore : EndsWell more) :
    EndsSolid (used ++ more) := by
  rcases hmore with rfl | hmore
  · rwa [List.append_nil]
  · exact hmore.append used

theorem EndsWell.append {used more : Text} (h : EndsWell used) (hmore : EndsWell more) :
    EndsWell (used ++ more) := by
  rcases h with rfl | h
  · exact hmore
  · exact .inr (h.append_well hmore)

variable {α β : Type}

/-- What is read ends in some way, and is read alike if less follows. -/
def Reads (ends : Text → Prop) (f : Text → Option (α × Text)) : Prop :=
  ∀ text value rest, f text = some (value, rest) →
    ∃ used, text = used ++ rest ∧ ends used ∧ ∀ kept, kept <+: rest → f (used ++ kept) = some (value, kept)

theorem isPrefix_append (used : Text) {kept rest : Text} (h : kept <+: rest) :
    used ++ kept <+: used ++ rest := (List.prefix_append_right_inj used).mpr h

/-! ## Strings and names -/

theorem parseString_unicode (a b c d : CodeUnit) (rest : Text) :
    parseString (backslash :: unitOf 'u' :: a :: b :: c :: d :: rest) =
      (hexUnit a b c d).bind fun unit ↦ (parseString rest).map (unread unit) := by
  rw [parseString.eq_def]
  dsimp only
  rw [if_neg (by decide), if_pos rfl, if_pos rfl]

theorem parseString_letter {letter : CodeUnit} (h : letter ≠ unitOf 'u') (rest : Text) :
    parseString (backslash :: letter :: rest) =
      (shortUnit letter).bind fun unit ↦ (parseString rest).map (unread unit) := by
  rw [parseString.eq_def]
  dsimp only
  rw [if_neg (by decide), if_pos rfl, if_neg h]

theorem map_unread_eq_some {c : CodeUnit} {found : Option (Text × Text)} {value rest : Text}
    (h : found.map (unread c) = some (value, rest)) :
    ∃ value', found = some (value', rest) ∧ value = c :: value' := by
  obtain ⟨⟨value', rest'⟩, hfound, heq⟩ := Option.map_eq_some_iff.mp h
  obtain ⟨rfl, rfl⟩ := Prod.mk.inj heq
  exact ⟨value', hfound, rfl⟩

/-- A string ends with its closing quote, whatever follows. -/
theorem parseString_reads {text value rest : Text} (h : parseString text = some (value, rest)) :
    ∃ front, text = front ++ quoteUnit :: rest ∧
      ∀ kept, parseString (front ++ quoteUnit :: kept) = some (value, kept) := by
  induction text using parseString.induct generalizing value with
  | case1 => cases h
  | case2 rest' =>
    rw [parseString_quote] at h
    cases h
    exact ⟨[], rfl, parseString_quote⟩
  | case3 =>
    rw [parseString.eq_def] at h
    cases h
  | case4 a b c d more _ ih =>
    rw [parseString_unicode] at h
    obtain ⟨unit, hunit, h⟩ := Option.bind_eq_some_iff.mp h
    obtain ⟨value, hvalue, rfl⟩ := map_unread_eq_some h
    obtain ⟨front, rfl, hkept⟩ := ih hvalue
    refine ⟨backslash :: unitOf 'u' :: a :: b :: c :: d :: front, rfl, fun kept ↦ ?_⟩
    simp only [List.cons_append]
    rw [parseString_unicode, hunit, Option.bind_some, hkept]
    rfl
  | case5 more hshort _ =>
    rw [parseString.eq_def] at h
    dsimp only at h
    rw [if_neg (by decide), if_pos rfl, if_pos rfl] at h
    split at h
    · exact absurd rfl (hshort _ _ _ _ _)
    · cases h
  | case6 letter more hletter _ ih =>
    rw [parseString_letter hletter] at h
    obtain ⟨unit, hunit, h⟩ := Option.bind_eq_some_iff.mp h
    obtain ⟨value, hvalue, rfl⟩ := map_unread_eq_some h
    obtain ⟨front, rfl, hkept⟩ := ih hvalue
    refine ⟨backslash :: letter :: front, rfl, fun kept ↦ ?_⟩
    simp only [List.cons_append]
    rw [parseString_letter hletter, hunit, Option.bind_some, hkept]
    rfl
  | case7 c more hquote hslash hcontrol =>
    rw [parseString.eq_def] at h
    dsimp only at h
    rw [if_neg hquote, if_neg hslash, if_pos hcontrol] at h
    cases h
  | case8 c more hquote hslash hcontrol ih =>
    rw [parseString_plain hquote hslash hcontrol] at h
    obtain ⟨value, hvalue, rfl⟩ := map_unread_eq_some h
    obtain ⟨front, rfl, hkept⟩ := ih hvalue
    refine ⟨c :: front, rfl, fun kept ↦ ?_⟩
    rw [List.cons_append, parseString_plain hquote hslash hcontrol, hkept]
    rfl

theorem dropLead_eq_some {lead text rest : Text} (h : dropLead lead text = some rest) :
    text = lead ++ rest := by
  unfold dropLead at h
  split_ifs at h with hlead
  obtain ⟨rest', rfl⟩ := List.isPrefixOf_iff_prefix.mp hlead
  rw [List.drop_left] at h
  rw [Option.some.inj h]

theorem parseName_eq_some {name text rest : Text} {value found : JsonValue}
    (h : parseName name value text = some (found, rest)) : text = name ++ rest ∧ found = value := by
  obtain ⟨rest', hlead, heq⟩ := Option.map_eq_some_iff.mp h
  obtain ⟨rfl, rfl⟩ := Prod.mk.inj heq
  exact ⟨dropLead_eq_some hlead, rfl⟩

/-! ## Numbers -/

theorem solid_of_isDigit {c : CodeUnit} (h : isDigit c = true) : Solid c := by
  have hall : spaces.all (fun c ↦ !isDigit c) = true := by decide
  constructor
  · by_contra hspace
    rw [Bool.not_eq_false] at hspace
    have := List.all_eq_true.mp hall c (List.contains_iff_mem.mp hspace)
    rw [h] at this
    cases this
  · rintro rfl
    exact absurd h (by decide)

/-- What is left after a run of units begins with no such unit, and so does less of it. -/
theorem takeWhile_of_prefix_dropWhile {p : CodeUnit → Bool} {text kept : Text}
    (h : kept <+: text.dropWhile p) : kept.takeWhile p = [] ∧ kept.dropWhile p = kept := by
  cases kept with
  | nil => exact ⟨rfl, rfl⟩
  | cons c kept =>
    obtain ⟨more, hmore⟩ := h
    have hne : text.dropWhile p ≠ [] := by
      rw [← hmore]
      exact List.cons_ne_nil _ _
    have hhead := List.head_dropWhile_not p hne
    simp only [← hmore, List.cons_append, List.head_cons] at hhead
    exact ⟨List.takeWhile_cons_of_neg (by rw [hhead]; exact Bool.false_ne_true),
      List.dropWhile_cons_of_neg (by rw [hhead]; exact Bool.false_ne_true)⟩

theorem parseDigits_reads : Reads EndsSolid parseDigits := by
  intro text value rest h
  unfold parseDigits at h
  split_ifs at h with hnil
  obtain ⟨rfl, rfl⟩ := Prod.mk.inj (Option.some.inj h)
  have hdigits : ∀ c ∈ text.takeWhile isDigit, isDigit c = true := fun c hc ↦ List.mem_takeWhile_imp hc
  refine ⟨text.takeWhile isDigit, (List.takeWhile_append_dropWhile).symm, ?_, fun kept hkept ↦ ?_⟩
  · refine ⟨_, _, (List.dropLast_append_getLast hnil).symm, ?_⟩
    exact solid_of_isDigit (hdigits _ (List.getLast_mem hnil))
  · obtain ⟨htake, hdrop⟩ := takeWhile_of_prefix_dropWhile hkept
    unfold parseDigits
    rw [List.takeWhile_append_of_pos hdigits, List.dropWhile_append_of_pos hdigits, htake, hdrop,
      List.append_nil, if_neg hnil]

section Composition

variable {ends ends' : Text → Prop} {f : Text → Option (α × Text)}

theorem Reads.map (h : Reads ends f) (convert : α → β) :
    Reads ends fun text ↦ (f text).map fun found ↦ (convert found.1, found.2) := by
  intro text value rest hfound
  obtain ⟨⟨first, rest'⟩, hfirst, heq⟩ := Option.map_eq_some_iff.mp hfound
  obtain ⟨rfl, rfl⟩ := Prod.mk.inj heq
  obtain ⟨used, htext, hends, hkept⟩ := h _ _ _ hfirst
  refine ⟨used, htext, hends, fun kept hprefix ↦ ?_⟩
  dsimp only
  rw [hkept kept hprefix]
  rfl

theorem Reads.bind {ends₁ ends₂ : Text → Prop} (hf : Reads ends₁ f)
    {g : α → Text → Option (β × Text)} (hg : ∀ first, Reads ends₂ (g first))
    (hends : ∀ used used', ends₁ used → ends₂ used' → ends (used ++ used')) :
    Reads ends fun text ↦ (f text).bind fun found ↦ g found.1 found.2 := by
  intro text value rest hfound
  obtain ⟨⟨first, middle⟩, hfirst, hsecond⟩ := Option.bind_eq_some_iff.mp hfound
  obtain ⟨used, rfl, hused, hkept⟩ := hf _ _ _ hfirst
  obtain ⟨used', rfl, hused', hkept'⟩ := hg _ _ _ _ hsecond
  refine ⟨used ++ used', (List.append_assoc ..).symm, hends _ _ hused hused', fun kept hprefix ↦ ?_⟩
  dsimp only
  rw [List.append_assoc, hkept _ (isPrefix_append used' hprefix)]
  exact hkept' kept hprefix

end Composition

theorem parseSign_reads (signs : List CodeUnit) :
    Reads (fun _ ↦ True) fun text ↦ some (parseSign signs text) := by
  intro text value rest h
  have h : parseSign signs text = (value, rest) := Option.some.inj h
  cases text with
  | nil =>
    obtain ⟨rfl, rfl⟩ := Prod.mk.inj h
    exact ⟨[], rfl, trivial, fun kept hkept ↦ by rw [List.prefix_nil.mp hkept]; rfl⟩
  | cons c text =>
    rw [parseSign] at h
    split_ifs at h with hc
    · obtain ⟨rfl, rfl⟩ := Prod.mk.inj h
      refine ⟨[c], rfl, trivial, fun kept _ ↦ ?_⟩
      rw [List.singleton_append]
      dsimp only [parseSign]
      rw [if_pos hc]
    · obtain ⟨rfl, rfl⟩ := Prod.mk.inj h
      refine ⟨[], rfl, trivial, fun kept hkept ↦ ?_⟩
      cases kept with
      | nil => rfl
      | cons d kept =>
        obtain ⟨rfl, -⟩ := List.cons_prefix_cons.mp hkept
        rw [List.nil_append]
        dsimp only [parseSign]
        rw [if_neg hc]

theorem parseWhole_reads : Reads EndsSolid parseWhole := by
  intro text value rest h
  cases text with
  | nil => cases h
  | cons c text =>
    rw [parseWhole] at h
    split_ifs at h with hc
    · obtain ⟨rfl, rfl⟩ := Prod.mk.inj (Option.some.inj h)
      refine ⟨[c], rfl, endsSolid_singleton (hc ▸ solid_of_isDigit (by decide)), fun kept _ ↦ ?_⟩
      rw [List.singleton_append, parseWhole, if_pos hc]
    · obtain ⟨used, htext, hends, hkept⟩ := parseDigits_reads _ _ _ h
      refine ⟨used, htext, hends, fun kept hprefix ↦ ?_⟩
      rw [← hkept kept hprefix]
      cases used with
      | nil =>
        obtain ⟨front, c, hnil, -⟩ := hends
        exact absurd hnil.symm (by simp)
      | cons d used =>
        obtain ⟨rfl, -⟩ := List.cons.inj htext
        rw [List.cons_append, parseWhole, if_neg hc]

/-- A part of a number that a unit announces, and that may be missing. -/
theorem reads_optional {announces : CodeUnit → Bool} {f : CodeUnit → Text → Option (Text × Text)}
    {g : Text → Option (Text × Text)} (hf : ∀ c, Reads EndsSolid (f c)) (hnil : g [] = some ([], []))
    (hcons : ∀ c text, g (c :: text) = if announces c then f c text else some ([], c :: text)) :
    Reads EndsWell g := by
  intro text value rest h
  cases text with
  | nil =>
    rw [hnil] at h
    obtain ⟨rfl, rfl⟩ := Prod.mk.inj (Option.some.inj h)
    exact ⟨[], rfl, .inl rfl, fun kept hkept ↦ by rw [List.prefix_nil.mp hkept]; exact hnil⟩
  | cons c text =>
    rw [hcons] at h
    split_ifs at h with hc
    · obtain ⟨used, rfl, hends, hkept⟩ := hf c _ _ _ h
      refine ⟨c :: used, rfl, .inr (hends.append [c]), fun kept hprefix ↦ ?_⟩
      rw [List.cons_append, hcons, if_pos hc, hkept kept hprefix]
    · obtain ⟨rfl, rfl⟩ := Prod.mk.inj (Option.some.inj h)
      refine ⟨[], rfl, .inl rfl, fun kept hkept ↦ ?_⟩
      cases kept with
      | nil => exact hnil
      | cons d kept =>
        obtain ⟨rfl, -⟩ := List.cons_prefix_cons.mp hkept
        rw [List.nil_append, hcons, if_neg hc]

theorem parseFraction_reads : Reads EndsWell parseFraction := by
  have hdigits (c : CodeUnit) := parseDigits_reads.map (c :: ·)
  exact @reads_optional (· = unitOf '.') _ parseFraction hdigits rfl fun c text ↦ by
    simp only [decide_eq_true_eq]
    rfl

theorem parseExponent_reads : Reads EndsWell parseExponent := by
  have hdigits (c : CodeUnit) (sign : Text) := parseDigits_reads.map fun digits ↦ c :: (sign ++ digits)
  have hsigned (c : CodeUnit) := (parseSign_reads [unitOf '+', unitOf '-']).bind (hdigits c)
    fun sign _ _ h ↦ h.append sign
  exact reads_optional hsigned rfl fun _ _ ↦ rfl

theorem parseNumber_reads : Reads EndsSolid parseNumber := by
  have hexponent (sign whole fraction : Text) := parseExponent_reads.map fun exponent ↦
    JsonValue.number (sign ++ (whole ++ (fraction ++ exponent)))
  have hfraction (sign whole : Text) := parseFraction_reads.bind (hexponent sign whole)
    fun _ _ h h' ↦ h.append h'
  have hwhole (sign : Text) := parseWhole_reads.bind (hfraction sign) fun _ _ h h' ↦ h.append_well h'
  have hnumber := (parseSign_reads [unitOf '-']).bind hwhole fun sign _ _ h ↦ h.append sign
  convert hnumber using 1
  funext text
  simp only [parseNumber, Option.map_eq_bind, Option.bind_some]
  rfl

/-! ## Values -/

/-- What is read with some fuel ends with a solid unit, and is read alike if less follows and with as
much fuel as its length needs. -/
def ReadsWithin (f : ℕ → Text → Option (α × Text)) (fuel : ℕ) : Prop :=
  ∀ text value rest, f fuel text = some (value, rest) →
    ∃ used, text = used ++ rest ∧ EndsSolid used ∧
      ∀ kept, kept <+: rest → ∀ more, used.length < more → f more (used ++ kept) = some (value, kept)

theorem skipSpace_append {lead : Text} (h : ∀ c ∈ lead, isJsonSpace c = true) (text : Text) :
    skipSpace (lead ++ text) = skipSpace text := List.dropWhile_append_of_pos h

theorem exists_skipSpace (text : Text) :
    ∃ lead, (∀ c ∈ lead, isJsonSpace c = true) ∧ text = lead ++ skipSpace text :=
  ⟨text.takeWhile isJsonSpace, fun _ hc ↦ List.mem_takeWhile_imp hc,
    List.takeWhile_append_dropWhile.symm⟩

theorem isJsonSpace_of_skipSpace {text rest : Text} {c : CodeUnit} (h : skipSpace text = c :: rest) :
    isJsonSpace c = false := by
  have hne : List.dropWhile isJsonSpace text ≠ [] := by
    change skipSpace text ≠ []
    rw [h]
    exact List.cons_ne_nil _ _
  have hhead := List.head_dropWhile_not isJsonSpace hne
  have hsome : (skipSpace text).head? = some c := by rw [h]; rfl
  rwa [Option.some.inj ((List.head?_eq_some_head hne).symm.trans hsome)] at hhead

theorem parseValue_append {lead : Text} (h : ∀ c ∈ lead, isJsonSpace c = true) (fuel : ℕ) (text : Text) :
    parseValue fuel (lead ++ text) = parseValue fuel text := by
  cases fuel with
  | zero => rw [parseValue, parseValue]
  | succ fuel => rw [parseValue, parseValue, skipSpace_append h]

/-- Where a unit ends what was read, white space before it does not matter. -/
theorem exists_of_skipSpace {text rest : Text} {c : CodeUnit} (h : skipSpace text = c :: rest) :
    ∃ lead, text = lead ++ c :: rest ∧ ∀ kept, skipSpace (lead ++ c :: kept) = c :: kept := by
  obtain ⟨lead, hlead, htext⟩ := exists_skipSpace text
  rw [h] at htext
  refine ⟨lead, htext, fun kept ↦ ?_⟩
  rw [skipSpace_append hlead, skipSpace_cons (isJsonSpace_of_skipSpace h)]

theorem dropLead_eq_none_of_parseMembers {fuel : ℕ} {text : Text}
    {found : List (Text × JsonValue) × Text} (h : parseMembers fuel text = some found) :
    dropLead [unitOf '}'] (skipSpace text) = none := by
  cases fuel with
  | zero =>
    rw [parseMembers] at h
    cases h
  | succ fuel =>
    rw [parseMembers] at h
    obtain ⟨inner, hinner, -⟩ := Option.bind_eq_some_iff.mp h
    rw [dropLead_eq_some hinner]
    rfl

theorem solid_closing {c : CodeUnit} (h : c ∈ [quoteUnit, unitOf ']', unitOf '}']) : Solid c := by
  have hall : [quoteUnit, unitOf ']', unitOf '}'].all (fun c ↦ !isSpace c && c != unitOf '`') = true := by
    decide
  have hc := List.all_eq_true.mp hall c h
  rw [Bool.and_eq_true, Bool.not_eq_true', bne_iff_ne] at hc
  exact hc

/-- What follows an item or a member: others after a comma, or the end. -/
def parseTail (close : CodeUnit) (others : Text → Option (List α × Text)) (first : α) (text : Text) :
    Option (List α × Text) :=
  match skipSpace text with
  | [] => none
  | c :: rest =>
    if c = unitOf ',' then (others rest).map fun others ↦ (first :: others.1, others.2)
    else if c = close then some ([first], rest)
    else none

theorem parseTail_append {close c : CodeUnit} {lead : Text} {rest : Text}
    (h : skipSpace (lead ++ c :: rest) = c :: rest) (others : Text → Option (List α × Text)) (first : α) :
    parseTail close others first (lead ++ c :: rest) =
      if c = unitOf ',' then (others rest).map fun others ↦ (first :: others.1, others.2)
      else if c = close then some ([first], rest)
      else none := by
  unfold parseTail
  rw [h]

theorem readsWithin_tail {close : CodeUnit} (hclose : Solid close)
    {others : ℕ → Text → Option (List α × Text)} {fuel : ℕ} (h : ReadsWithin others fuel) (first : α) :
    ReadsWithin (fun fuel ↦ parseTail close (others fuel) first) fuel := by
  intro text entries rest hfound
  have hfound : parseTail close (others fuel) first text = some (entries, rest) := hfound
  cases hskip : skipSpace text with
  | nil =>
    unfold parseTail at hfound
    rw [hskip] at hfound
    cases hfound
  | cons c next =>
    obtain ⟨lead, rfl, hagain⟩ := exists_of_skipSpace hskip
    rw [parseTail_append hskip] at hfound
    split_ifs at hfound with hcomma hend
    · obtain ⟨⟨entries, rest⟩, hothers, heq⟩ := Option.map_eq_some_iff.mp hfound
      obtain ⟨rfl, rfl⟩ := Prod.mk.inj heq
      obtain ⟨used, rfl, hused, hkept⟩ := h _ _ _ hothers
      refine ⟨lead ++ c :: used, by simp, (hused.append [c]).append lead, fun kept hprefix more hmore ↦ ?_⟩
      simp only [List.length_append, List.length_cons] at hmore
      rw [List.append_assoc, List.cons_append]
      dsimp only
      rw [parseTail_append (hagain _), if_pos hcomma, hkept kept hprefix more (by omega)]
      rfl
    · obtain ⟨rfl, rfl⟩ := Prod.mk.inj (Option.some.inj hfound)
      have hends : EndsSolid [c] := endsSolid_singleton (hend ▸ hclose)
      refine ⟨lead ++ [c], by simp, hends.append lead, fun kept _ more _ ↦ ?_⟩
      rw [List.append_assoc, List.singleton_append]
      dsimp only
      rw [parseTail_append (hagain _), if_neg hcomma, if_pos hend]

theorem EndsSolid.length_pos {used : Text} (h : EndsSolid used) : 0 < used.length := by
  obtain ⟨front, c, rfl, -⟩ := h
  simp

/-- What is read in two parts takes fuel for more than either of them. -/
theorem ReadsWithin.bind {fuel : ℕ} {f : ℕ → Text → Option (α × Text)}
    {g : α → ℕ → Text → Option (β × Text)} {F : ℕ → Text → Option (β × Text)}
    (hf : ReadsWithin f fuel) (hg : ∀ first, ReadsWithin (g first) fuel)
    (hF : ∀ fuel text, F (fuel + 1) text = (f fuel text).bind fun found ↦ g found.1 fuel found.2) :
    ReadsWithin F (fuel + 1) := by
  intro text value rest h
  rw [hF] at h
  obtain ⟨⟨first, middle⟩, hfirst, hsecond⟩ := Option.bind_eq_some_iff.mp h
  obtain ⟨used, rfl, hused, hkept⟩ := hf _ _ _ hfirst
  obtain ⟨used', rfl, hused', hkept'⟩ := hg _ _ _ _ hsecond
  refine ⟨used ++ used', (List.append_assoc ..).symm, hused'.append used, fun kept hprefix more hmore ↦ ?_⟩
  rw [List.length_append] at hmore
  have hpos := hused.length_pos
  have hpos' := hused'.length_pos
  cases more with
  | zero => cases hmore
  | succ more =>
    rw [hF, List.append_assoc, hkept _ (isPrefix_append used' hprefix) more (by omega)]
    exact hkept' kept hprefix more (by omega)

theorem readsWithin_items {fuel : ℕ} (hvalue : ReadsWithin parseValue fuel)
    (hitems : ReadsWithin parseItems fuel) : ReadsWithin parseItems (fuel + 1) :=
  hvalue.bind (readsWithin_tail (solid_closing (by simp)) hitems) fun _ _ ↦ rfl

/-- The name of a member, to the colon. -/
def parseKey (text : Text) : Option (Text × Text) :=
  (dropLead [quoteUnit] (skipSpace text)).bind fun inner ↦
    (parseString inner).bind fun name ↦
      (dropLead [unitOf ':'] (skipSpace name.2)).map fun rest ↦ (name.1, rest)

theorem parseKey_reads : Reads (fun _ ↦ True) parseKey := by
  intro text name rest h
  obtain ⟨inner, hquote, h⟩ := Option.bind_eq_some_iff.mp h
  obtain ⟨⟨name, middle⟩, hname, h⟩ := Option.bind_eq_some_iff.mp h
  obtain ⟨rest, hcolon, heq⟩ := Option.map_eq_some_iff.mp h
  obtain ⟨rfl, rfl⟩ := Prod.mk.inj heq
  obtain ⟨lead, rfl, hlead⟩ := exists_of_skipSpace (dropLead_eq_some hquote)
  obtain ⟨front, rfl, hfront⟩ := parseString_reads hname
  obtain ⟨gap, rfl, hgap⟩ := exists_of_skipSpace (dropLead_eq_some hcolon)
  refine ⟨lead ++ quoteUnit :: (front ++ quoteUnit :: (gap ++ [unitOf ':'])), by simp, trivial,
    fun kept _ ↦ ?_⟩
  have hsame : lead ++ quoteUnit :: (front ++ quoteUnit :: (gap ++ [unitOf ':'])) ++ kept =
      lead ++ quoteUnit :: (front ++ quoteUnit :: (gap ++ unitOf ':' :: kept)) := by simp
  have hdrop := dropLead_append [quoteUnit] (front ++ quoteUnit :: (gap ++ unitOf ':' :: kept))
  have hdrop' := dropLead_append [unitOf ':'] kept
  rw [List.singleton_append] at hdrop hdrop'
  rw [hsame, parseKey, hlead, hdrop, Option.bind_some, hfront, Option.bind_some, hgap, hdrop']
  rfl

/-- A member, with its name. -/
def parseMember (fuel : ℕ) (text : Text) : Option ((Text × JsonValue) × Text) :=
  (parseKey text).bind fun key ↦ (parseValue fuel key.2).map fun found ↦ ((key.1, found.1), found.2)

theorem readsWithin_member {fuel : ℕ} (h : ReadsWithin parseValue fuel) : ReadsWithin parseMember fuel := by
  intro text member rest hfound
  obtain ⟨⟨name, middle⟩, hname, hmap⟩ := Option.bind_eq_some_iff.mp hfound
  obtain ⟨⟨value, rest⟩, hvalue, heq⟩ := Option.map_eq_some_iff.mp hmap
  obtain ⟨rfl, rfl⟩ := Prod.mk.inj heq
  obtain ⟨used, rfl, -, hkept⟩ := parseKey_reads _ _ _ hname
  obtain ⟨used', rfl, hused', hkept'⟩ := h _ _ _ hvalue
  refine ⟨used ++ used', (List.append_assoc ..).symm, hused'.append used, fun kept hprefix more hmore ↦ ?_⟩
  rw [List.length_append] at hmore
  rw [parseMember, List.append_assoc, hkept _ (isPrefix_append used' hprefix), Option.bind_some,
    hkept' kept hprefix more (by omega)]
  rfl

theorem parseMembers_eq (fuel : ℕ) (text : Text) :
    parseMembers (fuel + 1) text =
      (parseMember fuel text).bind fun first ↦
        parseTail (unitOf '}') (parseMembers fuel) first.1 first.2 := by
  simp only [parseMembers, parseMember, parseKey, Option.bind_assoc, Option.bind_map,
    Function.comp_apply]
  rfl

theorem readsWithin_members {fuel : ℕ} (hvalue : ReadsWithin parseValue fuel)
    (hmembers : ReadsWithin parseMembers fuel) : ReadsWithin parseMembers (fuel + 1) :=
  (readsWithin_member hvalue).bind (readsWithin_tail (solid_closing (by simp)) hmembers) parseMembers_eq

theorem solid_of_parseNumber {c : CodeUnit} {rest : Text} {found : JsonValue × Text}
    (h : parseNumber (c :: rest) = some found) : Solid c := by
  by_cases hsign : c = unitOf '-'
  · subst hsign
    exact ⟨by decide, by decide⟩
  · have hempty : parseSign [unitOf '-'] (c :: rest) = ([], c :: rest) := by
      rw [parseSign.eq_def]
      exact if_neg (by simpa using hsign)
    unfold parseNumber at h
    rw [hempty] at h
    obtain ⟨whole, hwhole, -⟩ := Option.bind_eq_some_iff.mp h
    by_cases hzero : c = unitOf '0'
    · subst hzero
      exact ⟨by decide, by decide⟩
    · rw [parseWhole, if_neg hzero, parseDigits] at hwhole
      split_ifs at hwhole with hnil
      apply solid_of_isDigit
      by_contra hdigit
      exact hnil (List.takeWhile_cons_of_neg hdigit)

/-- An array or an object after its opening. -/
def parseNested (close : CodeUnit) (wrap : List α → JsonValue)
    (inner : ℕ → Text → Option (List α × Text)) (fuel : ℕ) (text : Text) : Option (JsonValue × Text) :=
  match dropLead [close] (skipSpace text) with
  | some rest => some (wrap [], rest)
  | none => (inner fuel text).map fun found ↦ (wrap found.1, found.2)

theorem readsWithin_nested {close : CodeUnit} (hclose : Solid close) (wrap : List α → JsonValue)
    {inner : ℕ → Text → Option (List α × Text)}
    (hnone : ∀ {fuel text found}, inner fuel text = some found → dropLead [close] (skipSpace text) = none)
    {fuel : ℕ} (h : ReadsWithin inner fuel) : ReadsWithin (parseNested close wrap inner) fuel := by
  intro text value rest hfound
  unfold parseNested at hfound
  cases hempty : dropLead [close] (skipSpace text) with
  | some after =>
    rw [hempty] at hfound
    obtain ⟨rfl, rfl⟩ := Prod.mk.inj (Option.some.inj hfound)
    obtain ⟨lead, rfl, hagain⟩ := exists_of_skipSpace (dropLead_eq_some hempty)
    refine ⟨lead ++ [close], by simp, (endsSolid_singleton hclose).append lead, fun kept _ more _ ↦ ?_⟩
    have hdrop := dropLead_append [close] kept
    rw [List.singleton_append] at hdrop
    rw [List.append_assoc, List.singleton_append, parseNested, hagain, hdrop]
  | none =>
    rw [hempty] at hfound
    obtain ⟨⟨entries, rest⟩, hentries, heq⟩ := Option.map_eq_some_iff.mp hfound
    obtain ⟨rfl, rfl⟩ := Prod.mk.inj heq
    obtain ⟨used, rfl, hused, hkept⟩ := h _ _ _ hentries
    refine ⟨used, rfl, hused, fun kept hprefix more hmore ↦ ?_⟩
    have hagain := hkept kept hprefix more hmore
    rw [parseNested, hnone hagain, hagain]
    rfl

/-- A value that begins with a unit is read to a solid end. -/
def ReadsFrom (fuel : ℕ) (c : CodeUnit) : Prop :=
  ∀ next value rest, parseValue (fuel + 1) (c :: next) = some (value, rest) →
    ∃ used, next = used ++ rest ∧ EndsSolid (c :: used) ∧
      ∀ kept, kept <+: rest → ∀ more, used.length < more →
        parseValue (more + 1) (c :: (used ++ kept)) = some (value, kept)

theorem readsFrom_of_within {c : CodeUnit} {fuel : ℕ} {f : ℕ → Text → Option (JsonValue × Text)}
    (h : ReadsWithin f fuel) (heq : ∀ fuel text, parseValue (fuel + 1) (c :: text) = f fuel text) :
    ReadsFrom fuel c := by
  intro next value rest hfound
  rw [heq] at hfound
  obtain ⟨used, rfl, hused, hkept⟩ := h _ _ _ hfound
  refine ⟨used, rfl, hused.append [c], fun kept hprefix more hmore ↦ ?_⟩
  rw [heq, hkept kept hprefix more hmore]

theorem readsFrom_of_reads {c : CodeUnit} {f : Text → Option (JsonValue × Text)}
    (h : Reads EndsSolid f) (heq : ∀ fuel text, parseValue (fuel + 1) (c :: text) = f (c :: text))
    (fuel : ℕ) : ReadsFrom fuel c := by
  intro next value rest hfound
  rw [heq] at hfound
  obtain ⟨used, htext, hused, hkept⟩ := h _ _ _ hfound
  cases used with
  | nil => exact absurd hused.length_pos (lt_irrefl 0)
  | cons d used =>
    obtain ⟨rfl, hnext⟩ := List.cons.inj htext
    refine ⟨used, hnext, hused, fun kept hprefix more _ ↦ ?_⟩
    rw [heq]
    exact hkept kept hprefix

theorem parseName_reads {name : Text} (hname : EndsSolid name) (value : JsonValue) :
    Reads EndsSolid (parseName name value) := by
  intro text found rest h
  obtain ⟨rfl, rfl⟩ := parseName_eq_some h
  exact ⟨name, rfl, hname, fun kept _ ↦ parseName_append⟩

theorem parseQuoted_reads :
    Reads EndsSolid fun text ↦ (parseString text).map fun found ↦ (JsonValue.string found.1, found.2) := by
  intro text value rest h
  obtain ⟨⟨string, rest⟩, hstring, heq⟩ := Option.map_eq_some_iff.mp h
  obtain ⟨rfl, rfl⟩ := Prod.mk.inj heq
  obtain ⟨front, rfl, hkept⟩ := parseString_reads hstring
  have hends : EndsSolid [quoteUnit] := endsSolid_singleton (solid_closing (by simp))
  refine ⟨front ++ [quoteUnit], by simp, hends.append front, fun kept _ ↦ ?_⟩
  dsimp only
  rw [List.append_assoc, List.singleton_append, hkept]
  rfl

theorem Reads.within {f : Text → Option (α × Text)} (h : Reads EndsSolid f) (fuel : ℕ) :
    ReadsWithin (fun _ ↦ f) fuel := by
  intro text value rest hfound
  obtain ⟨used, htext, hused, hkept⟩ := h _ _ _ hfound
  exact ⟨used, htext, hused, fun kept hprefix _ _ ↦ hkept kept hprefix⟩

/-- A value begins with a solid unit. -/
theorem readsFrom {fuel : ℕ} (hitems : ReadsWithin parseItems fuel)
    (hmembers : ReadsWithin parseMembers fuel) {c : CodeUnit} (hspace : isJsonSpace c = false) :
    ReadsFrom fuel c := by
  by_cases hquote : c = quoteUnit
  · subst hquote
    exact readsFrom_of_within (parseQuoted_reads.within fuel) fun _ _ ↦ rfl
  by_cases hbracket : c = unitOf '['
  · subst hbracket
    exact readsFrom_of_within (readsWithin_nested (solid_closing (by simp)) .array
      dropLead_eq_none_of_parseItems hitems) fun _ _ ↦ rfl
  by_cases hbrace : c = unitOf '{'
  · subst hbrace
    exact readsFrom_of_within (readsWithin_nested (solid_closing (by simp)) .object
      dropLead_eq_none_of_parseMembers hmembers) fun _ _ ↦ rfl
  have hname {name : Text} (value : JsonValue) (hname : EndsSolid name)
      (heq : ∀ fuel text, parseValue (fuel + 1) (c :: text) = parseName name value (c :: text)) :
      ReadsFrom fuel c := readsFrom_of_reads (parseName_reads hname value) heq fuel
  by_cases hnull : c = unitOf 'n'
  · subst hnull
    exact hname .null ⟨Text.of "nul", unitOf 'l', rfl, by decide, by decide⟩ fun _ _ ↦ rfl
  by_cases htrue : c = unitOf 't'
  · subst htrue
    exact hname (.bool true) ⟨Text.of "tru", unitOf 'e', rfl, by decide, by decide⟩ fun _ _ ↦ rfl
  by_cases hfalse : c = unitOf 'f'
  · subst hfalse
    exact hname (.bool false) ⟨Text.of "fals", unitOf 'e', rfl, by decide, by decide⟩ fun _ _ ↦ rfl
  refine readsFrom_of_reads parseNumber_reads (fun fuel text ↦ ?_) fuel
  rw [parseValue, skipSpace_cons hspace]
  dsimp only
  rw [if_neg hquote, if_neg hbracket, if_neg hbrace, if_neg hnull, if_neg htrue, if_neg hfalse]

theorem solid_of_parseValue {fuel : ℕ} {c : CodeUnit} (hspace : isJsonSpace c = false) {next : Text}
    {found : JsonValue × Text} (h : parseValue fuel (c :: next) = some found) : Solid c := by
  cases fuel with
  | zero =>
    rw [parseValue] at h
    cases h
  | succ fuel =>
    rw [parseValue, skipSpace_cons hspace] at h
    dsimp only at h
    split_ifs at h with hquote hbracket hbrace hnull htrue hfalse
    · exact hquote ▸ ⟨by decide, by decide⟩
    · exact hbracket ▸ ⟨by decide, by decide⟩
    · exact hbrace ▸ ⟨by decide, by decide⟩
    · exact hnull ▸ ⟨by decide, by decide⟩
    · exact htrue ▸ ⟨by decide, by decide⟩
    · exact hfalse ▸ ⟨by decide, by decide⟩
    · exact solid_of_parseNumber h

theorem readsWithin_value {fuel : ℕ} (hitems : ReadsWithin parseItems fuel)
    (hmembers : ReadsWithin parseMembers fuel) : ReadsWithin parseValue (fuel + 1) := by
  intro text value rest h
  obtain ⟨lead, hlead, htext⟩ := exists_skipSpace text
  rw [htext, parseValue_append hlead] at h
  cases hskip : skipSpace text with
  | nil =>
    rw [hskip, parseValue] at h
    cases h
  | cons c next =>
    rw [hskip] at h htext
    obtain ⟨used, rfl, hused, hkept⟩ :=
      readsFrom hitems hmembers (isJsonSpace_of_skipSpace hskip) next value rest h
    refine ⟨lead ++ c :: used, by rw [htext]; simp, hused.append lead, fun kept hprefix more hmore ↦ ?_⟩
    simp only [List.length_append, List.length_cons] at hmore
    cases more with
    | zero => cases hmore
    | succ more =>
      rw [List.append_assoc, List.cons_append, parseValue_append hlead]
      exact hkept kept hprefix more (by omega)

theorem readsWithin (fuel : ℕ) :
    ReadsWithin parseValue fuel ∧ ReadsWithin parseItems fuel ∧ ReadsWithin parseMembers fuel := by
  induction fuel with
  | zero =>
    refine ⟨fun text value rest h ↦ ?_, fun text items rest h ↦ ?_, fun text members rest h ↦ ?_⟩
    · rw [parseValue] at h
      cases h
    · rw [parseItems] at h
      cases h
    · rw [parseMembers] at h
      cases h
  | succ fuel ih =>
    obtain ⟨hvalue, hitems, hmembers⟩ := ih
    exact ⟨readsWithin_value hitems hmembers, readsWithin_items hvalue hitems,
      readsWithin_members hvalue hmembers⟩

/-- A JSON text is the text of its value between white space, and is parsed to that value without it. -/
theorem exists_of_parse {text : Text} {value : JsonValue} (h : parse text = some value) :
    ∃ lead core trail, text = lead ++ core ++ trail ∧ (∀ c ∈ lead, isJsonSpace c = true) ∧
      (∀ c ∈ trail, isJsonSpace c = true) ∧ (∃ c rest, core = c :: rest ∧ Solid c) ∧ EndsSolid core ∧
      parse core = some value := by
  obtain ⟨⟨found, trail⟩, hvalue, hend⟩ := Option.bind_eq_some_iff.mp h
  split_ifs at hend with hblank
  obtain rfl := Option.some.inj hend
  obtain ⟨lead, hlead, htext⟩ := exists_skipSpace text
  cases hskip : skipSpace text with
  | nil =>
    rw [htext, parseValue_append hlead, hskip, parseValue] at hvalue
    cases hvalue
  | cons c next =>
    rw [hskip] at htext
    have hspace := isJsonSpace_of_skipSpace hskip
    rw [htext, parseValue_append hlead] at hvalue
    obtain ⟨-, hitems, hmembers⟩ := readsWithin (lead ++ c :: next).length
    obtain ⟨used, rfl, hused, hkept⟩ := readsFrom hitems hmembers hspace next found trail hvalue
    refine ⟨lead, c :: used, trail, by rw [htext]; simp, hlead, List.dropWhile_eq_nil_iff.mp hblank,
      ⟨c, used, rfl, solid_of_parseValue hspace hvalue⟩, hused, ?_⟩
    have hcore := hkept [] List.nil_prefix (used.length + 1) (Nat.lt_succ_self _)
    rw [List.append_nil] at hcore
    rw [parse, List.length_cons, hcore]
    rfl

end MemoFlowApi.Js
