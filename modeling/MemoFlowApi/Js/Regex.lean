import Mathlib.Computability.Language

/-!
# Regular Expressions

Patterns with the backtracking semantics of JavaScript: the ways in which a pattern matches a text, in
the order in which the engine tries them, of which a search takes the first.  What a pattern matches
is described without that order.
-/

namespace MemoFlowApi.Js

variable {α : Type*}

inductive Regex (α : Type*) where
  | empty
  | unit (accepts : α → Bool)
  /-- An assertion on the unit before and the text after. -/
  | look (holds : Option α → List α → Bool)
  | seq (first second : Regex α)
  | alt (first second : Regex α)
  /-- As many repetitions as possible. -/
  | star (body : Regex α)
  | capture (body : Regex α)

/-- A way to match: what the groups captured, the text matched and the text after it. -/
@[ext]
structure Match (α : Type*) where
  captures : List (List α)
  text : List α
  rest : List α

namespace Match

def nothing (text : List α) : Match α := ⟨[], [], text⟩

/-- A match and then another in the text after it. -/
def append (m n : Match α) : Match α := ⟨m.captures ++ n.captures, m.text ++ n.text, n.rest⟩

def withoutCaptures (m : Match α) : Match α := ⟨[], m.text, m.rest⟩

end Match

/-- The unit before what follows a text. -/
def after (before : Option α) (text : List α) : Option α := text.getLast?.or before

@[simp]
theorem after_nil (before : Option α) : after before [] = before := by
  simp [after]

theorem after_append (before : Option α) (text more : List α) :
    after before (text ++ more) = after (after before text) more := by
  simp only [after, List.getLast?_append, Option.or_assoc]

@[simp]
theorem after_cons (before : Option α) (c : α) (text : List α) :
    after before (c :: text) = after (some c) text := by
  rw [← List.singleton_append, after_append]
  rfl

namespace Regex

/-! ## Backtracking -/

/-- The ways to repeat a body, with a repetition first tried and then left out; a repetition that
matches nothing is none. -/
def repeats (body : Option α → List α → List (Match α)) :
    ℕ → Option α → List α → List (Match α)
  | 0, _, text => [.nothing text]
  | fuel + 1, before, text =>
    ((body before text).filter fun m ↦ !m.text.isEmpty).flatMap (fun m ↦
      (repeats body fuel (after before m.text) m.rest).map m.append) ++ [.nothing text]

/-- The ways in which a pattern matches the start of a text, in the order in which they are tried. -/
def ways : Regex α → Option α → List α → List (Match α)
  | empty, _, text => [.nothing text]
  | unit _, _, [] => []
  | unit accepts, _, c :: rest => if accepts c then [⟨[], [c], rest⟩] else []
  | look holds, before, text => if holds before text then [.nothing text] else []
  | seq first second, before, text =>
    (ways first before text).flatMap fun m ↦ (ways second (after before m.text) m.rest).map m.append
  | alt first second, before, text => ways first before text ++ ways second before text
  | star body, before, text => repeats (ways body) text.length before text
  | capture body, before, text =>
    (ways body before text).map fun m ↦ ⟨m.text :: m.captures, m.text, m.rest⟩

/-- The match that the engine finds at the start of a text. -/
def exec (r : Regex α) (before : Option α) (text : List α) : Option (Match α) :=
  (ways r before text).head?

/-! ## What a pattern matches -/

/-- Repetitions of a body, none of them empty. -/
inductive Repeats (body : Option α → List (List α) → List α → List α → Prop) :
    Option α → List (List α) → List α → List α → Prop
  | nil {before rest} : Repeats body before [] [] rest
  | cons {before captures more text tail rest} (head : body before captures text (tail ++ rest))
      (nonempty : text ≠ []) (others : Repeats body (after before text) more tail rest) :
      Repeats body before (captures ++ more) (text ++ tail) rest

/-- A pattern matches a text, capturing some of it, between the unit before and the rest after. -/
def Matches : Regex α → Option α → List (List α) → List α → List α → Prop
  | empty, _, captures, text, _ => captures = [] ∧ text = []
  | unit accepts, _, captures, text, _ => captures = [] ∧ ∃ c, accepts c ∧ text = [c]
  | look holds, before, captures, text, rest => captures = [] ∧ text = [] ∧ holds before rest
  | seq first second, before, captures, text, rest =>
    ∃ captures₁ captures₂ text₁ text₂, captures = captures₁ ++ captures₂ ∧ text = text₁ ++ text₂ ∧
      Matches first before captures₁ text₁ (text₂ ++ rest) ∧
      Matches second (after before text₁) captures₂ text₂ rest
  | alt first second, before, captures, text, rest =>
    Matches first before captures text rest ∨ Matches second before captures text rest
  | star body, before, captures, text, rest => Repeats (Matches body) before captures text rest
  | capture body, before, captures, text, rest =>
    ∃ inner, captures = text :: inner ∧ Matches body before inner text rest

theorem mem_repeats {body : Option α → List α → List (Match α)}
    {P : Option α → List (List α) → List α → List α → Prop}
    (hbody : ∀ before text m, m ∈ body before text ↔
      P before m.captures m.text m.rest ∧ m.text ++ m.rest = text)
    (fuel : ℕ) (before : Option α) (text : List α) (hfuel : text.length ≤ fuel) (m : Match α) :
    m ∈ repeats body fuel before text ↔
      Repeats P before m.captures m.text m.rest ∧ m.text ++ m.rest = text := by
  induction fuel generalizing before text m with
  | zero =>
    obtain rfl : text = [] := List.length_eq_zero_iff.mp (Nat.le_zero.mp hfuel)
    constructor
    · intro h
      obtain rfl := List.mem_singleton.mp h
      exact ⟨.nil, rfl⟩
    · rintro ⟨h, hm⟩
      obtain ⟨captures, matched, rest⟩ := m
      obtain ⟨rfl, rfl⟩ := List.append_eq_nil_iff.mp hm
      generalize hmatched : ([] : List α) = matched at h
      cases h with
      | nil => exact List.mem_singleton.mpr rfl
      | cons head nonempty others => exact (nonempty (List.append_eq_nil_iff.mp hmatched.symm).1).elim
  | succ fuel ih =>
    unfold repeats
    rw [List.mem_append, List.mem_flatMap, List.mem_singleton]
    constructor
    · rintro (⟨first, hfirst, hm⟩ | rfl)
      · obtain ⟨hfirst, hne⟩ := List.mem_filter.mp hfirst
        obtain ⟨later, hlater, rfl⟩ := List.mem_map.mp hm
        obtain ⟨hP, rfl⟩ := (hbody before text first).mp hfirst
        have hne : first.text ≠ [] := by simpa using hne
        have hpos := List.length_pos_of_ne_nil hne
        rw [List.length_append] at hfuel
        obtain ⟨hothers, hrest⟩ := (ih (after before first.text) first.rest (by omega) later).mp hlater
        rw [← hrest] at hP
        exact ⟨.cons hP hne hothers, by simp [Match.append, hrest]⟩
      · exact ⟨.nil, rfl⟩
    · rintro ⟨h, rfl⟩
      obtain ⟨captures, matched, rest⟩ := m
      cases h with
      | nil => exact .inr rfl
      | @cons _ captures more matched tail _ head nonempty others =>
        have hpos := List.length_pos_of_ne_nil nonempty
        simp only [List.append_eq, List.length_append] at hfuel
        refine .inl ⟨⟨captures, matched, tail ++ rest⟩, List.mem_filter.mpr ⟨?_, by simpa⟩, ?_⟩
        · exact (hbody _ _ _).mpr ⟨head, by simp⟩
        · refine List.mem_map.mpr ⟨⟨more, tail, rest⟩, ?_, rfl⟩
          exact (ih _ _ (by simp only [List.length_append]; omega) _).mpr ⟨others, rfl⟩

/-- The ways that the engine tries are the matches at the start of the text. -/
theorem mem_ways (r : Regex α) (before : Option α) (text : List α) (m : Match α) :
    m ∈ ways r before text ↔
      Matches r before m.captures m.text m.rest ∧ m.text ++ m.rest = text := by
  induction r generalizing before text m with
  | empty =>
    simp only [ways, Matches, List.mem_singleton, Match.nothing, Match.ext_iff]
    grind
  | unit accepts =>
    cases text with
    | nil => simp [ways, Matches]; grind
    | cons c rest =>
      simp only [ways, Matches]
      split <;> simp [Match.ext_iff] <;> grind
  | look holds =>
    simp only [ways, Matches]
    split <;> simp [Match.nothing, Match.ext_iff] <;> grind
  | seq first second ihf ihs =>
    simp only [ways, Matches, List.mem_flatMap, List.mem_map]
    constructor
    · rintro ⟨a, ha, b, hb, rfl⟩
      obtain ⟨hf, rfl⟩ := (ihf _ _ _).mp ha
      obtain ⟨hs, hrest⟩ := (ihs _ _ _).mp hb
      rw [← hrest] at hf
      exact ⟨⟨_, _, _, _, rfl, rfl, hf, hs⟩, by simp [Match.append, hrest]⟩
    · rintro ⟨⟨captures₁, captures₂, text₁, text₂, hc, ht, hf, hs⟩, rfl⟩
      refine ⟨⟨captures₁, text₁, text₂ ++ m.rest⟩, (ihf _ _ _).mpr ⟨hf, by simp [ht]⟩,
        ⟨captures₂, text₂, m.rest⟩, (ihs _ _ _).mpr ⟨hs, rfl⟩, ?_⟩
      exact Match.ext hc.symm ht.symm rfl
  | alt first second ihf ihs =>
    simp only [ways, Matches, List.mem_append, ihf, ihs, or_and_right]
  | star body ih => exact mem_repeats ih text.length before text le_rfl m
  | capture body ih =>
    simp only [ways, Matches, List.mem_map, ih]
    constructor
    · rintro ⟨a, ⟨ha, rfl⟩, rfl⟩
      exact ⟨⟨_, rfl, ha⟩, rfl⟩
    · rintro ⟨⟨inner, hc, hm⟩, rfl⟩
      exact ⟨⟨inner, m.text, m.rest⟩, ⟨hm, rfl⟩, Match.ext hc.symm rfl rfl⟩

theorem exec_eq_none_iff {r : Regex α} {before : Option α} {text : List α} :
    exec r before text = none ↔
      ∀ captures matched rest, matched ++ rest = text → ¬Matches r before captures matched rest := by
  rw [exec, List.head?_eq_none_iff, List.eq_nil_iff_forall_not_mem]
  constructor
  · intro h captures matched rest htext hmatch
    exact h ⟨captures, matched, rest⟩ ((mem_ways _ _ _ _).mpr ⟨hmatch, htext⟩)
  · intro h m hm
    obtain ⟨hmatch, htext⟩ := (mem_ways _ _ _ _).mp hm
    exact h _ _ _ htext hmatch

theorem matches_of_exec {r : Regex α} {before : Option α} {text : List α} {m : Match α}
    (h : exec r before text = some m) :
    Matches r before m.captures m.text m.rest ∧ m.text ++ m.rest = text :=
  (mem_ways _ _ _ _).mp (List.mem_of_mem_head? h)

/-- Where a pattern can match in one way only, the engine finds it. -/
theorem exec_eq_some {r : Regex α} {before : Option α} {captures : List (List α)}
    {matched rest : List α} (h : Matches r before captures matched rest)
    (hunique : ∀ captures' matched' rest', matched' ++ rest' = matched ++ rest →
      Matches r before captures' matched' rest' → captures' = captures ∧ matched' = matched) :
    exec r before (matched ++ rest) = some ⟨captures, matched, rest⟩ := by
  cases hexec : exec r before (matched ++ rest) with
  | none => exact (exec_eq_none_iff.mp hexec _ _ _ rfl h).elim
  | some m =>
    obtain ⟨hm, htext⟩ := matches_of_exec hexec
    obtain ⟨hcaptures, hmatched⟩ := hunique _ _ _ htext hm
    rw [hmatched] at htext
    exact congrArg some (Match.ext hcaptures hmatched (List.append_cancel_left htext))

/-! ## Derived patterns -/

def literal [BEq α] : List α → Regex α
  | [] => empty
  | c :: text => seq (unit (· == c)) (literal text)

/-- `r?`. -/
def opt (r : Regex α) : Regex α := alt r empty

/-- `r+`. -/
def plus (r : Regex α) : Regex α := seq r (star r)

/-- `r{n}`. -/
def times : ℕ → Regex α → Regex α
  | 0, _ => empty
  | n + 1, r => seq r (times n r)

/-- `r{0,n}`. -/
def upTo : ℕ → Regex α → Regex α
  | 0, _ => empty
  | n + 1, r => opt (seq r (upTo n r))

/-- `r{0,n}?`, with as few repetitions as possible. -/
def fewUpTo : ℕ → Regex α → Regex α
  | 0, _ => empty
  | n + 1, r => alt empty (seq r (fewUpTo n r))

/-- `r{m,n}`. -/
def between (m n : ℕ) (r : Regex α) : Regex α := seq (times m r) (upTo (n - m) r)

/-- A choice of several patterns. -/
def oneOf : List (Regex α) → Regex α
  | [] => unit fun _ ↦ false
  | [r] => r
  | r :: rs => alt r (oneOf rs)

/-- One pattern after the other. -/
def sequence : List (Regex α) → Regex α
  | [] => empty
  | [r] => r
  | r :: rs => seq r (sequence rs)

/-- `(?=r)`. -/
def ahead (r : Regex α) : Regex α := look fun before rest ↦ (exec r before rest).isSome

/-- `(?!r)`. -/
def notAhead (r : Regex α) : Regex α := look fun before rest ↦ (exec r before rest).isNone

/-- `(?<![...])`. -/
def notBehind (accepts : α → Bool) : Regex α := look fun before _ ↦ !before.any accepts

/-- `$`. -/
def endOfInput : Regex α := look fun _ rest ↦ rest.isEmpty

/-! ## Languages of patterns -/

/-- The texts with a property. -/
def wordsOf (P : List α → Prop) : Language α := {text | P text}

@[simp]
theorem mem_wordsOf {P : List α → Prop} {text : List α} : text ∈ wordsOf P ↔ P text := Iff.rfl

/-- The texts of one unit of a class. -/
def units (accepts : α → Bool) : Language α := {text | ∃ c, accepts c ∧ text = [c]}

theorem mem_units {accepts : α → Bool} {text : List α} :
    text ∈ units accepts ↔ ∃ c, accepts c ∧ text = [c] := Iff.rfl

/-- A pattern without groups that matches the texts of a language, whatever is around them. -/
def Describes (r : Regex α) (L : Language α) : Prop :=
  ∀ before captures text rest, Matches r before captures text rest ↔ captures = [] ∧ text ∈ L

theorem describes_empty : Describes (empty : Regex α) 1 := fun _ _ _ _ ↦ Iff.rfl

theorem describes_unit (accepts : α → Bool) : Describes (unit accepts) (units accepts) :=
  fun _ _ _ _ ↦ Iff.rfl

theorem describes_seq {r s : Regex α} {L M : Language α} (hr : Describes r L) (hs : Describes s M) :
    Describes (seq r s) (L * M) := by
  intro before captures text rest
  simp only [Matches, Language.mem_mul, hr _ _ _ _, hs _ _ _ _]
  constructor
  · rintro ⟨_, _, u, v, rfl, rfl, ⟨rfl, hu⟩, rfl, hv⟩
    exact ⟨rfl, u, hu, v, hv, rfl⟩
  · rintro ⟨rfl, u, hu, v, hv, rfl⟩
    exact ⟨[], [], u, v, rfl, rfl, ⟨rfl, hu⟩, rfl, hv⟩

theorem describes_alt {r s : Regex α} {L M : Language α} (hr : Describes r L) (hs : Describes s M) :
    Describes (alt r s) (L + M) := by
  intro before captures text rest
  simp only [Matches, Language.mem_add, hr _ _ _ _, hs _ _ _ _, ← and_or_left]

theorem describes_star {r : Regex α} {L : Language α} (hr : Describes r L) :
    Describes (star r) (KStar.kstar L) := by
  intro before captures text rest
  rw [Language.mem_kstar_iff_exists_nonempty]
  constructor
  · intro h
    induction h with
    | nil => exact ⟨rfl, [], rfl, by simp⟩
    | cons head nonempty others ih =>
      obtain ⟨rfl, hu⟩ := (hr _ _ _ _).mp head
      obtain ⟨rfl, parts, rfl, hparts⟩ := ih
      refine ⟨rfl, _ :: parts, rfl, ?_⟩
      simpa [nonempty, hu] using hparts
  · rintro ⟨rfl, parts, rfl, hparts⟩
    induction parts generalizing before with
    | nil => exact .nil
    | cons part parts ih =>
      obtain ⟨hpart, hne⟩ := hparts part List.mem_cons_self
      exact .cons ((hr _ _ _ _).mpr ⟨rfl, hpart⟩) hne
        (ih _ fun y hy ↦ hparts y (List.mem_cons_of_mem _ hy))

theorem describes_opt {r : Regex α} {L : Language α} (hr : Describes r L) :
    Describes (opt r) (L + 1) :=
  describes_alt hr describes_empty

theorem describes_plus {r : Regex α} {L : Language α} (hr : Describes r L) :
    Describes (plus r) (L * KStar.kstar L) :=
  describes_seq hr (describes_star hr)

theorem describes_literal [BEq α] [LawfulBEq α] (text : List α) :
    Describes (literal text) ({text} : Language α) := by
  induction text with
  | nil => exact describes_empty
  | cons c text ih =>
    intro before captures matched rest
    rw [literal, describes_seq (describes_unit _) ih _ _ _ _, Language.mem_mul]
    simp only [mem_units, beq_iff_eq]
    constructor
    · rintro ⟨rfl, _, ⟨c, rfl, rfl⟩, _, rfl, rfl⟩
      exact ⟨rfl, rfl⟩
    · rintro ⟨rfl, rfl⟩
      exact ⟨rfl, [c], ⟨c, rfl, rfl⟩, text, rfl, rfl⟩

theorem describes_sequence {rs : List (Regex α)} {Ls : List (Language α)}
    (h : List.Forall₂ Describes rs Ls) : Describes (sequence rs) Ls.prod := by
  induction h with
  | nil => exact describes_empty
  | @cons r L rs Ls hr hrs ih =>
    rw [List.prod_cons]
    cases hrs with
    | nil => simpa [sequence] using hr
    | cons _ _ => exact describes_seq hr ih

theorem mem_prod_units {classes : List (α → Bool)} {text : List α} :
    text ∈ (classes.map units).prod ↔
      List.Forall₂ (fun accepts c ↦ accepts c = true) classes text := by
  induction classes generalizing text with
  | nil =>
    rw [List.map_nil, List.prod_nil, Language.mem_one, List.forall₂_nil_left_iff]
  | cons accepts classes ih =>
    rw [List.map_cons, List.prod_cons, Language.mem_mul, List.forall₂_cons_left_iff]
    constructor
    · rintro ⟨_, ⟨c, hc, rfl⟩, tail, htail, rfl⟩
      exact ⟨c, tail, hc, ih.mp htail, rfl⟩
    · rintro ⟨c, tail, hc, htail, rfl⟩
      exact ⟨[c], ⟨c, hc, rfl⟩, tail, ih.mpr htail, rfl⟩

theorem describes_classes (classes : List (α → Bool)) :
    Describes (sequence (classes.map unit)) (classes.map units).prod := by
  apply describes_sequence
  rw [List.forall₂_map_left_iff, List.forall₂_map_right_iff, List.forall₂_same]
  intro accepts _
  exact describes_unit accepts

theorem mem_kstar_units {accepts : α → Bool} {text : List α} :
    text ∈ KStar.kstar (units accepts) ↔ ∀ c ∈ text, accepts c := by
  rw [Language.mem_kstar]
  constructor
  · rintro ⟨parts, rfl, hparts⟩ c hc
    obtain ⟨part, hpart, hc⟩ := List.mem_flatten.mp hc
    obtain ⟨d, hd, rfl⟩ := hparts part hpart
    exact List.mem_singleton.mp hc ▸ hd
  · intro h
    refine ⟨text.map fun c ↦ [c], by rw [← List.flatMap_def, List.flatMap_singleton'], ?_⟩
    intro part hpart
    obtain ⟨c, hc, rfl⟩ := List.mem_map.mp hpart
    exact ⟨c, h c hc, rfl⟩

theorem describes_times_unit (accepts : α → Bool) (n : ℕ) :
    Describes (times n (unit accepts))
      (wordsOf fun text ↦ text.length = n ∧ ∀ c ∈ text, accepts c) := by
  induction n with
  | zero =>
    intro before captures text rest
    rw [mem_wordsOf, List.length_eq_zero_iff]
    constructor
    · rintro ⟨rfl, rfl⟩
      exact ⟨rfl, rfl, by simp⟩
    · rintro ⟨rfl, rfl, -⟩
      exact ⟨rfl, rfl⟩
  | succ n ih =>
    intro before captures text rest
    rw [times, describes_seq (describes_unit _) ih _ _ _ _, Language.mem_mul]
    constructor
    · rintro ⟨rfl, _, ⟨c, hc, rfl⟩, tail, ⟨rfl, htail⟩, rfl⟩
      exact ⟨rfl, rfl, List.forall_mem_cons.mpr ⟨hc, htail⟩⟩
    · rintro ⟨rfl, hlength, htext⟩
      cases text with
      | nil => cases hlength
      | cons c tail =>
        obtain ⟨hc, htail⟩ := List.forall_mem_cons.mp htext
        exact ⟨rfl, [c], ⟨c, hc, rfl⟩, tail, ⟨Nat.succ.inj hlength, htail⟩, rfl⟩

theorem describes_upTo_unit (accepts : α → Bool) (n : ℕ) :
    Describes (upTo n (unit accepts))
      (wordsOf fun text ↦ text.length ≤ n ∧ ∀ c ∈ text, accepts c) := by
  induction n with
  | zero =>
    intro before captures text rest
    rw [mem_wordsOf, Nat.le_zero, List.length_eq_zero_iff]
    constructor
    · rintro ⟨rfl, rfl⟩
      exact ⟨rfl, rfl, by simp⟩
    · rintro ⟨rfl, rfl, -⟩
      exact ⟨rfl, rfl⟩
  | succ n ih =>
    intro before captures text rest
    rw [upTo, describes_opt (describes_seq (describes_unit _) ih) _ _ _ _, Language.mem_add,
      Language.mem_mul, Language.mem_one]
    constructor
    · rintro ⟨rfl, ⟨_, ⟨c, hc, rfl⟩, tail, ⟨hlength, htail⟩, rfl⟩ | rfl⟩
      · exact ⟨rfl, Nat.succ_le_succ hlength, List.forall_mem_cons.mpr ⟨hc, htail⟩⟩
      · exact ⟨rfl, Nat.zero_le _, by simp⟩
    · rintro ⟨rfl, hlength, htext⟩
      refine ⟨rfl, ?_⟩
      cases text with
      | nil => exact .inr rfl
      | cons c tail =>
        obtain ⟨hc, htail⟩ := List.forall_mem_cons.mp htext
        exact .inl ⟨[c], ⟨c, hc, rfl⟩, tail, ⟨Nat.le_of_succ_le_succ hlength, htail⟩, rfl⟩

theorem describes_between_unit (accepts : α → Bool) {m n : ℕ} (hmn : m ≤ n) :
    Describes (between m n (unit accepts))
      (wordsOf fun text ↦ m ≤ text.length ∧ text.length ≤ n ∧ ∀ c ∈ text, accepts c) := by
  intro before captures text rest
  rw [between, describes_seq (describes_times_unit _ _) (describes_upTo_unit _ _) _ _ _ _,
    Language.mem_mul]
  constructor
  · rintro ⟨rfl, u, ⟨hu, hu'⟩, v, ⟨hv, hv'⟩, rfl⟩
    rw [mem_wordsOf, List.length_append]
    exact ⟨rfl, by omega, by omega, List.forall_mem_append.mpr ⟨hu', hv'⟩⟩
  · rintro ⟨rfl, hm, hn, htext⟩
    refine ⟨rfl, text.take m, ⟨List.length_take_of_le hm, ?_⟩, text.drop m, ⟨?_, ?_⟩,
      List.take_append_drop m text⟩
    · exact fun c hc ↦ htext c (List.mem_of_mem_take hc)
    · rw [List.length_drop]
      omega
    · exact fun c hc ↦ htext c (List.mem_of_mem_drop hc)

/-! ## The first way -/

theorem exec_unit {accepts : α → Bool} {before : Option α} {c : α} {rest : List α}
    (h : accepts c = true) : exec (unit accepts) before (c :: rest) = some ⟨[], [c], rest⟩ := by
  rw [exec, ways, if_pos h]
  rfl

/-- Where the first way of a pattern lets the next pattern match, it is taken. -/
theorem exec_seq {first second : Regex α} {before : Option α} {text : List α} {m n : Match α}
    (hfirst : exec first before text = some m)
    (hsecond : exec second (after before m.text) m.rest = some n) :
    exec (seq first second) before text = some (m.append n) := by
  obtain ⟨others, hothers⟩ := List.head?_eq_some_iff.mp hfirst
  obtain ⟨laters, hlaters⟩ := List.head?_eq_some_iff.mp hsecond
  rw [exec, ways, hothers, List.flatMap_cons, hlaters]
  rfl

theorem exec_capture {body : Regex α} {before : Option α} {text : List α} {m : Match α}
    (h : exec body before text = some m) :
    exec (capture body) before text = some ⟨m.text :: m.captures, m.text, m.rest⟩ := by
  rw [exec] at h
  rw [exec, ways, List.head?_map, h]
  rfl

theorem exec_times_unit {accepts : α → Bool} {before : Option α} {matched rest : List α}
    (h : ∀ c ∈ matched, accepts c) :
    exec (times matched.length (unit accepts)) before (matched ++ rest) =
      some ⟨[], matched, rest⟩ := by
  induction matched generalizing before with
  | nil => rfl
  | cons c matched ih =>
    obtain ⟨hc, htail⟩ := List.forall_mem_cons.mp h
    exact exec_seq (exec_unit hc) (ih htail)

/-- As many units as possible are taken. -/
theorem exec_upTo_unit {accepts : α → Bool} {before : Option α} {matched rest : List α} {n : ℕ}
    (h : ∀ c ∈ matched, accepts c) (hlength : matched.length ≤ n)
    (hrest : ∀ c, rest.head? = some c → accepts c = false) :
    exec (upTo n (unit accepts)) before (matched ++ rest) = some ⟨[], matched, rest⟩ := by
  induction matched generalizing before n with
  | nil =>
    cases n with
    | zero => rfl
    | succ n =>
      cases rest with
      | nil => rfl
      | cons c rest =>
        rw [exec, upTo, opt, ways, ways, ways, List.nil_append, ways,
          if_neg (by rw [hrest c rfl]; exact Bool.false_ne_true)]
        rfl
  | cons c matched ih =>
    obtain ⟨hc, htail⟩ := List.forall_mem_cons.mp h
    cases n with
    | zero => cases hlength
    | succ n =>
      have hseq := exec_seq (@exec_unit _ _ before _ (matched ++ rest) hc)
        (ih htail (Nat.le_of_succ_le_succ hlength))
      obtain ⟨others, hothers⟩ := List.head?_eq_some_iff.mp hseq
      rw [exec, upTo, opt, ways, List.cons_append, hothers]
      rfl

/-- As many units as there are are taken. -/
theorem exec_star_unit {accepts : α → Bool} {before : Option α} {matched rest : List α}
    (h : ∀ c ∈ matched, accepts c) (hrest : ∀ c, rest.head? = some c → accepts c = false) :
    exec (star (unit accepts)) before (matched ++ rest) = some ⟨[], matched, rest⟩ := by
  have hfuel : matched.length ≤ (matched ++ rest).length := by simp
  rw [exec, ways]
  generalize (matched ++ rest).length = fuel at hfuel
  induction matched generalizing before fuel with
  | nil =>
    cases fuel with
    | zero => rfl
    | succ fuel =>
      cases rest with
      | nil => rfl
      | cons c rest =>
        rw [repeats, List.nil_append, ways, if_neg (by rw [hrest c rfl]; exact Bool.false_ne_true)]
        rfl
  | cons c matched ih =>
    obtain ⟨hc, htail⟩ := List.forall_mem_cons.mp h
    cases fuel with
    | zero => cases hfuel
    | succ fuel =>
      have hothers := @ih (after before [c]) htail fuel (Nat.le_of_succ_le_succ hfuel)
      obtain ⟨others, hothers⟩ := List.head?_eq_some_iff.mp hothers
      rw [repeats, List.cons_append, ways, if_pos hc, List.filter_singleton]
      simp only [List.isEmpty_cons, Bool.not_false, cond_true, List.flatMap_singleton]
      rw [hothers]
      rfl

theorem exec_literal [BEq α] [LawfulBEq α] (text : List α) {before : Option α} {rest : List α} :
    exec (literal text) before (text ++ rest) = some ⟨[], text, rest⟩ := by
  have hliteral := describes_literal text
  apply exec_eq_some ((hliteral _ _ _ _).mpr ⟨rfl, rfl⟩)
  intro captures matched rest' _ hmatch
  exact (hliteral _ _ _ _).mp hmatch

/-- With as few repetitions as possible the same is matched as with as many. -/
theorem describes_fewUpTo_unit (accepts : α → Bool) (n : ℕ) :
    Describes (fewUpTo n (unit accepts))
      (wordsOf fun text ↦ text.length ≤ n ∧ ∀ c ∈ text, accepts c) := by
  have hsame (n : ℕ) {before captures} {text rest : List α} :
      Matches (fewUpTo n (unit accepts)) before captures text rest ↔
        Matches (upTo n (unit accepts)) before captures text rest := by
    induction n generalizing before captures text rest with
    | zero => rfl
    | succ n ih =>
      simp only [fewUpTo, upTo, opt, Matches, ih]
      exact or_comm
  intro before captures text rest
  rw [hsame, describes_upTo_unit]

/-! ## Patterns without their groups -/

/-- A pattern with its groups as plain groups. -/
def withoutGroups : Regex α → Regex α
  | seq first second => seq (withoutGroups first) (withoutGroups second)
  | alt first second => alt (withoutGroups first) (withoutGroups second)
  | star body => star (withoutGroups body)
  | capture body => withoutGroups body
  | other => other

theorem repeats_withoutCaptures {body body' : Option α → List α → List (Match α)}
    (h : ∀ before text, body' before text = (body before text).map Match.withoutCaptures)
    (fuel : ℕ) (before : Option α) (text : List α) :
    repeats body' fuel before text =
      (repeats body fuel before text).map Match.withoutCaptures := by
  induction fuel generalizing before text with
  | zero => rfl
  | succ fuel ih =>
    simp only [repeats, h, ih, List.filter_map, List.flatMap_map, List.map_append, List.map_flatMap,
      List.map_map]
    rfl

theorem ways_withoutGroups (r : Regex α) (before : Option α) (text : List α) :
    ways (withoutGroups r) before text = (ways r before text).map Match.withoutCaptures := by
  induction r generalizing before text with
  | empty => rfl
  | unit accepts =>
    cases text with
    | nil => rfl
    | cons c rest =>
      simp only [withoutGroups, ways]
      split <;> rfl
  | look holds =>
    simp only [withoutGroups, ways]
    split <;> rfl
  | seq first second ihf ihs =>
    simp only [withoutGroups, ways, ihf, ihs, List.flatMap_map, List.map_flatMap, List.map_map]
    rfl
  | alt first second ihf ihs => simp only [withoutGroups, ways, ihf, ihs, List.map_append]
  | star body ih => exact repeats_withoutCaptures ih _ _ _
  | capture body ih =>
    simp only [withoutGroups, ways, ih, List.map_map]
    rfl

/-- Groups do not change what the engine finds. -/
theorem exec_withoutGroups (r : Regex α) (before : Option α) (text : List α) :
    exec (withoutGroups r) before text = (exec r before text).map Match.withoutCaptures := by
  rw [exec, ways_withoutGroups, List.head?_map]
  rfl

end Regex

end MemoFlowApi.Js
