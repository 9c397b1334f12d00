import MemoFlowApi.Js.Regex

/-!
# Scanning a Text

All matches of a pattern in a text from left to right, with the units between them.  Replacing,
listing, splitting and testing read the same scan.
-/

namespace MemoFlowApi.Js

open Regex

variable {α : Type*}

/-- A piece of a scanned text: a unit outside all matches, or a match with what it captured. -/
inductive Token (α : Type*) where
  | lit (c : α)
  | found (captures : List (List α)) (text : List α)

namespace Token

def ofMatch (m : Match α) : Token α := found m.captures m.text

def text : Token α → List α
  | lit c => [c]
  | found _ text => text

def isFound : Token α → Bool
  | lit _ => false
  | found _ _ => true

/-- The piece with its match replaced. -/
def replace (f : List (List α) → List α → List α) : Token α → List α
  | lit c => [c]
  | found captures text => f captures text

def replaceM {m : Type _ → Type _} [Monad m] (f : List (List α) → List α → m (List α)) :
    Token α → m (List α)
  | lit c => pure [c]
  | found captures text => f captures text

def withoutCaptures : Token α → Token α
  | lit c => lit c
  | found _ text => found [] text

end Token

/-- The scan of a text of which the first `skip` units belong to the last match.  A match of nothing
takes no unit, and the unit after it is passed over. -/
def scanFrom (r : Regex α) : Option α → ℕ → List α → List (Token α)
  | before, 0, [] => ((exec r before []).map Token.ofMatch).toList
  | _, _ + 1, [] => []
  | _, skip + 1, c :: text => scanFrom r (some c) skip text
  | before, 0, c :: text =>
    match exec r before (c :: text) with
    | none => .lit c :: scanFrom r (some c) 0 text
    | some m =>
      if m.text.isEmpty then .ofMatch m :: .lit c :: scanFrom r (some c) 0 text
      else .ofMatch m :: scanFrom r (some c) (m.text.length - 1) text

def scan (r : Regex α) (text : List α) : List (Token α) := scanFrom r none 0 text

/-- `String.prototype.replace` with a global pattern and a function of the match. -/
def replaceAll (r : Regex α) (f : List (List α) → List α → List α) (text : List α) : List α :=
  (scan r text).flatMap (Token.replace f)

/-- `replaceAll` with a function that may fail. -/
def replaceAllM {m : Type _ → Type _} [Monad m] (r : Regex α)
    (f : List (List α) → List α → m (List α)) (text : List α) : m (List α) :=
  List.flatten <$> (scan r text).mapM (Token.replaceM f)

def captures? : Token α → Option (List (List α) × List α)
  | .lit _ => none
  | .found captures text => some (captures, text)

/-- `String.prototype.matchAll`: what each match captured, with its text. -/
def matchAll (r : Regex α) (text : List α) : List (List (List α) × List α) :=
  (scan r text).filterMap captures?

/-- `RegExp.prototype.test`. -/
def test (r : Regex α) (text : List α) : Bool := (scan r text).any Token.isFound

/-- `String.prototype.split` at the matches of a pattern that matches nothing empty. -/
def split (r : Regex α) (text : List α) : List (List α) :=
  ((scan r text).splitOnP Token.isFound).map fun piece ↦ piece.flatMap Token.text

/-! ## Patterns that match nothing empty -/

/-- A pattern takes at least one unit. -/
def Consuming (r : Regex α) : Prop :=
  ∀ before captures rest, ¬Matches r before captures [] rest

theorem Regex.Describes.consuming {r : Regex α} {L : Language α} (h : Describes r L) (hL : [] ∉ L) :
    Consuming r := by
  intro before captures rest hmatch
  exact hL ((h _ _ _ _).mp hmatch).2

theorem consuming_seq {r s : Regex α} (hr : Consuming r) : Consuming (seq r s) := by
  rintro before captures rest ⟨_, _, text₁, text₂, -, htext, hmatch, -⟩
  obtain ⟨rfl, rfl⟩ := List.append_eq_nil_iff.mp htext.symm
  exact hr _ _ _ hmatch

theorem consuming_literal [BEq α] [LawfulBEq α] {text : List α} (h : text ≠ []) :
    Consuming (literal text) :=
  (describes_literal text).consuming fun hnil ↦ h (Set.mem_singleton_iff.mp hnil).symm

/-- The scan of a text, step by step. -/
inductive Scans (r : Regex α) : Option α → List α → List (Token α) → Prop
  | nil {before} : Scans r before [] []
  | lit {before c text tokens} (none : exec r before (c :: text) = none)
      (others : Scans r (some c) text tokens) : Scans r before (c :: text) (.lit c :: tokens)
  | found {before captures matched rest tokens}
      (found : exec r before (matched ++ rest) = some ⟨captures, matched, rest⟩)
      (nonempty : matched ≠ []) (others : Scans r (after before matched) rest tokens) :
      Scans r before (matched ++ rest) (.found captures matched :: tokens)

theorem scanFrom_skip (r : Regex α) (before : Option α) (skipped rest : List α) :
    scanFrom r before skipped.length (skipped ++ rest) = scanFrom r (after before skipped) 0 rest := by
  induction skipped generalizing before with
  | nil => rw [List.length_nil, List.nil_append, after_nil]
  | cons c skipped ih =>
    calc
      _ = scanFrom r (some c) skipped.length (skipped ++ rest) := by
        rw [List.length_cons, List.cons_append, scanFrom]
      _ = scanFrom r (after (some c) skipped) 0 rest := ih (some c)
      _ = _ := by rw [after_cons]

theorem scanFrom_nil {r : Regex α} (hr : Consuming r) (before : Option α) :
    scanFrom r before 0 [] = [] := by
  have hnone : exec r before [] = none := by
    rw [exec_eq_none_iff]
    intro captures matched rest htext hmatch
    obtain ⟨rfl, rfl⟩ := List.append_eq_nil_iff.mp htext
    exact hr _ _ _ hmatch
  rw [scanFrom, hnone]
  rfl

theorem scanFrom_of_none {r : Regex α} {before : Option α} {c : α} {text : List α}
    (h : exec r before (c :: text) = none) :
    scanFrom r before 0 (c :: text) = .lit c :: scanFrom r (some c) 0 text := by
  rw [scanFrom, h]

theorem scanFrom_of_some {r : Regex α} {before : Option α} {captures : List (List α)}
    {matched rest : List α} (hne : matched ≠ [])
    (h : exec r before (matched ++ rest) = some ⟨captures, matched, rest⟩) :
    scanFrom r before 0 (matched ++ rest) =
      .found captures matched :: scanFrom r (after before matched) 0 rest := by
  cases matched with
  | nil => exact (hne rfl).elim
  | cons c matched =>
    rw [List.cons_append] at h ⊢
    rw [scanFrom, h, after_cons, ← scanFrom_skip]
    rfl

theorem scans_scanFrom {r : Regex α} (hr : Consuming r) (before : Option α) (text : List α) :
    Scans r before text (scanFrom r before 0 text) := by
  induction hn : text.length using Nat.strong_induction_on generalizing before text with
  | _ n ih =>
    subst hn
    cases text with
    | nil =>
      rw [scanFrom_nil hr]
      exact .nil
    | cons c text =>
      cases hexec : exec r before (c :: text) with
      | none =>
        rw [scanFrom_of_none hexec]
        exact .lit hexec (ih _ (Nat.lt_succ_self _) _ _ rfl)
      | some m =>
        obtain ⟨captures, matched, rest⟩ := m
        obtain ⟨hmatch, htext⟩ := matches_of_exec hexec
        change matched ++ rest = c :: text at htext
        have hne : matched ≠ [] := fun hnil ↦ hr _ _ _ (hnil ▸ hmatch)
        have hpos := List.length_pos_of_ne_nil hne
        have hlength := congrArg List.length htext
        rw [List.length_append] at hlength
        rw [← htext] at hexec ⊢
        rw [scanFrom_of_some hne hexec]
        exact .found hexec hne (ih _ (by rw [← hlength]; omega) _ _ rfl)

theorem scans_scan {r : Regex α} (hr : Consuming r) (text : List α) :
    Scans r none text (scan r text) :=
  scans_scanFrom hr none text

namespace Scans

variable {r : Regex α} {before : Option α} {text : List α} {tokens : List (Token α)}

/-- The pieces of a scan make up the text. -/
theorem flatMap_text (h : Scans r before text tokens) : tokens.flatMap Token.text = text := by
  induction h with
  | nil => rfl
  | lit _ _ ih => rw [List.flatMap_cons, ih]; rfl
  | found _ _ _ ih => rw [List.flatMap_cons, ih]; rfl

/-- What a scan finds is a match. -/
theorem matches_of_found {captures : List (List α)} {matched : List α}
    (h : Scans r before text tokens) (hfound : .found captures matched ∈ tokens) :
    ∃ before rest, Matches r before captures matched rest := by
  induction h with
  | nil => cases hfound
  | lit _ _ ih =>
    cases hfound with
    | tail _ hfound => exact ih hfound
  | found found _ _ ih =>
    cases hfound with
    | head => exact ⟨_, _, (matches_of_exec found).1⟩
    | tail _ hfound => exact ih hfound

/-- A pattern occurs in a text exactly where its scan finds it. -/
theorem isFound_iff (h : Scans r before text tokens) :
    (∃ token ∈ tokens, token.isFound) ↔ ∃ lead captures matched rest,
      text = lead ++ (matched ++ rest) ∧ matched ≠ [] ∧
        Matches r (after before lead) captures matched rest := by
  induction h with
  | nil => simp
  | @lit before c text tokens none _ ih =>
    constructor
    · rintro ⟨token, htoken, hfound⟩
      obtain rfl | htoken := List.mem_cons.mp htoken
      · exact Bool.noConfusion hfound
      · obtain ⟨lead, captures, matched, rest, rfl, hne, hmatch⟩ := ih.mp ⟨token, htoken, hfound⟩
        exact ⟨c :: lead, captures, matched, rest, rfl, hne, by rwa [after_cons]⟩
    · rintro ⟨lead, captures, matched, rest, htext, hne, hmatch⟩
      cases lead with
      | nil =>
        rw [after_nil] at hmatch
        exact (exec_eq_none_iff.mp none captures matched rest htext.symm hmatch).elim
      | cons d lead =>
        obtain ⟨rfl, rfl⟩ := List.cons_eq_cons.mp htext
        rw [after_cons] at hmatch
        obtain ⟨token, htoken, hfound⟩ := ih.mpr ⟨lead, captures, matched, rest, rfl, hne, hmatch⟩
        exact ⟨token, List.mem_cons_of_mem _ htoken, hfound⟩
  | found found nonempty _ _ =>
    exact ⟨fun _ ↦ ⟨[], _, _, _, rfl, nonempty, (matches_of_exec found).1⟩,
      fun _ ↦ ⟨_, List.mem_cons_self, rfl⟩⟩

end Scans

theorem test_eq_true_iff {r : Regex α} (hr : Consuming r) (text : List α) :
    test r text = true ↔ ∃ lead captures matched rest,
      text = lead ++ (matched ++ rest) ∧ Matches r (after none lead) captures matched rest := by
  rw [test, List.any_eq_true, (scans_scan hr text).isFound_iff]
  constructor
  · rintro ⟨lead, captures, matched, rest, htext, -, hmatch⟩
    exact ⟨lead, captures, matched, rest, htext, hmatch⟩
  · rintro ⟨lead, captures, matched, rest, htext, hmatch⟩
    exact ⟨lead, captures, matched, rest, htext, fun hnil ↦ hr _ _ _ (hnil ▸ hmatch), hmatch⟩

/-- A pattern of a language is found in the texts with a word of it. -/
theorem Regex.Describes.test_eq_true_iff {r : Regex α} {L : Language α} (hr : Describes r L) (hL : [] ∉ L)
    (text : List α) : test r text = true ↔ ∃ word ∈ L, word <:+: text := by
  rw [Js.test_eq_true_iff (hr.consuming hL)]
  constructor
  · rintro ⟨lead, captures, matched, rest, rfl, hmatch⟩
    exact ⟨matched, ((hr _ _ _ _).mp hmatch).2, lead, rest, List.append_assoc _ _ _⟩
  · rintro ⟨word, hword, lead, rest, rfl⟩
    exact ⟨lead, [], word, rest, List.append_assoc _ _ _, (hr _ _ _ _).mpr ⟨rfl, hword⟩⟩

/-! ## Languages in which no word begins another -/

def PrefixFree (L : Language α) : Prop :=
  ∀ u ∈ L, ∀ v ∈ L, ∀ rest rest', u ++ rest = v ++ rest' → u = v

/-- The one word at the start of a text is found, whatever is before it. -/
theorem Regex.Describes.exec_eq_some {r : Regex α} {L : Language α} (hr : Describes r L)
    (hL : PrefixFree L) {word : List α} (hword : word ∈ L) (before : Option α) (rest : List α) :
    exec r before (word ++ rest) = some ⟨[], word, rest⟩ := by
  refine Regex.exec_eq_some ((hr _ _ _ _).mpr ⟨rfl, hword⟩) ?_
  intro captures matched rest' htext hmatch
  obtain ⟨rfl, hmatched⟩ := (hr _ _ _ _).mp hmatch
  exact ⟨rfl, hL _ hmatched _ hword _ _ htext⟩

theorem Regex.Describes.exec_eq_none_iff {r : Regex α} {L : Language α} (hr : Describes r L)
    {before : Option α} {text : List α} :
    exec r before text = none ↔ ∀ word ∈ L, ¬word <+: text := by
  rw [Regex.exec_eq_none_iff]
  constructor
  · rintro h word hword ⟨rest, hrest⟩
    exact h [] word rest hrest ((hr _ _ _ _).mpr ⟨rfl, hword⟩)
  · rintro h captures matched rest htext hmatch
    exact h matched ((hr _ _ _ _).mp hmatch).2 ⟨rest, htext⟩

theorem mem_matchAll {r : Regex α} {text : List α} {captures : List (List α)} {matched : List α} :
    (captures, matched) ∈ matchAll r text ↔ .found captures matched ∈ scan r text := by
  rw [matchAll, List.mem_filterMap]
  constructor
  · rintro ⟨token, htoken, h⟩
    cases token with
    | lit c => cases h
    | found captures' matched' =>
      obtain ⟨rfl, rfl⟩ := Prod.mk.inj (Option.some.inj h)
      exact htoken
  · intro h
    exact ⟨_, h, rfl⟩

/-- A replacement depends on the function at the matches alone. -/
theorem replaceAllM_congr {m : Type _ → Type _} [Monad m] [LawfulMonad m] {r : Regex α}
    {f g : List (List α) → List α → m (List α)} {text : List α}
    (h : ∀ captures matched, .found captures matched ∈ scan r text →
      f captures matched = g captures matched) :
    replaceAllM r f text = replaceAllM r g text := by
  have htokens : (scan r text).mapM (Token.replaceM f) = (scan r text).mapM (Token.replaceM g) := by
    generalize scan r text = tokens at h
    induction tokens with
    | nil => rfl
    | cons token tokens ih =>
      rw [List.mapM_cons, List.mapM_cons, ih fun captures matched hfound ↦
        h captures matched (List.mem_cons_of_mem _ hfound)]
      cases token with
      | lit c => rfl
      | found captures matched => simp only [Token.replaceM, h captures matched List.mem_cons_self]
  rw [replaceAllM, replaceAllM, htokens]

/-- A replacement that does not fail is the one of `replaceAll`. -/
theorem replaceAllM_eq_pure {m : Type _ → Type _} [Monad m] [LawfulMonad m] {r : Regex α}
    {f : List (List α) → List α → m (List α)} {g : List (List α) → List α → List α} {text : List α}
    (h : ∀ captures matched, .found captures matched ∈ scan r text →
      f captures matched = pure (g captures matched)) :
    replaceAllM r f text = pure (replaceAll r g text) := by
  have hpure : Token.replaceM (fun captures matched ↦ (pure (g captures matched) : m _)) =
      fun token ↦ pure (token.replace g) := by
    funext token
    cases token <;> rfl
  calc
    _ = List.flatten <$> (scan r text).mapM fun token ↦ pure (token.replace g) := by
      rw [replaceAllM_congr h, replaceAllM, hpure]
    _ = pure ((scan r text).map fun token ↦ token.replace g).flatten := by
      rw [List.mapM_pure, map_pure]
    _ = _ := by rw [replaceAll, List.flatMap_def]

/-! ## Scans without groups -/

theorem scanFrom_withoutGroups (r : Regex α) (before : Option α) (skip : ℕ) (text : List α) :
    scanFrom (withoutGroups r) before skip text =
      (scanFrom r before skip text).map Token.withoutCaptures := by
  induction text generalizing before skip with
  | nil =>
    cases skip with
    | zero =>
      rw [scanFrom, scanFrom, exec_withoutGroups]
      cases exec r before [] <;> rfl
    | succ skip => rfl
  | cons c text ih =>
    cases skip with
    | zero =>
      rw [scanFrom, scanFrom, exec_withoutGroups]
      cases exec r before (c :: text) with
      | none => exact congrArg (Token.lit c :: ·) (ih _ _)
      | some m =>
        simp only [Option.map_some, Match.withoutCaptures]
        split
        · simp only [List.map_cons, ih]
          rfl
        · simp only [List.map_cons, ih]
          rfl
    | succ skip => rw [scanFrom, scanFrom, ih]

/-- A pattern with plain groups in the place of its groups splits a text in the same way. -/
theorem scan_withoutGroups (r : Regex α) (text : List α) :
    scan (withoutGroups r) text = (scan r text).map Token.withoutCaptures :=
  scanFrom_withoutGroups r none 0 text

end MemoFlowApi.Js
