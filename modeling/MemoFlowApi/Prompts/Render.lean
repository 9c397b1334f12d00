import MemoFlowApi.Js.Scan
import MemoFlowApi.Prompts.Definitions

/-!
# Prompt Rendering

Placeholders look like `{{name}}`, with white space inside the braces allowed.  Rendering is a
single pass, so substituted values are never scanned again.
-/

namespace MemoFlowApi.Prompts

open Js Js.Regex

def openBraces : Text := [unitOf '{', unitOf '{']

def closeBraces : Text := [unitOf '}', unitOf '}']

/-- `PLACEHOLDER`. -/
def placeholder : Regex CodeUnit :=
  sequence [literal openBraces, star (unit isSpace), capture (plus (unit isWord)),
    star (unit isSpace), literal closeBraces]

/-- What the group of a placeholder captured. -/
def placeholderName (captures : List Text) : Text := captures.headD []

/-- Distinct placeholder names used by a template, in order of first use. -/
def listPlaceholders (template : Text) : List Text :=
  ((matchAll placeholder template).map fun found ↦ placeholderName found.1).eraseDups

def unknownPlaceholder (name : Text) : Failure :=
  ⟨.other, Text.of "Unknown prompt placeholder \"" ++ name ++ Text.of "\""⟩

/-- Fails on a placeholder that has no entry in `vars`. -/
def renderPrompt (template : Text) (vars : List (Text × Text)) : Except Failure Text :=
  replaceAllM placeholder (fun captures _ ↦
    match vars.lookup (placeholderName captures) with
    | none => .error (unknownPlaceholder (placeholderName captures))
    | some value => .ok value) template

/-! ## What rendering does -/

/-- A placeholder of a name, as it is written in a template. -/
def IsPlaceholder (name text : Text) : Prop :=
  ∃ lead trail : Text, (∀ c ∈ lead, isSpace c) ∧ (∀ c ∈ trail, isSpace c) ∧ name ≠ [] ∧
    (∀ c ∈ name, isWord c) ∧ text = openBraces ++ (lead ++ (name ++ (trail ++ closeBraces)))

theorem consuming_placeholder : Consuming placeholder :=
  consuming_seq (consuming_literal (List.cons_ne_nil _ _))

theorem matches_placeholder {before : Option CodeUnit} {captures : List Text} {text rest : Text}
    (h : Matches placeholder before captures text rest) :
    ∃ name, captures = [name] ∧ IsPlaceholder name text := by
  obtain ⟨_, _, _, _, rfl, rfl, hopen, _, _, lead, _, rfl, rfl, hlead, _, _, name, _, rfl, rfl,
    ⟨_, rfl, hname⟩, _, _, trail, _, rfl, rfl, htrail, hclose⟩ := h
  obtain ⟨rfl, hopened⟩ := (describes_literal _ _ _ _ _).mp hopen
  obtain ⟨rfl, hbefore⟩ := (describes_star (describes_unit _) _ _ _ _).mp hlead
  obtain ⟨rfl, hword⟩ := (describes_plus (describes_unit _) _ _ _ _).mp hname
  obtain ⟨rfl, hafter⟩ := (describes_star (describes_unit _) _ _ _ _).mp htrail
  obtain ⟨rfl, hclosed⟩ := (describes_literal _ _ _ _ _).mp hclose
  obtain ⟨_, ⟨c, hc, rfl⟩, tail, htail, rfl⟩ := Language.mem_mul.mp hword
  obtain rfl := Set.mem_singleton_iff.mp hopened
  obtain rfl := Set.mem_singleton_iff.mp hclosed
  refine ⟨c :: tail, rfl, lead, trail, mem_kstar_units.mp hbefore, mem_kstar_units.mp hafter,
    List.cons_ne_nil _ _, ?_, rfl⟩
  exact List.forall_mem_cons.mpr ⟨hc, mem_kstar_units.mp htail⟩

theorem mem_listPlaceholders {template name : Text} :
    name ∈ listPlaceholders template ↔
      ∃ captures text, .found captures text ∈ scan placeholder template ∧
        placeholderName captures = name := by
  rw [listPlaceholders, List.mem_eraseDups, List.mem_map]
  constructor
  · rintro ⟨⟨captures, text⟩, hfound, rfl⟩
    exact ⟨captures, text, mem_matchAll.mp hfound, rfl⟩
  · rintro ⟨captures, text, hfound, rfl⟩
    exact ⟨⟨captures, text⟩, mem_matchAll.mpr hfound, rfl⟩

/-- The value of a placeholder. -/
def valueOf (vars : List (Text × Text)) (captures : List Text) : Text :=
  (vars.lookup (placeholderName captures)).getD []

/-- A template all of whose placeholders have values is rendered. -/
theorem renderPrompt_eq_ok {template : Text} {vars : List (Text × Text)}
    (h : ∀ name ∈ listPlaceholders template, (vars.lookup name).isSome) :
    renderPrompt template vars =
      .ok (replaceAll placeholder (fun captures _ ↦ valueOf vars captures) template) := by
  apply replaceAllM_eq_pure
  intro captures text hfound
  obtain ⟨value, hvalue⟩ := Option.isSome_iff_exists.mp
    (h _ (mem_listPlaceholders.mpr ⟨captures, text, hfound, rfl⟩))
  rw [valueOf, hvalue]
  rfl

end MemoFlowApi.Prompts
