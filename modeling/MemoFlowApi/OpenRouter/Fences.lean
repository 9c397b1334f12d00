import MemoFlowApi.Js.JsonRead
import MemoFlowApi.OpenRouter.Gateway

/-!
# Code Fences

A JSON text is read as its value, with and without a code fence around it.  What the fence captures is
the text between white space, since the engine takes the whole tag, and a JSON text neither begins
nor ends with white space or back quotes of its own.
-/

namespace MemoFlowApi.OpenRouter

open Js Js.Regex

def ticks : Text := Text.of "```"

/-- A text in a code fence with a language tag. -/
def fenced (tag text : Text) : Text :=
  ticks ++ (tag ++ unitOf '\n' :: (text ++ unitOf '\n' :: ticks))

/-- The class of the units of a tag. -/
def isTagUnit (c : CodeUnit) : Bool := isWord c || c == unitOf '-'

def newline : Regex CodeUnit := opt (unit (· == unitOf '\n'))

/-- The part of a fence after its tag, for a text of a length. -/
def fenceBody (length : ℕ) : Regex CodeUnit :=
  sequence [star (unit isSpace), newline, capture (fewUpTo length (unit fun _ ↦ true)), newline,
    star (unit isSpace), literal ticks, endOfInput]

theorem codeFence_eq (text : Text) :
    codeFence text = seq (literal ticks) (seq (star (unit isTagUnit)) (fenceBody text.length)) := rfl

theorem matches_spaces {before : Option CodeUnit} {captures : List Text} {text rest : Text} :
    Matches (star (unit isSpace)) before captures text rest ↔
      captures = [] ∧ ∀ c ∈ text, isSpace c = true := by
  rw [describes_star (describes_unit isSpace), mem_kstar_units]

theorem matches_newline {before : Option CodeUnit} {captures : List Text} {text rest : Text} :
    Matches newline before captures text rest ↔ captures = [] ∧ (text = [unitOf '\n'] ∨ text = []) := by
  have hnewline := describes_opt (@describes_unit CodeUnit (· == unitOf '\n'))
  rw [newline, hnewline, Language.mem_add, Language.mem_one, mem_units]
  simp

theorem isSpace_newline : ∀ c ∈ [unitOf '\n'], isSpace c = true :=
  List.forall_mem_singleton.mpr (by decide)

theorem isSpace_of_newline {text : Text} (h : text = [unitOf '\n'] ∨ text = []) :
    ∀ c ∈ text, isSpace c = true := by
  rcases h with rfl | rfl
  · exact isSpace_newline
  · simp

/-- What the part after the tag captures is all that it takes but white space and the closing. -/
theorem matches_fenceBody {length : ℕ} {before : Option CodeUnit} {captures : List Text}
    {text rest : Text} :
    Matches (fenceBody length) before captures text rest ↔
      ∃ lead inner trail, captures = [inner] ∧ text = lead ++ (inner ++ (trail ++ ticks)) ∧ rest = [] ∧
        inner.length ≤ length ∧ (∀ c ∈ lead, isSpace c = true) ∧ ∀ c ∈ trail, isSpace c = true := by
  constructor
  · rintro ⟨_, _, gap, _, rfl, rfl, hgap, _, _, line, _, rfl, rfl, hline, _, _, inner, _, rfl, rfl,
      ⟨_, rfl, hinner⟩, _, _, line', _, rfl, rfl, hline', _, _, gap', _, rfl, rfl, hgap', _, _, closing, _,
      rfl, rfl, hclosing, rfl, rfl, hend⟩
    obtain ⟨rfl, hlead⟩ := matches_spaces.mp hgap
    obtain ⟨rfl, hfeed⟩ := matches_newline.mp hline
    obtain ⟨rfl, hlength, -⟩ := (describes_fewUpTo_unit _ _ _ _ _ _).mp hinner
    obtain ⟨rfl, hfeed'⟩ := matches_newline.mp hline'
    obtain ⟨rfl, htrail⟩ := matches_spaces.mp hgap'
    obtain ⟨rfl, rfl⟩ := (describes_literal _ _ _ _ _).mp hclosing
    refine ⟨gap ++ line, inner, line' ++ gap', rfl, by simp, List.isEmpty_iff.mp hend, hlength, ?_, ?_⟩
    · exact List.forall_mem_append.mpr ⟨hlead, isSpace_of_newline hfeed⟩
    · exact List.forall_mem_append.mpr ⟨isSpace_of_newline hfeed', htrail⟩
  · rintro ⟨lead, inner, trail, rfl, rfl, rfl, hlength, hlead, htrail⟩
    have hinner : Matches (fewUpTo length (unit fun _ ↦ true)) (after (after before lead) []) [] inner
        (trail ++ ticks) := (describes_fewUpTo_unit _ _ _ _ _ _).mpr ⟨rfl, hlength, fun _ _ ↦ rfl⟩
    refine ⟨[], [inner], lead, inner ++ (trail ++ ticks), rfl, rfl, matches_spaces.mpr ⟨rfl, hlead⟩, ?_⟩
    refine ⟨[], [inner], [], inner ++ (trail ++ ticks), rfl, rfl, matches_newline.mpr ⟨rfl, .inr rfl⟩, ?_⟩
    refine ⟨[inner], [], inner, trail ++ ticks, rfl, rfl, ⟨[], rfl, by simpa using hinner⟩, ?_⟩
    refine ⟨[], [], [], trail ++ ticks, rfl, rfl, matches_newline.mpr ⟨rfl, .inr rfl⟩, ?_⟩
    refine ⟨[], [], trail, ticks, rfl, rfl, matches_spaces.mpr ⟨rfl, htrail⟩, ?_⟩
    refine ⟨[], [], ticks, [], rfl, by simp, ?_, rfl, rfl, rfl⟩
    exact (describes_literal _ _ _ _ _).mpr ⟨rfl, rfl⟩

theorem isSpace_of_isJsonSpace {c : CodeUnit} (h : isJsonSpace c = true) : isSpace c = true := by
  simp only [isJsonSpace, Bool.or_eq_true, decide_eq_true_eq] at h
  rcases h with ((rfl | rfl) | rfl) | rfl <;> decide

/-- The text of a JSON value, without white space around it, is what is left of its text trimmed. -/
theorem exists_trim_of_parse {text : Text} {value : JsonValue} (h : parse text = some value) :
    ∃ core, parse core = some value ∧ (∃ c rest, core = c :: rest ∧ c ≠ unitOf '`') ∧
      ∀ lead trail : Text, (∀ c ∈ lead, isSpace c = true) → (∀ c ∈ trail, isSpace c = true) →
        trim (lead ++ (text ++ trail)) = core := by
  obtain ⟨lead, core, trail, rfl, hlead, htrail, ⟨c, rest, rfl, hc⟩, hends, hparse⟩ := exists_of_parse h
  refine ⟨c :: rest, hparse, ⟨c, rest, rfl, hc.2⟩, fun lead' trail' hlead' htrail' ↦ ?_⟩
  have hbefore := List.forall_mem_append.mpr ⟨hlead', fun c hc ↦ isSpace_of_isJsonSpace (hlead c hc)⟩
  have hafter := List.forall_mem_append.mpr ⟨fun c hc ↦ isSpace_of_isJsonSpace (htrail c hc), htrail'⟩
  have hsame : lead' ++ (lead ++ c :: rest ++ trail ++ trail') =
      (lead' ++ lead) ++ ((c :: rest) ++ (trail ++ trail')) := by simp
  rw [hsame, trim_append_of_spaces hbefore hafter]
  obtain ⟨front, d, hlast, hd⟩ := hends
  apply trim_eq_self
  · rintro _ ⟨⟩
    exact hc.1
  · intro e he
    rw [hlast, List.getLast?_concat] at he
    exact Option.some.inj he ▸ hd.1

/-- A text that begins with no back quote has no fence around it. -/
theorem exec_codeFence_eq_none {c : CodeUnit} (h : c ≠ unitOf '`') (whole rest : Text) :
    exec (codeFence whole) none (c :: rest) = none := by
  rw [exec_eq_none_iff, codeFence_eq]
  rintro _ matched after htext ⟨_, _, opening, others, -, rfl, hopening, -⟩
  obtain ⟨-, rfl⟩ := (describes_literal _ _ _ _ _).mp hopening
  exact h (List.cons.inj htext).1.symm

/-- The engine takes the whole tag, and captures the text between white space. -/
theorem exec_codeFence {tag : Text} (htag : ∀ c ∈ tag, isTagUnit c = true) (text : Text) :
    ∃ lead inner trail, (∀ c ∈ lead, isSpace c = true) ∧ (∀ c ∈ trail, isSpace c = true) ∧
      [unitOf '\n'] ++ (text ++ [unitOf '\n']) = lead ++ (inner ++ trail) ∧
      (exec (codeFence (fenced tag text)) none (fenced tag text)).map Match.captures = some [inner] := by
  let body := unitOf '\n' :: (text ++ unitOf '\n' :: ticks)
  have hbody : Matches (fenceBody (fenced tag text).length) (after (after none ticks) tag) [text] body [] := by
    refine matches_fenceBody.mpr ⟨[unitOf '\n'], text, [unitOf '\n'], rfl, rfl, rfl, ?_,
      isSpace_newline, isSpace_newline⟩
    simp only [fenced, List.length_append, List.length_cons]
    omega
  cases hexec : exec (fenceBody (fenced tag text).length) (after (after none ticks) tag) body with
  | none => exact (exec_eq_none_iff.mp hexec _ _ _ (List.append_nil body) hbody).elim
  | some found =>
    obtain ⟨hfound, htext⟩ := matches_of_exec hexec
    obtain ⟨lead, inner, trail, hcaptures, hmatched, hrest, -, hlead, htrail⟩ := matches_fenceBody.mp hfound
    refine ⟨lead, inner, trail, hlead, htrail, ?_, ?_⟩
    · rw [hmatched, hrest, List.append_nil] at htext
      have hclosed : [unitOf '\n'] ++ (text ++ [unitOf '\n']) ++ ticks = lead ++ (inner ++ trail) ++ ticks := by
        rw [List.append_assoc lead, List.append_assoc inner, htext]
        simp [body]
      exact List.append_cancel_right hclosed
    · have hstop : ∀ c, body.head? = some c → isTagUnit c = false := by
        rintro _ ⟨⟩
        decide
      have hwhole := exec_seq (exec_literal ticks) (exec_seq (exec_star_unit htag hstop) hexec)
      rw [codeFence_eq]
      exact (congrArg (Option.map Match.captures) hwhole).trans (congrArg some hcaptures)

/-- A fence has no white space around it. -/
theorem trim_fenced {lead trail : Text} (hlead : ∀ c ∈ lead, isSpace c = true)
    (htrail : ∀ c ∈ trail, isSpace c = true) (tag text : Text) :
    trim (lead ++ (fenced tag text ++ trail)) = fenced tag text := by
  rw [trim_append_of_spaces hlead htrail]
  apply trim_eq_self
  · rintro _ ⟨⟩
    decide
  · intro c hc
    have hlast : fenced tag text =
        (ticks ++ (tag ++ unitOf '\n' :: (text ++ [unitOf '\n', unitOf '`', unitOf '`']))) ++ [unitOf '`'] := by
      simp only [fenced, List.append_assoc, List.cons_append, List.nil_append]
      rfl
    rw [hlast, List.getLast?_concat] at hc
    exact Option.some.inj hc ▸ by decide

/-- A JSON text is read as its value, whatever white space is around it, and so it is in a code fence. -/
theorem parseJsonContent_transparent {text : Text} {value : JsonValue} (hparse : parse text = some value)
    {tag : Text} (htag : ∀ c ∈ tag, isTagUnit c = true) {lead trail gap gap' : Text}
    (hlead : ∀ c ∈ lead, isSpace c = true) (htrail : ∀ c ∈ trail, isSpace c = true)
    (hgap : ∀ c ∈ gap, isSpace c = true) (hgap' : ∀ c ∈ gap', isSpace c = true) :
    parseJsonContent (lead ++ (text ++ trail)) = some value ∧
      parseJsonContent (lead ++ (fenced tag (gap ++ (text ++ gap')) ++ trail)) = some value := by
  obtain ⟨core, hcore, ⟨c, rest, hhead, hc⟩, htrim⟩ := exists_trim_of_parse hparse
  constructor
  · subst hhead
    rw [parseJsonContent, htrim lead trail hlead htrail, exec_codeFence_eq_none hc]
    exact hcore
  · obtain ⟨before, inner, after, hbefore, hafter, hinner, hexec⟩ :=
      exec_codeFence htag (gap ++ (text ++ gap'))
    obtain ⟨found, hfound, hcaptures⟩ := Option.map_eq_some_iff.mp hexec
    have htext : trim inner = core := by
      calc
        _ = trim (before ++ (inner ++ after)) := (trim_append_of_spaces hbefore hafter inner).symm
        _ = trim (([unitOf '\n'] ++ gap) ++ (text ++ (gap' ++ [unitOf '\n']))) := by
          rw [← hinner]
          simp only [List.append_assoc]
        _ = core := htrim _ _ (List.forall_mem_append.mpr ⟨isSpace_newline, hgap⟩)
          (List.forall_mem_append.mpr ⟨hgap', isSpace_newline⟩)
    rw [parseJsonContent, trim_fenced hlead htrail, hfound]
    dsimp only
    rw [hcaptures, List.headD_cons, htext, hcore]

/-- A string of back quotes, read after a space and in a fence with a tag. -/
theorem parseJsonContent_transparent_backQuotes :
    parseJsonContent ([unitOf ' '] ++ (Text.of "\"```\"" ++ [])) = some (.string ticks) ∧
      parseJsonContent ([unitOf ' '] ++ (fenced (Text.of "json") ([] ++ (Text.of "\"```\"" ++ [])) ++ [])) =
        some (.string ticks) := by
  have hnone : ∀ c ∈ ([] : Text), isSpace c = true := by simp
  have htag : ∀ c ∈ Text.of "json", isTagUnit c = true := List.all_eq_true.mp (by decide)
  have hlead : ∀ c ∈ [unitOf ' '], isSpace c = true := List.forall_mem_singleton.mpr (by decide)
  exact parseJsonContent_transparent (by rfl) htag hlead hnone hnone hnone

end MemoFlowApi.OpenRouter
