import MemoFlowApi.Concurrency.Calls
import MemoFlowApi.Suggestions.Generate

/-!
# Transparency of the Suggestion Cache

A suggestion that is taken from the cache passes the same checks as one that is generated, and was
generated for the same input: the key is a text of all that the output depends on, and no two inputs
have the same one.
-/

namespace MemoFlowApi.Suggestions

open Concurrency Concurrency.Program Js Prompts

/-! ## Keys and entries -/

section Rule

variable (settings : Settings) (input : GenerateSuggestionInput)

/-- The request has prepared its input. -/
def Prepares (calls : List (Call Ans Thrown)) (prepared : Prepared) : Prop :=
  ∃ made, made <+: calls ∧ (prepare settings input).Goes made (.pure prepared)

/-- The request has looked for an entry, and found one that it accepts or none. -/
def Finds (calls : List (Call Ans Thrown)) (prepared : Prepared) (usable : Option CachedSuggestion) :
    Prop :=
  ∃ made, made <+: calls ∧ (lookUp settings input).Goes made (.pure (prepared, usable))

/-- The generator has returned a suggestion to the request. -/
def Generates (calls : List (Call Ans Thrown)) (prepared : Prepared) (value : CachedSuggestion) : Prop :=
  (⟨.generate (prepared.request input), .ok ⟨some value.suggestedText, value.model⟩⟩ : Call Ans Thrown) ∈
    calls

/-- The rule of each call of a request. -/
def rule (calls : List (Call Ans Thrown)) : Op → Prop
  | .redisGet key => ∃ prepared, Prepares settings input calls prepared ∧
      key = keyPrefixText ++ suggestionCacheKey settings (prepared.keyInput input)
  | .generate request => ∃ prepared, Finds settings input calls prepared none ∧
      request = prepared.request input
  | .redisSet key raw _ => ∃ prepared value, Prepares settings input calls prepared ∧
      Finds settings input calls prepared none ∧ Generates input calls prepared value ∧
      Accepts settings prepared value.suggestedText ∧
      key = keyPrefixText ++ suggestionCacheKey settings (prepared.keyInput input) ∧
      raw = entryText value
  | .createSuggestion data => ∃ prepared value, Prepares settings input calls prepared ∧
      Accepts settings prepared value.suggestedText ∧ data = prepared.row input value ∧
      (Finds settings input calls prepared (some value) ∨
        Finds settings input calls prepared none ∧ Generates input calls prepared value)
  | _ => True

/-- The calls before the cache is asked. -/
def Reads : Op → Prop
  | .findSection _ => True
  | .findDocument _ => True
  | .findTitlesByDocument _ => True
  | .findActiveByFeatureType _ => True
  | .isAvailable => True
  | .randomNonce => True
  | .cacheScope => True
  | _ => False

theorem rule_of_reads {op : Op} (h : Reads op) (calls : List (Call Ans Thrown)) :
    rule settings input calls op := by
  cases op <;> trivial

theorem only_assertSectionOwnedByUser (userId sectionId : Text) :
    (assertSectionOwnedByUser (fun id ↦ await (.findSection id)) (fun id ↦ await (.findDocument id))
      userId sectionId).Only Reads := by
  refine ((only_perform _).mpr trivial).bind fun found ↦ ?_
  cases found with
  | none => trivial
  | some found =>
    refine ((only_perform _).mpr trivial).bind fun document ↦ ?_
    cases document with
    | none => trivial
    | some document =>
      by_cases h : document.userId ≠ userId
      · simp only [if_pos h]
        trivial
      · simp only [if_neg h]
        trivial

theorem only_lightContext (prompt : Prompt) (found : Section) :
    (lightContext prompt found).Only Reads := by
  unfold lightContext
  split
  · trivial
  · exact ((only_perform _).mpr trivial).bind fun _ ↦
      ((only_perform _).mpr trivial).bind fun _ ↦ trivial

theorem only_prepare : (prepare settings input).Only Reads := by
  refine (only_assertSectionOwnedByUser _ _).bind fun found ↦
    ((only_perform _).mpr trivial).bind fun active ↦ ?_
  split
  · trivial
  · next prompt _ =>
    refine ((only_perform _).mpr trivial).bind fun available ↦ ?_
    split
    · trivial
    · split
      · trivial
      · refine ((only_perform _).mpr trivial).bind fun nonce ↦
          (only_lightContext prompt found).bind fun light ↦ ?_
        dsimp only
        split
        · exact ((only_perform _).mpr trivial).bind fun _ ↦ trivial
        · trivial

variable {settings input}

theorem wp_prepare : (prepare settings input).wp (ownSpec (rule settings input))
    (fun prepared calls ↦ (prepare settings input).Goes calls (.pure prepared)) (fun _ _ ↦ True) [] := by
  have h : (prepare settings input).wp (ownSpec (rule settings input)) _ _ [] :=
    wp_ownSpec_of_only (only_prepare settings input)
      fun _ hop calls ↦ rule_of_reads settings input hop calls
  refine wp_mono ?_ (fun _ _ h ↦ h) (wp_goes h)
  rintro prepared _ ⟨-, made, rfl, hmade⟩
  exact hmade

theorem wp_lookUp : (lookUp settings input).wp (ownSpec (rule settings input))
    (fun found calls ↦ Prepares settings input calls found.1 ∧
      (lookUp settings input).Goes calls (.pure found)) (fun _ _ ↦ True) [] := by
  have h : (lookUp settings input).wp (ownSpec (rule settings input))
      (fun found calls ↦ Prepares settings input calls found.1) (fun _ _ ↦ True) [] := by
    unfold lookUp
    rw [wp_bind]
    refine wp_mono (fun prepared calls hprepared ↦ ?_) (fun _ _ h ↦ h) wp_prepare
    rw [wp_bind]
    unfold RedisAiResponseCache.get
    split
    · exact ⟨calls, List.prefix_rfl, hprepared⟩
    · rw [wp_bind, wp_attempt]
      refine wp_ownSpec_perform ⟨prepared, ⟨calls, List.prefix_rfl, hprepared⟩, rfl⟩ (fun found ↦ ?_)
        fun error ↦ ?_
      · cases found with
        | none => exact ⟨calls, List.prefix_append _ _, hprepared⟩
        | some raw => exact ⟨calls, List.prefix_append _ _, hprepared⟩
      · exact ⟨calls, List.prefix_append _ _, hprepared⟩
  refine wp_mono ?_ (fun _ _ h ↦ h) (wp_goes h)
  rintro found _ ⟨hprepared, made, rfl, hmade⟩
  exact ⟨hprepared, hmade⟩

/-- An entry that is found was read from the cache, and is accepted. -/
theorem exists_raw_of_finds {calls : List (Call Ans Thrown)} {prepared : Prepared}
    {value : CachedSuggestion} (h : Finds settings input calls prepared (some value)) :
    Prepares settings input calls prepared ∧ Accepts settings prepared value.suggestedText ∧
      ∃ raw, (⟨.redisGet (keyPrefixText ++ suggestionCacheKey settings (prepared.keyInput input)),
        .ok (some raw)⟩ : Call Ans Thrown) ∈ calls ∧ parseEntry raw = some value := by
  obtain ⟨made, hmade, h⟩ := h
  obtain ⟨prepared', before, made', rfl, hprepare, h⟩ := h.of_bind
  obtain ⟨cached, asked, last, rfl, hget, h⟩ := Goes.of_bind h
  obtain ⟨rfl, hfound⟩ := Goes.of_pure h
  obtain ⟨rfl, husable⟩ := Prod.mk.inj hfound
  obtain ⟨rfl, haccepts⟩ := Option.filter_eq_some_iff.mp husable
  refine ⟨⟨before, (List.prefix_append _ _).trans hmade, hprepare⟩, of_decide_eq_true haccepts, ?_⟩
  unfold RedisAiResponseCache.get at hget
  split at hget
  · cases (Goes.of_pure hget).2
  · obtain ⟨found, _, _, rfl, hfound, hread⟩ := Goes.of_bind hget
    obtain rfl := goes_attempt_perform.mp hfound
    cases found with
    | error error => cases (Goes.of_pure hread).2
    | ok found =>
      cases found with
      | none => cases (Goes.of_pure hread).2
      | some raw =>
        refine ⟨raw, hmade.subset ?_, (Goes.of_pure hread).2⟩
        simp

theorem Prepares.mono {calls calls' : List (Call Ans Thrown)} {prepared : Prepared}
    (h : Prepares settings input calls prepared) (hle : calls <+: calls') :
    Prepares settings input calls' prepared := by
  obtain ⟨made, hmade, hgoes⟩ := h
  exact ⟨made, hmade.trans hle, hgoes⟩

theorem Finds.mono {calls calls' : List (Call Ans Thrown)} {prepared : Prepared}
    {usable : Option CachedSuggestion} (h : Finds settings input calls prepared usable)
    (hle : calls <+: calls') : Finds settings input calls' prepared usable := by
  obtain ⟨made, hmade, hgoes⟩ := h
  exact ⟨made, hmade.trans hle, hgoes⟩

theorem wp_generateAndStore {calls : List (Call Ans Thrown)} {prepared : Prepared}
    (hprepares : Prepares settings input calls prepared)
    (hfinds : Finds settings input calls prepared none) :
    (generateAndStore settings input prepared).wp (ownSpec (rule settings input))
      (fun value calls' ↦ calls <+: calls' ∧ Generates input calls' prepared value ∧
        Accepts settings prepared value.suggestedText) (fun _ _ ↦ True) calls := by
  unfold generateAndStore
  rw [wp_bind, wp_attempt]
  refine wp_ownSpec_perform ⟨prepared, hfinds, rfl⟩ (fun output ↦ ?_) fun error ↦ trivial
  obtain ⟨suggestedText, model⟩ := output
  cases suggestedText with
  | none => trivial
  | some text =>
    unfold assertValidOutput
    by_cases haccepts : Accepts settings prepared text
    · simp only [if_pos haccepts]
      rw [wp_bind]
      generalize hasked : calls ++ [⟨.generate (prepared.request input), .ok ⟨some text, model⟩⟩] = asked
      have hgrown : calls <+: asked := hasked ▸ List.prefix_append _ _
      have hgenerates : Generates input asked prepared ⟨text, model⟩ :=
        hasked ▸ List.mem_append_right _ List.mem_cons_self
      unfold RedisAiResponseCache.set
      split
      · exact ⟨hgrown, hgenerates, haccepts⟩
      · rw [wp_bind, wp_attempt]
        refine wp_ownSpec_perform ⟨prepared, ⟨text, model⟩, hprepares.mono hgrown, hfinds.mono hgrown,
          hgenerates, haccepts, rfl, rfl⟩ (fun _ ↦ ?_) fun _ ↦ ?_
        · exact ⟨hgrown.trans (List.prefix_append _ _), List.mem_append_left _ hgenerates, haccepts⟩
        · exact ⟨hgrown.trans (List.prefix_append _ _), List.mem_append_left _ hgenerates, haccepts⟩
    · simp only [if_neg haccepts]
      trivial

/-- Every call of a request obeys its rule. -/
theorem wp_execute (settings : Settings) (input : GenerateSuggestionInput) :
    (execute settings input).wp (ownSpec (rule settings input)) (fun _ _ ↦ True) (fun _ _ ↦ True) [] := by
  unfold execute
  rw [wp_bind]
  refine wp_mono ?_ (fun _ _ h ↦ h) wp_lookUp
  rintro ⟨prepared, usable⟩ calls ⟨hprepares, hgoes⟩
  have hfinds : Finds settings input calls prepared usable := ⟨calls, List.prefix_rfl, hgoes⟩
  dsimp only
  rw [wp_bind]
  cases usable with
  | some value =>
    exact wp_ownSpec_perform ⟨prepared, value, hprepares, (exists_raw_of_finds hfinds).2.1, rfl,
      .inl hfinds⟩ (fun _ ↦ trivial) fun _ ↦ trivial
  | none =>
    refine wp_mono ?_ (fun _ _ h ↦ h) (wp_generateAndStore hprepares hfinds)
    rintro value calls' ⟨hgrown, hgenerates, haccepts⟩
    exact wp_ownSpec_perform ⟨prepared, value, hprepares.mono hgrown, haccepts, rfl,
      .inr ⟨hfinds.mono hgrown, hgenerates⟩⟩ (fun _ ↦ trivial) fun _ ↦ trivial

end Rule

/-! ## Runs of requests -/

/-- Only storing an entry adds one. -/
theorem entries_of_answer {reply : Reply} {op : Op} {entries entries' : Entries} {answer : Ans op}
    (h : suggestions.answer reply op entries = some (answer, entries')) {key raw : Text}
    (hraw : entries' key = some raw) : entries key = some raw ∨ ∃ ttl, op = .redisSet key raw ttl := by
  unfold suggestions at h
  dsimp only at h
  split at h
  all_goals try (cases h; exact .inl hraw)
  · cases h
    next asked =>
    by_cases hkey : key = asked
    · rw [hkey, Function.update_self] at hraw
      cases hraw
    · rw [Function.update_of_ne hkey] at hraw
      exact .inl hraw
  · cases h
    next stored value ttl =>
    by_cases hkey : key = stored
    · subst hkey
      rw [Function.update_self] at hraw
      cases hraw
      exact .inr ⟨ttl, rfl⟩
    · rw [Function.update_of_ne hkey] at hraw
      exact .inl hraw
  · cases h

theorem entry_of_answer {reply : Reply} {key raw : Text} {entries entries' : Entries}
    (h : suggestions.answer reply (.redisGet key) entries = some (some raw, entries')) :
    entries key = some raw := by
  cases reply with
  | entry => exact (Prod.mk.inj (Option.some.inj h)).1
  | _ => cases h

/-- Every entry, and every entry that was read, was stored in the run. -/
def Stored (entries : Entries) (trace : List (Event ι Entries Ans Thrown)) : Prop :=
  (∀ key raw, entries key = some raw → ∃ event ∈ trace, ∃ ttl, event.op = .redisSet key raw ttl) ∧
    ∀ event ∈ trace, ∀ key raw,
      (⟨event.op, event.outcome.result⟩ : Call Ans Thrown) = ⟨.redisGet key, .ok (some raw)⟩ →
        ∃ event' ∈ trace, ∃ ttl, event'.op = .redisSet key raw ttl

section Runs

variable {ι : Type} {settings : Settings} {inputs : ι → GenerateSuggestionInput}
  {start config : Config ι Entries Ans Thrown AiSuggestion}

theorem Stored.step {entries entries' : Entries} {trace : List (Event ι Entries Ans Thrown)} {i : ι}
    {op : Op} {o : Outcome Thrown (Ans op)} (h : Stored entries trace)
    (answers : suggestions.world.Answers Thrown i op entries o entries') :
    Stored entries' (⟨entries, i, op, o⟩ :: trace) := by
  obtain ⟨hentries, hread⟩ := h
  have hgrown : ∀ {key raw}, (∃ event ∈ trace, ∃ ttl, event.op = .redisSet key raw ttl) →
      ∃ event ∈ (⟨entries, i, op, o⟩ : Event ι Entries Ans Thrown) :: trace,
        ∃ ttl, event.op = .redisSet key raw ttl := by
    rintro key raw ⟨event, hevent, hop⟩
    exact ⟨event, List.mem_cons_of_mem _ hevent, hop⟩
  refine ⟨fun key raw hraw ↦ ?_, fun event hevent key raw hcall ↦ ?_⟩
  · rcases answers.unchanged_or_effect with rfl | ⟨_, reply, heffect⟩
    · exact hgrown (hentries key raw hraw)
    · rcases entries_of_answer heffect hraw with hold | hset
      · exact hgrown (hentries key raw hold)
      · exact ⟨_, List.mem_cons_self, hset⟩
  · rcases List.mem_cons.mp hevent with rfl | hevent
    · cases answers with
      | returned effect =>
        obtain ⟨reply, heffect⟩ := effect
        cases hcall
        exact hgrown (hentries key raw (entry_of_answer heffect))
      | lost error mayFail => cases hcall
      | applied error mayFail effect => cases hcall
    · exact hgrown (hread event hevent key raw hcall)

variable [DecidableEq ι]

theorem Finds.unique {input : GenerateSuggestionInput} {calls : List (Call Ans Thrown)}
    {prepared prepared' : Prepared} {usable usable' : Option CachedSuggestion}
    (h : Finds settings input calls prepared usable)
    (h' : Finds settings input calls prepared' usable') : prepared = prepared' ∧ usable = usable' := by
  obtain ⟨made, hmade, hgoes⟩ := h
  obtain ⟨made', hmade', hgoes'⟩ := h'
  exact Prod.mk.inj (hgoes.unique hgoes' hmade hmade').2

end Runs

/-! ## Two requests for one section -/

def wording : Prompt where
  featureType := Text.of "rewrite"
  version := Text.of "v1"
  systemTemplate := Text.of "Be brief."
  template := openBraces ++ Text.of "content" ++ closeBraces
  userInvocable := true
  id := ⟨"wording", by decide⟩
  isActive := true

/-- The moves of a request up to its look into the cache. -/
def opening (caller : ℕ) : List (Move ℕ Reply Thrown) :=
  [.mk caller (.foundSection (some ⟨Text.of "s1", Text.of "d1", Text.of "Hi"⟩)) (.returned ()),
    .mk caller (.document (some ⟨Text.of "u1", Text.of "T"⟩)) (.returned ()),
    .mk caller (.prompt (some wording)) (.returned ()), .mk caller (.available true) (.returned ()),
    .mk caller (.nonce (Text.of "0f")) (.returned ()), .mk caller (.scope (Text.of "m")) (.returned ()),
    .mk caller .entry (.returned ())]

def created (caller : ℕ) : Move ℕ Reply Thrown :=
  .mk caller (.created ⟨⟨[], [], [], [], [], [], none⟩, Text.of "g1"⟩) (.returned ())

/-- Who asked for a generation, and what was persisted for whom. -/
def effects (config : Config ℕ Entries Ans Thrown AiSuggestion) : List (ℕ × Option Text) :=
  config.trace.filterMap fun event ↦
    match event.op with
    | .generate _ => some (event.caller, none)
    | .createSuggestion data => some (event.caller, some data.suggestedText)
    | _ => none

end MemoFlowApi.Suggestions
