import MemoFlowApi.Prompts.Render
import MemoFlowApi.Uuid

/-!
# Prompt Admission

Creating a prompt admits a pair of templates only if rendering them is safe with whatever values they
are later given: every placeholder has a value, and the message to the system carries the nonce alone.
-/

namespace MemoFlowApi.Prompts

open Js Js.Regex

structure CreatePromptInput where
  actorId : Uuid
  featureType : Text
  version : Text
  systemTemplate : Text
  /-- The template of the user message. -/
  userTemplate : Text

structure CreatePromptData where
  featureType : Text
  version : Text
  systemTemplate : Text
  template : Text
  userInvocable : Bool

structure Prompt extends CreatePromptData where
  id : Uuid
  isActive : Bool

structure PromptAuditEventPayload where
  userId : Uuid
  promptId : Uuid
  featureType : Text
  version : Text

/-- What `PromptRepository.create` throws. -/
inductive CreateError where
  | versionConflict
  | other (failure : Failure)

/-- The row that `PromptRepository.create` inserts, where the insert generates an id. -/
def createPrompt (inserted : Except CreateError Uuid) (data : CreatePromptData) :
    Except CreateError Prompt :=
  inserted.map fun id ↦ ⟨data, id, false⟩

namespace CreatePromptUseCase

/-- `PLACEHOLDER_PATTERN`. -/
def placeholderPattern : Regex CodeUnit :=
  sequence [literal openBraces, star (unit isSpace), plus (unit isWord), star (unit isSpace),
    literal closeBraces]

def braces : Regex CodeUnit := alt (literal openBraces) (literal closeBraces)

def listed (names : List Text) : Text := join (Text.of ", ") names

/-- Whether a template uses allowed placeholders only and has no other double brace. -/
def checkTemplate (featureType field template : Text) (allowedList : List Text) :
    Except Failure Unit :=
  let unknown := (listPlaceholders template).filter fun name ↦ !allowedList.contains name
  if unknown ≠ [] then
    .error ⟨.badRequest, field ++ Text.of " uses placeholders not allowed for \"" ++ featureType ++
      Text.of "\": " ++ listed unknown ++ Text.of ". Allowed: " ++ listed allowedList⟩
  else if test braces (replaceAll placeholderPattern (fun _ _ ↦ []) template) then
    .error ⟨.badRequest, field ++ Text.of " contains a malformed placeholder (\"" ++ openBraces ++
      Text.of "\" or \"" ++ closeBraces ++ Text.of "\" outside a valid " ++ openBraces ++
      Text.of "name" ++ closeBraces ++ Text.of ")"⟩
  else .ok ()

/-- What is checked before the repository is asked to create the prompt. -/
def admitted (input : CreatePromptInput) : Except Failure CreatePromptData :=
  match getPromptDefinition input.featureType with
  | none => .error ⟨.badRequest, Text.of "Unknown feature type \"" ++ input.featureType ++
      Text.of "\". Known types: " ++ listed promptFeatureTypes⟩
  | some definition => do
    checkTemplate input.featureType (Text.of "system_template") input.systemTemplate
      systemTemplatePlaceholders
    checkTemplate input.featureType (Text.of "user_template") input.userTemplate
      definition.allowedPlaceholders
    if (listPlaceholders input.userTemplate).contains definition.requiredUserPlaceholder then
      return ⟨input.featureType, input.version, input.systemTemplate, input.userTemplate,
        definition.userInvocable⟩
    else
      throw ⟨.badRequest, Text.of "user_template must contain " ++ openBraces ++
        definition.requiredUserPlaceholder ++ closeBraces⟩

/-- The prompt created, and the event emitted for it. -/
def execute (create : CreatePromptData → Except CreateError Prompt) (input : CreatePromptInput) :
    Except Failure (Prompt × PromptAuditEventPayload) := do
  let data ← admitted input
  match create data with
  | .ok prompt => return (prompt, ⟨input.actorId, prompt.id, prompt.featureType, prompt.version⟩)
  | .error .versionConflict =>
    throw ⟨.conflict, Text.of "A prompt with this feature type and version already exists"⟩
  | .error (.other failure) => throw failure

end CreatePromptUseCase

/-! ## Variables at run time -/

/-- What `GenerateSuggestionUseCase` substitutes. -/
def suggestionVars (content context nonce : Text) : List (Text × Text) :=
  [(Text.of "content", content), (Text.of "context", context), (Text.of "nonce", nonce)]

/-- What `renderPlanningPrompt` substitutes. -/
def planningVars (prompt context nonce : Text) : List (Text × Text) :=
  [(Text.of "prompt", prompt), (Text.of "context", context), (Text.of "nonce", nonce)]

/-- The variables with which a prompt is rendered. -/
inductive RunTimeVars (prompt : CreatePromptData) (nonce : Text) : List (Text × Text) → Prop
  | suggestion (content context : Text) (h : prompt.userInvocable = true) :
      RunTimeVars prompt nonce (suggestionVars content context nonce)
  | planning (request context : Text) (h : prompt.featureType = planningFeatureType) :
      RunTimeVars prompt nonce (planningVars request context nonce)

/-! ## Safe rendering -/

/-- The text of a template outside its placeholders. -/
def outside (tokens : List (Token CodeUnit)) : Text := tokens.flatMap (Token.replace fun _ _ ↦ [])

/-- A rendered text is a template with each placeholder replaced by its value as it is, and without
double braces in the rest. -/
def RendersSafely (template : Text) (vars : List (Text × Text)) (rendered : Text) : Prop :=
  ∃ tokens : List (Token CodeUnit), tokens.flatMap Token.text = template ∧
    (∀ captures text, .found captures text ∈ tokens → ∃ name, captures = [name] ∧
      IsPlaceholder name text ∧ (vars.lookup name).isSome) ∧
    tokens.flatMap (Token.replace fun captures _ ↦ valueOf vars captures) = rendered ∧
    ¬openBraces <:+: outside tokens ∧ ¬closeBraces <:+: outside tokens

namespace CreatePromptUseCase

theorem placeholderPattern_eq : placeholderPattern = withoutGroups placeholder := rfl

/-- Stripping and rendering see the same placeholders. -/
theorem replaceAll_placeholderPattern (template : Text) :
    replaceAll placeholderPattern (fun _ _ ↦ []) template = outside (scan placeholder template) := by
  rw [replaceAll, placeholderPattern_eq, scan_withoutGroups, outside, List.flatMap_map]
  congr 1
  funext token
  cases token <;> rfl

theorem describes_braces : Describes braces {openBraces, closeBraces} :=
  describes_alt (describes_literal openBraces) (describes_literal closeBraces)

theorem nil_not_mem_braces : [] ∉ ({openBraces, closeBraces} : Language CodeUnit) := by
  rintro (h | h) <;> cases h

/-- A template that passes the check uses allowed placeholders and has no double brace elsewhere. -/
theorem checkTemplate_ok {featureType field template : Text} {allowedList : List Text}
    (h : checkTemplate featureType field template allowedList = .ok ()) :
    (∀ name ∈ listPlaceholders template, name ∈ allowedList) ∧
      ¬openBraces <:+: outside (scan placeholder template) ∧
        ¬closeBraces <:+: outside (scan placeholder template) := by
  simp only [checkTemplate, ne_eq, replaceAll_placeholderPattern] at h
  split_ifs at h with hunknown hbraces
  rw [List.filter_eq_nil_iff] at hunknown
  rw [describes_braces.test_eq_true_iff nil_not_mem_braces] at hbraces
  refine ⟨fun name hname ↦ ?_, fun hopen ↦ ?_, fun hclose ↦ ?_⟩
  · simpa using hunknown name hname
  · exact hbraces ⟨openBraces, Set.mem_insert _ _, hopen⟩
  · exact hbraces ⟨closeBraces, Set.mem_insert_of_mem _ rfl, hclose⟩

/-- What is admitted has passed both checks under the definition of its feature type. -/
theorem admitted_ok {input : CreatePromptInput} {data : CreatePromptData} (h : admitted input = .ok data) :
    ∃ definition, getPromptDefinition input.featureType = some definition ∧
      checkTemplate input.featureType (Text.of "system_template") input.systemTemplate
        systemTemplatePlaceholders = .ok () ∧
      checkTemplate input.featureType (Text.of "user_template") input.userTemplate
        definition.allowedPlaceholders = .ok () ∧
      data = ⟨input.featureType, input.version, input.systemTemplate, input.userTemplate,
        definition.userInvocable⟩ := by
  unfold admitted at h
  cases hdefinition : getPromptDefinition input.featureType with
  | none => rw [hdefinition] at h; cases h
  | some definition =>
    rw [hdefinition] at h
    refine ⟨definition, rfl, ?_⟩
    cases hsystem : checkTemplate input.featureType (Text.of "system_template")
      input.systemTemplate systemTemplatePlaceholders with
    | error failure => simp only [hsystem] at h; cases h
    | ok _ =>
      cases huser : checkTemplate input.featureType (Text.of "user_template") input.userTemplate
        definition.allowedPlaceholders with
      | error failure => simp only [hsystem, huser] at h; cases h
      | ok _ =>
        simp only [hsystem, huser] at h
        change (if _ then _ else _) = _ at h
        split_ifs at h
        cases h
        exact ⟨rfl, rfl, rfl⟩

/-- What is created was admitted, and is announced. -/
theorem execute_eq_ok_iff {inserted : Except CreateError Uuid} {input : CreatePromptInput}
    {row : Prompt} {payload : PromptAuditEventPayload} :
    execute (createPrompt inserted) input = .ok (row, payload) ↔
      admitted input = .ok row.toCreatePromptData ∧ inserted = .ok row.id ∧ row.isActive = false ∧
        payload = ⟨input.actorId, row.id, row.featureType, row.version⟩ := by
  unfold execute
  cases hadmitted : admitted input with
  | error failure => exact ⟨by rintro ⟨⟩, fun h ↦ by cases h.1⟩
  | ok data =>
    cases inserted with
    | error error => cases error <;> exact ⟨by rintro ⟨⟩, fun h ↦ by cases h.2.1⟩
    | ok id =>
      constructor
      · rintro ⟨⟩
        exact ⟨rfl, rfl, rfl, rfl⟩
      · obtain ⟨rowData, rowId, isActive⟩ := row
        rintro ⟨⟨⟩, ⟨⟩, rfl, rfl⟩
        rfl

end CreatePromptUseCase

/-- A checked template whose allowed placeholders have values is rendered safely. -/
theorem rendersSafely {featureType field template : Text} {allowedList : List Text}
    (h : CreatePromptUseCase.checkTemplate featureType field template allowedList = .ok ())
    {vars : List (Text × Text)} (hvars : ∀ name ∈ allowedList, (vars.lookup name).isSome) :
    ∃ rendered, renderPrompt template vars = .ok rendered ∧ RendersSafely template vars rendered := by
  obtain ⟨hallowed, hopen, hclose⟩ := CreatePromptUseCase.checkTemplate_ok h
  have hvalues : ∀ name ∈ listPlaceholders template, (vars.lookup name).isSome :=
    fun name hname ↦ hvars name (hallowed name hname)
  have hscans := scans_scan consuming_placeholder template
  refine ⟨_, renderPrompt_eq_ok hvalues, scan placeholder template, hscans.flatMap_text, ?_, rfl,
    hopen, hclose⟩
  intro captures text hfound
  obtain ⟨before, rest, hmatch⟩ := hscans.matches_of_found hfound
  obtain ⟨name, rfl, hplaceholder⟩ := matches_placeholder hmatch
  exact ⟨name, rfl, hplaceholder, hvalues name (mem_listPlaceholders.mpr ⟨_, _, hfound, rfl⟩)⟩

/-- The rendered text depends on the values of the placeholders that the template uses. -/
theorem renderPrompt_congr {template : Text} {vars others : List (Text × Text)}
    (h : ∀ name ∈ listPlaceholders template, vars.lookup name = others.lookup name) :
    renderPrompt template vars = renderPrompt template others := by
  apply replaceAllM_congr
  intro captures text hfound
  rw [h _ (mem_listPlaceholders.mpr ⟨captures, text, hfound, rfl⟩)]

/-- All variables at run time have the nonce of the request. -/
theorem RunTimeVars.lookup_nonce {prompt : CreatePromptData} {nonce : Text}
    {vars : List (Text × Text)} (h : RunTimeVars prompt nonce vars) :
    vars.lookup (Text.of "nonce") = some nonce := by
  cases h <;> rfl

/-- Every placeholder that a definition allows has a value at run time. -/
theorem RunTimeVars.isSome_lookup {input : CreatePromptInput} {definition : PromptDefinition}
    {prompt : CreatePromptData} {nonce : Text} {vars : List (Text × Text)}
    (hdefinition : getPromptDefinition input.featureType = some definition)
    (hprompt : prompt.featureType = input.featureType)
    (hinvocable : prompt.userInvocable = definition.userInvocable)
    (h : RunTimeVars prompt nonce vars) :
    ∀ name ∈ definition.allowedPlaceholders, (vars.lookup name).isSome := by
  obtain ⟨hmem, hfeature⟩ := mem_of_getPromptDefinition hdefinition
  obtain ⟨-, hallowed, hplanning⟩ := promptDefinitions_cases definition hmem
  rw [hallowed]
  cases h with
  | suggestion content context h =>
    rw [if_pos (hinvocable ▸ h)]
    intro name hname
    simp only [invocablePlaceholders, List.mem_cons, List.not_mem_nil, or_false] at hname
    rcases hname with rfl | rfl | rfl <;> rfl
  | planning request context h =>
    have hnot : ¬definition.userInvocable = true := fun hinv ↦
      hplanning.mp hinv (hfeature.trans (hprompt.symm.trans h))
    rw [if_neg hnot]
    intro name hname
    simp only [planningPlaceholders, List.mem_cons, List.not_mem_nil, or_false] at hname
    rcases hname with rfl | rfl | rfl <;> rfl

/-- What is created of an admitted prompt is the prompt, inactive.  Both of its templates render, with
the values of a run in the place of their placeholders and nothing else like a placeholder, and the
system message depends on the nonce alone. -/
theorem admitted_prompts_render {input : CreatePromptInput} {prompt : CreatePromptData}
    (hadmitted : CreatePromptUseCase.admitted input = .ok prompt) :
    (prompt.systemTemplate = input.systemTemplate ∧ prompt.template = input.userTemplate ∧
      (prompt.userInvocable = true ∨ prompt.featureType = planningFeatureType)) ∧
    (∀ inserted row payload,
      CreatePromptUseCase.execute (createPrompt inserted) input = .ok (row, payload) →
        row.toCreatePromptData = prompt ∧ row.isActive = false ∧
          payload = ⟨input.actorId, row.id, prompt.featureType, prompt.version⟩) ∧
    ∀ nonce vars, RunTimeVars prompt nonce vars → ∃ system user,
      renderPrompt prompt.systemTemplate vars = .ok system ∧
      renderPrompt prompt.template vars = .ok user ∧
      RendersSafely prompt.systemTemplate vars system ∧
      RendersSafely prompt.template vars user ∧
      ∀ others, RunTimeVars prompt nonce others →
        renderPrompt prompt.systemTemplate others = .ok system := by
  have hcreated : ∀ inserted row payload,
      CreatePromptUseCase.execute (createPrompt inserted) input = .ok (row, payload) →
        row.toCreatePromptData = prompt ∧ row.isActive = false ∧
          payload = ⟨input.actorId, row.id, prompt.featureType, prompt.version⟩ := by
    intro inserted row payload h
    obtain ⟨hrow, -, hinactive, hpayload⟩ := CreatePromptUseCase.execute_eq_ok_iff.mp h
    obtain rfl := Except.ok.inj (hrow.symm.trans hadmitted)
    exact ⟨rfl, hinactive, hpayload⟩
  obtain ⟨definition, hdefinition, hsystem, huser, rfl⟩ := CreatePromptUseCase.admitted_ok hadmitted
  obtain ⟨hmem, hfeature⟩ := mem_of_getPromptDefinition hdefinition
  obtain ⟨-, -, hplanning⟩ := promptDefinitions_cases definition hmem
  refine ⟨⟨rfl, rfl, ?_⟩, hcreated, ?_⟩
  · by_cases hinv : definition.userInvocable = true
    · exact .inl hinv
    · exact .inr (hfeature ▸ not_not.mp fun hne ↦ hinv (hplanning.mpr hne))
  · intro nonce vars hvars
    have hnonce : ∀ name ∈ systemTemplatePlaceholders, vars.lookup name = some nonce := by
      intro name hname
      obtain rfl := List.mem_singleton.mp hname
      exact hvars.lookup_nonce
    obtain ⟨system, hrendered, hsafe⟩ := rendersSafely hsystem fun name hname ↦ by
      rw [hnonce name hname]; rfl
    obtain ⟨user, hrenderedUser, hsafeUser⟩ := rendersSafely huser
      (hvars.isSome_lookup hdefinition rfl rfl)
    refine ⟨system, user, hrendered, hrenderedUser, hsafe, hsafeUser, ?_⟩
    intro others hothers
    rw [← hrendered]
    apply renderPrompt_congr
    intro name hname
    obtain rfl := List.mem_singleton.mp ((CreatePromptUseCase.checkTemplate_ok hsystem).1 name hname)
    rw [hothers.lookup_nonce, hvars.lookup_nonce]

/-- A prompt whose two templates use one placeholder each. -/
def fenced : CreatePromptInput where
  actorId := ⟨"curator", by decide⟩
  featureType := Text.of "rewrite"
  version := Text.of "v9"
  systemTemplate := Text.of "Fence " ++ openBraces ++ Text.of "nonce" ++ closeBraces
  userTemplate := openBraces ++ Text.of " content " ++ closeBraces

theorem fenced_admitted : CreatePromptUseCase.admitted fenced =
    .ok ⟨fenced.featureType, fenced.version, fenced.systemTemplate, fenced.userTemplate, true⟩ := by
  rfl

theorem admitted_prompts_render_fenced : ∃ system user,
    renderPrompt fenced.systemTemplate (suggestionVars (Text.of "x") [] (Text.of "y")) = .ok system ∧
      renderPrompt fenced.userTemplate (suggestionVars (Text.of "x") [] (Text.of "y")) = .ok user ∧
      RendersSafely fenced.systemTemplate (suggestionVars (Text.of "x") [] (Text.of "y")) system := by
  obtain ⟨system, user, hsystem, huser, hsafe, -⟩ := (admitted_prompts_render fenced_admitted).2.2
    (Text.of "y") _ (.suggestion (Text.of "x") [] rfl)
  exact ⟨system, user, hsystem, huser, hsafe⟩

end MemoFlowApi.Prompts
