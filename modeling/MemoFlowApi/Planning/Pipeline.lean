import MemoFlowApi.Concurrency.View
import MemoFlowApi.Planning.Ports

/-!
# The Planning Pipeline

Retrieval, the guarded planner call and the checks around them, shared by both transports.  The
pure text functions of the pipeline (budgeting, rendering, leak detection, citation checks) are
the fields of a `PlanningTexts`; what is proved about jobs holds whatever they compute.  Texts that
are prepared for the model are sequences of code units.
-/

namespace MemoFlowApi.Planning

open Concurrency Js Retrieval Sources

structure RenderedPlanningPrompt where
  system : Text
  user : Text

/-- A planning result whose citations name given sources only. -/
structure ValidatedPlanningResult where
  suggestions : List String
  outline : Option Json
  sources : List CitedSource
  model : Option String

/-- The rest of `const { model, ...resultFields } = result`. -/
def ValidatedPlanningResult.resultFields (result : ValidatedPlanningResult) : ResultFields where
  suggestions := result.suggestions
  outline := result.outline
  sources := result.sources

/-- The pure text functions of the pipeline. -/
structure PlanningTexts where
  /-- The fallback used when no `planning` prompt is active. -/
  builtInPrompt : PromptTexts
  /-- Candidates of the sections and of the connector context, ordered and cut to the budget. -/
  budgetSources : List RetrievedSection → JsonObject → BudgetResult
  /-- Both templates with the prompt, the rendered context and the nonce substituted. -/
  renderPrompts : PromptTexts → String → Text → String → Except AppError RenderedPlanningPrompt
  collectStrings : JsonObject → List Text
  /-- Whether a reply repeats the nonce or the system prompt, apart from the given source. -/
  leaksPrompt : (text nonce system source : Text) → Bool
  validateCitations : PlanningResult → List CitedSource → ValidatedPlanningResult

/-- Text functions that find no sources, as the pipeline's do when nothing was retrieved. -/
def PlanningTexts.withoutSources : PlanningTexts where
  builtInPrompt := ⟨"system", "user"⟩
  budgetSources _ _ := ⟨[], 0, []⟩
  renderPrompts resolved _ _ _ := .ok ⟨.of resolved.systemTemplate, .of resolved.userTemplate⟩
  collectStrings _ := []
  leaksPrompt _ _ _ _ := false
  validateCitations result _ := ⟨result.suggestions, result.outline, [], result.model⟩

structure ResolvedPlanningPrompt extends PromptTexts where
  promptVersion : Option String

/-- Steps 1 to 4 of the pipeline. -/
structure PreparedPlanningContext where
  contextUsed : JsonObject
  connectorContext : JsonObject
  renderedContext : Text
  sources : List BudgetedSource
  sourceStrings : List Text

/-- The metadata recorded about a used source. -/
def sourceMeta (source : BudgetedSource) : Json :=
  .obj [("id", .str source.id.string), ("type", .str source.type.text.string),
    ("title", .str source.title.string), ("ref", .str source.ref.string),
    ("truncated", .bool source.truncated)]

/-- The `retrieval` entry of `context_used`. -/
def retrievalSummary (sections : List RetrievedSection) (budgeted : BudgetResult)
    (failed : Bool) : Json :=
  .obj [("sources", .arr (budgeted.sources.map sourceMeta)),
    ("matched", .num (sections.countP (·.matched))),
    ("used", .num budgeted.sources.length),
    ("dropped", .num budgeted.dropped),
    ("truncated", .num (budgeted.sources.countP (·.truncated))),
    ("failed", .bool failed)]

/-- Free text in a planning result, for the leak check. -/
def planningResultStrings (result : PlanningResult) : List String :=
  let strings : Json → List String
    | .str value => [value]
    | _ => []
  result.suggestions ++ result.outline.toList.flatMap strings ++ result.sources.flatMap strings

/-- Sources as `validateCitations` is given them. -/
def citedSources (sources : List BudgetedSource) : List CitedSource :=
  sources.map fun source ↦ ⟨source.id, source.type, source.title⟩

/-- What retrieval found, merged with the connector context. -/
def preparedContext (texts : PlanningTexts) (sections : List RetrievedSection) (failed : Bool)
    (connectorContext : JsonObject) : PreparedPlanningContext :=
  let budgeted := texts.budgetSources sections connectorContext
  { contextUsed := connectorContext.set "retrieval" (retrievalSummary sections budgeted failed)
    connectorContext := connectorContext
    renderedContext := budgeted.text
    sources := budgeted.sources
    sourceStrings := budgeted.sources.flatMap fun source ↦ [source.rawTitle, source.rawText] }

/-- The active `planning` prompt, or the built-in one. -/
def resolvePlanningPrompt (texts : PlanningTexts) : Async ResolvedPlanningPrompt := do
  match ← await .findActiveByFeatureType with
  | some active => return {
      promptVersion := some active.version
      systemTemplate := active.systemTemplate
      userTemplate := active.template }
  | none => return { texts.builtInPrompt with promptVersion := none }

/-- The user must exist, not be disabled and have current AI consent. -/
def assertJobUserActive (userId : UserId) : Async Unit := do
  match ← await (.findUserById userId) with
  | none => .throw jobUserInactiveError
  | some user =>
    if user.isDisabled then
      .throw jobUserInactiveError
    else if ¬ user.hasCurrentAiConsent then
      .throw jobConsentRequiredError

/-- Retrieval.  A failing search does not fail the job. -/
def prepare (texts : PlanningTexts) (job : PlanningJob) (connectorContext : JsonObject) :
    Async PreparedPlanningContext := do
  let found ← (await (.search {
    userId := job.userId
    documentId := job.documentId
    sectionId := job.sectionId
    query := job.prompt
    limit := defaultSectionRetrievalLimit })).attempt
  match found with
  | .ok sections => return preparedContext texts sections false connectorContext
  | .error _ => return preparedContext texts [] true connectorContext

/-- Render, call the planner and check the reply. -/
def planWithGuards (texts : PlanningTexts) (resolved : PromptTexts) (job : PlanningJob)
    (prepared : PreparedPlanningContext) : Async PlanningResult := do
  let nonce ← await .randomBytes
  match texts.renderPrompts resolved job.prompt prepared.renderedContext nonce with
  | .error error => .throw error
  | .ok rendered =>
    let result ← await (.plan {
      userId := job.userId
      prompt := job.prompt
      context := prepared.connectorContext
      system := rendered.system
      user := rendered.user })
    let source := join (.of "\n") (.of job.prompt ::
      (texts.collectStrings prepared.connectorContext ++ prepared.sourceStrings))
    if texts.leaksPrompt (join (.of "\n") ((planningResultStrings result).map .of)) (.of nonce)
        rendered.system source then
      .throw planningOutputRejectedError
    return result

/-- Steps 5 and 6 of the pipeline. -/
def plan (texts : PlanningTexts) (resolved : PromptTexts) (job : PlanningJob)
    (prepared : PreparedPlanningContext) : Async ValidatedPlanningResult := do
  let result ← planWithGuards texts resolved job prepared
  return texts.validateCitations result (citedSources prepared.sources)

/-! ## The calls of the pipeline -/

section Only

variable {allowed : Op → Prop}

theorem resolvePlanningPrompt_only (texts : PlanningTexts) (hfind : allowed .findActiveByFeatureType) :
    (resolvePlanningPrompt texts).Only allowed := by
  refine Program.Only.bind ((Program.only_perform _).mpr hfind) fun active ↦ ?_
  cases active <;> trivial

theorem assertJobUserActive_only (userId : UserId) (hfind : allowed (.findUserById userId)) :
    (assertJobUserActive userId).Only allowed := by
  refine Program.Only.bind ((Program.only_perform _).mpr hfind) fun found ↦ ?_
  cases found with
  | none => trivial
  | some user =>
    dsimp only
    split
    · trivial
    · split <;> trivial

theorem prepare_only (texts : PlanningTexts) (job : PlanningJob) (connectorContext : JsonObject)
    (hsearch : ∀ input, allowed (.search input)) :
    (prepare texts job connectorContext).Only allowed := by
  refine Program.Only.bind (Program.Only.attempt ((Program.only_perform _).mpr (hsearch _)))
    fun found ↦ ?_
  cases found <;> trivial

theorem plan_only (texts : PlanningTexts) (resolved : PromptTexts) (job : PlanningJob)
    (prepared : PreparedPlanningContext) (hrandom : allowed .randomBytes)
    (hplan : ∀ input, allowed (.plan input)) :
    (plan texts resolved job prepared).Only allowed := by
  refine Program.Only.bind ?_ fun result ↦ trivial
  refine Program.Only.bind ((Program.only_perform _).mpr hrandom) fun nonce ↦ ?_
  dsimp only
  split
  · trivial
  · refine Program.Only.bind ((Program.only_perform _).mpr (hplan _)) fun result ↦ ?_
    split <;> trivial

end Only

end MemoFlowApi.Planning
