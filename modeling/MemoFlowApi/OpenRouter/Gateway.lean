import MemoFlowApi.OpenRouter.Ports

/-!
# The OpenRouter Gateway

One completion: attempts with retries under one budget and one deadline, and one request to repair a
reply that is no JSON.
-/

namespace MemoFlowApi.OpenRouter

open Concurrency Js Js.Regex

/-! ## Reading replies -/

/-- A member of a value; only objects have members of these names. -/
def property (name : String) : JsonValue → Option JsonValue
  | .object members => memberOf (Text.of name) members
  | _ => none

/-- `value?.[0]`. -/
def atZero : JsonValue → Option JsonValue
  | .array items => items.head?
  | .string (c :: _) => some (.string [c])
  | .object members => memberOf (Text.of "0") members
  | _ => none

section Settings

variable (settings : Settings)

def finite? : Number → Option ℚ
  | .finite x => some x
  | _ => none

/-- The value of a number that is finite. -/
def finiteNumber : JsonValue → Option ℚ
  | .number literal => finite? (settings.toNumber literal)
  | _ => none

def isTruthy : JsonValue → Bool
  | .null => false
  | .bool value => value
  | .number literal => settings.toNumber literal ≠ .finite 0
  | .string text => text ≠ []
  | _ => true

/-- A value that is neither missing nor falsy. -/
def truthy? (value : Option JsonValue) : Option JsonValue := value.filter (isTruthy settings)

/-- The status that the code of an error states. -/
def toStatus (code : Option JsonValue) : Option ℚ :=
  match code with
  | some (.string text) => finite? (settings.toNumber text)
  | some (.number literal) => finite? (settings.toNumber literal)
  | _ => none

def toUsage (usage : Option JsonValue) : Option LlmUsage :=
  (truthy? settings usage).bind fun usage ↦
    let result : LlmUsage :=
      ⟨(property "prompt_tokens" usage).bind (finiteNumber settings),
        (property "completion_tokens" usage).bind (finiteNumber settings),
        (property "total_tokens" usage).bind (finiteNumber settings)⟩
    if result = ⟨none, none, none⟩ then none else some result

end Settings

def addTokens (a b : Option ℚ) : Option ℚ :=
  if a = none ∧ b = none then none else some (a.getD 0 + b.getD 0)

def sumUsage (a b : Option LlmUsage) : Option LlmUsage :=
  if a = none ∧ b = none then none
  else
    some ⟨addTokens (a.bind (·.promptTokens)) (b.bind (·.promptTokens)),
      addTokens (a.bind (·.completionTokens)) (b.bind (·.completionTokens)),
      addTokens (a.bind (·.totalTokens)) (b.bind (·.totalTokens))⟩

def parseModelList (value : Option Text) : List Text :=
  ((split (unit (· == unitOf ',')) (value.getD [])).map trim).filter (· ≠ [])

/-- A code fence around the whole text. -/
def codeFence (text : Text) : Regex CodeUnit :=
  let ticks := literal (Text.of "```")
  let newline := opt (unit (· == unitOf '\n'))
  sequence [ticks, star (unit fun c ↦ isWord c || c == unitOf '-'), star (unit isSpace), newline,
    capture (fewUpTo text.length (unit fun _ ↦ true)), newline, star (unit isSpace), ticks, endOfInput]

/-- The JSON of a reply, without a surrounding code fence. -/
def parseJsonContent (content : Text) : Option JsonValue :=
  let text := trim content
  match exec (codeFence text) none text with
  | some found => parse (trim (found.captures.headD []))
  | none => parse text

/-! ## Failures -/

def unavailableMessage : Text := Text.of "AI provider temporarily unavailable"

def invalidResponse : DomainError := .provider (Text.of "The AI provider returned an invalid response")

def mismatchedResponse : DomainError :=
  .provider (Text.of "The AI provider returned a response that did not match the expected schema")

def emptyResponse : DomainError := .provider (Text.of "The AI provider returned an empty response")

def maxRetryAfterSeconds : ℚ := 10

def minTimeAfterWaitMs : ℚ := 1000

def backoffBaseMs : ℚ := 500

def backoffJitterMs : ℚ := 250

/-- Seconds form or date form; the clock is read for a date only. -/
def parseRetryAfter (settings : Settings) (header : Option Text) : Async (Option ℚ) :=
  match header.filter (trim · ≠ []) with
  | none => return none
  | some header =>
    match finite? (settings.toNumber header) with
    | some seconds => return if 0 ≤ seconds then some seconds else none
    | none =>
      match finite? (settings.parseDate header) with
      | none => return none
      | some date => do
        let now : ℤ ← await .now
        return some (max 0 ⌈(date - now) / 1000⌉ : ℤ)

def failWith (error : DomainError) : AttemptFailure := ⟨error, .none, none⟩

/-- The failure that a status stands for. -/
def mapStatus (settings : Settings) (status : Option ℚ) (retryAfter : Option Text) :
    Async AttemptFailure :=
  match status with
  | none => return failWith (.provider (Text.of "The AI provider failed to generate a suggestion"))
  | some status =>
    if status = 429 then do
      let seconds ← parseRetryAfter settings retryAfter
      return ⟨.rateLimited (Text.of "The AI provider is rate-limited") seconds, .rateLimit, seconds⟩
    else if 500 ≤ status then return ⟨.unavailable unavailableMessage, .transient, none⟩
    else if status = 408 then return failWith (.unavailable unavailableMessage)
    else return failWith (.provider (Text.of "The AI provider failed to generate a suggestion"))

/-- A timeout is never retried. -/
def networkFailure (error : Thrown) : Async AttemptFailure := do
  let aborted : Bool ← await .aborted
  let timedOut := aborted || error.name = Text.of "TimeoutError" || error.name = Text.of "AbortError"
  return ⟨.unavailable unavailableMessage, if timedOut then .none else .transient, none⟩

/-- Throw the failure that a call computes. -/
def throwFailure (failure : Async AttemptFailure) : Async α := do
  let failure ← failure
  .throw (.attemptFailure failure)

def throwDomain (error : DomainError) : Async α := .throw (.domain error)

/-! ## Attempts -/

def modelOf (settings : Settings) : Text :=
  match settings.model.filter (· ≠ []) with
  | some model => model
  | none => Text.of "openrouter/free"

/-- What is posted, when the clock shows `now`. -/
def chatRequest (settings : Settings) (request : LlmCompletionRequest) (messages : List ChatMessage)
    (deadline now : ℤ) : ChatRequest :=
  let baseUrl := match settings.baseUrl.filter (· ≠ []) with
    | some url => url
    | none => Text.of "https://openrouter.ai/api/v1"
  let fallbacks := parseModelList settings.fallbackModels
  { url := baseUrl.rdropWhile (· == unitOf '/') ++ Text.of "/chat/completions"
    apiKey := settings.apiKey
    model := modelOf settings
    models := if fallbacks = [] then [] else modelOf settings :: fallbacks.filter (· ≠ modelOf settings)
    messages := messages
    maxTokens := (request.maxTokens <|> settings.maxTokens).getD 4096
    jsonSchema := request.jsonSchema
    timeoutMs := max 1 (deadline - now) }

/-- What a first choice without an error says. -/
def readChoice (settings : Settings) (parsed choice : JsonValue) : Async RawCompletion :=
  let finishReason := match property "finish_reason" choice with
    | some (.string reason) => reason
    | _ => []
  let model := match property "model" parsed with
    | some (.string (c :: model)) => c :: model
    | _ => modelOf settings
  if finishReason = Text.of "length" then
    throwDomain (.truncated (Text.of "The model response was truncated before completion"))
  else if finishReason = Text.of "content_filter" then
    throwDomain (.refused (Text.of "The model refused to generate a suggestion"))
  else match (property "message" choice).bind (property "content") with
    | some (.string content) =>
      if trim content = [] then throwDomain emptyResponse
      else return ⟨content, model, finishReason, toUsage settings (property "usage" parsed)⟩
    | _ => throwDomain emptyResponse

/-- What a body says.  Failures can be reported inside a successful response. -/
def readBody (settings : Settings) (parsed : JsonValue) : Async RawCompletion :=
  match truthy? settings (property "error" parsed) with
  | some error => throwFailure (mapStatus settings (toStatus settings (property "code" error)) none)
  | none =>
    match truthy? settings ((property "choices" parsed).bind atZero) with
    | none => throwDomain emptyResponse
    | some choice =>
      match truthy? settings (property "error" choice) with
      | some error => throwFailure (mapStatus settings (toStatus settings (property "code" error)) none)
      | none => readChoice settings parsed choice

def isObject : JsonValue → Bool
  | .object _ => true
  | .array _ => true
  | _ => false

/-- The text of a response as an object. -/
def readResponse (settings : Settings) (text : Text) : Async RawCompletion :=
  match (parse text).filter isObject with
  | none => throwDomain invalidResponse
  | some parsed => readBody settings parsed

/-- One provider attempt.  What the hook throws propagates unchanged. -/
def attempt (settings : Settings) (request : LlmCompletionRequest) (messages : List ChatMessage)
    (deadline : ℤ) : Async RawCompletion := do
  await .beforeAttempt
  let now ← await .now
  match ← (await (.fetch (chatRequest settings request messages deadline now))).attempt with
  | .error error => throwFailure (networkFailure error)
  | .ok response =>
    if !response.ok then throwFailure (mapStatus settings (some response.status) response.retryAfter)
    else
      match ← (await .readText).attempt with
      | .error error => throwFailure (networkFailure error)
      | .ok text => readResponse settings text

/-- Milliseconds to wait if that leaves real time before the deadline. -/
def fitting (remaining waitMs : ℚ) : Option ℚ :=
  if minTimeAfterWaitMs ≤ remaining - waitMs then some waitMs else none

/-- Milliseconds to wait before retrying, or nothing to give up. -/
def retryDelayMs (failure : AttemptFailure) (deadline : ℤ) (left : ℕ) : Async (Option ℚ) :=
  if left = 0 ∨ failure.retry = .none then return none
  else do
    let now ← await .now
    let remaining : ℚ := (deadline - now : ℤ)
    if failure.retry = .rateLimit then
      match failure.retryAfterSeconds with
      | none => return none
      | some seconds =>
        if maxRetryAfterSeconds < seconds then return none else return fitting remaining (seconds * 1000)
    else
      let random ← await .random
      return fitting remaining (backoffBaseMs + ⌊random * backoffJitterMs⌋)

/-- What is done after a failed attempt: wait and go on, or surface the failure. -/
def afterFailure (failure : AttemptFailure) (deadline : ℤ) (left : ℕ) (again : Async α) : Async α := do
  match ← retryDelayMs failure deadline left with
  | none => throwDomain failure.domainError
  | some waitMs =>
    await (.sleep waitMs)
    again

/-- Attempts until one succeeds or its failure surfaces, with the retries that are left then. -/
def callWithRetries (settings : Settings) (request : LlmCompletionRequest)
    (messages : List ChatMessage) (deadline : ℤ) (left : ℕ) : Async (RawCompletion × ℕ) := do
  match ← (attempt settings request messages deadline).attempt with
  | .ok raw => return (raw, left)
  | .error (.attemptFailure failure) =>
    afterFailure failure deadline left
      (match left with
        | 0 => throwDomain failure.domainError
        | left + 1 => callWithRetries settings request messages deadline left)
  | .error error => .throw error

def timeoutMs (settings : Settings) : ℤ := settings.timeoutMs.getD 60000

def maxRetries (settings : Settings) : ℕ := (min 3 (max 0 (settings.maxRetries.getD 1))).toNat

def isAvailable (settings : Settings) : Bool := settings.apiKey.any (· ≠ [])

def firstMessages (request : LlmCompletionRequest) : List ChatMessage :=
  [⟨.system, request.system⟩, ⟨.user, request.user⟩]

def repairInstruction : Text :=
  Text.of ("Your previous reply was not valid JSON. Reply again with ONLY the JSON object " ++
    "that satisfies the schema: no prose, no markdown, no code fences.")

def repairMessages (request : LlmCompletionRequest) (content : Text) : List ChatMessage :=
  firstMessages request ++ [⟨.assistant, content⟩, ⟨.user, repairInstruction⟩]

def toCompletion (raw : RawCompletion) (json : JsonValue) : LlmCompletion :=
  ⟨json, raw.model, raw.finishReason, raw.usage⟩

/-- The one request to repair a reply that is no JSON, in the time that is left. -/
def repair (settings : Settings) (request : LlmCompletionRequest) (deadline : ℤ) (first : RawCompletion)
    (left : ℕ) : Async LlmCompletion := do
  let now : ℤ ← await .now
  if deadline - now ≤ 0 then throwDomain invalidResponse
  else
    let (second, _) ← callWithRetries settings request (repairMessages request first.content) deadline left
    let second := { second with usage := sumUsage first.usage second.usage }
    match parseJsonContent second.content with
    | some json => return toCompletion second json
    | none => throwDomain invalidResponse

def complete (settings : Settings) (request : LlmCompletionRequest) : Async LlmCompletion :=
  if !isAvailable settings then
    throwDomain (.unavailable (Text.of "AI suggestion generation is not configured"))
  else do
    let now : ℤ ← await .now
    let deadline := now + timeoutMs settings
    let (first, left) ← callWithRetries settings request (firstMessages request) deadline
      (maxRetries settings)
    match parseJsonContent first.content with
    | some json => return toCompletion first json
    | none => repair settings request deadline first left

/-! ## Suggestions -/

structure GenerateSuggestionInput where
  userId : Text
  system : Text
  user : Text

structure GenerateSuggestionOutput where
  suggestedText : Text
  model : Text

def suggestionOutputSchema : JsonValue :=
  let text (value : String) : JsonValue := .string (Text.of value)
  .object [(Text.of "type", text "object"),
    (Text.of "properties",
      .object [(Text.of "suggested_text", .object [(Text.of "type", text "string")])]),
    (Text.of "required", .array [text "suggested_text"]),
    (Text.of "additionalProperties", .bool false)]

/-- The suggestion of a completion whose hook reserves a unit of the quota of the user. -/
def generate (settings : Settings) (input : GenerateSuggestionInput) : Async GenerateSuggestionOutput := do
  let completion ← complete settings
    ⟨input.system, input.user, ⟨Text.of "suggestion", suggestionOutputSchema⟩, none⟩
  match property "suggested_text" completion.json with
  | some (.string text) => return ⟨text, completion.model⟩
  | _ => throwDomain mismatchedResponse

end MemoFlowApi.OpenRouter
