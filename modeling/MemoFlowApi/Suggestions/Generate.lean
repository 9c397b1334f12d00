import MemoFlowApi.Suggestions.Ports

/-!
# Generating a Suggestion

A suggestion is taken from the cache or generated, checked in both cases, and created.  What the hash
and the classes of Unicode are is left to the settings.
-/

namespace MemoFlowApi.Suggestions

open Concurrency Js Js.Regex Prompts

structure Settings where
  isLetter : CodePoint → Bool
  /-- `String.prototype.toLowerCase`. -/
  lower : Text → Text
  /-- SHA-256 in hexadecimal. -/
  sha256 : ByteArray → Text
  /-- `Number.prototype.toString`. -/
  numberText : ℚ → Text
  /-- `AI_MAX_INPUT_CHARS`. -/
  maxInputChars : ℕ
  /-- `AI_CACHE_TTL_SECONDS`. -/
  ttlSeconds : ℤ

/-! ## Keys -/

structure SuggestionCacheKeyInput where
  userId : Text
  featureType : Text
  promptVersion : Text
  /-- The model and its fallbacks. -/
  modelScope : Text
  /-- The section text exactly as prepared for the model. -/
  content : Text
  /-- The light context exactly as prepared for the model. -/
  context : Text
  deriving DecidableEq

/-- Everything that the output depends on, after the version of the key. -/
def SuggestionCacheKeyInput.value (input : SuggestionCacheKeyInput) : JsonValue :=
  .array [.number (Text.of "1"), .string input.userId, .string input.featureType,
    .string input.promptVersion, .string input.modelScope, .string input.content,
    .string input.context]

/-- The bytes that are hashed. -/
def SuggestionCacheKeyInput.bytes (input : SuggestionCacheKeyInput) : ByteArray :=
  utf8 (stringify input.value)

def suggestionCacheKey (settings : Settings) (input : SuggestionCacheKeyInput) : Text :=
  settings.sha256 input.bytes

/-! ## The cache -/

def keyPrefixText : Text := Text.of "ai-cache:suggestion:"

def CachedSuggestion.value (suggestion : CachedSuggestion) : JsonValue :=
  .object [(Text.of "suggestedText", .string suggestion.suggestedText),
    (Text.of "model", match suggestion.model with
      | none => .null
      | some model => .string model)]

/-- What is stored of a suggestion. -/
def entryText (suggestion : CachedSuggestion) : Text := stringify suggestion.value

/-- The suggestion that a value describes. -/
def suggestionOf : JsonValue → Option CachedSuggestion
  | .object members =>
    match memberOf (Text.of "suggestedText") members, memberOf (Text.of "model") members with
    | some (.string suggestedText), some .null => some ⟨suggestedText, none⟩
    | some (.string suggestedText), some (.string model) => some ⟨suggestedText, some model⟩
    | _, _ => none
  | _ => none

/-- A well-formed entry; anything else is a miss. -/
def parseEntry (raw : Text) : Option CachedSuggestion := (parse raw).bind suggestionOf

namespace RedisAiResponseCache

/-- The entry under a key.  Every error behaves as a miss. -/
def get (settings : Settings) (key : Text) : Async (Option CachedSuggestion) :=
  if settings.ttlSeconds ≤ 0 then return none
  else do
    match ← (await (.redisGet (keyPrefixText ++ key))).attempt with
    | .ok (some raw) => return (parseEntry raw)
    | .ok none => return none
    | .error _ => return none

/-- Never throws. -/
def set (settings : Settings) (key : Text) (value : CachedSuggestion) : Async Unit :=
  if settings.ttlSeconds ≤ 0 then return ()
  else do
    let _ ← (await (.redisSet (keyPrefixText ++ key) (entryText value) settings.ttlSeconds)).attempt
    return ()

end RedisAiResponseCache

/-! ## The request -/

def maxSuggestedTextChars : ℕ := 100000

def maxContextTitleChars : ℕ := 200

def oneLine (title : Text) : Text :=
  (trim (replaceAll (plus (unit isSpace)) (fun _ _ ↦ Text.of " ") title)).take maxContextTitleChars

def usesContext (prompt : Prompt) : Bool :=
  [prompt.systemTemplate, prompt.template].any fun template ↦
    (listPlaceholders template).contains (Text.of "context")

/-- The title of the document and of the sections before and after. -/
def contextLines (document : Option Document) (siblings : List SectionTitle) (sectionId : Text) :
    List Text :=
  let titleLine (lead : String) (title : Text) := Text.of lead ++ oneLine title
  let documentLine := (document.map fun found ↦ titleLine "Document: " found.title).toList
  match siblings.findIdx? (·.id = sectionId) with
  | none => documentLine
  | some index =>
    let previous := if 0 < index then siblings[index - 1]? else none
    documentLine ++ (previous.map fun found ↦ titleLine "Previous section: " found.title).toList ++
      (siblings[index + 1]?.map fun found ↦ titleLine "Next section: " found.title).toList

/-- The light context, for a prompt that uses it. -/
def lightContext (prompt : Prompt) (found : Section) : Async (List Text) :=
  if !usesContext prompt then return []
  else do
    let document ← await (.findDocument found.documentId)
    let siblings ← await (.findTitlesByDocument found.documentId)
    return (contextLines document siblings found.id)

/-- What a request knows when it looks for an entry. -/
structure Prepared where
  found : Section
  prompt : Prompt
  nonce : Text
  /-- The lines of the light context. -/
  light : List Text
  /-- The section text and the light context as prepared for the model. -/
  content : Text
  context : Text
  system : Text
  user : Text
  scope : Text

def Prepared.leak (prepared : Prepared) : LeakContext :=
  ⟨prepared.nonce, prepared.system, join (Text.of "\n") (prepared.found.content :: prepared.light)⟩

def Prepared.keyInput (prepared : Prepared) (input : GenerateSuggestionInput) :
    SuggestionCacheKeyInput :=
  ⟨input.userId, input.featureType, prepared.prompt.version, prepared.scope, prepared.content,
    prepared.context⟩

def Prepared.request (prepared : Prepared) (input : GenerateSuggestionInput) : GenerationRequest :=
  ⟨prepared.system, prepared.user, input.featureType, input.userId⟩

def Prepared.row (prepared : Prepared) (input : GenerateSuggestionInput) (value : CachedSuggestion) :
    CreateAiSuggestionData :=
  ⟨prepared.found.id, input.userId, input.featureType, prepared.found.content, value.suggestedText,
    prepared.prompt.version, value.model⟩

def tooLong (settings : Settings) : Text :=
  Text.of "Section text is too long for AI processing (maximum " ++ decimal settings.maxInputChars ++
    Text.of " characters)"

/-- Everything before the cache is asked. -/
def prepare (settings : Settings) (input : GenerateSuggestionInput) :
    Async Prepared := do
  let found ← assertSectionOwnedByUser (fun id ↦ await (.findSection id))
    (fun id ↦ await (.findDocument id)) input.userId input.sectionId
  let active : Option Prompt ← await (.findActiveByFeatureType input.featureType)
  match active.filter (·.userInvocable) with
  | none =>
    fail .notFound
      (Text.of "No active prompt configured for feature type \"" ++ input.featureType ++ Text.of "\"")
  | some prompt =>
    let available : Bool ← await .isAvailable
    if !available then fail .serviceUnavailable (Text.of "AI not configured")
    else if settings.maxInputChars < found.content.length then
      fail .unprocessableEntity (tooLong settings)
    else
      let nonce ← await .randomNonce
      let light ← lightContext prompt found
      let content := prepareUntrustedText settings.isLetter found.content
      let context := prepareUntrustedText settings.isLetter (join (Text.of "\n") light)
      let vars := suggestionVars content context nonce
      match renderPrompt prompt.systemTemplate vars, renderPrompt prompt.template vars with
      | .ok system, .ok user =>
        let scope ← await .cacheScope
        return ⟨found, prompt, nonce, light, content, context, system, user, scope⟩
      | _, _ => fail .serviceUnavailable (Text.of "AI prompt is misconfigured")

/-- A text that is neither blank, nor too long, nor a leak. -/
def Accepts (settings : Settings) (prepared : Prepared) (text : Text) : Prop :=
  trim text ≠ [] ∧ text.length ≤ maxSuggestedTextChars ∧
    leaksPrompt settings.lower text prepared.leak = false

instance (settings : Settings) (prepared : Prepared) (text : Text) :
    Decidable (Accepts settings prepared text) := inferInstanceAs (Decidable (_ ∧ _))

def invalidOutput : Thrown := .provider (Text.of "The AI provider returned an invalid response")

/-- The text of a reply that is a string and accepted. -/
def assertValidOutput (settings : Settings) (prepared : Prepared) (text : Option Text) :
    Except Thrown Text :=
  match text with
  | none => .error invalidOutput
  | some text => if Accepts settings prepared text then .ok text else .error invalidOutput

/-- An error of the generation as clients see it. -/
def mapGenerationError (settings : Settings) : Thrown → Thrown
  | .quotaExceeded message seconds => .throttled message seconds
  | .quotaUnavailable message => .http ⟨.serviceUnavailable, message⟩
  | .unavailable message => .http ⟨.serviceUnavailable,
      if message = Text.of "AI suggestion generation is not configured" then
        Text.of "AI not configured"
      else message⟩
  | .refused message => .http ⟨.unprocessableEntity, message⟩
  | .truncated message => .http ⟨.badGateway, message⟩
  | .rateLimited message (some seconds) => .http ⟨.serviceUnavailable,
      if seconds = 0 then message
      else message ++ Text.of " (retry after " ++ settings.numberText seconds ++ Text.of "s)"⟩
  | .rateLimited message none => .http ⟨.serviceUnavailable, message⟩
  | .provider message => .http ⟨.badGateway, message⟩
  | _ => .http ⟨.badGateway, Text.of "AI suggestion generation failed"⟩

/-- The entry that a request finds, if the entry is acceptable. -/
def lookUp (settings : Settings) (input : GenerateSuggestionInput) :
    Async (Prepared × Option CachedSuggestion) := do
  let prepared ← prepare settings input
  let cached ← RedisAiResponseCache.get settings
    (suggestionCacheKey settings (prepared.keyInput input))
  return (prepared, cached.filter fun value ↦ Accepts settings prepared value.suggestedText)

/-- A generated suggestion, checked and then stored. -/
def generateAndStore (settings : Settings) (input : GenerateSuggestionInput) (prepared : Prepared) :
    Async CachedSuggestion := do
  match ← (await (.generate (prepared.request input))).attempt with
  | .error error => .throw (mapGenerationError settings error)
  | .ok output =>
    match assertValidOutput settings prepared output.suggestedText with
    | .error error => .throw (mapGenerationError settings error)
    | .ok suggestedText =>
      let value : CachedSuggestion := ⟨suggestedText, output.model⟩
      RedisAiResponseCache.set settings (suggestionCacheKey settings (prepared.keyInput input)) value
      return value

/-- The entry found, or a generated suggestion. -/
def resolve (settings : Settings) (input : GenerateSuggestionInput) (prepared : Prepared) :
    Option CachedSuggestion → Async CachedSuggestion
  | some value => return value
  | none => generateAndStore settings input prepared

def execute (settings : Settings) (input : GenerateSuggestionInput) : Async AiSuggestion := do
  let (prepared, usable) ← lookUp settings input
  let value ← resolve settings input prepared usable
  await (.createSuggestion (prepared.row input value))

end MemoFlowApi.Suggestions
