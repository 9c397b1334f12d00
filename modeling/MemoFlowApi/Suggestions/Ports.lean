import MemoFlowApi.Concurrency.Replay
import MemoFlowApi.Js.JsonText
import MemoFlowApi.Prompts.Leaks
import MemoFlowApi.Suggestions.Access

/-!
# Calls of the Suggestions

The repositories, the generator and the Redis client that a suggestion needs.  Only the cache is
state: everything else answers as it likes.
-/

namespace MemoFlowApi.Suggestions

open Concurrency Js Prompts

structure SectionTitle where
  id : Text
  title : Text

structure GenerateSuggestionInput where
  userId : Text
  sectionId : Text
  featureType : Text

/-- What the generator is asked for. -/
structure GenerationRequest where
  system : Text
  user : Text
  featureType : Text
  userId : Text

/-- What the generator returns; the text may turn out to be no string. -/
structure GenerateSuggestionOutput where
  suggestedText : Option Text
  model : Option Text

structure CachedSuggestion where
  suggestedText : Text
  model : Option Text
  deriving DecidableEq

structure CreateAiSuggestionData where
  sectionId : Text
  userId : Text
  featureType : Text
  originalText : Text
  suggestedText : Text
  promptVersion : Text
  model : Option Text
  deriving DecidableEq

structure AiSuggestion extends CreateAiSuggestionData where
  id : Text

inductive Op where
  | findSection (id : Text)
  | findDocument (id : Text)
  | findTitlesByDocument (id : Text)
  | findActiveByFeatureType (featureType : Text)
  | isAvailable
  /-- `randomBytes(16).toString('hex')`. -/
  | randomNonce
  | cacheScope
  | redisGet (key : Text)
  | redisSet (key value : Text) (ttlSeconds : ℤ)
  | generate (request : GenerationRequest)
  | createSuggestion (data : CreateAiSuggestionData)

abbrev Ans : Op → Type
  | .findSection _ => Option Section
  | .findDocument _ => Option Document
  | .findTitlesByDocument _ => List SectionTitle
  | .findActiveByFeatureType _ => Option Prompt
  | .isAvailable => Bool
  | .randomNonce => Text
  | .cacheScope => Text
  | .redisGet _ => Option Text
  | .redisSet _ _ _ => Unit
  | .generate _ => GenerateSuggestionOutput
  | .createSuggestion _ => AiSuggestion

/-- An `async` function of the suggestions. -/
abbrev Async (α : Type) := Program Ans Thrown α

/-- Await a call. -/
abbrev await (op : Op) : Async (Ans op) := Program.perform op

/-- The values that Redis holds. -/
abbrev Entries := Text → Option Text

/-- Answers that the cache does not determine. -/
inductive Reply where
  | foundSection (found : Option Section)
  | document (found : Option Document)
  | titles (found : List SectionTitle)
  | prompt (found : Option Prompt)
  | available (value : Bool)
  | nonce (value : Text)
  | scope (value : Text)
  /-- The entry under a key, if there is one. -/
  | entry
  /-- The entry under a key has expired or was evicted. -/
  | expired
  | generated (output : GenerateSuggestionOutput)
  | created (suggestion : AiSuggestion)

/-- Redis keeps an entry until it expires; the other calls leave it alone. -/
def suggestions : Machine Entries Reply Ans where
  answer reply op entries :=
    match reply, op with
    | .foundSection found, .findSection _ => some (found, entries)
    | .document found, .findDocument _ => some (found, entries)
    | .titles found, .findTitlesByDocument _ => some (found, entries)
    | .prompt found, .findActiveByFeatureType _ => some (found, entries)
    | .available value, .isAvailable => some (value, entries)
    | .nonce value, .randomNonce => some (value, entries)
    | .scope value, .cacheScope => some (value, entries)
    | .entry, .redisGet key => some (entries key, entries)
    | .expired, .redisGet key => some (none, Function.update entries key none)
    | .entry, .redisSet key value _ => some ((), Function.update entries key (some value))
    | .generated output, .generate _ => some (output, entries)
    | .created suggestion, .createSuggestion _ => some (suggestion, entries)
    | _, _ => none
  mayFail
    | .isAvailable => false
    | .randomNonce => false
    | .cacheScope => false
    | _ => true

end MemoFlowApi.Suggestions
