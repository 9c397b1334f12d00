import MemoFlowApi.Prompts.Guards

/-!
# Leaks of the System Prompt

A reply of the model leaks if it contains the nonce of its request, or a long sentence of the system
prompt that the source text does not have.  The lower case of a text is Unicode's and stays a
parameter.
-/

namespace MemoFlowApi.Prompts

open Js Js.Regex

structure LeakContext where
  /-- The nonce of the request, which the system prompt carries. -/
  nonce : Text
  /-- The rendered system prompt. -/
  system : Text
  /-- Text that the model saw and may quote. -/
  source : Text

def minLeakSentenceChars : ℕ := 40

def includes (text pattern : Text) : Bool := decide (pattern <:+: text)

variable (lower : Text → Text)

/-- Runs of white space are one space, in lower case. -/
def normalize (text : Text) : Text :=
  lower (trim (replaceAll (plus (unit isSpace)) (fun _ _ ↦ Text.of " ") text))

def sentenceEnd : Regex CodeUnit := plus (unit (isOneOf ".!?\n"))

/-- The sentences of a system prompt that are long enough to be told. -/
def sentences (system : Text) : List Text :=
  ((split sentenceEnd system).map (normalize lower)).filter fun sentence ↦
    minLeakSentenceChars ≤ sentence.length

def leaksPrompt (output : Text) (context : LeakContext) : Bool :=
  (context.nonce ≠ [] && includes (lower output) (lower context.nonce)) ||
    (sentences lower context.system).any fun sentence ↦
      includes (normalize lower output) sentence && !includes (normalize lower context.source) sentence

end MemoFlowApi.Prompts
