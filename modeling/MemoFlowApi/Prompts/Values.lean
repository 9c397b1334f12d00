import MemoFlowApi.Js.JsonText
import MemoFlowApi.Prompts.Guards

/-!
# Prompt Guards on JSON Values

Connector context is a JSON value.  Its strings are prepared one by one, before it is written as a
text in which quotes and escapes could hide a secret.
-/

namespace MemoFlowApi.Prompts

open Js Js.Regex

/-- Values are walked to this depth. -/
def maxWalkDepth : ℕ := 20

def isLineTerminator (c : CodeUnit) : Bool := c = 0x0A || c = 0x0D || c = 0x2028 || c = 0x2029

/-- `SENSITIVE_KEY`: a key that is named like a secret. -/
def sensitiveKey : Regex CodeUnit :=
  let hyphen := opt (unit (isOneOf "_-"))
  sequence [look fun before _ ↦ before.isNone,
    opt (seq (star (unit fun c ↦ !isLineTerminator c)) (unit (isOneOf "_.-"))),
    oneOf [inAnyCase "password", inAnyCase "passwd", inAnyCase "pwd",
      seq (inAnyCase "credential") (opt (inAnyCase "s")), inAnyCase "secret", inAnyCase "token",
      sequence [oneOf [inAnyCase "secret", inAnyCase "private", inAnyCase "access", inAnyCase "auth"],
        hyphen, inAnyCase "key"],
      sequence [inAnyCase "api", hyphen, inAnyCase "key"], inAnyCase "apikey",
      inAnyCase "authorization"],
    endOfInput]

/-- `out[key] = value`: a member keeps its place, and `__proto__` is none. -/
def assign (out : List (Text × JsonValue)) (key : Text) (value : JsonValue) : List (Text × JsonValue) :=
  if key = Text.of "__proto__" then out
  else if out.any (·.1 = key) then
    out.map fun member ↦ if member.1 = key then (key, value) else member
  else out ++ [(key, value)]

section Prepare

variable (isLetter : CodePoint → Bool) (leafCap : ℕ)

mutual

/-- The value with every string prepared, and those under the key of a secret replaced. -/
def prepareUntrustedValue (depth : ℕ) : JsonValue → JsonValue
  | .string text => .string (prepareUntrustedText isLetter (text.take leafCap))
  | .array items =>
    if maxWalkDepth ≤ depth then .string redactionPlaceholder
    else .array (prepareItems (depth + 1) items)
  | .object members =>
    if maxWalkDepth ≤ depth then .string redactionPlaceholder
    else .object (prepareMembers (depth + 1) members [])
  | .null => .null
  | .bool value => .bool value
  | .number literal => .number literal

def prepareItems (depth : ℕ) : List JsonValue → List JsonValue
  | [] => []
  | item :: items => prepareUntrustedValue depth item :: prepareItems depth items

def prepareMembers (depth : ℕ) : List (Text × JsonValue) → List (Text × JsonValue) →
    List (Text × JsonValue)
  | [], out => out
  | (key, value) :: members, out =>
    prepareMembers depth members (assign out (neutralizeUntrustedTags key)
      (match value with
        | .string text =>
          if test sensitiveKey key then .string redactionPlaceholder
          else prepareUntrustedValue depth (.string text)
        | value => prepareUntrustedValue depth value))

end

end Prepare

mutual

/-- Every string leaf of a value, unmodified. -/
def collectStrings (depth : ℕ) : JsonValue → List Text
  | .string text => [text]
  | .array items => if maxWalkDepth ≤ depth then [] else collectItems (depth + 1) items
  | .object members => if maxWalkDepth ≤ depth then [] else collectMembers (depth + 1) members
  | _ => []

def collectItems (depth : ℕ) : List JsonValue → List Text
  | [] => []
  | item :: items => collectStrings depth item ++ collectItems depth items

def collectMembers (depth : ℕ) : List (Text × JsonValue) → List Text
  | [] => []
  | (_, value) :: members => collectStrings depth value ++ collectMembers depth members

end

end MemoFlowApi.Prompts
