import Mathlib.Data.Rat.Init

/-!
# JSON Values

The values of TypeScript's `unknown` that the API exchanges as JSON, and object spread.
-/

namespace MemoFlowApi

/-- A JSON value.  An object keeps its members in insertion order. -/
inductive Json where
  | null
  | bool (value : Bool)
  | num (value : ℚ)
  | str (value : String)
  | arr (items : List Json)
  | obj (members : List (String × Json))

/-- The type `Record<string, unknown>`. -/
abbrev JsonObject := List (String × Json)

namespace JsonObject

/-- The spread `{ ...members, [key]: value }`: an existing key keeps its place. -/
def set (key : String) (value : Json) : JsonObject → JsonObject
  | [] => [(key, value)]
  | (k, v) :: rest => if k = key then (key, value) :: rest else (k, v) :: set key value rest

/-- The value under a key. -/
def get? (key : String) (members : JsonObject) : Option Json :=
  (members.find? fun member ↦ member.1 = key).map Prod.snd

end JsonObject

end MemoFlowApi
