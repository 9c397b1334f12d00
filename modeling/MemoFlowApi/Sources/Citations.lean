import MemoFlowApi.Lists.FirstByKey
import MemoFlowApi.Sources.Budget

/-!
# Citations of the Planning Result

The citations of a planning result are made consistent with the sources that the model was given: those
of unknown sources are removed from the texts, and the list of sources keeps the known ones.
-/

namespace MemoFlowApi.Sources

open Js Js.Regex MemoFlowApi.Lists Prompts

/-- A source as returned to clients: never its text. -/
structure CitedSource where
  id : Text
  type : PlanningSourceType
  title : Text
  deriving DecidableEq

/-- A value of an unknown type, of which strings and the members of objects are read. -/
inductive Unknown where
  | null
  | string (text : Text)
  | object (members : List (Text × Unknown))
  | other

/-- What a planner returns; the model that served the call is passed through. -/
structure PlanningResult where
  suggestions : List Text
  outline : Unknown
  sources : List Unknown

structure ValidatedPlanningResult where
  suggestions : List Text
  outline : Unknown
  sources : List CitedSource

/-! ## Patterns -/

def isS (c : CodeUnit) : Bool := c = unitOf 'S' || c = unitOf 's'

def isSeparator (c : CodeUnit) : Bool := c = unitOf ',' || c = unitOf ';'

def gap : Regex CodeUnit := star (unit isSpace)

/-- `S\d{1,4}`. -/
def plainId : Regex CodeUnit := seq (unit isS) (between 1 4 (unit isDigit))

/-- `SOURCE_ID`: `S1` or `[S1]`, nothing else. -/
def sourceIdPattern : Regex CodeUnit :=
  sequence [look fun before _ ↦ before.isNone, opt (literal [unitOf '[']), gap, unit isS,
    capture (between 1 4 (unit isDigit)), gap, opt (literal [unitOf ']']), endOfInput]

/-- `INLINE_CITATION`: `[S1]`, `[S1, S2]`, with the spaces before it. -/
def inlineCitation : Regex CodeUnit :=
  sequence [star (unit isBlank), literal [unitOf '['], gap, plainId,
    star (sequence [gap, unit isSeparator, gap, plainId]), gap, literal [unitOf ']']]

/-- `INLINE_ID`. -/
def inlineId : Regex CodeUnit := seq (unit isS) (capture (between 1 4 (unit isDigit)))

/-! ## Cleaning -/

/-- The number that digits denote. -/
def numberOf (digits : Text) : ℕ := digits.foldl (fun value c ↦ 10 * value + (c.toNat - 48)) 0

/-- The ids of a citation, with the number of each in decimal. -/
def idsOf (citation : Text) : List Text :=
  (matchAll inlineId citation).map fun found ↦ sourceId (numberOf (found.1.headD []))

/-- A citation of some ids, after a space or not. -/
def citation (spaced : Bool) (ids : List Text) : Text :=
  (if spaced then Text.of " " else []) ++ (Text.of "[" ++ (join (Text.of ", ") ids ++ Text.of "]"))

/-- A citation without the ids that are not known. -/
def rewrite (known : List Text) (found : Text) : Text :=
  let ids := (idsOf found).filter known.contains
  if ids = [] then [] else citation (found.head?.any isSpace) (firstByKey id ids)

/-- Drops citations of unknown sources from free text, keeps known ones. -/
def cleanText (text : Text) (known : List Text) : Text :=
  replaceAll inlineCitation (fun _ found ↦ rewrite known found) text

/-- A string outline is cleaned, and is null if nothing is left of it. -/
def cleanOutline (outline : Unknown) (known : List Text) : Unknown :=
  match outline with
  | .string text =>
    let cleaned := cleanText text known
    if trim cleaned = [] then .null else .string cleaned
  | value => value

/-- The id of a source that a value names. -/
def normalizeId : Unknown → Option Text
  | .string text =>
    (matchAll sourceIdPattern (trim text)).head?.map fun found ↦
      sourceId (numberOf (found.1.headD []))
  | _ => none

/-- The value of the member `id` of an object that has one, else the value itself. -/
def rawId : Unknown → Unknown
  | .object members => (members.lookup (Text.of "id")).getD (.object members)
  | value => value

/-- The source of an id; the last one counts. -/
def byId (sources : List CitedSource) (id : Text) : Option CitedSource :=
  sources.reverse.find? (·.id = id)

/-- The source that an entry names. -/
def mentioned (sources : List CitedSource) (entry : Unknown) : Option CitedSource :=
  (normalizeId (rawId entry)).bind (byId sources)

/-- One round of the loop over the entries. -/
def cite (sources : List CitedSource) (cited : List CitedSource) (entry : Unknown) :
    List CitedSource :=
  match mentioned sources entry with
  | none => cited
  | some source =>
    if cited.any (·.id = source.id) then cited else cited ++ [source]

def validateCitations (result : PlanningResult) (sources : List CitedSource) :
    ValidatedPlanningResult :=
  let known := sources.map (·.id)
  { suggestions :=
      (result.suggestions.map fun suggestion ↦ trim (cleanText suggestion known)).filter (· ≠ [])
    outline := cleanOutline result.outline known
    sources := result.sources.foldl (cite sources) [] }

end MemoFlowApi.Sources
