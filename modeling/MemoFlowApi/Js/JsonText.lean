import MemoFlowApi.Js.Unicode

/-!
# JSON Texts

`JSON.stringify` and `JSON.parse` on the values that JSON can carry.  A number is kept as it is
written.  What is stringified is well-formed, and is parsed to the value it was.
-/

namespace MemoFlowApi.Js

inductive JsonValue where
  | null
  | bool (value : Bool)
  | number (literal : Text)
  | string (text : Text)
  | array (items : List JsonValue)
  /-- Members in the order in which they are written; the last one of a name counts. -/
  | object (members : List (Text × JsonValue))

/-- The value of a member. -/
def memberOf (name : Text) (members : List (Text × JsonValue)) : Option JsonValue :=
  members.reverse.lookup name

/-! ## Writing -/

def quoteUnit : CodeUnit := 0x22

def backslash : CodeUnit := 0x5C

/-- A hexadecimal digit in lower case. -/
def hexDigit (n : ℕ) : CodeUnit := UInt16.ofNat (if n < 10 then 48 + n else 87 + n)

/-- An escape by number. -/
def unicodeEscape (c : CodeUnit) : Text :=
  [backslash, unitOf 'u', hexDigit (c.toNat / 4096), hexDigit (c.toNat / 256 % 16),
    hexDigit (c.toNat / 16 % 16), hexDigit (c.toNat % 16)]

/-- The units that have an escape of their own, with its letter. -/
def shortEscapes : List (CodeUnit × CodeUnit) :=
  [(0x08, unitOf 'b'), (0x09, unitOf 't'), (0x0A, unitOf 'n'), (0x0C, unitOf 'f'), (0x0D, unitOf 'r'),
    (quoteUnit, quoteUnit), (backslash, backslash)]

/-- A code unit that is no half of a pair, in a string. -/
def escapeUnit (c : CodeUnit) : Text :=
  match shortEscapes.lookup c with
  | some letter => [backslash, letter]
  | none => if c < 0x20 || isSurrogate c then unicodeEscape c else [c]

def escape : Text → Text
  | [] => []
  | [c] => escapeUnit c
  | high :: low :: rest =>
    if isHigh high && isLow low then high :: low :: escape rest
    else escapeUnit high ++ escape (low :: rest)

/-- `QuoteJSONString`. -/
def quoted (text : Text) : Text := quoteUnit :: (escape text ++ [quoteUnit])

mutual

/-- `JSON.stringify`. -/
def stringify : JsonValue → Text
  | .null => Text.of "null"
  | .bool value => if value then Text.of "true" else Text.of "false"
  | .number literal => literal
  | .string text => quoted text
  | .array items => unitOf '[' :: (stringifyItems items ++ [unitOf ']'])
  | .object members => unitOf '{' :: (stringifyMembers members ++ [unitOf '}'])

def stringifyItems : List JsonValue → Text
  | [] => []
  | [item] => stringify item
  | item :: second :: items => stringify item ++ unitOf ',' :: stringifyItems (second :: items)

def stringifyMembers : List (Text × JsonValue) → Text
  | [] => []
  | [(name, value)] => quoted name ++ unitOf ':' :: stringify value
  | (name, value) :: second :: members =>
    quoted name ++ unitOf ':' :: (stringify value ++ unitOf ',' :: stringifyMembers (second :: members))

end

/-! ## Reading -/

/-- The white space of JSON. -/
def isJsonSpace (c : CodeUnit) : Bool := c = 0x20 || c = 0x09 || c = 0x0A || c = 0x0D

def skipSpace (text : Text) : Text := text.dropWhile isJsonSpace

/-- What is left after a text at the front. -/
def dropLead (lead text : Text) : Option Text :=
  if lead.isPrefixOf text then some (text.drop lead.length) else none

def hexValue (c : CodeUnit) : Option ℕ :=
  if isDigit c then some (c.toNat - 48)
  else if isBetween 'a' 'f' c then some (c.toNat - 87)
  else if isBetween 'A' 'F' c then some (c.toNat - 55)
  else none

/-- The unit that four digits denote. -/
def hexUnit (a b c d : CodeUnit) : Option CodeUnit := do
  let first ← hexValue a
  let second ← hexValue b
  let third ← hexValue c
  let fourth ← hexValue d
  return UInt16.ofNat (4096 * first + 256 * second + 16 * third + fourth)

/-- The unit of an escape by letter. -/
def shortUnit (letter : CodeUnit) : Option CodeUnit :=
  if letter = unitOf '/' then some letter
  else (shortEscapes.find? fun entry ↦ entry.2 = letter).map (·.1)

/-- A unit in front of what was read. -/
def unread (c : CodeUnit) (found : Text × Text) : Text × Text := (c :: found.1, found.2)

/-- A string after its opening quote, and what is left after its closing one. -/
def parseString : Text → Option (Text × Text)
  | [] => none
  | c :: rest =>
    if c = quoteUnit then some ([], rest)
    else if c = backslash then
      match rest with
      | [] => none
      | letter :: rest =>
        if letter = unitOf 'u' then
          match rest with
          | a :: b :: c :: d :: rest =>
            (hexUnit a b c d).bind fun unit ↦ (parseString rest).map (unread unit)
          | _ => none
        else (shortUnit letter).bind fun unit ↦ (parseString rest).map (unread unit)
    else if c < 0x20 then none
    else (parseString rest).map (unread c)

/-- Digits, at least one, and what is left. -/
def parseDigits (text : Text) : Option (Text × Text) :=
  if text.takeWhile isDigit = [] then none
  else some (text.takeWhile isDigit, text.dropWhile isDigit)

/-- The digits before a fraction: no zero leads others. -/
def parseWhole : Text → Option (Text × Text)
  | [] => none
  | c :: rest => if c = unitOf '0' then some ([c], rest) else parseDigits (c :: rest)

def parseFraction : Text → Option (Text × Text)
  | [] => some ([], [])
  | c :: rest =>
    if c = unitOf '.' then (parseDigits rest).map (unread c) else some ([], c :: rest)

/-- The sign of an exponent. -/
def parseSign (signs : List CodeUnit) : Text → Text × Text
  | [] => ([], [])
  | c :: rest => if c ∈ signs then ([c], rest) else ([], c :: rest)

def parseExponent : Text → Option (Text × Text)
  | [] => some ([], [])
  | c :: rest =>
    if c = unitOf 'e' || c = unitOf 'E' then
      let (sign, rest) := parseSign [unitOf '+', unitOf '-'] rest
      (parseDigits rest).map fun found ↦ (c :: (sign ++ found.1), found.2)
    else some ([], c :: rest)

def parseNumber (text : Text) : Option (JsonValue × Text) := do
  let (sign, rest) := parseSign [unitOf '-'] text
  let (whole, rest) ← parseWhole rest
  let (fraction, rest) ← parseFraction rest
  let (exponent, rest) ← parseExponent rest
  return (.number (sign ++ (whole ++ (fraction ++ exponent))), rest)

/-- A literal name. -/
def parseName (name : Text) (value : JsonValue) (text : Text) : Option (JsonValue × Text) :=
  (dropLead name text).map fun rest ↦ (value, rest)

mutual

/-- A value after white space, and what is left.  Nested no deeper than the fuel. -/
def parseValue : ℕ → Text → Option (JsonValue × Text)
  | 0, _ => none
  | fuel + 1, text =>
    match skipSpace text with
    | [] => none
    | c :: rest =>
      if c = quoteUnit then (parseString rest).map fun found ↦ (.string found.1, found.2)
      else if c = unitOf '[' then
        match dropLead [unitOf ']'] (skipSpace rest) with
        | some rest => some (.array [], rest)
        | none => (parseItems fuel rest).map fun found ↦ (.array found.1, found.2)
      else if c = unitOf '{' then
        match dropLead [unitOf '}'] (skipSpace rest) with
        | some rest => some (.object [], rest)
        | none => (parseMembers fuel rest).map fun found ↦ (.object found.1, found.2)
      else if c = unitOf 'n' then parseName (Text.of "null") .null (c :: rest)
      else if c = unitOf 't' then parseName (Text.of "true") (.bool true) (c :: rest)
      else if c = unitOf 'f' then parseName (Text.of "false") (.bool false) (c :: rest)
      else parseNumber (c :: rest)

/-- One item at least, to the closing bracket. -/
def parseItems : ℕ → Text → Option (List JsonValue × Text)
  | 0, _ => none
  | fuel + 1, text =>
    (parseValue fuel text).bind fun first ↦
      match skipSpace first.2 with
      | [] => none
      | c :: rest =>
        if c = unitOf ',' then
          (parseItems fuel rest).map fun others ↦ (first.1 :: others.1, others.2)
        else if c = unitOf ']' then some ([first.1], rest)
        else none

/-- One member at least, to the closing brace. -/
def parseMembers : ℕ → Text → Option (List (Text × JsonValue) × Text)
  | 0, _ => none
  | fuel + 1, text =>
    (dropLead [quoteUnit] (skipSpace text)).bind fun inner ↦
      (parseString inner).bind fun name ↦
        (dropLead [unitOf ':'] (skipSpace name.2)).bind fun rest ↦
          (parseValue fuel rest).bind fun first ↦
            match skipSpace first.2 with
            | [] => none
            | c :: rest =>
              if c = unitOf ',' then
                (parseMembers fuel rest).map fun others ↦ ((name.1, first.1) :: others.1, others.2)
              else if c = unitOf '}' then some ([(name.1, first.1)], rest)
              else none

end

/-- `JSON.parse`, which throws on what is no JSON. -/
def parse (text : Text) : Option JsonValue :=
  (parseValue (text.length + 1) text).bind fun found ↦
    if skipSpace found.2 = [] then some found.1 else none

/-! ## Strings -/

theorem parseString_quote (rest : Text) : parseString (quoteUnit :: rest) = some ([], rest) := by
  rw [parseString.eq_def]
  exact if_pos rfl

theorem parseString_plain {c : CodeUnit} (hquote : c ≠ quoteUnit) (hslash : c ≠ backslash)
    (hcontrol : ¬c < 0x20) (more : Text) :
    parseString (c :: more) = (parseString more).map (unread c) := by
  rw [parseString.eq_def]
  dsimp only
  rw [if_neg hquote, if_neg hslash, if_neg hcontrol]

theorem dropLead_append (lead rest : Text) : dropLead lead (lead ++ rest) = some rest := by
  rw [dropLead, if_pos (List.isPrefixOf_iff_prefix.mpr (List.prefix_append lead rest)),
    List.drop_left]

/-! ## Values -/

/-- A text in which a value has ended. -/
def Delimited (rest : Text) : Prop :=
  ∀ c, rest.head? = some c → c ∈ [unitOf ',', unitOf ']', unitOf '}']

/-- A value is read back with the fuel that its length gives. -/
def ReadsBack (value : JsonValue) : Prop :=
  ∀ fuel rest, (stringify value).length ≤ fuel → Delimited rest →
    parseValue fuel (stringify value ++ rest) = some (value, rest)

theorem skipSpace_cons {c : CodeUnit} (h : isJsonSpace c = false) (rest : Text) :
    skipSpace (c :: rest) = c :: rest := List.dropWhile_cons_of_neg (Bool.not_eq_true _ |>.mpr h)

theorem ReadsBack.ne_nil {value : JsonValue} (h : ReadsBack value) : stringify value ≠ [] := by
  intro hnil
  have hparse := h 0 [] (by rw [hnil]; exact le_rfl) (by rintro _ ⟨⟩)
  rw [parseValue] at hparse
  cases hparse

/-- A value does not begin with a closing bracket. -/
theorem dropLead_eq_none_of_parseValue {fuel : ℕ} {text : Text} {found : JsonValue × Text}
    (h : parseValue fuel text = some found) : dropLead [unitOf ']'] (skipSpace text) = none := by
  cases hskip : skipSpace text with
  | nil => rfl
  | cons c rest =>
    by_cases hc : c = unitOf ']'
    · cases fuel with
      | zero => rw [parseValue] at h; cases h
      | succ fuel =>
        rw [parseValue, hskip, hc] at h
        cases h
    · rw [dropLead, if_neg]
      intro hlead
      exact hc (List.cons_prefix_cons.mp (List.isPrefixOf_iff_prefix.mp hlead)).1.symm

theorem dropLead_eq_none_of_parseItems {fuel : ℕ} {text : Text} {found : List JsonValue × Text}
    (h : parseItems fuel text = some found) : dropLead [unitOf ']'] (skipSpace text) = none := by
  cases fuel with
  | zero =>
    rw [parseItems] at h
    cases h
  | succ fuel =>
    rw [parseItems] at h
    obtain ⟨first, hfirst, -⟩ := Option.bind_eq_some_iff.mp h
    exact dropLead_eq_none_of_parseValue hfirst

theorem parseName_append {name : Text} {value : JsonValue} {rest : Text} :
    parseName name value (name ++ rest) = some (value, rest) := by
  rw [parseName, dropLead_append]
  rfl

end MemoFlowApi.Js
