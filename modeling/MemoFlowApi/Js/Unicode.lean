import MemoFlowApi.Js.Text

/-!
# Unicode

The characters that a sequence of code units encodes.  Node encodes a string as UTF-8 character by
character, with a replacement character for each lone surrogate, so that only well-formed strings
have encodings of their own.
-/

namespace MemoFlowApi.Js

def isHigh (c : CodeUnit) : Bool := 0xD800 ≤ c && c < 0xDC00

def isLow (c : CodeUnit) : Bool := 0xDC00 ≤ c && c < 0xE000

def isSurrogate (c : CodeUnit) : Bool := isHigh c || isLow c

/-- The character of a code unit on its own. -/
def charOf (c : CodeUnit) : Char := if isSurrogate c then Char.ofNat 0xFFFD else Char.ofNat c.toNat

/-- The character of a surrogate pair. -/
def charOfPair (high low : CodeUnit) : Char :=
  Char.ofNat (0x10000 + (high.toNat - 0xD800) * 0x400 + (low.toNat - 0xDC00))

def chars : Text → List Char
  | [] => []
  | [c] => [charOf c]
  | high :: low :: rest =>
    if isHigh high && isLow low then charOfPair high low :: chars rest
    else charOf high :: chars (low :: rest)

/-- The string that a text encodes. -/
def Text.string (text : Text) : String := String.ofList (chars text)

/-- The bytes of a text. -/
def utf8 (text : Text) : ByteArray := text.string.toUTF8

end MemoFlowApi.Js
