import Mathlib.Data.List.DropRight
import MemoFlowApi.Js.Number

/-!
# Text

JavaScript strings as sequences of UTF-16 code units, with the character classes of its regular
expressions and the string functions that count in code units.
-/

namespace MemoFlowApi.Js

abbrev CodeUnit := UInt16

abbrev Text := List CodeUnit

/-- The code unit of a character of the basic plane. -/
def unitOf (c : Char) : CodeUnit := c.val.toUInt16

/-- The one or two code units of a character. -/
def encode (c : Char) : Text :=
  if c.val < 0x10000 then [unitOf c]
  else
    let offset := c.val - 0x10000
    [(0xD800 : CodeUnit) + (offset >>> 10).toUInt16,
      (0xDC00 : CodeUnit) + (offset &&& 0x3FF).toUInt16]

def Text.of (literal : String) : Text := literal.toList.flatMap encode

/-! ## Character classes -/

/-- The white space and line terminators of the class `\s`, which `trim` removes as well. -/
def spaces : List CodeUnit :=
  [0x09, 0x0A, 0x0B, 0x0C, 0x0D, 0x20, 0xA0, 0x1680, 0x2000, 0x2001, 0x2002, 0x2003, 0x2004, 0x2005,
    0x2006, 0x2007, 0x2008, 0x2009, 0x200A, 0x2028, 0x2029, 0x202F, 0x205F, 0x3000, 0xFEFF]

def isSpace (c : CodeUnit) : Bool := spaces.contains c

def isBetween (low high : Char) (c : CodeUnit) : Bool := unitOf low ≤ c && c ≤ unitOf high

/-- The class `\d`. -/
def isDigit (c : CodeUnit) : Bool := isBetween '0' '9' c

/-- The class `[A-Za-z]`. -/
def isAlpha (c : CodeUnit) : Bool := isBetween 'A' 'Z' c || isBetween 'a' 'z' c

/-- The class `[A-Za-z0-9]`. -/
def isAlnum (c : CodeUnit) : Bool := isAlpha c || isDigit c

/-- The class `\w`. -/
def isWord (c : CodeUnit) : Bool := isAlnum c || c = unitOf '_'

/-! ## String functions -/

def trimStart (text : Text) : Text := text.dropWhile isSpace

def trimEnd (text : Text) : Text := text.rdropWhile isSpace

/-- `String.prototype.trim`. -/
def trim (text : Text) : Text := trimEnd (trimStart text)

/-- The last index at which a text has the pattern, and -1 if it has none. -/
def lastIndexOf (pattern : Text) : Text → ℤ
  | [] => if pattern = [] then 0 else -1
  | c :: text =>
    let later := lastIndexOf pattern text
    if 0 ≤ later then later + 1 else if pattern.isPrefixOf (c :: text) then 0 else -1

/-- `slice(0, stop)`. -/
def sliceTo (text : Text) : Number → Text
  | .nan => []
  | .negInfinity => []
  | .infinity => text
  | .finite stop =>
    let stop := if stop < 0 then ⌈stop⌉ else ⌊stop⌋
    text.take (if stop < 0 then text.length + stop else stop).toNat

/-- A natural number in decimal. -/
def decimal (n : ℕ) : Text := (Nat.toDigits 10 n).map unitOf

/-- `Array.prototype.join`. -/
def join (separator : Text) : List Text → Text
  | [] => []
  | [part] => part
  | part :: parts => part ++ (separator ++ join separator parts)

theorem isDigit_of_mem_decimal {n : ℕ} {c : CodeUnit} (h : c ∈ decimal n) : isDigit c = true := by
  obtain ⟨digit, hdigit, rfl⟩ := List.mem_map.mp h
  have h := Char.isDigit_iff_toNat.mp (Nat.isDigit_of_mem_toDigits (by decide) le_rfl hdigit)
  have hzero : ('0' : Char).toNat = 48 := rfl
  have hnine : ('9' : Char).toNat = 57 := rfl
  have hval : digit.val.toNat = digit.toNat := rfl
  simp only [isDigit, isBetween, unitOf, Bool.and_eq_true, decide_eq_true_eq,
    UInt16.le_iff_toNat_le, UInt32.toNat_toUInt16, hval]
  change 48 % 2 ^ 16 ≤ _ ∧ _ ≤ 57 % 2 ^ 16
  omega

/-! ## Trimming -/

theorem trimStart_eq_self {text : Text} (h : ∀ c, text.head? = some c → isSpace c = false) :
    trimStart text = text := by
  cases text with
  | nil => rfl
  | cons c text => exact List.dropWhile_cons_of_neg (Bool.not_eq_true _ |>.mpr (h c rfl))

theorem head?_trimStart (text : Text) : ∀ c, (trimStart text).head? = some c → isSpace c = false := by
  intro c hc
  have hne : List.dropWhile isSpace text ≠ [] := by
    intro hnil
    rw [trimStart, hnil] at hc
    cases hc
  have hhead := List.head_dropWhile_not isSpace hne
  have hsome := (List.head?_eq_some_head hne).symm.trans hc
  rwa [Option.some.inj hsome] at hhead

theorem trimEnd_eq_self {text : Text} (h : ∀ c, text.getLast? = some c → isSpace c = false) :
    trimEnd text = text :=
  List.rdropWhile_eq_self_iff.mpr fun hne hspace ↦
    Bool.noConfusion (hspace.symm.trans (h _ (List.getLast?_eq_getLast_of_ne_nil hne)))

theorem getLast?_trimEnd (text : Text) :
    ∀ c, (trimEnd text).getLast? = some c → isSpace c = false := by
  intro c hc
  have hne : trimEnd text ≠ [] := fun hnil ↦ by rw [hnil] at hc; cases hc
  have hlast := List.rdropWhile_last_not isSpace text hne
  rw [List.getLast?_eq_getLast_of_ne_nil hne] at hc
  obtain rfl := Option.some.inj hc
  exact Bool.not_eq_true _ |>.mp hlast

/-- A trimmed text begins and ends with no space. -/
theorem trim_ends (text : Text) :
    (∀ c, (trim text).head? = some c → isSpace c = false) ∧
      ∀ c, (trim text).getLast? = some c → isSpace c = false := by
  refine ⟨fun c hc ↦ ?_, getLast?_trimEnd _⟩
  obtain ⟨rest, hrest⟩ := List.rdropWhile_prefix isSpace (trimStart text)
  apply head?_trimStart text
  rw [← hrest, List.head?_append]
  change ((trim text).head?.or _) = _
  rw [hc]
  rfl

theorem trim_eq_self {text : Text} (hhead : ∀ c, text.head? = some c → isSpace c = false)
    (hlast : ∀ c, text.getLast? = some c → isSpace c = false) : trim text = text := by
  rw [trim, trimStart_eq_self hhead, trimEnd_eq_self hlast]

theorem trimStart_append (text more : Text) :
    trimStart (text ++ more) = if trimStart text = [] then trimStart more else trimStart text ++ more := by
  by_cases h : List.dropWhile isSpace text = [] <;> simp [trimStart, List.dropWhile_append, h]

theorem rdropWhile_append_rtakeWhile (drops : CodeUnit → Bool) (text : Text) :
    text.rdropWhile drops ++ text.rtakeWhile drops = text :=
  calc
    _ = (text.reverse.takeWhile drops ++ text.reverse.dropWhile drops).reverse :=
      List.reverse_append.symm
    _ = _ := by rw [List.takeWhile_append_dropWhile, List.reverse_reverse]

/-- What is trimmed at the end is white space. -/
theorem exists_trimEnd_append (text : Text) :
    ∃ gap, (∀ c ∈ gap, isSpace c = true) ∧ text = trimEnd text ++ gap := by
  exact ⟨text.rtakeWhile isSpace, fun c hc ↦ List.mem_rtakeWhile_imp hc,
    (rdropWhile_append_rtakeWhile isSpace text).symm⟩

theorem trimStart_append_of_spaces {lead : Text} (h : ∀ c ∈ lead, isSpace c = true) (text : Text) :
    trimStart (lead ++ text) = trimStart text := List.dropWhile_append_of_pos h

theorem trimEnd_append_of_spaces {trail : Text} (h : ∀ c ∈ trail, isSpace c = true) (text : Text) :
    trimEnd (text ++ trail) = trimEnd text := by
  unfold trimEnd List.rdropWhile
  calc
    _ = ((trail.reverse ++ text.reverse).dropWhile isSpace).reverse := by rw [List.reverse_append]
    _ = (text.reverse.dropWhile isSpace).reverse := by
      rw [List.dropWhile_append_of_pos fun c hc ↦ h c (List.mem_reverse.mp hc)]

/-- White space around a text is removed with its own. -/
theorem trim_append_of_spaces {lead trail : Text} (hlead : ∀ c ∈ lead, isSpace c = true)
    (htrail : ∀ c ∈ trail, isSpace c = true) (text : Text) :
    trim (lead ++ (text ++ trail)) = trim text := by
  rw [trim, trim, trimStart_append_of_spaces hlead, trimStart_append]
  by_cases hblank : trimStart text = []
  · have htrail : trimStart trail = [] := List.dropWhile_eq_nil_iff.mpr htrail
    rw [if_pos hblank, htrail, hblank]
  · rw [if_neg hblank, trimEnd_append_of_spaces htrail]

end MemoFlowApi.Js
