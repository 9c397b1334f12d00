import Mathlib.Data.Rat.Lemmas
import MemoFlowApi.Json

/-!
# JSON Schema

The keywords of JSON Schema that contracts of the API use, and what validates against them.  A schema
object is the conjunction of its keywords; a keyword says nothing about values of other types than
its own.
-/

namespace MemoFlowApi

namespace JsonObject

variable {members : JsonObject} {key : String} {value : Json}

@[simp]
theorem get?_nil : get? key [] = none := rfl

theorem get?_cons {name : String} :
    get? key ((name, value) :: members) = if name = key then some value else get? key members := by
  unfold get?
  by_cases h : name = key
  · rw [if_pos h, List.find?_cons, decide_eq_true h]
    rfl
  · rw [if_neg h, List.find?_cons, decide_eq_false h]

theorem mem_of_get? (h : get? key members = some value) : (key, value) ∈ members := by
  unfold get? at h
  obtain ⟨member, hfind, rfl⟩ := Option.map_eq_some_iff.mp h
  have hkey := List.find?_some hfind
  rw [← of_decide_eq_true hkey]
  exact List.mem_of_find?_eq_some hfind

theorem get?_eq_none (h : ∀ member ∈ members, member.1 ≠ key) : get? key members = none := by
  cases hvalue : get? key members with
  | none => rfl
  | some value => exact (h _ (mem_of_get? hvalue) rfl).elim

/-- An object without a member. -/
def erase (name : String) (members : JsonObject) : JsonObject := members.filter (·.1 ≠ name)

theorem get?_erase (name : String) :
    get? key (erase name members) = if key = name then none else get? key members := by
  split
  · next h =>
    subst h
    exact get?_eq_none fun member hmember ↦ of_decide_eq_true (List.mem_filter.mp hmember).2
  · next h =>
    unfold get? erase
    rw [List.find?_filter]
    congr 2
    funext member
    by_cases hmember : member.1 = key
    · simp [hmember, h]
    · simp [hmember]

end JsonObject

namespace Json

/-- Equal up to the order of members. -/
inductive Equiv : Json → Json → Prop
  | refl (value : Json) : Equiv value value
  | obj {members members' : JsonObject}
      (same : ∀ key, JsonObject.get? key members = none ↔ JsonObject.get? key members' = none)
      (equiv : ∀ key value value', JsonObject.get? key members = some value →
        JsonObject.get? key members' = some value' → Equiv value value') :
      Equiv (.obj members) (.obj members')

/-- Objects are equal where their members are, name by name. -/
theorem Equiv.of_get? {members members' : JsonObject}
    (h : ∀ key, JsonObject.get? key members = JsonObject.get? key members' ∨
      ∃ value value', JsonObject.get? key members = some value ∧
        JsonObject.get? key members' = some value' ∧ Equiv value value') :
    Equiv (.obj members) (.obj members') := by
  refine .obj (fun key ↦ ?_) fun key value value' hvalue hvalue' ↦ ?_
  · rcases h key with heq | ⟨value, value', hvalue, hvalue', -⟩
    · rw [heq]
    · rw [hvalue, hvalue']
      exact iff_of_false (Option.some_ne_none _) (Option.some_ne_none _)
  · rcases h key with heq | ⟨first, second, hfirst, hsecond, hequiv⟩
    · rw [hvalue, hvalue'] at heq
      cases heq
      exact .refl value
    · rw [hvalue] at hfirst
      rw [hvalue'] at hsecond
      cases hfirst
      cases hsecond
      exact hequiv

/-- The member of a record; an array has none of a name. -/
def member? (name : String) : Json → Option Json
  | obj members => JsonObject.get? name members
  | _ => none

/-- A value without a member. -/
def without (name : String) : Json → Json
  | obj members => obj (JsonObject.erase name members)
  | value => value

end Json

namespace JsonSchema

inductive JsonType where
  | object
  | string
  | number
  | integer

/-- A value that `const` and `enum` may list. -/
inductive Scalar where
  | null
  | bool (value : Bool)
  | num (value : ℚ)
  | str (value : String)
  deriving DecidableEq

inductive Schema where
  /-- The schema `true`. -/
  | anything
  | both (first second : Schema)
  | type (type : JsonType)
  | enum (values : List Scalar)
  | minLength (length : ℕ)
  | minimum (bound : ℚ)
  /-- `format: uuid`. -/
  | uuid
  | required (names : List String)
  /-- One entry of `properties`. -/
  | property (name : String) (schema : Schema)
  /-- `additionalProperties: false` beside properties of these names. -/
  | noOthers (names : List String)
  /-- `if` and `then`. -/
  | ifThen (condition consequence : Schema)

/-- `allOf`, or the keywords of one schema object. -/
def allOf : List Schema → Schema := List.foldr .both .anything

def const (value : Scalar) : Schema := .enum [value]

/-- An `enum` of strings. -/
def enumOf (texts : List String) : Schema := .enum (texts.map .str)

/-- `properties` beside `additionalProperties: false`. -/
def closed (properties : List (String × Schema)) : Schema :=
  .both (allOf (properties.map fun entry ↦ .property entry.1 entry.2))
    (.noOthers (properties.map Prod.fst))

def isHexDigit (c : Char) : Bool :=
  c.isDigit || ('a' ≤ c && c ≤ 'f') || ('A' ≤ c && c ≤ 'F')

/-- Five groups of hexadecimal digits. -/
def isUuid (text : String) : Bool :=
  let groups := text.toList.splitOn '-'
  groups.map List.length = [8, 4, 4, 4, 12] && groups.all fun group ↦ group.all isHexDigit

def scalar? : Json → Option Scalar
  | .null => some .null
  | .bool value => some (.bool value)
  | .num value => some (.num value)
  | .str value => some (.str value)
  | _ => none

def hasType : JsonType → Json → Bool
  | .object, .obj _ => true
  | .string, .str _ => true
  | .number, .num _ => true
  | .integer, .num value => value.den = 1
  | _, _ => false

/-- Whether a value validates against a schema. -/
def validates : Schema → Json → Bool
  | .anything, _ => true
  | .both first second, value => validates first value && validates second value
  | .type type, value => hasType type value
  | .enum values, value => (scalar? value).any (· ∈ values)
  | .minLength length, .str text => length ≤ text.length
  | .minimum bound, .num value => bound ≤ value
  | .uuid, .str text => isUuid text
  | .required names, .obj members => names.all fun name ↦ (JsonObject.get? name members).isSome
  | .property name schema, value => (value.member? name).all (validates schema)
  | .noOthers names, .obj members => members.all fun member ↦ member.1 ∈ names
  | .ifThen condition consequence, value => !validates condition value || validates consequence value
  | _, _ => true

variable {schema first second : Schema} {value : Json} {members : JsonObject}

@[simp]
theorem validates_both :
    validates (.both first second) value = true ↔
      validates first value = true ∧ validates second value = true := Bool.and_eq_true_iff

@[simp]
theorem validates_allOf {schemas : List Schema} :
    validates (allOf schemas) value = true ↔ ∀ schema ∈ schemas, validates schema value = true := by
  induction schemas with
  | nil => exact iff_of_true rfl fun _ h ↦ (List.not_mem_nil h).elim
  | cons schema schemas ih =>
    rw [List.forall_mem_cons, ← ih]
    exact validates_both

@[simp]
theorem validates_property {name : String} :
    validates (.property name schema) value = true ↔
      ∀ child, value.member? name = some child → validates schema child = true := by
  change (value.member? name).all (validates schema) = true ↔ _
  cases value.member? name <;> simp

/-- A property that is present. -/
theorem validates_property_of_get? {name : String} {child : Json}
    (h : JsonObject.get? name members = some child) :
    validates (.property name schema) (.obj members) = true ↔ validates schema child = true := by
  rw [validates_property]
  exact ⟨fun hvalid ↦ hvalid child h, fun hvalid child' hchild ↦
    Option.some.inj (h.symm.trans hchild) ▸ hvalid⟩

@[simp]
theorem validates_ifThen {condition consequence : Schema} :
    validates (.ifThen condition consequence) value = true ↔
      (validates condition value = true → validates consequence value = true) := by
  change (!validates condition value || validates consequence value) = true ↔ _
  cases validates condition value <;> simp

theorem validates_required {names : List String} :
    validates (.required names) (.obj members) = true ↔
      ∀ name ∈ names, ∃ child, JsonObject.get? name members = some child := by
  change names.all (fun name ↦ (JsonObject.get? name members).isSome) = true ↔ _
  simp [Option.isSome_iff_exists]

theorem validates_noOthers {names : List String} :
    validates (.noOthers names) (.obj members) = true ↔ ∀ member ∈ members, member.1 ∈ names := by
  change members.all (fun member ↦ decide (member.1 ∈ names)) = true ↔ _
  simp

theorem validates_closed {properties : List (String × Schema)} :
    validates (closed properties) (.obj members) = true ↔
      (∀ entry ∈ properties, ∀ child, JsonObject.get? entry.1 members = some child →
        validates entry.2 child = true) ∧
      ∀ member ∈ members, member.1 ∈ properties.map Prod.fst := by
  unfold closed
  rw [validates_both, validates_allOf, List.forall_mem_map, validates_noOthers]
  simp only [validates_property]
  exact Iff.rfl

@[simp]
theorem validates_string :
    validates (.type .string) value = true ↔ ∃ text, value = .str text := by
  cases value <;> simp [validates, hasType]

@[simp]
theorem validates_object :
    validates (.type .object) value = true ↔ ∃ members, value = .obj members := by
  cases value <;> simp [validates, hasType]

@[simp]
theorem validates_integer :
    validates (.type .integer) value = true ↔ ∃ n : ℚ, value = .num n ∧ n.den = 1 := by
  cases value <;> simp [validates, hasType]

@[simp]
theorem validates_number :
    validates (.type .number) value = true ↔ ∃ n : ℚ, value = .num n := by
  cases value <;> simp [validates, hasType]

@[simp]
theorem validates_enumOf {texts : List String} :
    validates (enumOf texts) value = true ↔ ∃ text ∈ texts, value = .str text := by
  change (scalar? value).any (fun scalar ↦ decide (scalar ∈ texts.map .str)) = true ↔ _
  cases value <;> simp [scalar?, eq_comm]

@[simp]
theorem validates_const_str {text : String} :
    validates (const (.str text)) value = true ↔ value = .str text := by
  change (scalar? value).any (fun scalar ↦ decide (scalar ∈ [Scalar.str text])) = true ↔ _
  cases value <;> simp [scalar?]

@[simp]
theorem validates_const_num {number : ℚ} :
    validates (const (.num number)) value = true ↔ value = .num number := by
  change (scalar? value).any (fun scalar ↦ decide (scalar ∈ [Scalar.num number])) = true ↔ _
  cases value <;> simp [scalar?]

@[simp]
theorem validates_minLength {length : ℕ} {text : String} :
    validates (.minLength length) (.str text) = true ↔ length ≤ text.length := decide_eq_true_iff

@[simp]
theorem validates_minimum {bound number : ℚ} :
    validates (.minimum bound) (.num number) = true ↔ bound ≤ number := decide_eq_true_iff

/-- A uuid is not empty. -/
theorem length_of_isUuid {text : String} (h : isUuid text = true) : 1 ≤ text.length := by
  by_contra hempty
  have hnil : text = "" := by
    apply String.length_eq_zero_iff.mp
    omega
  subst hnil
  revert h
  decide

end JsonSchema

end MemoFlowApi
