import FolkAround.Json
import FolkAround.Lib.Pattern

/-!
# JSON Schema

What the schemas mean that clients are given with the tools: which values are valid
under a schema.

* `HasType` — the types, but for `integer`, which no tool uses.
* `Valid` — every keyword of the schema is satisfied; a keyword that is not known says
  nothing.  Lengths of strings count characters.  `enum` compares values as they are
  written, which for strings is all there is.
* `valid_object_iff` — a schema holds if each of its keywords does; a lemma
  `validKeyword_…` says what each of them asks for.
-/

namespace FolkAround
namespace JsonSchema

open Patterns

def HasType : String → Value → Prop
  | "null", v => v = .null
  | "boolean", v => ∃ b, v = .bool b
  | "number", v => ∃ n, v = .number n
  | "string", v => ∃ s, v = .string s
  | "array", v => ∃ items, v = .array items
  | "object", v => ∃ members, v = .object members
  | _, _ => False

/-- A condition on the length of a string; other values have none. -/
def OnLength (v : Value) (P : Nat → Prop) : Prop := ∀ s, v = .string s → P s.toList.length

/-- The properties a schema declares. -/
def declared (keywords : List (String × Value)) : List String :=
  match keywords.lookup "properties" with
  | some (.object properties) => properties.map Prod.fst
  | _ => []

mutual

def Valid : Value → Value → Prop
  | .bool b, _ => b = true
  | .object keywords, v => ValidAll keywords keywords v
  | _, _ => False

/-- The keywords, next to all keywords of the schema. -/
def ValidAll (all : List (String × Value)) : List (String × Value) → Value → Prop
  | [], _ => True
  | (keyword, argument) :: rest, v => ValidKeyword all keyword argument v ∧ ValidAll all rest v

def ValidKeyword (all : List (String × Value)) : String → Value → Value → Prop
  | "type", argument, v => ∃ type, argument = .string type ∧ HasType type v
  | "enum", argument, v => ∃ values, argument = .array values ∧ v ∈ values
  | "minLength", argument, v => ∃ n, argument.asU64 = some n ∧ OnLength v (n.toNat ≤ ·)
  | "maxLength", argument, v => ∃ n, argument.asU64 = some n ∧ OnLength v (· ≤ n.toNat)
  | "pattern", argument, v => ∃ p, argument.asStr.bind (Pattern.parse ·.toList) = some p ∧
      ∀ s, v = .string s → p.Matches s.toList
  | "required", argument, v => ∃ names, argument = .array names ∧ ∀ members, v = .object members →
      ∀ name ∈ names, ∃ key, name = .string key ∧ v.get key ≠ none
  | "properties", .object properties, v => ValidProperties properties v
  | "properties", _, _ => False
  | "additionalProperties", argument, v =>
    ∀ key x, v.get key = some x → key ∉ declared all → Valid argument x
  | _, _, _ => True

def ValidProperties : List (String × Value) → Value → Prop
  | [], _ => True
  | (key, argument) :: rest, v =>
    (∀ x, v.get key = some x → Valid argument x) ∧ ValidProperties rest v

end

/-! ## Keyword by keyword -/

theorem validAll_iff {all keywords : List (String × Value)} {v : Value} :
    ValidAll all keywords v ↔ ∀ k ∈ keywords, ValidKeyword all k.1 k.2 v := by
  induction keywords with
  | nil => simp [ValidAll]
  | cons k rest ih => rw [ValidAll, ih, List.forall_mem_cons]

/-- A schema holds if each of its keywords does. -/
theorem valid_object_iff {keywords : List (String × Value)} {v : Value} :
    Valid (.object keywords) v ↔ ∀ k ∈ keywords, ValidKeyword keywords k.1 k.2 v := by
  rw [Valid, validAll_iff]

theorem validProperties_iff {properties : List (String × Value)} {v : Value} :
    ValidProperties properties v ↔
      ∀ p ∈ properties, ∀ x, v.get p.1 = some x → Valid p.2 x := by
  induction properties with
  | nil => simp [ValidProperties]
  | cons p rest ih => rw [ValidProperties, ih, List.forall_mem_cons]

section

attribute [local simp] ValidKeyword

variable {all : List (String × Value)} {v : Value}

@[simp] theorem validKeyword_type {type : String} :
    ValidKeyword all "type" (.string type) v ↔ HasType type v := by
  simp

@[simp] theorem validKeyword_enum {values : List Value} :
    ValidKeyword all "enum" (.array values) v ↔ v ∈ values := by
  simp

@[simp] theorem validKeyword_minLength {n : UInt64} :
    ValidKeyword all "minLength" (.number (.posInt n)) v ↔ OnLength v (n.toNat ≤ ·) := by
  simp [Value.asU64]

@[simp] theorem validKeyword_maxLength {n : UInt64} :
    ValidKeyword all "maxLength" (.number (.posInt n)) v ↔ OnLength v (· ≤ n.toNat) := by
  simp [Value.asU64]

theorem validKeyword_pattern {text : String} {p : Pattern} (h : Pattern.parse text.toList = some p) :
    ValidKeyword all "pattern" (.string text) v ↔ ∀ s, v = .string s → p.Matches s.toList := by
  simp [h]

@[simp] theorem validKeyword_required {names : List String} {members : List (String × Value)} :
    ValidKeyword all "required" (.array (names.map .string)) (.object members) ↔
      ∀ name ∈ names, members.lookup name ≠ none := by
  simp

@[simp] theorem validKeyword_properties {properties : List (String × Value)} :
    ValidKeyword all "properties" (.object properties) v ↔
      ∀ p ∈ properties, ∀ x, v.get p.1 = some x → Valid p.2 x := by
  rw [ValidKeyword, validProperties_iff]

@[simp] theorem validKeyword_closed :
    ValidKeyword all "additionalProperties" (.bool false) v ↔
      ∀ key x, v.get key = some x → key ∈ declared all := by
  simp [Valid]

@[simp] theorem validKeyword_description {argument : Value} :
    ValidKeyword all "description" argument v := by
  simp

end

end JsonSchema
end FolkAround
