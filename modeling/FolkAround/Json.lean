import Mathlib.Algebra.Group.Nat.Defs
import FolkAround.Lib.Utf8
import FolkAround.Lib.Text

/-!
# JSON values

The one data type all parts of the program exchange: what `serde_json` calls a
`Value` on the Rust side and what `JSON.parse` returns in the signalling server.
An object is the list of its members; a lookup takes the first with the key.

`same` decides whether two values are equal.  `stringify` is the text the signalling
server measures; how a number is printed is left to the runtime.
-/

namespace FolkAround

/-- A JSON number the way `serde_json` keeps it: an unsigned or a negative
integer of 64 bits, or the bits of a double. -/
inductive Number where
  | posInt (n : UInt64)
  | negInt (n : Int64)
  | float (bits : UInt64)
  deriving DecidableEq, Repr

/-- A JSON value. -/
inductive Value where
  | null
  | bool (b : Bool)
  | number (n : Number)
  | string (s : String)
  | array (items : List Value)
  | object (members : List (String × Value))
  deriving Repr, Inhabited

namespace Value

/-- The member of an object with the given key. -/
def get (v : Value) (key : String) : Option Value :=
  match v with
  | object members => members.lookup key
  | _ => none

def isNull : Value → Bool
  | null => true
  | _ => false

def asBool : Value → Option Bool
  | bool b => some b
  | _ => none

def asStr : Value → Option String
  | string s => some s
  | _ => none

def asArray : Value → Option (List Value)
  | array items => some items
  | _ => none

/-- The value as a signed integer of 64 bits, if it is one. -/
def asI64 : Value → Option Int
  | number (.posInt n) => if n.toNat < 2 ^ 63 then some n.toNat else none
  | number (.negInt n) => some n.toInt
  | _ => none

/-- The value as an unsigned integer of 64 bits, if it is one. -/
def asU64 : Value → Option UInt64
  | number (.posInt n) => some n
  | _ => none

@[simp] theorem get_object (members : List (String × Value)) (key : String) :
    (object members).get key = members.lookup key := rfl

@[simp] theorem asStr_string (s : String) : (string s).asStr = some s := rfl

theorem asStr_eq_some_iff {v : Value} {s : String} : v.asStr = some s ↔ v = string s := by
  cases v <;> simp [asStr]

/-! ## Equality -/

mutual

/-- Are two values the same? -/
def same : Value → Value → Bool
  | null, null => true
  | bool a, bool b => a == b
  | number a, number b => decide (a = b)
  | string a, string b => a == b
  | array vs, array ws => sameItems vs ws
  | object ms, object ns => sameMembers ms ns
  | _, _ => false

def sameItems : List Value → List Value → Bool
  | [], [] => true
  | v :: vs, w :: ws => same v w && sameItems vs ws
  | _, _ => false

def sameMembers : List (String × Value) → List (String × Value) → Bool
  | [], [] => true
  | (k, v) :: ms, (l, w) :: ns => k == l && same v w && sameMembers ms ns
  | _, _ => false

end

mutual

theorem same_iff : ∀ v w, same v w = true ↔ v = w
  | null, w => by cases w <;> simp [same]
  | bool a, w => by cases w <;> simp [same]
  | number a, w => by cases w <;> simp [same]
  | string a, w => by cases w <;> simp [same]
  | array vs, w => by cases w <;> simp [same, sameItems_iff vs]
  | object ms, w => by cases w <;> simp [same, sameMembers_iff ms]

theorem sameItems_iff : ∀ vs ws, sameItems vs ws = true ↔ vs = ws
  | [], ws => by cases ws <;> simp [sameItems]
  | v :: vs, ws => by cases ws <;> simp [sameItems, same_iff v, sameItems_iff vs]

theorem sameMembers_iff : ∀ ms ns, sameMembers ms ns = true ↔ ms = ns
  | [], ns => by cases ns <;> simp [sameMembers]
  | (k, v) :: ms, ns => by
      cases ns with
      | nil => simp [sameMembers]
      | cons n ns => simp [sameMembers, same_iff v, sameMembers_iff ms, Prod.ext_iff]

end

instance : DecidableEq Value := fun v w => decidable_of_iff _ (same_iff v w)

/-! ## The text of a value -/

/-- Four hexadecimal digits. -/
def hex4 (n : Nat) : List Char :=
  [n / 4096 % 16, n / 256 % 16, n / 16 % 16, n % 16].map Nat.digitChar

/-- A character inside a JSON string. -/
def escapeChar (c : Char) : List Char :=
  if c = '"' then ['\\', '"']
  else if c = '\\' then ['\\', '\\']
  else if c.toNat = 8 then ['\\', 'b']
  else if c.toNat = 9 then ['\\', 't']
  else if c.toNat = 10 then ['\\', 'n']
  else if c.toNat = 12 then ['\\', 'f']
  else if c.toNat = 13 then ['\\', 'r']
  else if c.toNat < 0x20 then '\\' :: 'u' :: hex4 c.toNat
  else [c]

/-- A JSON string literal. -/
def quote (s : String) : List Char := '"' :: s.toList.flatMap escapeChar ++ ['"']

mutual

/-- The text `JSON.stringify` writes, given how the runtime prints a number. -/
def stringify (numberText : Number → List Char) : Value → List Char
  | null => "null".toList
  | bool true => "true".toList
  | bool false => "false".toList
  | number n => numberText n
  | string s => quote s
  | array items => '[' :: stringifyItems numberText items ++ [']']
  | object members => '{' :: stringifyMembers numberText members ++ ['}']

/-- The items of an array, with commas between them. -/
def stringifyItems (numberText : Number → List Char) : List Value → List Char
  | [] => []
  | [v] => stringify numberText v
  | v :: w :: vs => stringify numberText v ++ ',' :: stringifyItems numberText (w :: vs)

/-- The members of an object, with commas between them. -/
def stringifyMembers (numberText : Number → List Char) : List (String × Value) → List Char
  | [] => []
  | [(k, v)] => quote k ++ ':' :: stringify numberText v
  | (k, v) :: m :: ms =>
    quote k ++ ':' :: stringify numberText v ++ ',' :: stringifyMembers numberText (m :: ms)

end

/-! ## Strings that are written as they are -/

/-- A character that takes one byte and no escape. -/
def PlainChar (c : Char) : Prop := 0x20 ≤ c.toNat ∧ c.toNat < 0x80 ∧ c ≠ '"' ∧ c ≠ '\\'

theorem escapeChar_plain {c : Char} (h : PlainChar c) : escapeChar c = [c] := by
  obtain ⟨hlow, -, hquote, hslash⟩ := h
  unfold escapeChar
  rw [if_neg hquote, if_neg hslash, if_neg (by omega), if_neg (by omega), if_neg (by omega),
    if_neg (by omega), if_neg (by omega), if_neg (by omega)]

/-- A plain string takes two bytes more than it has characters. -/
theorem length_encode_quote {s : String} (h : ∀ c ∈ s.toList, PlainChar c) :
    (Utf8.encode (quote s)).length = s.toList.length + 2 := by
  have hescape : s.toList.flatMap escapeChar = s.toList := by
    rw [List.flatMap_congr fun c hc => escapeChar_plain (h c hc), List.flatMap_singleton']
  rw [quote, hescape, Utf8.length_encode_of_ascii]
  · simp
  · intro c hc
    rcases List.mem_append.1 hc with hc | hc
    · rcases List.mem_cons.1 hc with rfl | hc
      · decide
      · exact (h c hc).2.1
    · rw [List.mem_singleton.1 hc]
      decide

end Value

end FolkAround
