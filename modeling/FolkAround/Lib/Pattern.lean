import Mathlib.Computability.Language

/-!
# Patterns

Regular expressions as ECMA-262 writes them, as far as a row of character sets with
repetitions between two anchors goes.

* `SetItem`, `Term`, `Pattern` — the syntax.
* `Pattern.parse` — the pattern that a text stands for, if it needs nothing else.
* `Pattern.language`, `Pattern.Matches` — what the row matches, and what it is to match
  somewhere in a text.
* `matches_whole_iff` — between two anchors it has to match the whole text.
-/

namespace Patterns

/-! ## Syntax -/

/-- White space and line ends, the way ECMA-262 has them. -/
def isSpace (c : Char) : Bool :=
  (9 ≤ c.toNat && c.toNat ≤ 13) || c.toNat == 0x20 || c.toNat == 0xa0 || c.toNat == 0x1680 ||
    (0x2000 ≤ c.toNat && c.toNat ≤ 0x200a) || c.toNat == 0x2028 || c.toNat == 0x2029 ||
    c.toNat == 0x202f || c.toNat == 0x205f || c.toNat == 0x3000 || c.toNat == 0xfeff

inductive SetItem where
  | range (lo hi : Char)
  | space
  | notSpace
  deriving DecidableEq

def SetItem.contains : SetItem → Char → Bool
  | range lo hi, c => lo ≤ c && c ≤ hi
  | space, c => isSpace c
  | notSpace, c => !isSpace c

/-- A character set, and how often it may be repeated. -/
structure Term where
  set : List SetItem
  min : Nat
  max : Option Nat
  deriving DecidableEq

structure Pattern where
  terms : List Term
  fromStart : Bool
  toEnd : Bool
  deriving DecidableEq

/-! ## Reading a pattern -/

/-- The items of a set, up to the bracket. -/
def parseSet : List Char → Option (List SetItem × List Char)
  | [] => none
  | ']' :: rest => some ([], rest)
  | '\\' :: 's' :: rest => (parseSet rest).map fun (items, rest) => (.space :: items, rest)
  | '\\' :: 'S' :: rest => (parseSet rest).map fun (items, rest) => (.notSpace :: items, rest)
  | '\\' :: _ => none
  | lo :: '-' :: hi :: rest =>
    -- a dash before the bracket stands for itself
    if hi = ']' then some ([.range lo lo, .range '-' '-'], rest)
    else if hi = '\\' ∨ hi < lo then none
    else (parseSet rest).map fun (items, rest) => (.range lo hi :: items, rest)
  | c :: rest => (parseSet rest).map fun (items, rest) => (.range c c :: items, rest)

def syntaxChars : List Char :=
  ['^', '$', '\\', '.', '*', '+', '?', '(', ')', '[', ']', '\x7b', '\x7d', '|']

/-- A set, or a character that stands for itself. -/
def parseAtom : List Char → Option (List SetItem × List Char)
  | '[' :: '^' :: _ => none
  | '[' :: rest => parseSet rest
  | c :: rest => if c ∈ syntaxChars then none else some ([.range c c], rest)
  | [] => none

def number (digits : List Char) : Nat :=
  digits.foldl (fun n digit => 10 * n + (digit.toNat - '0'.toNat)) 0

/-- The bounds behind an opening brace. -/
def parseBounds (text : List Char) : Option ((Nat × Option Nat) × List Char) :=
  let low := text.takeWhile Char.isDigit
  if low = [] then none
  else
    match text.dropWhile Char.isDigit with
    | '\x7d' :: rest => some ((number low, some (number low)), rest)
    | ',' :: text =>
      let high := text.takeWhile Char.isDigit
      match text.dropWhile Char.isDigit with
      | '\x7d' :: rest => some ((number low, if high = [] then none else some (number high)), rest)
      | _ => none
    | _ => none

def parseQuantifier : List Char → Option ((Nat × Option Nat) × List Char)
  | '*' :: rest => some ((0, none), rest)
  | '+' :: rest => some ((1, none), rest)
  | '?' :: rest => some ((0, some 1), rest)
  | '\x7b' :: rest => parseBounds rest
  | rest => some ((1, some 1), rest)

/-- The terms, and whether there is an anchor behind them.  Every term takes a character
at least, so that the length of the text is fuel enough. -/
def parseTerms : Nat → List Char → Option (List Term × Bool)
  | _, [] => some ([], false)
  | _, ['$'] => some ([], true)
  | 0, _ => none
  | fuel + 1, text => do
    let (set, rest) ← parseAtom text
    let ((min, max), rest) ← parseQuantifier rest
    let (terms, toEnd) ← parseTerms fuel rest
    some (⟨set, min, max⟩ :: terms, toEnd)

def Pattern.parse : List Char → Option Pattern
  | '^' :: rest => (parseTerms rest.length rest).map fun (terms, toEnd) => ⟨terms, true, toEnd⟩
  | text => (parseTerms text.length text).map fun (terms, toEnd) => ⟨terms, false, toEnd⟩

/-! ## What a pattern matches -/

def Term.InSet (term : Term) (c : Char) : Prop := ∃ item ∈ term.set, item.contains c = true

instance (term : Term) (c : Char) : Decidable (term.InSet c) :=
  inferInstanceAs (Decidable (∃ item ∈ term.set, item.contains c = true))

def Term.language (term : Term) : Language Char :=
  {word | (∀ c ∈ word, term.InSet c) ∧ term.min ≤ word.length ∧ ∀ n ∈ term.max, word.length ≤ n}

def Pattern.language (p : Pattern) : Language Char := (p.terms.map Term.language).prod

/-- The pattern matches somewhere in the text; an anchor says where. -/
def Pattern.Matches (p : Pattern) (text : List Char) : Prop :=
  ∃ before word after, text = before ++ word ++ after ∧ word ∈ p.language ∧
    (p.fromStart = true → before = []) ∧ (p.toEnd = true → after = [])

theorem matches_whole_iff {terms : List Term} {text : List Char} :
    (Pattern.mk terms true true).Matches text ↔ text ∈ (terms.map Term.language).prod := by
  constructor
  · rintro ⟨before, word, after, rfl, hword, hbefore, hafter⟩
    rw [hbefore rfl, hafter rfl, List.nil_append, List.append_nil]
    exact hword
  · intro h
    refine ⟨[], text, [], ?_, h, fun _ => rfl, fun _ => rfl⟩
    rw [List.nil_append, List.append_nil]

/-- The set has ASCII characters only. -/
def SetItem.ascii : SetItem → Bool
  | range _ hi => decide (hi.toNat < 0x80)
  | _ => false

theorem lt_of_inSet {term : Term} (h : term.set.all SetItem.ascii = true) {c : Char}
    (hc : term.InSet c) : c.toNat < 0x80 := by
  obtain ⟨item, hitem, hcontains⟩ := hc
  have hascii := List.all_eq_true.1 h item hitem
  cases item with
  | range lo hi =>
      rw [SetItem.contains, Bool.and_eq_true, decide_eq_true_eq, decide_eq_true_eq] at hcontains
      have hle : c.toNat ≤ hi.toNat := UInt32.le_iff_toNat_le.1 hcontains.2
      have hhi : hi.toNat < 0x80 := of_decide_eq_true hascii
      omega
  | space => exact absurd hascii (by simp [SetItem.ascii])
  | notSpace => exact absurd hascii (by simp [SetItem.ascii])

theorem inSet_char {d c : Char} {min : Nat} {max : Option Nat} :
    (Term.mk [.range d d] min max).InSet c ↔ c = d := by
  constructor
  · rintro ⟨item, hitem, hcontains⟩
    rw [List.mem_singleton.1 hitem, SetItem.contains, Bool.and_eq_true, decide_eq_true_eq,
      decide_eq_true_eq] at hcontains
    exact Char.le_antisymm hcontains.2 hcontains.1
  · rintro rfl
    exact ⟨.range c c, List.mem_singleton_self _, by simp [SetItem.contains]⟩

/-- Space or not, every character is in the set. -/
theorem inSet_of_any {term : Term} (hspace : .space ∈ term.set) (hnot : .notSpace ∈ term.set)
    (c : Char) : term.InSet c := by
  cases hc : isSpace c with
  | true => exact ⟨.space, hspace, hc⟩
  | false => exact ⟨.notSpace, hnot, by simp [SetItem.contains, hc]⟩

theorem mem_language_iff {term : Term} {word : List Char} :
    word ∈ term.language ↔
      (∀ c ∈ word, term.InSet c) ∧ term.min ≤ word.length ∧ ∀ n ∈ term.max, word.length ≤ n :=
  Iff.rfl

theorem mem_prod_singleton {term : Term} {word : List Char} :
    word ∈ ([term].map Term.language).prod ↔ word ∈ term.language := by
  rw [List.map_singleton, List.prod_singleton]

/-- A single character before a term. -/
theorem mem_prod_char {set : List SetItem} {term : Term} {word : List Char} :
    word ∈ ([⟨set, 1, some 1⟩, term].map Term.language).prod ↔
      ∃ c rest, word = c :: rest ∧ (Term.mk set 1 (some 1)).InSet c ∧ rest ∈ term.language := by
  rw [List.map_cons, List.prod_cons, Language.mem_mul]
  constructor
  · rintro ⟨first, ⟨hset, hmin, hmax⟩, rest, hrest, rfl⟩
    obtain ⟨c, rfl⟩ := List.length_eq_one_iff.1 (Nat.le_antisymm (hmax 1 rfl) hmin)
    exact ⟨c, rest, rfl, hset c (List.mem_singleton_self c), mem_prod_singleton.1 hrest⟩
  · rintro ⟨c, rest, rfl, hset, hrest⟩
    refine ⟨[c], ⟨?_, le_rfl, ?_⟩, rest, mem_prod_singleton.2 hrest, rfl⟩
    · intro d hd
      rw [List.mem_singleton.1 hd]
      exact hset
    · intro n hn
      rw [← Option.some.inj hn]
      rfl

end Patterns
