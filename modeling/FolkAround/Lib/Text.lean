import Mathlib.Data.List.DropRight
import Mathlib.Tactic.Common

/-!
# Text functions of a string library

Text is a list of characters.  The module has the string functions of a systems
language's standard library, in that library's reading of them:

* `isWhitespace`, `trim`, `splitWhitespace` — white space is the Unicode property,
  not the ASCII one.
* `lines` — a line ends at `'\n'`, and one `'\r'` before it belongs to the end; a
  last line without an end is a line, and keeps its `'\r'`.
* `splitOnce` — cut at the first separator.
* `eqIgnoreAsciiCase`, `toAsciiLowercase` — only `A`–`Z` have another case.
* `parseUnsigned` — an optional `+`, then decimal digits, below a bound.
* `IsNumeral` — decimal digits that stand for a number.

`lines_append_newline` cuts a text at any line end, `trim_append_whitespace` drops
what `trim` would drop anyway, and `parseUnsigned_numeral` reads back a number.
-/

namespace Text

/-! ## White space -/

/-- The Unicode property `White_Space`. -/
def isWhitespace (c : Char) : Bool :=
  let n := c.toNat
  (9 ≤ n && n ≤ 13) || n == 0x20 || n == 0x85 || n == 0xA0 || n == 0x1680 ||
    (0x2000 ≤ n && n ≤ 0x200A) || n == 0x2028 || n == 0x2029 || n == 0x202F ||
    n == 0x205F || n == 0x3000

/-- The text without leading and trailing white space. -/
def trim (s : List Char) : List Char := (s.dropWhile isWhitespace).rdropWhile isWhitespace

/-- Split at white space, `cur` being the piece read so far. -/
def splitWhitespaceFrom (cur : List Char) : List Char → List (List Char)
  | [] => if cur = [] then [] else [cur]
  | c :: cs =>
    if isWhitespace c then
      if cur = [] then splitWhitespaceFrom [] cs else cur :: splitWhitespaceFrom [] cs
    else splitWhitespaceFrom (cur ++ [c]) cs

/-- The maximal pieces free of white space. -/
def splitWhitespace (s : List Char) : List (List Char) := splitWhitespaceFrom [] s

theorem rdropWhile_append_of_all {p : Char → Bool} {w : List Char} (hw : ∀ c ∈ w, p c = true)
    (s : List Char) : (s ++ w).rdropWhile p = s.rdropWhile p := by
  induction w using List.reverseRecOn with
  | nil => rw [List.append_nil]
  | append_singleton w c ih =>
      rw [← List.append_assoc, List.rdropWhile_concat_pos _ _ _ (hw c (by simp)),
        ih fun d hd => hw d (by simp [hd])]

/-- White space at the end is trimmed away. -/
theorem trim_append_whitespace {w : List Char} (hw : ∀ c ∈ w, isWhitespace c = true)
    (s : List Char) : trim (s ++ w) = trim s := by
  by_cases hs : ∀ c ∈ s, isWhitespace c = true
  · have h1 : s.dropWhile isWhitespace = [] := List.dropWhile_eq_nil_iff.2 hs
    have h2 : (s ++ w).dropWhile isWhitespace = [] := by
      rw [List.dropWhile_eq_nil_iff]
      intro c hc
      rcases List.mem_append.1 hc with h | h
      exacts [hs c h, hw c h]
    rw [trim, trim, h1, h2]
  · have h : (s ++ w).dropWhile isWhitespace = s.dropWhile isWhitespace ++ w := by
      rw [List.dropWhile_append, if_neg]
      rwa [List.isEmpty_iff, List.dropWhile_eq_nil_iff]
    rw [trim, h, rdropWhile_append_of_all hw, trim]

/-- White space at the start is trimmed away. -/
theorem trim_cons_whitespace {c : Char} (hc : isWhitespace c = true) (s : List Char) :
    trim (c :: s) = trim s := by
  rw [trim, List.dropWhile_cons_of_pos hc, trim]

/-- A text of white space alone trims to nothing. -/
theorem trim_eq_nil {s : List Char} (h : ∀ c ∈ s, isWhitespace c = true) : trim s = [] := by
  rw [← List.nil_append s, trim_append_whitespace h]
  rfl

/-- A text with no white space at either end is left alone. -/
theorem trim_eq_self {c d : Char} {s m : List Char} (h₁ : s = c :: m)
    (hc : isWhitespace c = false) (h₂ : ∃ l, s = l ++ [d]) (hd : isWhitespace d = false) :
    trim s = s := by
  have hdrop : s.dropWhile isWhitespace = s := by
    rw [h₁, List.dropWhile_cons_of_neg (by simp [hc])]
  obtain ⟨l, hl⟩ := h₂
  rw [trim, hdrop, hl, List.rdropWhile_concat_neg _ _ _ (by simp [hd])]

/-- A text without white space. -/
theorem trim_of_plain {s : List Char} (h : ∀ c ∈ s, isWhitespace c = false) : trim s = s := by
  have hdrop : s.dropWhile isWhitespace = s := by
    cases s with
    | nil => rfl
    | cons c cs => rw [List.dropWhile_cons_of_neg (by simp [h c List.mem_cons_self])]
  rw [trim, hdrop, List.rdropWhile_eq_self_iff]
  intro hne
  simp [h _ (List.getLast_mem hne)]

theorem prefix_rdropWhile {p : Char → Bool} {d : Char} (hd : p d = false) (s w : List Char) :
    s ++ [d] <+: (s ++ [d] ++ w).rdropWhile p := by
  induction w using List.reverseRecOn with
  | nil =>
      have hkept : (s ++ [d] ++ []).rdropWhile p = s ++ [d] := by
        rw [List.append_nil, List.rdropWhile_concat_neg _ _ _ (by simp [hd])]
      exact ⟨[], by rw [hkept, List.append_nil]⟩
  | append_singleton w c ih =>
      rw [← List.append_assoc]
      by_cases hc : p c = true
      · rwa [List.rdropWhile_concat_pos _ _ _ hc]
      · rw [List.rdropWhile_concat_neg _ _ _ hc, List.append_assoc (s ++ [d])]
        exact List.prefix_append ..

/-- What stands between two characters that are not white space is not trimmed away. -/
theorem mem_trim_between {a b d : Char} (ha : isWhitespace a = false) (hd : isWhitespace d = false)
    (m l : List Char) : b ∈ trim (a :: (m ++ b :: d :: l)) := by
  have hsplit : a :: (m ++ b :: d :: l) = a :: (m ++ [b]) ++ [d] ++ l := by simp
  rw [trim, List.dropWhile_cons_of_neg (by simp [ha]), hsplit]
  exact (prefix_rdropWhile hd _ l).subset (by simp)

/-- What is left begins with no white space. -/
theorem trim_head {s m : List Char} {d : Char} (h : trim s = d :: m) : isWhitespace d = false := by
  obtain ⟨t, ht⟩ := List.rdropWhile_prefix isWhitespace (s.dropWhile isWhitespace)
  change trim s ++ t = _ at ht
  have hdrop := List.dropWhile_idempotent (p := isWhitespace) s
  rw [← ht, h, List.cons_append] at hdrop
  by_contra hd
  rw [Bool.not_eq_false] at hd
  have hlen := congrArg List.length hdrop
  rw [List.dropWhile_cons_of_pos hd] at hlen
  have hle := List.length_dropWhile_le isWhitespace (m ++ t)
  rw [List.length_cons] at hlen
  omega

/-- Trimming twice is trimming once. -/
theorem trim_trim (s : List Char) : trim (trim s) = trim s := by
  have hdrop : (trim s).dropWhile isWhitespace = trim s := by
    cases h : trim s with
    | nil => rfl
    | cons d m => rw [List.dropWhile_cons_of_neg (by simp [trim_head h])]
  rw [trim, hdrop, trim, List.rdropWhile_idempotent]

/-- A trimmed text ends with no white space. -/
theorem isWhitespace_getLast {s l : List Char} {d : Char} (h : trim s = s) (hs : s = l ++ [d]) :
    isWhitespace d = false := by
  by_contra hd
  rw [Bool.not_eq_false] at hd
  have hshort : trim s = trim l := by
    rw [hs]
    apply trim_append_whitespace
    intro c hc
    rwa [List.mem_singleton.1 hc]
  have hle : (trim l).length ≤ l.length :=
    (List.rdropWhile_prefix _ _).length_le.trans (List.length_dropWhile_le _ _)
  rw [← hshort, h, hs, List.length_append, List.length_singleton] at hle
  omega

theorem mem_of_mem_trim {c : Char} {s : List Char} (h : c ∈ trim s) : c ∈ s :=
  List.dropWhile_sublist _ |>.subset (List.rdropWhile_prefix _ _ |>.subset h)

theorem mem_of_mem_splitWhitespaceFrom {c : Char} {w : List Char} :
    ∀ {s cur : List Char}, w ∈ splitWhitespaceFrom cur s → c ∈ w → c ∈ cur ∨ c ∈ s := by
  intro s
  induction s with
  | nil =>
      intro cur hw hc
      rw [splitWhitespaceFrom] at hw
      by_cases hcur : cur = []
      · simp [hcur] at hw
      · rw [if_neg hcur, List.mem_singleton] at hw
        exact Or.inl (hw ▸ hc)
  | cons a s ih =>
      intro cur hw hc
      rw [splitWhitespaceFrom] at hw
      have htail : w ∈ splitWhitespaceFrom [] s → c ∈ a :: s := fun h => by
        rcases ih h hc with h' | h'
        · simp at h'
        · exact List.mem_cons_of_mem _ h'
      by_cases ha : isWhitespace a = true
      · rw [if_pos ha] at hw
        by_cases hcur : cur = []
        · rw [if_pos hcur] at hw
          exact Or.inr (htail hw)
        · rw [if_neg hcur] at hw
          rcases List.mem_cons.1 hw with rfl | hw
          · exact Or.inl hc
          · exact Or.inr (htail hw)
      · rw [if_neg ha] at hw
        rcases ih hw hc with h | h
        · rcases List.mem_append.1 h with h | h
          · exact Or.inl h
          · rw [List.mem_singleton.1 h]; exact Or.inr (List.mem_cons_self ..)
        · exact Or.inr (List.mem_cons_of_mem _ h)

/-- The pieces of a text are made of its characters. -/
theorem mem_of_mem_splitWhitespace {s w : List Char} {c : Char} (hw : w ∈ splitWhitespace s)
    (hc : c ∈ w) : c ∈ s := by
  rcases mem_of_mem_splitWhitespaceFrom hw hc with h | h
  · simp at h
  · exact h

theorem splitWhitespaceFrom_append {w : List Char} (hw : ∀ c ∈ w, isWhitespace c = false)
    (cur s : List Char) : splitWhitespaceFrom cur (w ++ s) = splitWhitespaceFrom (cur ++ w) s := by
  induction w generalizing cur with
  | nil => rw [List.nil_append, List.append_nil]
  | cons c w ih =>
      have hc : ¬ isWhitespace c = true := by simp [hw c List.mem_cons_self]
      rw [List.cons_append, splitWhitespaceFrom, if_neg hc,
        ih fun d hd => hw d (List.mem_cons_of_mem _ hd), List.append_assoc, List.singleton_append]

/-- A piece: some characters, none of them white space. -/
structure IsPiece (w : List Char) : Prop where
  ne_nil : w ≠ []
  plain : ∀ c ∈ w, isWhitespace c = false

instance decidableIsPiece (w : List Char) : Decidable (IsPiece w) :=
  decidable_of_iff (w ≠ [] ∧ w.all (fun c => ! isWhitespace c) = true)
    ⟨fun h => ⟨h.1, by simpa using h.2⟩, fun h => ⟨h.ne_nil, by simpa using h.plain⟩⟩

/-- Pieces that are written with blanks between them are split again. -/
theorem splitWhitespace_intercalate {ws : List (List Char)} (h : ∀ w ∈ ws, IsPiece w) :
    splitWhitespace (List.intercalate [' '] ws) = ws := by
  induction ws with
  | nil => rfl
  | cons w ws ih =>
      have hw := h w List.mem_cons_self
      have hrest := ih fun v hv => h v (List.mem_cons_of_mem _ hv)
      cases ws with
      | nil =>
          rw [List.intercalate_singleton, splitWhitespace, ← List.append_nil w,
            splitWhitespaceFrom_append hw.plain, List.nil_append, List.append_nil,
            splitWhitespaceFrom, if_neg hw.ne_nil]
      | cons v ws =>
          rw [List.intercalate_cons_cons, List.append_assoc, splitWhitespace,
            splitWhitespaceFrom_append hw.plain, List.nil_append, List.singleton_append,
            splitWhitespaceFrom, if_pos (by decide), if_neg hw.ne_nil, ← splitWhitespace, hrest]

theorem isPiece_of_mem_splitWhitespaceFrom {w : List Char} :
    ∀ {s cur : List Char}, (∀ c ∈ cur, isWhitespace c = false) →
      w ∈ splitWhitespaceFrom cur s → IsPiece w := by
  intro s
  induction s with
  | nil =>
      intro cur hcur hw
      rw [splitWhitespaceFrom] at hw
      by_cases hnil : cur = []
      · simp [hnil] at hw
      · rw [if_neg hnil, List.mem_singleton] at hw
        exact hw ▸ ⟨hnil, hcur⟩
  | cons a s ih =>
      intro cur hcur hw
      rw [splitWhitespaceFrom] at hw
      have hnone : ∀ c ∈ ([] : List Char), isWhitespace c = false := by simp
      by_cases ha : isWhitespace a = true
      · rw [if_pos ha] at hw
        by_cases hnil : cur = []
        · rw [if_pos hnil] at hw
          exact ih hnone hw
        · rw [if_neg hnil] at hw
          rcases List.mem_cons.1 hw with rfl | hw
          · exact ⟨hnil, hcur⟩
          · exact ih hnone hw
      · rw [if_neg ha] at hw
        refine ih ?_ hw
        intro c hc
        rcases List.mem_append.1 hc with hc | hc
        · exact hcur c hc
        · rw [List.mem_singleton.1 hc]
          exact Bool.eq_false_iff.2 ha

theorem isPiece_of_mem_splitWhitespace {s w : List Char} (h : w ∈ splitWhitespace s) : IsPiece w :=
  isPiece_of_mem_splitWhitespaceFrom (by simp) h

/-! ## Lines -/

/-- Cut after every `'\n'`. -/
def splitInclusive : List Char → List (List Char)
  | [] => []
  | c :: cs =>
    if c = '\n' then [c] :: splitInclusive cs
    else
      match splitInclusive cs with
      | [] => [[c]]
      | l :: ls => (c :: l) :: ls

/-- A piece without its line end: `"\n"`, or `"\r\n"`. -/
def stripLineEnd (l : List Char) : List Char :=
  if l.getLast? = some '\n' then
    if l.dropLast.getLast? = some '\r' then l.dropLast.dropLast else l.dropLast
  else l

/-- The lines of a text. -/
def lines (s : List Char) : List (List Char) := (splitInclusive s).map stripLineEnd

theorem splitInclusive_ne_nil {s : List Char} (h : s ≠ []) : splitInclusive s ≠ [] := by
  cases s with
  | nil => exact absurd rfl h
  | cons c cs =>
      rw [splitInclusive]
      split
      · simp
      · split <;> simp

theorem splitInclusive_append_newline (xs ys : List Char) :
    splitInclusive (xs ++ '\n' :: ys) = splitInclusive (xs ++ ['\n']) ++ splitInclusive ys := by
  induction xs with
  | nil => simp [splitInclusive]
  | cons c xs ih =>
      rw [List.cons_append, splitInclusive, List.cons_append, splitInclusive]
      by_cases hc : c = '\n'
      · rw [if_pos hc, if_pos hc, ih, List.cons_append]
      · rw [if_neg hc, if_neg hc, ih]
        cases hl : splitInclusive (xs ++ ['\n']) with
        | nil => exact absurd hl (splitInclusive_ne_nil (by simp))
        | cons l ls => rfl

theorem splitInclusive_of_no_newline {xs : List Char} (h : '\n' ∉ xs) :
    splitInclusive (xs ++ ['\n']) = [xs ++ ['\n']] := by
  induction xs with
  | nil => simp [splitInclusive]
  | cons c xs ih =>
      rw [List.mem_cons, not_or] at h
      rw [List.cons_append, splitInclusive, if_neg (Ne.symm h.1), ih h.2]

/-- A text can be read line by line: cut anywhere at a line end. -/
theorem lines_append_newline (xs ys : List Char) :
    lines (xs ++ '\n' :: ys) = lines (xs ++ ['\n']) ++ lines ys := by
  rw [lines, splitInclusive_append_newline, List.map_append, lines, lines]

/-- A piece holds a line end at its end or nowhere. -/
theorem mem_splitInclusive {s l : List Char} (h : l ∈ splitInclusive s) :
    ∃ w, '\n' ∉ w ∧ (l = w ∨ l = w ++ ['\n']) := by
  induction s generalizing l with
  | nil => exact absurd h (by simp [splitInclusive])
  | cons c cs ih =>
      rw [splitInclusive] at h
      by_cases hc : c = '\n'
      · rw [if_pos hc] at h
        rcases List.mem_cons.1 h with rfl | h
        · exact ⟨[], by simp, .inr (by rw [hc]; rfl)⟩
        · exact ih h
      · rw [if_neg hc] at h
        cases hs : splitInclusive cs with
        | nil =>
            rw [hs] at h
            rw [List.mem_singleton.1 h]
            exact ⟨[c], by simpa using Ne.symm hc, .inl rfl⟩
        | cons p ps =>
            rw [hs] at h ih
            rcases List.mem_cons.1 h with rfl | h
            · obtain ⟨w, hw, hp⟩ := ih (List.mem_cons_self ..)
              refine ⟨c :: w, ?_, ?_⟩
              · rw [List.mem_cons, not_or]
                exact ⟨Ne.symm hc, hw⟩
              · rcases hp with rfl | rfl
                · exact .inl rfl
                · exact .inr rfl
            · exact ih (List.mem_cons_of_mem _ h)

theorem stripLineEnd_newline (xs : List Char) :
    stripLineEnd (xs ++ ['\n']) = if xs.getLast? = some '\r' then xs.dropLast else xs := by
  simp [stripLineEnd]

/-- There is no line end in a line. -/
theorem newline_not_mem_lines {s l : List Char} (h : l ∈ lines s) : '\n' ∉ l := by
  obtain ⟨p, hp, rfl⟩ := List.mem_map.1 h
  obtain ⟨w, hw, rfl | rfl⟩ := mem_splitInclusive hp
  · have hlast : p.getLast? ≠ some '\n' := fun hc => hw (List.mem_of_getLast? hc)
    rw [stripLineEnd, if_neg hlast]
    exact hw
  · rw [stripLineEnd_newline]
    split
    · exact fun hc => hw (List.dropLast_subset _ hc)
    · exact hw

/-- The first line of a text with a line end in it, and the others. -/
theorem lines_cons {xs : List Char} (h : '\n' ∉ xs) (ys : List Char) :
    lines (xs ++ '\n' :: ys) = stripLineEnd (xs ++ ['\n']) :: lines ys := by
  rw [lines_append_newline, lines, splitInclusive_of_no_newline h]
  rfl

/-! ## Cutting and comparing -/

/-- Cut at the first separator, which belongs to neither part. -/
def splitOnce (sep : Char) : List Char → Option (List Char × List Char)
  | [] => none
  | c :: cs => if c = sep then some ([], cs) else (splitOnce sep cs).map fun p => (c :: p.1, p.2)

theorem splitOnce_eq_some {sep : Char} {s a b : List Char} (h : splitOnce sep s = some (a, b)) :
    s = a ++ sep :: b := by
  induction s generalizing a with
  | nil => exact absurd h (by simp [splitOnce])
  | cons c cs ih =>
      rw [splitOnce] at h
      by_cases hc : c = sep
      · rw [if_pos hc, Option.some.injEq, Prod.mk.injEq] at h
        rw [← h.1, ← h.2, hc]
        rfl
      · rw [if_neg hc, Option.map_eq_some_iff] at h
        obtain ⟨⟨a', b'⟩, hsplit, heq⟩ := h
        obtain ⟨rfl, rfl⟩ := Prod.mk.inj heq
        rw [ih hsplit]
        rfl

/-- A separator that does not occur before is where the text is cut. -/
theorem splitOnce_append {sep : Char} {a : List Char} (h : sep ∉ a) (b : List Char) :
    splitOnce sep (a ++ sep :: b) = some (a, b) := by
  induction a with
  | nil => rw [List.nil_append, splitOnce, if_pos rfl]
  | cons c cs ih =>
      rw [List.mem_cons, not_or] at h
      rw [List.cons_append, splitOnce, if_neg (Ne.symm h.1), ih h.2]
      rfl

/-- The text after a prefix, if it starts with it. -/
def stripPrefix (pre s : List Char) : Option (List Char) :=
  if pre.isPrefixOf s then some (s.drop pre.length) else none

theorem stripPrefix_eq_some_iff {pre s r : List Char} :
    stripPrefix pre s = some r ↔ s = pre ++ r := by
  rw [stripPrefix]
  constructor
  · intro h
    split at h
    · rename_i hpre
      obtain ⟨t, rfl⟩ := List.isPrefixOf_iff_prefix.1 hpre
      rw [← Option.some.inj h, List.drop_left]
    · exact absurd h (by simp)
  · rintro rfl
    rw [if_pos (List.isPrefixOf_iff_prefix.2 (List.prefix_append ..)), List.drop_left]

/-- `A`–`Z` in lower case, everything else as it is. -/
def toAsciiLowercase (s : List Char) : List Char := s.map Char.toLower

theorem lt_of_toLower {c : Char} (h : c.toLower.toNat < 0x80) : c.toNat < 0x80 := by
  unfold Char.toLower at h
  split at h
  · next hupper => exact Nat.lt_of_le_of_lt (UInt32.le_iff_toNat_le.1 hupper.2) (by decide)
  · exact h

/-- What the lower-case text starts with comes from a piece of the text itself. -/
theorem prefix_toAsciiLowercase {p s : List Char} (h : p <+: toAsciiLowercase s) :
    ∃ t u, s = t ++ u ∧ toAsciiLowercase t = p := by
  obtain ⟨rest, hrest⟩ := h
  obtain ⟨t, u, hs, ht, -⟩ := List.map_eq_append_iff.1 hrest.symm
  exact ⟨t, u, hs, ht⟩

/-- Equal up to the case of `A`–`Z`. -/
def eqIgnoreAsciiCase (s t : List Char) : Bool := toAsciiLowercase s == toAsciiLowercase t

/-- A text with a blank in it is not a name without one. -/
theorem eqIgnoreAsciiCase_of_blank {s t : List Char} (hs : ' ' ∈ s)
    (ht : ' ' ∉ toAsciiLowercase t) : eqIgnoreAsciiCase s t = false := by
  refine beq_eq_false_iff_ne.2 fun heq => ht ?_
  rw [← heq]
  exact List.mem_map.2 ⟨' ', hs, by decide⟩

/-! ## Numbers -/

/-- An unsigned decimal number below `bound`, with an optional `+` before it. -/
def parseUnsigned (bound : Nat) (s : List Char) : Option Nat :=
  let digits := if s.head? = some '+' then s.tail else s
  if digits ≠ [] ∧ digits.all Char.isDigit then
    let n := Nat.ofDigitChars 10 digits 0
    if n < bound then some n else none
  else none

/-- Decimal digits that stand for the number; there may be zeros before it. -/
structure IsNumeral (s : List Char) (n : Nat) : Prop where
  ne_nil : s ≠ []
  digits : ∀ c ∈ s, c.isDigit = true
  value : Nat.ofDigitChars 10 s 0 = n

instance decidableIsNumeral (s : List Char) (n : Nat) : Decidable (IsNumeral s n) :=
  decidable_of_iff (s ≠ [] ∧ s.all Char.isDigit = true ∧ Nat.ofDigitChars 10 s 0 = n)
    ⟨fun h => ⟨h.1, List.all_eq_true.1 h.2.1, h.2.2⟩,
      fun h => ⟨h.ne_nil, List.all_eq_true.2 h.digits, h.value⟩⟩

theorem isNumeral_toDigits (n : Nat) : IsNumeral (Nat.toDigits 10 n) n where
  ne_nil := Nat.toDigits_ne_nil
  digits := fun _ hc => Nat.isDigit_of_mem_toDigits (by decide) (by decide) hc
  value := Nat.ofDigitChars_ten_toDigits

/-- A numeral is read as its number. -/
theorem parseUnsigned_numeral {bound n : Nat} {s : List Char} (h : IsNumeral s n)
    (hn : n < bound) : parseUnsigned bound s = some n := by
  have hplus : s.head? ≠ some '+' := by
    intro hc
    exact absurd (h.digits '+' (List.mem_of_mem_head? hc)) (by decide)
  simp only [parseUnsigned, if_neg hplus]
  rw [if_pos ⟨h.ne_nil, List.all_eq_true.2 h.digits⟩, h.value, if_pos hn]

/-- A printed number is read back. -/
theorem parseUnsigned_toDigits {bound n : Nat} (h : n < bound) :
    parseUnsigned bound (Nat.toDigits 10 n) = some n :=
  parseUnsigned_numeral (isNumeral_toDigits n) h

/-- A digit is no white space. -/
theorem isWhitespace_of_isDigit {c : Char} (h : c.isDigit = true) : isWhitespace c = false := by
  have h' : 48 ≤ c.toNat ∧ c.toNat ≤ 57 := Char.isDigit_iff_toNat.1 h
  simp only [isWhitespace, Bool.or_eq_false_iff, Bool.and_eq_false_iff, beq_eq_false_iff_ne,
    decide_eq_false_iff_not]
  omega

end Text
