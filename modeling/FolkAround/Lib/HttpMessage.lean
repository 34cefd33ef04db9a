import FolkAround.Lib.Search
import FolkAround.Lib.Text
import FolkAround.Lib.Utf8

/-!
# Messages with a head of lines

A head is a first line and some fields, each on a line of its own; the head ends with an
empty line, and the body comes after it.

* `Field`, `Head` — fields and heads that are fit to be written.
* `Head.text`, `Head.written` — the head as characters, and the message as bytes.
* `lines_text` — the lines are read back.
* `find_written` — a piece of line ends is not found before the empty line.
* `crlf_written`, `lf_written` — where the head ends, by either kind of empty line.
-/

namespace HttpMessage

/-- No line end is in the text. -/
def OneLine (s : List Char) : Prop := '\r' ∉ s ∧ '\n' ∉ s

theorem OneLine.append {s t : List Char} (hs : OneLine s) (ht : OneLine t) : OneLine (s ++ t) := by
  refine ⟨?_, ?_⟩
  · simp [hs.1, ht.1]
  · simp [hs.2, ht.2]

/-- Neither a colon nor white space is in the text. -/
def OneWord (s : List Char) : Prop := ∀ c ∈ s, c ≠ ':' ∧ Text.isWhitespace c = false

instance decidableOneWord (s : List Char) : Decidable (OneWord s) := List.decidableBAll _ s

/-- A field: a name of one word, and a value without line ends and without white space
around it. -/
structure Field where
  name : List Char
  value : List Char
  name_plain : OneWord name
  value_line : OneLine value
  value_trimmed : Text.trim value = value

def Field.line (f : Field) : List Char := f.name ++ ':' :: ' ' :: f.value

/-- A head: a first line that is not empty, and the fields. -/
structure Head where
  start : List Char
  fields : List Field
  start_ne : start ≠ []
  start_line : OneLine start

def Head.lines (h : Head) : List (List Char) := h.start :: h.fields.map Field.line

/-- Lines with their ends between them. -/
def joinLines : List (List Char) → List Char
  | [] => []
  | [l] => l
  | l :: m :: ls => l ++ '\r' :: '\n' :: joinLines (m :: ls)

/-- The head up to the empty line, whose line end comes first. -/
def Head.text (h : Head) : List Char := joinLines h.lines

def Head.block (h : Head) : List UInt8 := Utf8.encode h.text

def blankLine : List UInt8 := [13, 10, 13, 10]

/-- The bytes of a message. -/
def Head.written (h : Head) (body : List UInt8) : List UInt8 := h.block ++ blankLine ++ body

/-! ## Lines that can be written -/

/-- A line that is not empty. -/
structure Line (l : List Char) : Prop where
  ne : l ≠ []
  one : OneLine l

theorem Field.isLine (f : Field) : Line f.line := by
  have hname : ∀ c ∈ f.name, Text.isWhitespace c = false := fun c hc => (f.name_plain c hc).2
  refine ⟨by simp [Field.line], ?_, ?_⟩
  · intro h
    rcases List.mem_append.1 h with h | h
    · exact absurd (hname _ h) (by decide)
    · simp only [List.mem_cons, Char.reduceEq, false_or] at h
      exact f.value_line.1 h
  · intro h
    rcases List.mem_append.1 h with h | h
    · exact absurd (hname _ h) (by decide)
    · simp only [List.mem_cons, Char.reduceEq, false_or] at h
      exact f.value_line.2 h

theorem Head.isLine (h : Head) : ∀ l ∈ h.lines, Line l := by
  intro l hl
  rcases List.mem_cons.1 hl with rfl | hl
  · exact ⟨h.start_ne, h.start_line⟩
  · obtain ⟨f, -, rfl⟩ := List.mem_map.1 hl
    exact f.isLine

theorem lines_last {l : List Char} (h : Line l) : Text.lines l = [l] := by
  have hsplit : ∀ l : List Char, l ≠ [] → '\n' ∉ l → Text.splitInclusive l = [l] := by
    intro l
    induction l with
    | nil => exact fun h => absurd rfl h
    | cons c cs ih =>
        intro _ hn
        rw [List.mem_cons, not_or] at hn
        rw [Text.splitInclusive, if_neg (Ne.symm hn.1)]
        cases cs with
        | nil => rfl
        | cons d ds => rw [ih (by simp) hn.2]
  have hlast : l.getLast? ≠ some '\n' := fun hc => h.one.2 (List.mem_of_getLast? hc)
  rw [Text.lines, hsplit l h.ne h.one.2, List.map_singleton, Text.stripLineEnd, if_neg hlast]

theorem lines_joinLines {ls : List (List Char)} (h : ∀ l ∈ ls, Line l) :
    Text.lines (joinLines ls) = ls := by
  induction ls with
  | nil => rfl
  | cons l ls ih =>
      have hl := h l List.mem_cons_self
      cases ls with
      | nil => exact lines_last hl
      | cons m ls =>
          have hcr : '\n' ∉ l ++ ['\r'] := by simp [hl.one.2]
          rw [joinLines, List.append_cons, Text.lines_cons hcr, Text.stripLineEnd_newline,
            if_pos List.getLast?_concat, List.dropLast_concat,
            ih fun k hk => h k (List.mem_cons_of_mem l hk)]

/-- **The lines of a head are read back.** -/
theorem lines_text (h : Head) : Text.lines h.text = h.lines := lines_joinLines h.isLine

/-! ## The end of the head -/

/-- A piece of line ends that is found neither in a line nor in a single line end: it begins
with one, and goes on with another one where a line would begin. -/
structure LineEnds (needle : List UInt8) : Prop where
  not_at_byte : ∀ b xs, b ≠ 13 → b ≠ 10 → ¬ needle <+: b :: xs
  not_at_cr : ∀ b xs, b ≠ 13 → b ≠ 10 → ¬ needle <+: 13 :: 10 :: b :: xs
  not_at_lf : ∀ b xs, b ≠ 13 → b ≠ 10 → ¬ needle <+: 10 :: b :: xs

theorem lineEnds_blankLine : LineEnds blankLine where
  not_at_byte := by
    rintro b xs h13 - ⟨t, ht⟩
    simp only [blankLine, List.cons_append, List.cons.injEq] at ht
    exact h13 ht.1.symm
  not_at_cr := by
    rintro b xs h13 - ⟨t, ht⟩
    simp only [blankLine, List.cons_append, List.cons.injEq] at ht
    exact h13 ht.2.2.1.symm
  not_at_lf := by
    rintro b xs - - ⟨t, ht⟩
    simp only [blankLine, List.cons_append, List.cons.injEq] at ht
    exact absurd ht.1 (by decide)

theorem lineEnds_lf : LineEnds [10, 10] where
  not_at_byte := by
    rintro b xs - h10 ⟨t, ht⟩
    simp only [List.cons_append, List.cons.injEq] at ht
    exact h10 ht.1.symm
  not_at_cr := by
    rintro b xs - - ⟨t, ht⟩
    simp only [List.cons_append, List.cons.injEq] at ht
    exact absurd ht.1 (by decide)
  not_at_lf := by
    rintro b xs - h10 ⟨t, ht⟩
    simp only [List.cons_append, List.cons.injEq] at ht
    exact h10 ht.2.1.symm

theorem find_skip {needle xs : List UInt8} {x : UInt8} (h : ¬ needle <+: x :: xs) :
    Search.find needle (x :: xs) = (Search.find needle xs).map (· + 1) := by
  rw [Search.find, if_neg fun hc => h (List.isPrefixOf_iff_prefix.1 hc)]

theorem find_skip_all {needle : List UInt8} (hneedle : LineEnds needle) {l : List UInt8}
    (hl : ∀ b ∈ l, b ≠ 13 ∧ b ≠ 10) (xs : List UInt8) :
    Search.find needle (l ++ xs) = (Search.find needle xs).map (· + l.length) := by
  induction l with
  | nil => simp
  | cons b l ih =>
      obtain ⟨h13, h10⟩ := hl b List.mem_cons_self
      rw [List.cons_append, find_skip (hneedle.not_at_byte b _ h13 h10),
        ih fun c hc => hl c (List.mem_cons_of_mem b hc), Option.map_map]
      rfl

/-- A line has no byte of a line end. -/
theorem Line.bytes {l : List Char} (h : Line l) : ∀ b ∈ Utf8.encode l, b ≠ 13 ∧ b ≠ 10 := by
  intro b hb
  refine ⟨?_, ?_⟩
  · rintro rfl
    exact h.one.1 (Utf8.mem_encode_ascii (by decide) hb)
  · rintro rfl
    exact h.one.2 (Utf8.mem_encode_ascii (by decide) hb)

theorem Line.exists_cons {l : List Char} (h : Line l) :
    ∃ b bs, Utf8.encode l = b :: bs ∧ b ≠ 13 ∧ b ≠ 10 := by
  cases hb : Utf8.encode l with
  | nil => exact absurd (Utf8.encode_eq_nil_iff.1 hb) h.ne
  | cons b bs => exact ⟨b, bs, rfl, h.bytes b (by rw [hb]; exact List.mem_cons_self)⟩

/-- **No line ends before the empty line.** -/
theorem find_joinLines {needle : List UInt8} (hneedle : LineEnds needle) {ls : List (List Char)}
    (h : ∀ l ∈ ls, Line l) (xs : List UInt8) :
    Search.find needle (Utf8.encode (joinLines ls) ++ xs) =
      (Search.find needle xs).map (· + (Utf8.encode (joinLines ls)).length) := by
  induction ls with
  | nil => simp [joinLines, Utf8.encode]
  | cons l ls ih =>
      have hl := h l List.mem_cons_self
      cases ls with
      | nil => exact find_skip_all hneedle hl.bytes xs
      | cons m ls =>
          have hrest := ih fun k hk => h k (List.mem_cons_of_mem l hk)
          have hjoin : Utf8.encode (joinLines (l :: m :: ls)) =
              Utf8.encode l ++ 13 :: 10 :: Utf8.encode (joinLines (m :: ls)) := by
            rw [joinLines, Utf8.encode_append, Utf8.encode_cons, Utf8.encode_cons]
            rfl
          -- the line after the line end begins with a byte of its own
          obtain ⟨b, bs, hb, h13, h10⟩ : ∃ b bs, Utf8.encode (joinLines (m :: ls)) = b :: bs ∧
              b ≠ 13 ∧ b ≠ 10 := by
            obtain ⟨b, bs, hb, hne⟩ := (h m (by simp)).exists_cons
            cases ls with
            | nil => exact ⟨b, bs, hb, hne⟩
            | cons k ls => exact ⟨b, _, by rw [joinLines, Utf8.encode_append, hb]; rfl, hne⟩
          have hstep : Search.find needle (13 :: 10 :: (Utf8.encode (joinLines (m :: ls)) ++ xs)) =
              (Search.find needle xs).map
                (· + ((Utf8.encode (joinLines (m :: ls))).length + 2)) := by
            rw [find_skip, find_skip, hrest, Option.map_map, Option.map_map]
            · rfl
            · rw [hb]
              exact hneedle.not_at_lf b _ h13 h10
            · rw [hb]
              exact hneedle.not_at_cr b _ h13 h10
          rw [hjoin, List.append_assoc, find_skip_all hneedle hl.bytes, List.cons_append,
            List.cons_append, hstep, Option.map_map]
          refine congrArg (fun f => Option.map f (Search.find needle xs)) (funext fun n => ?_)
          simp only [Function.comp_apply, List.length_append, List.length_cons]
          omega

/-- The empty line is where the head ends. -/
theorem crlf_written (h : Head) (body : List UInt8) :
    Search.find blankLine (h.written body) = some h.block.length := by
  have hfirst : Search.find blankLine (blankLine ++ body) = some 0 := by
    rw [Search.find_eq_some_iff]
    exact ⟨List.prefix_append _ _, Nat.zero_le _, fun j hj => absurd hj (Nat.not_lt_zero j)⟩
  rw [Head.written, List.append_assoc, Head.block, Head.text,
    find_joinLines lineEnds_blankLine h.isLine, hfirst, Option.map_some, Nat.zero_add]

/-- An empty line of the other kind does not end before the head does. -/
theorem lf_written (h : Head) (body : List UInt8) {n : Nat}
    (hn : Search.find [10, 10] (h.written body) = some n) : h.block.length + 4 ≤ n + 2 := by
  rw [Head.written, List.append_assoc, Head.block, Head.text,
    find_joinLines lineEnds_lf h.isLine, Option.map_eq_some_iff] at hn
  obtain ⟨k, hk, rfl⟩ := hn
  obtain ⟨hpre, -, -⟩ := Search.find_eq_some_iff.1 hk
  have hlate : 3 ≤ k := by
    by_contra hlt
    obtain ⟨t, ht⟩ := hpre
    rcases show k = 0 ∨ k = 1 ∨ k = 2 by omega with rfl | rfl | rfl <;>
      simp [blankLine] at ht
  rw [Head.block, Head.text]
  omega

end HttpMessage
