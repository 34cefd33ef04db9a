import Mathlib.Data.List.Basic

/-!
# UTF-8, strict and lossy

Text is a list of characters, its encoding a list of bytes.  The decoder reads
one byte at a time and remembers what it still owes of the character it is in
(`Pending`); where the bytes are no UTF-8 it emits `none` for each maximal
ill-formed piece and goes on, so that one decoder serves both readings:

* `fromUtf8` — strict: the text, or nothing if a piece is ill formed.
* `fromUtf8Lossy` — every ill-formed piece becomes U+FFFD.

Three facts about it are used elsewhere: `fromUtf8_eq_some_iff` (strict decoding is
the inverse of encoding), `decode_ascii_split` (an ASCII byte ends whatever was pending, so
decoding can be done on the two sides separately) and `mem_encode_ascii` (ASCII
bytes of an encoding are the ASCII characters of the text).
-/

namespace Utf8

/-! ## The decoder -/

/-- What is owed of a character: the bits read so far, the range of the next
byte, and how many more bytes follow that one. -/
structure Pending where
  /-- The bits read so far. -/
  acc : Nat
  /-- The least next byte. -/
  lo : Nat
  /-- The greatest next byte. -/
  hi : Nat
  /-- How many bytes follow the next one. -/
  need : Nat
  /-- A byte that continues a character is never an ASCII byte. -/
  lo_ge : 0x80 ≤ lo

/-- The first byte of a character: what it emits, and what is owed after it. -/
def lead (b : UInt8) : List (Option Char) × Option Pending :=
  let n := b.toNat
  if n < 0x80 then ([some (Char.ofNat n)], none)
  else if 0xC2 ≤ n ∧ n ≤ 0xDF then ([], some ⟨n - 0xC0, 0x80, 0xBF, 0, Nat.le_refl _⟩)
  else if n = 0xE0 then ([], some ⟨0, 0xA0, 0xBF, 1, by decide⟩)
  else if n = 0xED then ([], some ⟨13, 0x80, 0x9F, 1, Nat.le_refl _⟩)
  else if 0xE1 ≤ n ∧ n ≤ 0xEF then ([], some ⟨n - 0xE0, 0x80, 0xBF, 1, Nat.le_refl _⟩)
  else if n = 0xF0 then ([], some ⟨0, 0x90, 0xBF, 2, by decide⟩)
  else if 0xF1 ≤ n ∧ n ≤ 0xF3 then ([], some ⟨n - 0xF0, 0x80, 0xBF, 2, Nat.le_refl _⟩)
  else if n = 0xF4 then ([], some ⟨4, 0x80, 0x8F, 2, Nat.le_refl _⟩)
  else ([none], none)

/-- One byte.  A byte out of range closes the pending piece as ill formed and is
then read as a first byte. -/
def step : Option Pending → UInt8 → List (Option Char) × Option Pending
  | none, b => lead b
  | some p, b =>
    if p.lo ≤ b.toNat ∧ b.toNat ≤ p.hi then
      let acc := p.acc * 64 + (b.toNat - 0x80)
      match p.need with
      | 0 => ([some (Char.ofNat acc)], none)
      | k + 1 => ([], some ⟨acc, 0x80, 0xBF, k, Nat.le_refl _⟩)
    else (none :: (lead b).1, (lead b).2)

/-- Decode from a given state; a character left unfinished is ill formed. -/
def decodeFrom : Option Pending → List UInt8 → List (Option Char)
  | none, [] => []
  | some _, [] => [none]
  | st, b :: bs => (step st b).1 ++ decodeFrom (step st b).2 bs

/-- Decode a byte string: `none` stands for an ill-formed piece. -/
def decode (bs : List UInt8) : List (Option Char) := decodeFrom none bs

/-- The text with U+FFFD for every ill-formed piece. -/
def fromUtf8Lossy (bs : List UInt8) : List Char :=
  (decode bs).map fun c => c.getD (Char.ofNat 0xFFFD)

/-- The text, if the bytes are well formed. -/
def fromUtf8 (bs : List UInt8) : Option (List Char) :=
  if (decode bs).all Option.isSome then some (fromUtf8Lossy bs) else none

/-- The bytes of a text. -/
def encode (cs : List Char) : List UInt8 := cs.flatMap String.utf8EncodeChar

theorem decodeFrom_cons (st : Option Pending) (b : UInt8) (bs : List UInt8) :
    decodeFrom st (b :: bs) = (step st b).1 ++ decodeFrom (step st b).2 bs := by
  cases st <;> rfl

/-! ## ASCII bytes -/

theorem lead_ascii {b : UInt8} (h : b.toNat < 0x80) :
    lead b = ([some (Char.ofNat b.toNat)], none) := by
  simp [lead, h]

theorem step_ascii {b : UInt8} (h : b.toNat < 0x80) (p : Pending) :
    step (some p) b = ([none, some (Char.ofNat b.toNat)], none) := by
  have hlo := p.lo_ge
  have hout : ¬ (p.lo ≤ b.toNat ∧ b.toNat ≤ p.hi) := by omega
  rw [step, if_neg hout, lead_ascii h]

theorem decodeFrom_ascii_split {b : UInt8} (h : b.toNat < 0x80) (xs ys : List UInt8) :
    ∀ st, decodeFrom st (xs ++ b :: ys) =
      decodeFrom st xs ++ some (Char.ofNat b.toNat) :: decodeFrom none ys := by
  induction xs with
  | nil =>
      intro st
      cases st with
      | none =>
          rw [List.nil_append, decodeFrom_cons,
            show step none b = ([some (Char.ofNat b.toNat)], none) from lead_ascii h]
          rfl
      | some p =>
          rw [List.nil_append, decodeFrom_cons, step_ascii h]
          rfl
  | cons x xs ih =>
      intro st
      rw [List.cons_append, decodeFrom_cons, decodeFrom_cons, ih, List.append_assoc]

/-- **An ASCII byte is a boundary.**  Whatever stands before it is decoded on its
own, whatever stands after it too. -/
theorem decode_ascii_split {b : UInt8} (h : b.toNat < 0x80) (xs ys : List UInt8) :
    decode (xs ++ b :: ys) = decode xs ++ some (Char.ofNat b.toNat) :: decode ys :=
  decodeFrom_ascii_split h xs ys none

theorem fromUtf8Lossy_ascii_split {b : UInt8} (h : b.toNat < 0x80) (xs ys : List UInt8) :
    fromUtf8Lossy (xs ++ b :: ys) =
      fromUtf8Lossy xs ++ Char.ofNat b.toNat :: fromUtf8Lossy ys := by
  simp [fromUtf8Lossy, decode_ascii_split h]

/-! ## Reading back what was encoded -/

theorem toNat_ofNat_of_lt {n : Nat} (h : n < 256) : (UInt8.ofNat n).toNat = n := by
  rw [UInt8.toNat_ofNat']; exact Nat.mod_eq_of_lt h

/-- A continuation byte that is not the last of its character. -/
theorem decodeFrom_cont {acc lo hi k : Nat} {hlo : 0x80 ≤ lo} {x : Nat} (h : lo ≤ x ∧ x ≤ hi)
    (hx : x < 256) (bs : List UInt8) :
    decodeFrom (some ⟨acc, lo, hi, k + 1, hlo⟩) (UInt8.ofNat x :: bs) =
      decodeFrom (some ⟨acc * 64 + (x - 0x80), 0x80, 0xBF, k, Nat.le_refl _⟩) bs := by
  rw [decodeFrom_cons, step]
  simp only [toNat_ofNat_of_lt hx]
  rw [if_pos h, List.nil_append]

/-- The last byte of a character. -/
theorem decodeFrom_last {acc lo hi : Nat} {hlo : 0x80 ≤ lo} {x : Nat} (h : lo ≤ x ∧ x ≤ hi)
    (hx : x < 256) (bs : List UInt8) :
    decodeFrom (some ⟨acc, lo, hi, 0, hlo⟩) (UInt8.ofNat x :: bs) =
      some (Char.ofNat (acc * 64 + (x - 0x80))) :: decodeFrom none bs := by
  rw [decodeFrom_cons, step]
  simp only [toNat_ofNat_of_lt hx]
  rw [if_pos h, List.singleton_append]

/-- The first of two bytes. -/
theorem lead_two {v : Nat} (h : 0x7f < v) (h' : v ≤ 0x7ff) :
    lead (UInt8.ofNat (v / 64 % 0x20 + 0xc0)) =
      ([], some ⟨v / 64, 0x80, 0xBF, 0, Nat.le_refl _⟩) := by
  have hb : (UInt8.ofNat (v / 64 % 0x20 + 0xc0)).toNat = v / 64 + 0xc0 := by
    rw [toNat_ofNat_of_lt (by omega)]; omega
  simp only [lead, hb]
  rw [if_neg (by omega), if_pos (by omega)]
  simp

/-- The first of three bytes, and the range it leaves for the second: narrower
after `E0` (no overlong form) and after `ED` (no surrogate). -/
theorem lead_three {v : Nat} (h : 0x7ff < v) (h' : v ≤ 0xffff)
    (hs : v < 0xd800 ∨ 0xdfff < v) :
    ∃ lo hi, ∃ hlo : 0x80 ≤ lo, lead (UInt8.ofNat (v / 4096 % 0x10 + 0xe0)) =
        ([], some ⟨v / 4096, lo, hi, 1, hlo⟩) ∧
      (lo ≤ v / 64 % 0x40 + 0x80 ∧ v / 64 % 0x40 + 0x80 ≤ hi) := by
  have hb : (UInt8.ofNat (v / 4096 % 0x10 + 0xe0)).toNat = v / 4096 + 0xe0 := by
    rw [toNat_ofNat_of_lt (by omega)]; omega
  simp only [lead, hb]
  rw [if_neg (by omega), if_neg (by omega)]
  by_cases he0 : v / 4096 = 0
  · refine ⟨0xA0, 0xBF, by decide, ?_, by omega⟩
    rw [if_pos (by omega)]
    simp [he0]
  by_cases hed : v / 4096 = 13
  · refine ⟨0x80, 0x9F, by decide, ?_, by omega⟩
    rw [if_neg (by omega), if_pos (by omega)]
    simp [hed]
  refine ⟨0x80, 0xBF, by decide, ?_, by omega⟩
  rw [if_neg (by omega), if_neg (by omega), if_pos (by omega)]
  simp

/-- The first of four bytes, and the range it leaves for the second: narrower
after `F0` (no overlong form) and after `F4` (nothing above U+10FFFF). -/
theorem lead_four {v : Nat} (h : 0xffff < v) (h' : v < 0x110000) :
    ∃ lo hi, ∃ hlo : 0x80 ≤ lo, lead (UInt8.ofNat (v / 262144 % 0x08 + 0xf0)) =
        ([], some ⟨v / 262144, lo, hi, 2, hlo⟩) ∧
      (lo ≤ v / 4096 % 0x40 + 0x80 ∧ v / 4096 % 0x40 + 0x80 ≤ hi) := by
  have hb : (UInt8.ofNat (v / 262144 % 0x08 + 0xf0)).toNat = v / 262144 + 0xf0 := by
    rw [toNat_ofNat_of_lt (by omega)]; omega
  simp only [lead, hb]
  rw [if_neg (by omega), if_neg (by omega), if_neg (by omega), if_neg (by omega),
    if_neg (by omega)]
  by_cases hf0 : v / 262144 = 0
  · refine ⟨0x90, 0xBF, by decide, ?_, by omega⟩
    rw [if_pos (by omega)]
    simp [hf0]
  by_cases hf4 : v / 262144 = 4
  · refine ⟨0x80, 0x8F, by decide, ?_, by omega⟩
    rw [if_neg (by omega), if_neg (by omega), if_pos (by omega)]
    simp [hf4]
  refine ⟨0x80, 0xBF, by decide, ?_, by omega⟩
  rw [if_neg (by omega), if_pos (by omega)]
  simp

/-- One character is read back, whatever follows it. -/
theorem decodeFrom_encodeChar (c : Char) (rest : List UInt8) :
    decodeFrom none (String.utf8EncodeChar c ++ rest) = some c :: decodeFrom none rest := by
  obtain ⟨v, hv⟩ : ∃ v, c.val.toNat = v := ⟨_, rfl⟩
  have hc : Char.ofNat v = c := by rw [← hv]; exact Char.ofNat_toNat c
  have hvalid : v < 0xd800 ∨ (0xdfff < v ∧ v < 0x110000) := by
    rw [← hv]; exact c.valid
  have hfirst : ∀ (b : UInt8) bs,
      decodeFrom none (b :: bs) = (lead b).1 ++ decodeFrom (lead b).2 bs := fun _ _ => rfl
  unfold String.utf8EncodeChar
  simp only [hv]
  by_cases h1 : v ≤ 0x7f
  · rw [if_pos h1, List.singleton_append, hfirst,
      lead_ascii (by rw [toNat_ofNat_of_lt (by omega)]; omega),
      toNat_ofNat_of_lt (by omega), hc, List.singleton_append]
  rw [if_neg h1]
  by_cases h2 : v ≤ 0x7ff
  · rw [if_pos h2, List.cons_append, List.singleton_append, hfirst,
      lead_two (by omega) h2, List.nil_append, decodeFrom_last (by omega) (by omega),
      show v / 64 * 64 + (v % 0x40 + 0x80 - 0x80) = v by omega, hc]
  rw [if_neg h2]
  by_cases h3 : v ≤ 0xffff
  · obtain ⟨lo, hi, hlo, hl, hr⟩ := lead_three (by omega) h3 (by omega)
    rw [if_pos h3, List.cons_append, List.cons_append, List.singleton_append, hfirst, hl,
      List.nil_append, decodeFrom_cont hr (by omega), decodeFrom_last (by omega) (by omega),
      show (v / 4096 * 64 + (v / 64 % 0x40 + 0x80 - 0x80)) * 64 + (v % 0x40 + 0x80 - 0x80) = v
      by omega, hc]
  · obtain ⟨lo, hi, hlo, hl, hr⟩ := lead_four (v := v) (by omega) (by omega)
    rw [if_neg h3, List.cons_append, List.cons_append, List.cons_append, List.singleton_append,
      hfirst, hl, List.nil_append, decodeFrom_cont hr (by omega),
      decodeFrom_cont (by omega) (by omega), decodeFrom_last (by omega) (by omega),
      show ((v / 262144 * 64 + (v / 4096 % 0x40 + 0x80 - 0x80)) * 64 +
        (v / 64 % 0x40 + 0x80 - 0x80)) * 64 + (v % 0x40 + 0x80 - 0x80) = v by omega, hc]

theorem encode_cons (c : Char) (cs : List Char) :
    encode (c :: cs) = String.utf8EncodeChar c ++ encode cs := rfl

theorem encode_append (cs ds : List Char) : encode (cs ++ ds) = encode cs ++ encode ds := by
  simp [encode]

theorem decode_encode (cs : List Char) : decode (encode cs) = cs.map some := by
  induction cs with
  | nil => rfl
  | cons c cs ih =>
      rw [encode_cons, decode, decodeFrom_encodeChar, List.map_cons, ← ih, decode]

theorem fromUtf8Lossy_encode (cs : List Char) : fromUtf8Lossy (encode cs) = cs := by
  rw [fromUtf8Lossy, decode_encode, List.map_map]
  exact List.map_id cs

/-- **The round trip.**  What was encoded is read back. -/
theorem fromUtf8_encode (cs : List Char) : fromUtf8 (encode cs) = some cs := by
  rw [fromUtf8, fromUtf8Lossy_encode, decode_encode, if_pos]
  simp

/-- Different texts have different bytes. -/
theorem encode_injective : Function.Injective encode := by
  intro cs ds h
  have := congrArg fromUtf8Lossy h
  rwa [fromUtf8Lossy_encode, fromUtf8Lossy_encode] at this

/-! ## Only encodings are well formed -/

/-- The bytes of a character of a given number. -/
theorem utf8EncodeChar_ofNat {v : Nat} (h : v.isValidChar) :
    String.utf8EncodeChar (Char.ofNat v) =
      if v ≤ 0x7f then [UInt8.ofNat v]
      else if v ≤ 0x7ff then
        [UInt8.ofNat (v / 64 % 0x20 + 0xc0), UInt8.ofNat (v % 0x40 + 0x80)]
      else if v ≤ 0xffff then
        [UInt8.ofNat (v / 4096 % 0x10 + 0xe0), UInt8.ofNat (v / 64 % 0x40 + 0x80),
          UInt8.ofNat (v % 0x40 + 0x80)]
      else
        [UInt8.ofNat (v / 262144 % 0x08 + 0xf0), UInt8.ofNat (v / 4096 % 0x40 + 0x80),
          UInt8.ofNat (v / 64 % 0x40 + 0x80), UInt8.ofNat (v % 0x40 + 0x80)] := by
  have hv : (Char.ofNat v).val.toNat = v := by
    rw [Char.ofNat, dif_pos h]
    rfl
  unfold String.utf8EncodeChar
  simp only [hv]

/-- What the first byte of a longer character says about it: with a second byte in
range, the number is in the range of characters of that length. -/
def LeadOf (b : UInt8) (p : Pending) : Prop :=
  (p.need = 0 ∧ b.toNat = p.acc + 0xC0 ∧ 2 ≤ p.acc ∧ p.acc < 0x20 ∧ p.lo = 0x80 ∧ p.hi = 0xBF) ∨
  (p.need = 1 ∧ b.toNat = p.acc + 0xE0 ∧ p.acc < 0x10 ∧ ∀ x, p.lo ≤ x → x ≤ p.hi → x ≤ 0xBF ∧
    0x20 ≤ p.acc * 64 + (x - 0x80) ∧
    (p.acc * 64 + (x - 0x80) < 0x360 ∨ 0x380 ≤ p.acc * 64 + (x - 0x80))) ∨
  (p.need = 2 ∧ b.toNat = p.acc + 0xF0 ∧ p.acc < 8 ∧ ∀ x, p.lo ≤ x → x ≤ p.hi → x ≤ 0xBF ∧
    0x10 ≤ p.acc * 64 + (x - 0x80) ∧ p.acc * 64 + (x - 0x80) < 0x110)

theorem lead_cases (b : UInt8) :
    (b.toNat < 0x80 ∧ lead b = ([some (Char.ofNat b.toNat)], none)) ∨ lead b = ([none], none) ∨
      ∃ p, lead b = ([], some p) ∧ LeadOf b p := by
  by_cases h : b.toNat < 0x80
  · exact .inl ⟨h, lead_ascii h⟩
  refine .inr ?_
  unfold lead
  simp only [h, if_false]
  split
  · exact .inr ⟨_, rfl, .inl ⟨rfl, by simp only; omega, by simp only; omega,
      by simp only; omega, rfl, rfl⟩⟩
  split
  · exact .inr ⟨_, rfl, .inr (.inl ⟨rfl, by simp only; omega, by simp only; omega,
      fun x h1 h2 => by simp only at h1 h2 ⊢; omega⟩)⟩
  split
  · exact .inr ⟨_, rfl, .inr (.inl ⟨rfl, by simp only; omega, by simp only; omega,
      fun x h1 h2 => by simp only at h1 h2 ⊢; omega⟩)⟩
  split
  · exact .inr ⟨_, rfl, .inr (.inl ⟨rfl, by simp only; omega, by simp only; omega,
      fun x h1 h2 => by simp only at h1 h2 ⊢; omega⟩)⟩
  split
  · exact .inr ⟨_, rfl, .inr (.inr ⟨rfl, by simp only; omega, by simp only; omega,
      fun x h1 h2 => by simp only at h1 h2 ⊢; omega⟩)⟩
  split
  · exact .inr ⟨_, rfl, .inr (.inr ⟨rfl, by simp only; omega, by simp only; omega,
      fun x h1 h2 => by simp only at h1 h2 ⊢; omega⟩)⟩
  split
  · exact .inr ⟨_, rfl, .inr (.inr ⟨rfl, by simp only; omega, by simp only; omega,
      fun x h1 h2 => by simp only at h1 h2 ⊢; omega⟩)⟩
  · exact .inl rfl

/-- A character that is owed bytes gets one in range, if all is well formed. -/
theorem decodeFrom_some_wellFormed {p : Pending} {bs : List UInt8}
    (h : (decodeFrom (some p) bs).all Option.isSome = true) :
    ∃ b rest, bs = b :: rest ∧ p.lo ≤ b.toNat ∧ b.toNat ≤ p.hi ∧
      decodeFrom (some p) bs =
        match p.need with
        | 0 => some (Char.ofNat (p.acc * 64 + (b.toNat - 0x80))) :: decodeFrom none rest
        | k + 1 => decodeFrom (some ⟨p.acc * 64 + (b.toNat - 0x80), 0x80, 0xBF, k, Nat.le_refl _⟩)
            rest := by
  cases bs with
  | nil => simp [decodeFrom] at h
  | cons b rest =>
      by_cases hr : p.lo ≤ b.toNat ∧ b.toNat ≤ p.hi
      · refine ⟨b, rest, rfl, hr.1, hr.2, ?_⟩
        rw [decodeFrom_cons, step, if_pos hr]
        cases p.need with
        | zero => rfl
        | succ k => rfl
      · rw [decodeFrom_cons, step, if_neg hr] at h
        simp at h

theorem ofNat_eq_of_toNat {b : UInt8} {n : Nat} (h : n = b.toNat) : UInt8.ofNat n = b := by
  rw [h, UInt8.ofNat_toNat]

/-- The first character of a well-formed byte string, and the bytes it stands for. -/
theorem decode_uncons {b : UInt8} {rest : List UInt8}
    (h : (decode (b :: rest)).all Option.isSome = true) :
    ∃ c tail, decode (b :: rest) = some c :: decode tail ∧
      b :: rest = String.utf8EncodeChar c ++ tail := by
  have hfirst : decode (b :: rest) = (lead b).1 ++ decodeFrom (lead b).2 rest := rfl
  rcases lead_cases b with ⟨hb, hl⟩ | hl | ⟨p, hl, hp⟩
  · refine ⟨Char.ofNat b.toNat, rest, by rw [hfirst, hl]; rfl, ?_⟩
    rw [utf8EncodeChar_ofNat (Or.inl (by omega)), if_pos (by omega), UInt8.ofNat_toNat]
    rfl
  · rw [hfirst, hl] at h
    simp at h
  rw [hfirst, hl, List.nil_append] at h ⊢
  obtain ⟨x, rest, rfl, hlo, hhi, hx⟩ := decodeFrom_some_wellFormed h
  rcases hp with ⟨hneed, hb, h2, h20, hplo, hphi⟩ | ⟨hneed, hb, h10, hrange⟩ | ⟨hneed, hb, h8, hrange⟩
  · rw [hneed] at hx
    refine ⟨_, rest, hx, ?_⟩
    rw [utf8EncodeChar_ofNat (Or.inl (by omega)), if_neg (by omega), if_pos (by omega),
      ofNat_eq_of_toNat (b := b) (by omega), ofNat_eq_of_toNat (b := x) (by omega)]
    rfl
  · obtain ⟨hx3, hmin, hsur⟩ := hrange x.toNat hlo hhi
    simp only [hneed] at hx
    rw [hx] at h ⊢
    obtain ⟨y, rest, rfl, hlo', hhi', hy⟩ := decodeFrom_some_wellFormed h
    simp only at hlo' hhi' hy
    refine ⟨_, rest, hy, ?_⟩
    have hxlo : 0x80 ≤ x.toNat := Nat.le_trans p.lo_ge hlo
    rw [utf8EncodeChar_ofNat (by unfold Nat.isValidChar; omega), if_neg (by omega),
      if_neg (by omega), if_pos (by omega), ofNat_eq_of_toNat (b := b) (by omega),
      ofNat_eq_of_toNat (b := x) (by omega), ofNat_eq_of_toNat (b := y) (by omega)]
    rfl
  · obtain ⟨hx3, hmin, hmax⟩ := hrange x.toNat hlo hhi
    simp only [hneed] at hx
    rw [hx] at h ⊢
    obtain ⟨y, rest, rfl, hlo', hhi', hy⟩ := decodeFrom_some_wellFormed h
    simp only at hlo' hhi' hy
    rw [hy] at h ⊢
    obtain ⟨z, rest, rfl, hlo'', hhi'', hz⟩ := decodeFrom_some_wellFormed h
    simp only at hlo'' hhi'' hz
    refine ⟨_, rest, hz, ?_⟩
    have hxlo : 0x80 ≤ x.toNat := Nat.le_trans p.lo_ge hlo
    rw [utf8EncodeChar_ofNat (by unfold Nat.isValidChar; omega), if_neg (by omega),
      if_neg (by omega), if_neg (by omega), ofNat_eq_of_toNat (b := b) (by omega),
      ofNat_eq_of_toNat (b := x) (by omega), ofNat_eq_of_toNat (b := y) (by omega),
      ofNat_eq_of_toNat (b := z) (by omega)]
    rfl

theorem utf8EncodeChar_ne_nil (c : Char) : String.utf8EncodeChar c ≠ [] := by
  unfold String.utf8EncodeChar
  simp only
  split
  · simp
  · split
    · simp
    · split <;> simp

theorem encode_fromUtf8Lossy {bs : List UInt8} (h : (decode bs).all Option.isSome = true) :
    encode (fromUtf8Lossy bs) = bs := by
  induction hn : bs.length using Nat.strongRecOn generalizing bs with
  | ind n ih =>
      cases bs with
      | nil => rfl
      | cons b rest =>
          obtain ⟨c, tail, hdecode, hbytes⟩ := decode_uncons h
          have hlen : tail.length < n := by
            have hpos := List.length_pos_iff.2 (utf8EncodeChar_ne_nil c)
            have hsum := congrArg List.length hbytes
            rw [List.length_append] at hsum
            omega
          have htail : (decode tail).all Option.isSome = true := by
            rw [hdecode, List.all_cons, Bool.and_eq_true] at h
            exact h.2
          have hlossy : fromUtf8Lossy (b :: rest) = c :: fromUtf8Lossy tail := by
            rw [fromUtf8Lossy, hdecode]
            rfl
          rw [hlossy, encode_cons, ih tail.length hlen htail rfl, hbytes]

/-- **Strict decoding is the inverse of encoding.** -/
theorem fromUtf8_eq_some_iff {bs : List UInt8} {cs : List Char} :
    fromUtf8 bs = some cs ↔ bs = encode cs := by
  constructor
  · intro h
    unfold fromUtf8 at h
    split at h
    · next hall => rw [← Option.some.inj h, encode_fromUtf8Lossy hall]
    · exact absurd h (by simp)
  · rintro rfl
    exact fromUtf8_encode cs

/-! ## The ASCII bytes of an encoding -/

theorem mem_utf8EncodeChar_ascii {c : Char} {b : UInt8} (hb : b.toNat < 0x80)
    (h : b ∈ String.utf8EncodeChar c) : c = Char.ofNat b.toNat := by
  unfold String.utf8EncodeChar at h
  simp only at h
  split at h
  · rename_i hv
    rw [List.mem_singleton] at h
    rw [h, toNat_ofNat_of_lt (by omega)]
    exact (Char.ofNat_toNat c).symm
  · -- every byte of a longer encoding is at least 0x80
    exfalso
    have hmem : ∀ n, 0x80 ≤ n → n < 256 → b ≠ UInt8.ofNat n := by
      rintro n h1 h2 rfl
      rw [toNat_ofNat_of_lt h2] at hb
      omega
    split at h
    · simp only [List.mem_cons, List.not_mem_nil, or_false] at h
      rcases h with h | h <;> exact hmem _ (by omega) (by omega) h
    · split at h <;> simp only [List.mem_cons, List.not_mem_nil, or_false] at h
      · rcases h with h | h | h <;> exact hmem _ (by omega) (by omega) h
      · rcases h with h | h | h | h <;> exact hmem _ (by omega) (by omega) h

/-- An ASCII byte of an encoding is an ASCII character of the text. -/
theorem mem_encode_ascii {cs : List Char} {b : UInt8} (hb : b.toNat < 0x80)
    (h : b ∈ encode cs) : Char.ofNat b.toNat ∈ cs := by
  obtain ⟨c, hc, hcb⟩ := List.mem_flatMap.1 h
  rwa [← mem_utf8EncodeChar_ascii hb hcb]

theorem utf8EncodeChar_ascii {c : Char} (h : c.toNat < 0x80) :
    String.utf8EncodeChar c = [UInt8.ofNat c.toNat] := by
  have hc := utf8EncodeChar_ofNat (v := c.toNat) (Or.inl (by omega))
  rwa [Char.ofNat_toNat, if_pos (Nat.le_of_lt_succ h)] at hc

/-- All bytes of an encoding meet a condition on ASCII bytes exactly if all characters
are ASCII characters and meet it. -/
theorem forall_encode_iff {P : UInt8 → Prop} (hP : ∀ b, P b → b.toNat < 0x80) {cs : List Char} :
    (∀ b ∈ encode cs, P b) ↔ ∀ c ∈ cs, c.toNat < 0x80 ∧ P (UInt8.ofNat c.toNat) := by
  constructor
  · intro h c hc
    obtain ⟨b, bs, hbs⟩ := List.exists_cons_of_ne_nil (utf8EncodeChar_ne_nil c)
    have hmem : b ∈ String.utf8EncodeChar c := by
      rw [hbs]
      exact List.mem_cons_self ..
    have hb := h b (List.mem_flatMap.2 ⟨c, hc, hmem⟩)
    have hlt := hP b hb
    have hascii : ∀ n < 0x80, (Char.ofNat n).toNat = n := by decide
    have hnat : c.toNat = b.toNat := by rw [mem_utf8EncodeChar_ascii hlt hmem, hascii _ hlt]
    rw [hnat, UInt8.ofNat_toNat]
    exact ⟨hlt, hb⟩
  · intro h b hb
    obtain ⟨c, hc, hmem⟩ := List.mem_flatMap.1 hb
    obtain ⟨hlt, hchar⟩ := h c hc
    rw [utf8EncodeChar_ascii hlt, List.mem_singleton] at hmem
    rw [hmem]
    exact hchar

theorem length_encode_replicate (n : Nat) (c : Char) :
    (encode (List.replicate n c)).length = n * c.utf8Size := by
  induction n with
  | zero => simp [encode]
  | succ n ih =>
      rw [List.replicate_succ, encode_cons, List.length_append, ih, String.length_utf8EncodeChar,
        Nat.succ_mul, Nat.add_comm]

/-- A character takes a byte at least. -/
theorem length_le_length_encode (cs : List Char) : cs.length ≤ (encode cs).length := by
  induction cs with
  | nil => exact Nat.zero_le _
  | cons c cs ih =>
      have hpos := c.utf8Size_pos
      rw [encode_cons, List.length_append, String.length_utf8EncodeChar, List.length_cons]
      omega

theorem encode_eq_nil_iff {cs : List Char} : encode cs = [] ↔ cs = [] := by
  constructor
  · intro h
    exact encode_injective h
  · rintro rfl
    rfl

/-- An ASCII text takes a byte for each character. -/
theorem length_encode_of_ascii {cs : List Char} (h : ∀ c ∈ cs, c.toNat < 0x80) :
    (encode cs).length = cs.length := by
  induction cs with
  | nil => rfl
  | cons c cs ih =>
      have hc : c.utf8Size = 1 := by
        have hlt : c.val.toNat < 0x80 := h c (List.mem_cons_self ..)
        rw [Char.utf8Size, if_pos (UInt32.le_iff_toNat_le.2 (Nat.le_of_lt_succ hlt))]
      rw [encode_cons, List.length_append, String.length_utf8EncodeChar, hc,
        ih fun d hd => h d (List.mem_cons_of_mem _ hd), List.length_cons, Nat.add_comm]

/-- The text from a byte on, if a character of the text begins or the text ends there. -/
def sliceFrom : List Char → Nat → Option (List Char)
  | cs, 0 => some cs
  | [], _ + 1 => none
  | c :: cs, n + 1 => if c.utf8Size ≤ n + 1 then sliceFrom cs (n + 1 - c.utf8Size) else none

/-- A text can be cut where a piece of it ends. -/
theorem sliceFrom_append (cs ds : List Char) :
    sliceFrom (cs ++ ds) (encode cs).length = some ds := by
  induction cs with
  | nil => cases ds <;> rfl
  | cons c cs ih =>
      have hpos := c.utf8Size_pos
      have hlen : (encode (c :: cs)).length = (c.utf8Size + (encode cs).length - 1) + 1 := by
        rw [encode_cons, List.length_append, String.length_utf8EncodeChar]
        omega
      have hrest : c.utf8Size + (encode cs).length - 1 + 1 - c.utf8Size = (encode cs).length := by
        omega
      rw [hlen, List.cons_append, sliceFrom, if_pos (by omega), hrest, ih]

/-- ASCII bytes are the encoding of a text. -/
theorem encode_map_ofNat {bs : List UInt8} (h : ∀ b ∈ bs, b.toNat < 0x80) :
    encode (bs.map fun b => Char.ofNat b.toNat) = bs := by
  induction bs with
  | nil => rfl
  | cons b bs ih =>
      have hb := h b (List.mem_cons_self ..)
      rw [List.map_cons, encode_cons, ih fun x hx => h x (List.mem_cons_of_mem _ hx),
        utf8EncodeChar_ofNat (Or.inl (by omega)), if_pos (Nat.le_of_lt_succ hb), UInt8.ofNat_toNat,
        List.singleton_append]

end Utf8
