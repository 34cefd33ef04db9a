import FolkAround.Transport.P2P

/-!
# Reference crates

An instance of the crates below the manager, to show that what is assumed of them can
hold and to look at runs.  Hexadecimal digits are written out.  The cryptography
carries the true values of two secrets, of the session between them and of two
messages in it, and is a plain stand-in everywhere else.

* `hexEncode`, `hexDecode` — the digits, with their round trip.
* `reference` — the instance; `reference_shared`, `reference_decrypts`,
  `reference_hex`, `reference_twoDigits` — its four properties.
-/

namespace FolkAround
namespace Transport
namespace Reference

/-! ## Hexadecimal digits -/

/-- A lower-case digit. -/
def hexDigit (n : Nat) : Char := Nat.digitChar n

/-- The value of a digit of either case. -/
def hexValue (d : Char) : Option Nat :=
  if '0' ≤ d ∧ d ≤ '9' then some (d.toNat - '0'.toNat)
  else if 'a' ≤ d ∧ d ≤ 'f' then some (d.toNat - 'a'.toNat + 10)
  else if 'A' ≤ d ∧ d ≤ 'F' then some (d.toNat - 'A'.toNat + 10)
  else none

def hexEncode (bytes : Bytes) : String :=
  String.ofList (bytes.flatMap fun b => [hexDigit (b.toNat / 16), hexDigit (b.toNat % 16)])

/-- Two digits to a byte; an odd one is an error. -/
def hexDecodeChars : List Char → Option Bytes
  | [] => some []
  | [_] => none
  | d :: e :: ds => do
    let high ← hexValue d
    let low ← hexValue e
    let rest ← hexDecodeChars ds
    return UInt8.ofNat (high * 16 + low) :: rest

def hexDecode (s : String) : Option Bytes := hexDecodeChars s.toList

theorem hexValue_hexDigit : ∀ n < 16, hexValue (hexDigit n) = some n := by decide

theorem hexDecode_hexEncode (bytes : Bytes) : hexDecode (hexEncode bytes) = some bytes := by
  simp only [hexDecode, hexEncode, String.toList_ofList]
  induction bytes with
  | nil => rfl
  | cons b bytes ih =>
      have hb : b.toNat < 256 := b.toNat_lt
      have hhigh := hexValue_hexDigit (b.toNat / 16) (by omega)
      have hlow := hexValue_hexDigit (b.toNat % 16) (by omega)
      have hbyte : UInt8.ofNat (b.toNat / 16 * 16 + b.toNat % 16) = b := by
        rw [show b.toNat / 16 * 16 + b.toNat % 16 = b.toNat by omega, UInt8.ofNat_toNat]
      simp only [List.flatMap_cons, List.cons_append, List.nil_append, hexDecodeChars, hhigh, hlow,
        ih, hbyte, Option.bind_eq_bind, Option.bind_some]
      rfl

theorem length_hexEncode (bytes : Bytes) : (hexEncode bytes).toList.length = 2 * bytes.length := by
  rw [hexEncode, String.toList_ofList]
  induction bytes with
  | nil => rfl
  | cons b bytes ih => simp [ih]; omega

/-! ## Two managers and their session -/

def secretA : Key := List.Vector.replicate 32 1

def secretB : Key := List.Vector.replicate 32 2

/-- The public identity of `secretA`. -/
def publicA : Key :=
  ⟨[164, 224, 146, 146, 182, 81, 194, 120, 185, 119, 44, 86, 159, 95, 169, 187, 19, 217, 6, 180,
    106, 182, 140, 157, 249, 220, 43, 68, 9, 248, 162, 9], rfl⟩

/-- The public identity of `secretB`. -/
def publicB : Key :=
  ⟨[206, 141, 58, 209, 204, 182, 51, 236, 123, 112, 193, 120, 20, 165, 199, 110, 205, 2, 150, 133,
    5, 13, 52, 71, 69, 186, 5, 135, 14, 88, 125, 89], rfl⟩

/-- The secret they share. -/
def sharedAB : Key :=
  ⟨[46, 215, 106, 181, 73, 177, 231, 60, 3, 30, 180, 156, 148, 72, 240, 121, 138, 234, 129, 182,
    152, 39, 154, 12, 61, 195, 228, 159, 191, 196, 185, 83], rfl⟩

/-- The key of their session. -/
def keyAB : Key :=
  ⟨[182, 193, 135, 219, 133, 78, 118, 236, 105, 217, 98, 172, 214, 241, 89, 49, 14, 163, 10, 3,
    120, 108, 151, 38, 73, 204, 186, 98, 193, 221, 99, 206], rfl⟩

def nonce : Nonce := List.Vector.replicate 24 3

/-- The associated data of a payload from the first to the second. -/
def adAB : Bytes := makeRelayAd (hexEncode publicA.toList) (hexEncode publicB.toList)

/-- The empty object, as text. -/
def request : String := "\x7b\x7d"

/-- The payloads number 0 and 1 of the session, and what they are encrypted to. -/
def sealed : List (Bytes × Bytes) :=
  [(toBeBytes 0 ++ Utf8.encode request.toList,
    [206, 78, 197, 34, 163, 138, 137, 129, 246, 129, 12, 133, 109, 84, 90, 26, 4, 122, 1, 187,
      163, 221, 148, 99, 35, 89]),
   (toBeBytes 1 ++ Utf8.encode request.toList,
    [206, 78, 197, 34, 163, 138, 137, 128, 246, 129, 217, 235, 90, 56, 208, 140, 156, 103, 6, 243,
      125, 0, 114, 210, 33, 153])]

/-! ## The instance -/

def x25519Public (secret : Key) : Key :=
  if secret = secretA then publicA else if secret = secretB then publicB else secret

/-- The secret two public identities have in common, whichever side asks. -/
def meet (x y : Key) : Key :=
  if (x = publicA ∧ y = publicB) ∨ (x = publicB ∧ y = publicA) then sharedAB
  else List.Vector.replicate 32 0

def hkdf (salt : Bytes) (secret : Key) (info : Bytes) : Option Key :=
  if salt = publicA.toList ++ publicB.toList ∧ secret = sharedAB ∧ info = relayKdfInfo then
    some keyAB
  else some secret

/-- Sixteen zeros stand in for a tag. -/
def noTag : Bytes := List.replicate 16 0

def encryptInPlace (key : Key) (n : Nonce) (ad buffer : Bytes) : Option Bytes :=
  match sealed.find? fun p => key = keyAB ∧ n = nonce ∧ ad = adAB ∧ buffer = p.1 with
  | some p => some p.2
  | none => some (buffer ++ noTag)

def decryptInPlace (key : Key) (n : Nonce) (ad ciphertext : Bytes) : Option Bytes :=
  match sealed.find? fun p => key = keyAB ∧ n = nonce ∧ ad = adAB ∧ ciphertext = p.2 with
  | some p => some p.1
  | none =>
    if noTag <:+ ciphertext then some (ciphertext.take (ciphertext.length - 16)) else none

/-- The text of a value whose only number is 1. -/
def text (v : Value) : String := String.ofList (v.stringify fun _ => ['1'])

/-- The crates without a JSON reader. -/
def withoutJson : Crates where
  x25519Public := x25519Public
  x25519Shared secret peer := meet (x25519Public secret) peer
  hkdf := hkdf
  encryptInPlace := encryptInPlace
  decryptInPlace := decryptInPlace
  hexEncode := hexEncode
  hexDecode := hexDecode
  fromStr _ := none

/-- The first manager offers. -/
def offer : Value := offerMessage (.new withoutJson secretA) (hexEncode publicB.toList)

/-- The second manager answers. -/
def answer : Value := answerMessage (.new withoutJson secretB) (hexEncode publicA.toList)

/-- The value among some whose text is given. -/
def readAmong (values : List Value) (raw : String) : Option Value :=
  values.find? fun v => text v = raw

theorem readAmong_first (v w : Value) : readAmong [v, w] (text v) = some v := by simp [readAmong]

theorem readAmong_second {v w : Value} (h : text v ≠ text w) :
    readAmong [v, w] (text w) = some w := by simp [readAmong, h]

end Reference

open Reference

/-- The reference crates; the JSON reader knows the messages of the handshake. -/
def reference : Crates := { withoutJson with fromStr := readAmong [offer, answer] }

theorem fromStr_offer : reference.fromStr (text offer) = some offer := by
  simp only [reference, readAmong_first]

/-- The two texts differ in their tenth character. -/
theorem text_offer_ne : text offer ≠ text answer := by
  intro h
  have hchars := congrArg (fun s => (s.drop 9).head?) (String.ofList_injective h)
  exact absurd hchars (by decide +kernel)

theorem fromStr_answer : reference.fromStr (text answer) = some answer := by
  simp only [reference, readAmong_second text_offer_ne]

theorem x25519Public_secretA : x25519Public secretA = publicA := by decide

theorem x25519Public_secretB : x25519Public secretB = publicB := by decide

theorem identity_withoutJson (secret : Key) :
    (P2PManager.new withoutJson secret).identity = hexEncode (x25519Public secret).toList := rfl

theorem identity_reference (secret : Key) :
    (P2PManager.new reference secret).identity = hexEncode (x25519Public secret).toList := rfl

theorem meet_comm (x y : Key) : meet x y = meet y x := by
  unfold meet
  by_cases h : (x = publicA ∧ y = publicB) ∨ (x = publicB ∧ y = publicA)
  · rw [if_pos h, if_pos]
    rcases h with ⟨hx, hy⟩ | ⟨hx, hy⟩
    · exact .inr ⟨hy, hx⟩
    · exact .inl ⟨hy, hx⟩
  · rw [if_neg h, if_neg]
    rintro (⟨hx, hy⟩ | ⟨hx, hy⟩)
    · exact h (.inr ⟨hy, hx⟩)
    · exact h (.inl ⟨hy, hx⟩)

theorem reference_shared : reference.SharedComm := fun a _ => meet_comm (x25519Public a) _

theorem reference_hex : reference.HexRoundTrip := hexDecode_hexEncode

theorem reference_twoDigits : reference.HexTwoDigits := length_hexEncode

/-- No true ciphertext ends like one of the stand-in. -/
theorem sealed_tagged : ∀ p ∈ sealed, ¬ noTag <:+ p.2 := by decide

/-- A true ciphertext belongs to one payload. -/
theorem sealed_injective : ∀ p ∈ sealed, ∀ q ∈ sealed, p.2 = q.2 → p = q := by decide

theorem reference_decrypts : reference.DecryptsEncrypted := by
  intro key n ad buffer ciphertext h
  change encryptInPlace key n ad buffer = some ciphertext at h
  change decryptInPlace key n ad ciphertext = some buffer
  unfold encryptInPlace at h
  unfold decryptInPlace
  split at h
  · next p hp =>
      have hmem := List.mem_of_find?_eq_some hp
      obtain ⟨hk, hn, had, hb⟩ : key = keyAB ∧ n = nonce ∧ ad = adAB ∧ buffer = p.1 := by
        simpa using List.find?_some hp
      rw [Option.some.injEq] at h
      split
      · next q hq =>
          have hmem' := List.mem_of_find?_eq_some hq
          obtain ⟨-, -, -, hc⟩ : key = keyAB ∧ n = nonce ∧ ad = adAB ∧ ciphertext = q.2 := by
            simpa using List.find?_some hq
          rw [sealed_injective q hmem' p hmem (hc.symm.trans h.symm), hb]
      · next hq =>
          have hnone : key = keyAB → n = nonce → ad = adAB → ¬ ciphertext = p.2 := by
            simpa using List.find?_eq_none.1 hq p hmem
          exact absurd h.symm (hnone hk hn had)
  · next hp =>
      rw [Option.some.injEq] at h
      split
      · next q hq =>
          have hmem' := List.mem_of_find?_eq_some hq
          obtain ⟨-, -, -, hc⟩ : key = keyAB ∧ n = nonce ∧ ad = adAB ∧ ciphertext = q.2 := by
            simpa using List.find?_some hq
          exact absurd (hc ▸ h ▸ List.suffix_append buffer noTag) (sealed_tagged q hmem')
      · rw [← h, if_pos (List.suffix_append buffer noTag)]
        simp [noTag]

end Transport
end FolkAround
