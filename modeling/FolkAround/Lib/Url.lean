import Mathlib.Data.List.DropRight
import FolkAround.Lib.Text
import FolkAround.Lib.Utf8

/-!
# URLs of the web

How a URL of one of the schemes of the web is read: its path, query and fragment.  The
authority (credentials, host and port) is left to a parameter, `Authorities`.

* `clean` — blanks are dropped at both ends, tabs and line ends everywhere.
* `percentEncode` — the characters of a set are written as their bytes.  In a path some
  parsers encode the caret and some do not, so whether it is done is a parameter.
* `walk` — the segments of a path are taken one after the other; `.` stays and `..` goes up,
  also where they are percent-encoded.
* `parse` — a record from a text; `Record.request` — the URL of the request for it.
* `recode` — a path is encoded once more, by a parser that reads what another one wrote.
* `parse_request` — the request is read as the same path, encoded once more.
-/

namespace Url

/-! ## Characters -/

/-- A control character or a blank. -/
def isBlank (c : Char) : Bool := c.toNat ≤ 0x20

/-- A tab or the end of a line. -/
def isDropped (c : Char) : Bool := c = '\t' ∨ c = '\n' ∨ c = '\r'

def isSlash (c : Char) : Bool := c = '/' ∨ c = '\\'

/-- A query or a fragment begins. -/
def endsPath (c : Char) : Bool := c = '?' ∨ c = '#'

def endsAuthority (c : Char) : Bool := isSlash c || endsPath c

/-- What is left of the end of a text. -/
def cleanEnd (text : List Char) : List Char := (text.rdropWhile isBlank).filter (! isDropped ·)

/-- What is left of a text. -/
def clean (text : List Char) : List Char := cleanEnd (text.dropWhile isBlank)

/-! ## Percent-encoding -/

/-- A digit to the base 16, in upper case. -/
def hexDigit (n : Nat) : Char := if n < 10 then Char.ofNat (48 + n) else Char.ofNat (55 + n)

def percentByte (b : UInt8) : List Char := ['%', hexDigit (b.toNat / 16), hexDigit (b.toNat % 16)]

def percentChar (set : Char → Bool) (c : Char) : List Char :=
  if set c then (String.utf8EncodeChar c).flatMap percentByte else [c]

/-- The characters of the set as their bytes. -/
def percentEncode (set : Char → Bool) (text : List Char) : List Char :=
  text.flatMap (percentChar set)

/-- What is encoded in a query. -/
def querySet (c : Char) : Bool :=
  c.toNat ≤ 0x1f || 0x7e < c.toNat || c ∈ [' ', '"', '#', '\'', '<', '>']

/-- What is encoded in a path, with the caret or without it. -/
def pathSet (caret : Bool) (c : Char) : Bool :=
  c.toNat ≤ 0x1f || 0x7e < c.toNat ||
    c ∈ [' ', '"', '#', '<', '>', '?', '\x60', '\x7b', '\x7d'] || (caret && c = '^')

/-- What is encoded in a fragment. -/
def fragmentSet (c : Char) : Bool :=
  c.toNat ≤ 0x1f || 0x7e < c.toNat || c ∈ [' ', '"', '<', '>', '\x60']

/-! ## Paths -/

abbrev Segment := List Char

def isSingleDot (seg : Segment) : Bool :=
  Text.toAsciiLowercase seg ∈ [".".toList, "%2e".toList]

def isDoubleDot (seg : Segment) : Bool :=
  Text.toAsciiLowercase seg ∈ ["..".toList, ".%2e".toList, "%2e.".toList, "%2e%2e".toList]

/-- A segment with a slash after it. -/
def enter (path : List Segment) (seg : Segment) : List Segment :=
  if isDoubleDot seg then path.dropLast else if isSingleDot seg then path else path ++ [seg]

/-- The last segment. -/
def finish (path : List Segment) (seg : Segment) : List Segment :=
  if isDoubleDot seg then path.dropLast ++ [[]]
  else if isSingleDot seg then path ++ [[]]
  else path ++ [seg]

/-- From a path on along segments. -/
def walk (path : List Segment) : List Segment → List Segment
  | [] => path
  | [seg] => finish path seg
  | seg :: segs => walk (enter path seg) segs

/-- The segments of a text, encoded. -/
def segments (caret : Bool) (text : List Char) : List Segment :=
  (text.splitOnP isSlash).map (percentEncode (pathSet caret))

/-- The path that a text with a slash before it says. -/
def parsePath (caret : Bool) (text : List Char) : List Segment :=
  walk [] (segments caret (if (text.head?.map isSlash).getD false then text.tail else text))

/-- How a path is written. -/
def pathname (path : List Segment) : List Char := path.flatMap ('/' :: ·)

/-! ## Records -/

inductive Scheme where
  | http
  | https
  | ws
  | wss
  deriving DecidableEq

def Scheme.text : Scheme → List Char
  | .http => "http".toList
  | .https => "https".toList
  | .ws => "ws".toList
  | .wss => "wss".toList

def Scheme.ofText (text : List Char) : Option Scheme :=
  [Scheme.http, .https, .ws, .wss].find? fun scheme => scheme.text = Text.toAsciiLowercase text

/-- Whether the scheme is one with encryption, with the default port of these. -/
def Scheme.secure : Scheme → Bool
  | .http => false
  | .https => true
  | .ws => false
  | .wss => true

/-- The scheme of the request for a URL. -/
def Scheme.request : Scheme → Scheme
  | .http => .http
  | .https => .https
  | .ws => .http
  | .wss => .https

/-- How the part between the slashes and the path is read and written. -/
structure Authorities where
  Authority : Type
  parse : (secure : Bool) → List Char → Option Authority
  serialize : Authority → List Char
  /-- What is written is read back. -/
  parse_serialize : ∀ {secure text a}, parse secure text = some a →
    parse secure (serialize a) = some a
  /-- A host is never empty. -/
  serialize_ne_nil : ∀ {secure text a}, parse secure text = some a → serialize a ≠ []
  /-- What is no part of an authority is written in none. -/
  serialize_plain : ∀ {secure text a}, parse secure text = some a →
    ∀ c ∈ serialize a, endsAuthority c = false ∧ isBlank c = false

structure Record (A : Authorities) where
  scheme : Scheme
  authority : A.Authority
  path : List Segment
  query : Option (List Char)
  fragment : Option (List Char)

/-- The part of a text before a character, and the part after it. -/
def cutAt (sep : Char) (text : List Char) : List Char × Option (List Char) :=
  match Text.splitOnce sep text with
  | none => (text, none)
  | some (front, back) => (front, some back)

/-- What stands after the scheme and its slashes. -/
def parseRest (A : Authorities) (caret : Bool) (scheme : Scheme) (rest : List Char) :
    Option (Record A) :=
  let tail := rest.dropWhile (! endsAuthority ·)
  let (front, fragment) := cutAt '#' tail
  let query := (cutAt '?' front).2
  (A.parse scheme.secure (rest.takeWhile (! endsAuthority ·))).map fun authority =>
    { scheme, authority
      path := parsePath caret (tail.takeWhile (! endsPath ·))
      query := query.map (percentEncode querySet)
      fragment := fragment.map (percentEncode fragmentSet) }

/-- The record of a text, if its scheme is one of the web. -/
def parse (A : Authorities) (caret : Bool) (text : List Char) : Option (Record A) :=
  match Text.splitOnce ':' (clean text) with
  | none => none
  | some (scheme, rest) =>
    (Scheme.ofText scheme).bind fun scheme => parseRest A caret scheme (rest.dropWhile isSlash)

/-- How a query is written. -/
def queryText (query : Option (List Char)) : List Char := (query.map ('?' :: ·)).getD []

/-- The URL of the request for a URL, which has no fragment. -/
def Record.request {A : Authorities} (u : Record A) : List Char :=
  u.scheme.request.text ++ "://".toList ++
    (A.serialize u.authority ++ pathname u.path ++ queryText u.query)

/-! ## What is left after encoding -/

/-- A character that codes are written with: it is encoded nowhere, and no slash. -/
structure InCodes (c : Char) : Prop where
  path : ∀ caret, pathSet caret c = false
  query : querySet c = false
  slash : isSlash c = false

theorem inCodes_hexDigit {n : Nat} (h : n < 16) : InCodes (hexDigit n) := by
  have hall : ∀ k : Fin 16, (∀ caret, pathSet caret (hexDigit k) = false) ∧
      querySet (hexDigit k) = false ∧ isSlash (hexDigit k) = false := by decide
  obtain ⟨hpath, hquery, hslash⟩ := hall ⟨n, h⟩
  exact ⟨hpath, hquery, hslash⟩

theorem inCodes_of_mem {b : UInt8} {c : Char} (h : c ∈ percentByte b) : InCodes c := by
  have hb := b.toNat_lt
  simp only [percentByte, List.mem_cons, List.not_mem_nil, or_false] at h
  rcases h with rfl | rfl | rfl
  · exact ⟨by decide, by decide, by decide⟩
  · exact inCodes_hexDigit (by omega)
  · exact inCodes_hexDigit (by omega)

/-- An encoded text holds what was not encoded, and what codes are written with. -/
theorem mem_percentEncode {set : Char → Bool} {text : List Char} {c : Char}
    (h : c ∈ percentEncode set text) : (c ∈ text ∧ set c = false) ∨ InCodes c := by
  obtain ⟨d, hd, hc⟩ := List.mem_flatMap.1 h
  unfold percentChar at hc
  split at hc
  · obtain ⟨b, -, hb⟩ := List.mem_flatMap.1 hc
    exact .inr (inCodes_of_mem hb)
  · next hset =>
      rw [List.mem_singleton.1 hc]
      exact .inl ⟨hd, Bool.eq_false_iff.2 hset⟩

theorem percentEncode_of_plain {set : Char → Bool} {text : List Char}
    (h : ∀ c ∈ text, set c = false) : percentEncode set text = text := by
  induction text with
  | nil => rfl
  | cons c text ih =>
      rw [percentEncode, List.flatMap_cons, ← percentEncode, percentChar,
        if_neg (by simp [h c List.mem_cons_self]), ih fun d hd => h d (List.mem_cons_of_mem _ hd),
        List.singleton_append]

theorem not_blank_of_pathSet {caret : Bool} {c : Char} (h : pathSet caret c = false) :
    isBlank c = false ∧ endsPath c = false := by
  simp only [pathSet, Bool.or_eq_false_iff, decide_eq_false_iff_not, List.mem_cons, not_or] at h
  obtain ⟨⟨⟨hlow, -⟩, hblank, hquote, hhash, hless, hmore, hmark, -⟩, -⟩ := h
  constructor
  · rw [isBlank, decide_eq_false_iff_not]
    intro hle
    have hspace : c.toNat = 0x20 := by omega
    exact hblank (Char.toNat_inj.1 hspace)
  · rw [endsPath, decide_eq_false_iff_not]
    rintro (h | h)
    · exact hmark h
    · exact hhash h

theorem not_blank_of_querySet {c : Char} (h : querySet c = false) : isBlank c = false := by
  simp only [querySet, Bool.or_eq_false_iff, decide_eq_false_iff_not, List.mem_cons, not_or] at h
  obtain ⟨⟨hlow, -⟩, hblank, -⟩ := h
  rw [isBlank, decide_eq_false_iff_not]
  intro hle
  have hspace : c.toNat = 0x20 := by omega
  exact hblank (Char.toNat_inj.1 hspace)

/-! ## Paths that are read back -/

variable {caret : Bool}

/-- Nothing in a segment is encoded or a slash. -/
def Plain (caret : Bool) (seg : Segment) : Prop :=
  ∀ c ∈ seg, pathSet caret c = false ∧ isSlash c = false

/-- A segment that stays as it is: it is plain, and no dots. -/
structure Settled (caret : Bool) (seg : Segment) : Prop where
  plain : Plain caret seg
  notSingle : isSingleDot seg = false
  notDouble : isDoubleDot seg = false

theorem settled_iff {seg : Segment} :
    Settled caret seg ↔ seg.all (fun c => ! pathSet caret c && ! isSlash c) = true ∧
      isSingleDot seg = false ∧ isDoubleDot seg = false := by
  have hall : seg.all (fun c => ! pathSet caret c && ! isSlash c) = true ↔ Plain caret seg := by
    simp only [Plain, List.all_eq_true, Bool.and_eq_true, Bool.not_eq_true']
  rw [hall]
  exact ⟨fun h => ⟨h.plain, h.notSingle, h.notDouble⟩, fun h => ⟨h.1, h.2.1, h.2.2⟩⟩

instance (seg : Segment) : Decidable (Settled caret seg) := decidable_of_iff _ settled_iff.symm

theorem settled_nil : Settled caret [] := by
  cases caret <;> decide

theorem not_slash_of_mem_splitOnP {text : List Char} {seg : Segment}
    (h : seg ∈ text.splitOnP isSlash) : ∀ c ∈ seg, isSlash c = false := by
  induction text generalizing seg with
  | nil =>
      rw [List.splitOnP_nil, List.mem_singleton] at h
      simp [h]
  | cons d text ih =>
      rw [List.splitOnP_cons_eq_if_modifyHead] at h
      by_cases hd : isSlash d = true
      · rw [if_pos hd] at h
        rcases List.mem_cons.1 h with rfl | h
        · simp
        · exact ih h
      · rw [if_neg hd] at h
        obtain ⟨first, rest, hsplit⟩ :=
          List.exists_cons_of_ne_nil (List.splitOnP_ne_nil isSlash text)
        rw [hsplit, List.modifyHead_cons] at h
        rcases List.mem_cons.1 h with rfl | h
        · intro c hc
          rcases List.mem_cons.1 hc with rfl | hc
          · exact Bool.eq_false_iff.2 hd
          · exact ih (hsplit ▸ List.mem_cons_self) c hc
        · exact ih (hsplit ▸ List.mem_cons_of_mem _ h)

/-- The segments of a text hold neither slashes nor what is encoded. -/
theorem plain_segments {text : List Char} {seg : Segment} (h : seg ∈ segments caret text) :
    Plain caret seg := by
  obtain ⟨raw, hraw, rfl⟩ := List.mem_map.1 h
  intro c hc
  rcases mem_percentEncode hc with ⟨hmem, hset⟩ | hcode
  · exact ⟨hset, not_slash_of_mem_splitOnP hraw c hmem⟩
  · exact ⟨hcode.path caret, hcode.slash⟩

section Walk

variable {path segs front : List Segment} {seg : Segment}

theorem settled_concat (h : ∀ x ∈ path, Settled caret x) (hseg : Settled caret seg) :
    ∀ x ∈ path ++ [seg], Settled caret x := by
  intro x hx
  rcases List.mem_append.1 hx with hx | hx
  · exact h x hx
  · rw [List.mem_singleton.1 hx]
    exact hseg

theorem settled_dropLast (h : ∀ x ∈ path, Settled caret x) : ∀ x ∈ path.dropLast, Settled caret x :=
  fun x hx => h x (List.dropLast_subset _ hx)

theorem enter_settled (h : ∀ x ∈ path, Settled caret x) (hseg : Plain caret seg) :
    ∀ x ∈ enter path seg, Settled caret x := by
  unfold enter
  split
  · exact settled_dropLast h
  · next hdouble =>
      split
      · exact h
      · next hsingle =>
          exact settled_concat h
            ⟨hseg, Bool.eq_false_iff.2 hsingle, Bool.eq_false_iff.2 hdouble⟩

theorem finish_settled (h : ∀ x ∈ path, Settled caret x) (hseg : Plain caret seg) :
    ∀ x ∈ finish path seg, Settled caret x := by
  unfold finish
  split
  · exact settled_concat (settled_dropLast h) settled_nil
  · next hdouble =>
      split
      · exact settled_concat h settled_nil
      · next hsingle =>
          exact settled_concat h
            ⟨hseg, Bool.eq_false_iff.2 hsingle, Bool.eq_false_iff.2 hdouble⟩

theorem finish_ne_nil : finish path seg ≠ [] := by
  unfold finish
  split
  · simp
  · split <;> simp

theorem walk_cons (hne : segs ≠ []) : walk path (seg :: segs) = walk (enter path seg) segs := by
  rw [walk]
  exact hne

/-- Segments that others follow are entered one by one. -/
theorem walk_append (hne : segs ≠ []) :
    walk path (front ++ segs) = walk (front.foldl enter path) segs := by
  induction front generalizing path with
  | nil => rfl
  | cons seg front ih =>
      rw [List.cons_append, walk_cons (by simp [hne]), ih, List.foldl_cons]

theorem walk_ne_nil (hne : segs ≠ []) : walk path segs ≠ [] := by
  induction segs generalizing path with
  | nil => exact absurd rfl hne
  | cons seg segs ih =>
      cases segs with
      | nil => exact finish_ne_nil
      | cons next segs =>
          rw [walk_cons (by simp)]
          exact ih (by simp)

theorem walk_settled (h : ∀ x ∈ path, Settled caret x) (hsegs : ∀ x ∈ segs, Plain caret x) :
    ∀ x ∈ walk path segs, Settled caret x := by
  induction segs generalizing path with
  | nil => exact h
  | cons seg segs ih =>
      have hseg := hsegs seg List.mem_cons_self
      cases segs with
      | nil => exact finish_settled h hseg
      | cons next segs =>
          rw [walk_cons (by simp)]
          exact ih (enter_settled h hseg) fun x hx => hsegs x (List.mem_cons_of_mem _ hx)

/-- Settled segments are added as they are. -/
theorem walk_of_settled (h : ∀ x ∈ segs, Settled caret x) : walk path segs = path ++ segs := by
  induction segs generalizing path with
  | nil => rw [walk, List.append_nil]
  | cons seg segs ih =>
      have hseg := h seg List.mem_cons_self
      cases segs with
      | nil => rw [walk, finish, hseg.notDouble, hseg.notSingle, if_neg (by simp), if_neg (by simp)]
      | cons next segs =>
          rw [walk_cons (by simp), ih fun x hx => h x (List.mem_cons_of_mem _ hx), enter,
            hseg.notDouble, hseg.notSingle, if_neg (by simp), if_neg (by simp), List.append_assoc,
            List.singleton_append]

theorem pathname_cons : pathname (seg :: segs) = '/' :: (seg ++ pathname segs) := rfl

/-- The segments of a written path. -/
theorem splitOnP_pathname (h : ∀ x ∈ path, ∀ c ∈ x, isSlash c = false) (hne : path ≠ []) :
    (pathname path).tail.splitOnP isSlash = path := by
  induction path with
  | nil => exact absurd rfl hne
  | cons seg path ih =>
      have hseg := h seg List.mem_cons_self
      rw [pathname_cons, List.tail_cons]
      cases path with
      | nil =>
          rw [pathname, List.flatMap_nil, List.append_nil]
          exact List.splitOnP_eq_singleton hseg
      | cons next path =>
          have hrest := ih (fun x hx => h x (List.mem_cons_of_mem _ hx)) (by simp)
          rw [pathname_cons] at hrest ⊢
          rw [List.splitOnP_append_cons_of_forall_mem hseg '/' (by decide)]
          exact congrArg (seg :: ·) hrest

end Walk

theorem segments_ne_nil (text : List Char) : segments caret text ≠ [] := by
  rw [segments, ne_eq, List.map_eq_nil_iff]
  exact List.splitOnP_ne_nil isSlash text

/-- A path as a text is read to it. -/
structure Normal (caret : Bool) (path : List Segment) : Prop where
  ne_nil : path ≠ []
  settled : ∀ seg ∈ path, Settled caret seg

theorem Normal.no_slash {path : List Segment} (h : Normal caret path) :
    ∀ seg ∈ path, ∀ c ∈ seg, isSlash c = false := fun seg hseg c hc =>
  ((h.settled seg hseg).plain c hc).2

theorem normal_parsePath (caret : Bool) (text : List Char) : Normal caret (parsePath caret text) :=
  ⟨walk_ne_nil (segments_ne_nil _),
    walk_settled (by simp) fun _ hseg => plain_segments hseg⟩

/-! ## Paths that are encoded once more -/

/-- A segment of a path that was read, as a parser encodes it that reads it again. -/
def recode (caret : Bool) (seg : Segment) : Segment := percentEncode (pathSet caret) seg

theorem pathSet_or (first second : Bool) (c : Char) :
    pathSet (first || second) c = (pathSet first c || pathSet second c) := by
  have hall : ∀ b x : Bool,
      (b || ((first || second) && x)) = ((b || (first && x)) || (b || (second && x))) := by
    cases first <;> cases second <;> decide
  exact hall _ _

theorem percentEncode_cons (set : Char → Bool) (c : Char) (text : List Char) :
    percentEncode set (c :: text) = percentChar set c ++ percentEncode set text := rfl

theorem percentEncode_append (set : Char → Bool) (front back : List Char) :
    percentEncode set (front ++ back) = percentEncode set front ++ percentEncode set back :=
  List.flatMap_append

theorem recode_percentChar (first second : Bool) (c : Char) :
    recode second (percentChar (pathSet first) c) = percentChar (pathSet (first || second)) c := by
  by_cases hfirst : pathSet first c = true
  · have hcodes : ∀ d ∈ percentChar (pathSet first) c, pathSet second d = false := by
      intro d hd
      rw [percentChar, if_pos hfirst] at hd
      obtain ⟨b, -, hb⟩ := List.mem_flatMap.1 hd
      exact (inCodes_of_mem hb).path second
    rw [recode, percentEncode_of_plain hcodes, percentChar, percentChar, pathSet_or, hfirst,
      Bool.true_or]
  · rw [Bool.not_eq_true] at hfirst
    rw [percentChar, hfirst, if_neg (by simp), recode, percentEncode_cons, percentChar,
      percentChar, pathSet_or, hfirst, Bool.false_or]
    exact List.append_nil _

/-- To encode by the rules of one parser and then of another is to encode by both. -/
theorem recode_percentEncode (first second : Bool) (text : List Char) :
    recode second (percentEncode (pathSet first) text) =
      percentEncode (pathSet (first || second)) text := by
  induction text with
  | nil => rfl
  | cons c text ih =>
      rw [percentEncode_cons, recode, percentEncode_append, ← recode, ← recode,
        recode_percentChar, ih, percentEncode_cons]

/-- Dots are written with few characters. -/
theorem not_dots_of_mem {seg : Segment} {c : Char} (hc : c ∈ seg) (hlow : c.toLower = c)
    (hdots : c ∉ ".%2e".toList) : isSingleDot seg = false ∧ isDoubleDot seg = false := by
  have hmem : c ∈ Text.toAsciiLowercase seg := List.mem_map.2 ⟨c, hc, hlow⟩
  have hword : ∀ word ∈ [".".toList, "%2e".toList, "..".toList, ".%2e".toList, "%2e.".toList,
      "%2e%2e".toList], word ⊆ ".%2e".toList := by decide
  have hne (word : List Char) (hsub : word ⊆ ".%2e".toList) : Text.toAsciiLowercase seg ≠ word := by
    intro heq
    exact hdots (hsub (heq ▸ hmem))
  constructor
  all_goals
    simp only [isSingleDot, isDoubleDot, decide_eq_false_iff_not]
    exact fun h => hne _ (hword _ (by simp at h ⊢; tauto)) rfl

/-- A segment that was read has the meaning of dots after it is encoded once more exactly
if it had it before. -/
theorem recode_dots {first second : Bool} {seg : Segment} (h : Plain first seg) :
    isSingleDot (recode second seg) = isSingleDot seg ∧
      isDoubleDot (recode second seg) = isDoubleDot seg := by
  by_cases hset : ∀ c ∈ seg, pathSet second c = false
  · rw [recode, percentEncode_of_plain hset]
    exact ⟨rfl, rfl⟩
  · -- there is a caret in it, and a 5 in what is made of the caret
    obtain ⟨c, hc, hsecond⟩ : ∃ c ∈ seg, pathSet second c = true := by simpa using hset
    have hfirst := (h c hc).1
    rw [pathSet, Bool.or_eq_false_iff] at hfirst
    rw [pathSet, hfirst.1, Bool.false_or, Bool.and_eq_true, decide_eq_true_eq] at hsecond
    obtain ⟨rfl, rfl⟩ := hsecond
    have hcode : '5' ∈ recode true seg := List.mem_flatMap.2 ⟨'^', hc, by decide⟩
    obtain ⟨hsingle, hdouble⟩ := not_dots_of_mem hcode (by decide) (by decide)
    obtain ⟨hsingle', hdouble'⟩ := not_dots_of_mem hc (by decide) (by decide)
    rw [hsingle, hdouble, hsingle', hdouble']
    exact ⟨rfl, rfl⟩

section Map

variable {f : Segment → Segment} {path segs : List Segment} {seg : Segment}

/-- The segment means the same dots, or none, after `f`. -/
def SameDots (f : Segment → Segment) (seg : Segment) : Prop :=
  isSingleDot (f seg) = isSingleDot seg ∧ isDoubleDot (f seg) = isDoubleDot seg

theorem enter_map (h : SameDots f seg) : enter (path.map f) (f seg) = (enter path seg).map f := by
  rw [enter, enter, h.1, h.2]
  split
  · exact List.map_dropLast.symm
  · split
    · rfl
    · rw [List.map_append, List.map_singleton]

theorem finish_map (h : SameDots f seg) (hnil : f [] = []) :
    finish (path.map f) (f seg) = (finish path seg).map f := by
  rw [finish, finish, h.1, h.2]
  split
  · rw [List.map_append, List.map_dropLast, List.map_singleton, hnil]
  · split
    · rw [List.map_append, List.map_singleton, hnil]
    · rw [List.map_append, List.map_singleton]

/-- What is done to each segment can be done before or after they are taken. -/
theorem walk_map (h : ∀ seg ∈ segs, SameDots f seg) (hnil : f [] = []) :
    walk (path.map f) (segs.map f) = (walk path segs).map f := by
  induction segs generalizing path with
  | nil => rfl
  | cons seg segs ih =>
      have hseg := h seg List.mem_cons_self
      cases segs with
      | nil => exact finish_map hseg hnil
      | cons next segs =>
          rw [List.map_cons, walk_cons (by simp), walk_cons (by simp), enter_map hseg]
          exact ih fun x hx => h x (List.mem_cons_of_mem _ hx)

end Map

/-- **A written path is read as it was, encoded once more.** -/
theorem parsePath_pathname {first : Bool} (second : Bool) {path : List Segment}
    (h : Normal first path) : parsePath second (pathname path) = path.map (recode second) := by
  have hhead : ((pathname path).head?.map isSlash).getD false = true := by
    obtain ⟨seg, segs, rfl⟩ := List.exists_cons_of_ne_nil h.ne_nil
    rfl
  rw [parsePath, if_pos hhead, segments, splitOnP_pathname h.no_slash h.ne_nil]
  have hwalk : walk (List.map (recode second) []) (path.map (recode second)) =
      (walk [] path).map (recode second) :=
    walk_map (f := recode second) (fun seg hseg => recode_dots (h.settled seg hseg).plain) rfl
  rwa [List.map_nil, walk_of_settled h.settled, List.nil_append] at hwalk

/-- Encoded once more, a path is as if it had been read by the rules of both parsers. -/
theorem map_recode_parsePath (first second : Bool) (text : List Char) :
    (parsePath first text).map (recode second) = parsePath (first || second) text := by
  rw [parsePath, parsePath, ← walk_map (fun seg hseg => recode_dots (plain_segments hseg)) rfl,
    List.map_nil, segments, segments, List.map_map]
  congr 1
  exact List.map_congr_left fun raw _ => recode_percentEncode first second raw

/-! ## Texts with a scheme -/

theorem rdropWhile_append_cons {p : Char → Bool} {x : Char} (hx : ¬ p x = true)
    (xs ys : List Char) : (xs ++ x :: ys).rdropWhile p = xs ++ x :: ys.rdropWhile p := by
  induction ys using List.reverseRecOn with
  | nil => rw [List.rdropWhile_concat_neg _ _ _ hx, List.rdropWhile_nil]
  | append_singleton ys y ih =>
      have hassoc : xs ++ x :: (ys ++ [y]) = (xs ++ x :: ys) ++ [y] := by simp
      rw [hassoc, List.rdropWhile_concat, List.rdropWhile_concat, ih]
      split
      · rfl
      · exact hassoc.symm

/-- A text is cleaned after a slash as it is before it. -/
theorem cleanEnd_append_slash (front back : List Char) :
    cleanEnd (front ++ '/' :: back) = front.filter (! isDropped ·) ++ '/' :: cleanEnd back := by
  rw [cleanEnd, rdropWhile_append_cons (by decide), List.filter_append,
    List.filter_cons_of_pos (by decide), ← cleanEnd]

theorem not_dropped_of_not_blank {c : Char} (h : isBlank c = false) : isDropped c = false := by
  rw [isBlank, decide_eq_false_iff_not] at h
  rw [isDropped, decide_eq_false_iff_not]
  rintro (rfl | rfl | rfl) <;> exact h (by decide)

theorem cleanEnd_of_plain {text : List Char} (h : ∀ c ∈ text, isBlank c = false) :
    cleanEnd text = text := by
  have hlast : text.rdropWhile isBlank = text := by
    rw [List.rdropWhile_eq_self_iff]
    intro hne
    simp [h _ (List.getLast_mem hne)]
  rw [cleanEnd, hlast, List.filter_eq_self]
  intro c hc
  simp [not_dropped_of_not_blank (h c hc)]

/-- The text after the scheme is read as it is cleaned. -/
theorem parse_scheme (A : Authorities) (caret : Bool) (scheme : Scheme) (rest : List Char) :
    parse A caret (scheme.text ++ "://".toList ++ rest) =
      parseRest A caret scheme ((cleanEnd rest).dropWhile isSlash) := by
  have hclean : clean (scheme.text ++ "://".toList ++ rest) =
      scheme.text ++ ':' :: '/' :: '/' :: cleanEnd rest := by
    have hsplit : scheme.text ++ "://".toList ++ rest =
        (scheme.text ++ [':', '/']) ++ '/' :: rest := by simp
    have hstart : ((scheme.text ++ [':', '/']) ++ '/' :: rest).dropWhile isBlank =
        (scheme.text ++ [':', '/']) ++ '/' :: rest := by
      cases scheme <;> rfl
    rw [hsplit, clean, hstart, cleanEnd_append_slash]
    cases scheme <;> rfl
  have honce : Text.splitOnce ':' (scheme.text ++ ':' :: '/' :: '/' :: cleanEnd rest) =
      some (scheme.text, '/' :: '/' :: cleanEnd rest) :=
    Text.splitOnce_append (by cases scheme <;> decide) _
  have hscheme : Scheme.ofText scheme.text = some scheme := by cases scheme <;> decide
  rw [parse, hclean, honce]
  simp only [hscheme, Option.bind_some]
  rw [List.dropWhile_cons_of_pos (by decide), List.dropWhile_cons_of_pos (by decide)]

/-! ## The request -/

theorem endsAuthority_iff {c : Char} :
    endsAuthority c = false ↔ isSlash c = false ∧ endsPath c = false := Bool.or_eq_false_iff

theorem path_of_parseRest {A : Authorities} {scheme : Scheme} {rest : List Char} {u : Record A}
    (h : parseRest A caret scheme rest = some u) :
    u.path = parsePath caret ((rest.dropWhile (! endsAuthority ·)).takeWhile (! endsPath ·)) := by
  obtain ⟨authority, -, rfl⟩ := Option.map_eq_some_iff.1 h
  rfl

theorem mem_pathname {path : List Segment} {c : Char} (h : c ∈ pathname path) :
    c = '/' ∨ ∃ seg ∈ path, c ∈ seg := by
  obtain ⟨seg, hseg, hc⟩ := List.mem_flatMap.1 h
  rcases List.mem_cons.1 hc with rfl | hc
  · exact .inl rfl
  · exact .inr ⟨seg, hseg, hc⟩

/-- A record that was read from a text. -/
structure Parsed {A : Authorities} (caret : Bool) (u : Record A) : Prop where
  authority : ∃ text, A.parse u.scheme.secure text = some u.authority
  path : Normal caret u.path
  query : ∃ query, u.query = Option.map (percentEncode querySet) query

theorem parsed {A : Authorities} {text : List Char} {u : Record A}
    (h : parse A caret text = some u) : Parsed caret u := by
  unfold parse at h
  split at h
  · exact absurd h (by simp)
  · obtain ⟨scheme, -, h⟩ := Option.bind_eq_some_iff.1 h
    obtain ⟨a, ha, rfl⟩ := Option.map_eq_some_iff.1 h
    exact ⟨⟨_, ha⟩, normal_parsePath caret _, ⟨_, rfl⟩⟩

/-- There are no blanks in a request. -/
theorem Parsed.plain {A : Authorities} {u : Record A} (h : Parsed caret u) :
    ∀ c ∈ A.serialize u.authority ++ pathname u.path ++ queryText u.query, isBlank c = false := by
  obtain ⟨⟨text, ha⟩, hpath, query, hquery⟩ := h
  intro c hc
  rcases List.mem_append.1 hc with hc | hc
  · rcases List.mem_append.1 hc with hc | hc
    · exact (A.serialize_plain ha c hc).2
    · rcases mem_pathname hc with rfl | ⟨seg, hseg, hc⟩
      · decide
      · exact (not_blank_of_pathSet ((hpath.settled seg hseg).plain c hc).1).1
  · rw [hquery] at hc
    cases query with
    | none => exact absurd hc List.not_mem_nil
    | some query =>
        rcases List.mem_cons.1 hc with rfl | hc
        · decide
        · rcases mem_percentEncode hc with ⟨-, hset⟩ | hcode
          · exact not_blank_of_querySet hset
          · exact not_blank_of_querySet hcode.query

/-- A written path ends where the query begins. -/
theorem takeWhile_pathname {path : List Segment} (hpath : Normal caret path)
    (query : Option (List Char)) :
    (pathname path ++ queryText query).takeWhile (! endsPath ·) = pathname path := by
  have hall : ∀ c ∈ pathname path, (! endsPath c) = true := by
    intro c hc
    rcases mem_pathname hc with rfl | ⟨seg, hseg, hc⟩
    · decide
    · simp [(not_blank_of_pathSet ((hpath.settled seg hseg).plain c hc).1).2]
  rw [List.takeWhile_append_of_pos hall]
  cases query with
  | none => exact List.append_nil _
  | some query =>
      show pathname path ++ ('?' :: query).takeWhile _ = _
      rw [List.takeWhile_cons_of_neg (by decide), List.append_nil]

/-- **The request has the path of the URL**, encoded once more by the parser that reads it. -/
theorem parse_request {A : Authorities} {first : Bool} (second : Bool) {text : List Char}
    {u : Record A} (h : parse A first text = some u) :
    ∃ v, parse A second u.request = some v ∧ v.path = u.path.map (recode second) := by
  have hu := parsed h
  obtain ⟨front, ha⟩ := hu.authority
  have hsecure : u.scheme.request.secure = u.scheme.secure := by cases u.scheme <;> rfl
  obtain ⟨seg, segs, hsegs⟩ := List.exists_cons_of_ne_nil hu.path.ne_nil
  have hauthority : ∀ c ∈ A.serialize u.authority, (! endsAuthority c) = true := by
    intro c hc
    simp [(A.serialize_plain ha c hc).1]
  have hstart : (A.serialize u.authority ++ pathname u.path ++ queryText u.query).dropWhile
      isSlash = A.serialize u.authority ++ (pathname u.path ++ queryText u.query) := by
    obtain ⟨c, cs, hcs⟩ := List.exists_cons_of_ne_nil (A.serialize_ne_nil ha)
    have hc : isSlash c = false :=
      (endsAuthority_iff.1 (A.serialize_plain ha c (hcs ▸ List.mem_cons_self)).1).1
    rw [hcs, List.append_assoc, List.cons_append, List.dropWhile_cons_of_neg (by simp [hc])]
  have hnext : pathname u.path ++ queryText u.query =
      '/' :: (seg ++ pathname segs ++ queryText u.query) := by
    rw [hsegs, pathname_cons]
    rfl
  have hfront : (A.serialize u.authority ++ (pathname u.path ++ queryText u.query)).takeWhile
      (! endsAuthority ·) = A.serialize u.authority := by
    rw [List.takeWhile_append_of_pos hauthority, hnext, List.takeWhile_cons_of_neg (by decide),
      List.append_nil]
  have hback : (A.serialize u.authority ++ (pathname u.path ++ queryText u.query)).dropWhile
      (! endsAuthority ·) = pathname u.path ++ queryText u.query := by
    rw [List.dropWhile_append_of_pos hauthority, hnext, List.dropWhile_cons_of_neg (by decide)]
  have hparse : parse A second u.request = parseRest A second u.scheme.request
      (A.serialize u.authority ++ (pathname u.path ++ queryText u.query)) := by
    rw [Record.request, parse_scheme, cleanEnd_of_plain hu.plain, hstart]
  cases hread : parse A second u.request with
  | none =>
      rw [hparse, parseRest, hfront, hsecure, A.parse_serialize ha] at hread
      exact absurd hread (by simp)
  | some v =>
      refine ⟨v, rfl, ?_⟩
      rw [hparse] at hread
      rw [path_of_parseRest hread, hback, takeWhile_pathname hu.path,
        parsePath_pathname second hu.path]

end Url
