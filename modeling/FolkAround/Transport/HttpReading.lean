import FolkAround.Transport.Http

/-!
# Reading a request

A request arrives in reads of at most 4096 bytes, and where they end is not up to
the client.  The header block is looked for after each read, in all that has arrived.

* `OneEnd`, `TwoEnds` — where the header block of a part of a request ends: an end of
  the one kind may come after one of the other, and counts more.
* `MayEnd` — what the loop may end with, over all ways to cut a request.
* `Searched` — the same without the loop: too long a head, too long a body, or a body
  that was awaited from some read on.  `ends_iff_searched` connects the two.
-/

namespace FolkAround
namespace Transport

def readSize : Nat := 4096

theorem readSize_pos : 0 < readSize := by decide

/-- The reads of a request, up to the end of the stream. -/
abbrev Reads (request : Bytes) := Chunks.Arrival readSize request

/-! ## The end of the header block after each read -/

theorem crlfCrlf_ne_nil : crlfCrlf ≠ [] := List.cons_ne_nil _ _

theorem lfLf_ne_nil : lfLf ≠ [] := List.cons_ne_nil _ _

/-- One place where the header block ends, whatever part of the request is there. -/
structure OneEnd (request : Bytes) (offset len : Nat) : Prop where
  take_eq : ∀ i, headerEnd (request.take i) = if offset + len ≤ i then some (offset, len) else none
  inside : offset + len ≤ request.length
  newline : request[offset + len - 1]? = some 10
  len_cases : len = 2 ∨ len = 4

/-- Two places: while the second is not there yet, the block ends at the first. -/
structure TwoEnds (request : Bytes) (l c : Nat) : Prop where
  take_eq : ∀ i, headerEnd (request.take i) =
    if c + 4 ≤ i then some (c, 4) else if l + 2 ≤ i then some (l, 2) else none
  inside : c + 4 ≤ request.length
  before : l + 2 ≤ c
  newline_first : request[l + 2 - 1]? = some 10
  newline_second : request[c + 4 - 1]? = some 10

theorem length_crlfCrlf : crlfCrlf.length = 4 := rfl

theorem length_lfLf : lfLf.length = 2 := rfl

/-- The header block of a part of the request. -/
theorem headerEnd_take (request : Bytes) (i : Nat) :
    headerEnd (request.take i) =
      match (findBytes request crlfCrlf).bind fun n => if n + 4 ≤ i then some n else none with
      | some offset => some (offset, 4)
      | none =>
        ((findBytes request lfLf).bind fun n => if n + 2 ≤ i then some n else none).map
          fun offset => (offset, 2) := by
  have hc : findBytes (request.take i) crlfCrlf =
      (findBytes request crlfCrlf).bind fun n => if n + 4 ≤ i then some n else none := by
    rw [findBytes, Search.find_take_eq crlfCrlf_ne_nil, length_crlfCrlf, findBytes]
  have hl : findBytes (request.take i) lfLf =
      (findBytes request lfLf).bind fun n => if n + 2 ≤ i then some n else none := by
    rw [findBytes, Search.find_take_eq lfLf_ne_nil, length_lfLf, findBytes]
  show (match findBytes (request.take i) crlfCrlf with
    | some offset => some (offset, 4)
    | none => (findBytes (request.take i) lfLf).map fun offset => (offset, 2)) = _
  rw [hc, hl]

theorem headerEnd_take_of_none {request : Bytes} (hl : findBytes request lfLf = none)
    (hc : findBytes request crlfCrlf = none) (i : Nat) : headerEnd (request.take i) = none := by
  rw [headerEnd_take, hl, hc]
  rfl

theorem oneEnd_lf {request : Bytes} {l : Nat} (hl : findBytes request lfLf = some l)
    (hc : findBytes request crlfCrlf = none) : OneEnd request l 2 where
  take_eq := by
    intro i
    rw [headerEnd_take, hl, hc, Option.bind_some, Option.bind_none]
    by_cases h : l + 2 ≤ i
    · rw [if_pos h, if_pos h]
      rfl
    · rw [if_neg h, if_neg h]
      rfl
  inside := Search.find_add_le hl
  newline := Search.getElem?_find hl (k := 1) (by decide)
  len_cases := .inl rfl

/-- An end of the first kind counts when there is none of the second before it. -/
theorem oneEnd_crlf {request : Bytes} {c : Nat} (hc : findBytes request crlfCrlf = some c)
    (hl : ∀ l, findBytes request lfLf = some l → c + 4 ≤ l + 2) : OneEnd request c 4 where
  take_eq := by
    intro i
    rw [headerEnd_take, hc, Option.bind_some]
    by_cases h : c + 4 ≤ i
    · rw [if_pos h, if_pos h]
    · rw [if_neg h, if_neg h]
      cases hlf : findBytes request lfLf with
      | none => rfl
      | some l =>
          have := hl l hlf
          rw [Option.bind_some, if_neg (by omega)]
          rfl
  inside := Search.find_add_le hc
  newline := Search.getElem?_find hc (k := 3) (by decide)
  len_cases := .inr rfl

theorem twoEnds {request : Bytes} {l c : Nat} (hl : findBytes request lfLf = some l)
    (hc : findBytes request crlfCrlf = some c) (hlt : l + 2 < c + 4) : TwoEnds request l c where
  take_eq := by
    intro i
    rw [headerEnd_take, hc, hl, Option.bind_some, Option.bind_some]
    by_cases h : c + 4 ≤ i
    · rw [if_pos h, if_pos h]
    · rw [if_neg h, if_neg h]
      by_cases h' : l + 2 ≤ i
      · rw [if_pos h', if_pos h']
        rfl
      · rw [if_neg h', if_neg h']
        rfl
  inside := Search.find_add_le hc
  before := by
    -- the two ends do not overlap: their bytes differ
    have hl0 : request[l]? = some 10 := Search.getElem?_find hl (k := 0) (by decide)
    have hl1 : request[l + 1]? = some 10 := Search.getElem?_find hl (k := 1) (by decide)
    have hc0 : request[c]? = some 13 := Search.getElem?_find hc (k := 0) (by decide)
    have hc2 : request[c + 2]? = some 13 := Search.getElem?_find hc (k := 2) (by decide)
    by_contra hlap
    rcases show c = l ∨ c = l + 1 ∨ c + 2 = l + 1 by omega with h | h | h
    · rw [h, hl0] at hc0
      exact absurd hc0 (by decide)
    · rw [h, hl1] at hc0
      exact absurd hc0 (by decide)
    · rw [h, hl1] at hc2
      exact absurd hc2 (by decide)
  newline_first := Search.getElem?_find hl (k := 1) (by decide)
  newline_second := Search.getElem?_find hc (k := 3) (by decide)

/-! ## What reading may end with -/

/-- What the loop may end with, from a place in the request on. -/
abbrev MayEnd (request : Bytes) : Nat → Option Expected → ReadEnd → Prop :=
  requestReader.Ends readSize request

def expectedAt (request : Bytes) (offset len : Nat) : Expected :=
  ⟨offset, len, contentLength (request.take offset)⟩

/-- Having found the header block at `i`, the loop may end at `q`: at once, or at most a
read after the awaited length, or at the end of a request that is too short. -/
def Awaited (request : Bytes) (e : Expected) (i q : Nat) : Prop :=
  e.total ≤ i ∧ q = i ∨
  i < e.total ∧ (e.total ≤ q ∧ q < e.total + readSize ∧ q ≤ request.length ∨
    request.length < e.total ∧ q = request.length)

/-- What the loop may end with when it finds the header block at `i`. -/
inductive Found (request : Bytes) (i offset len : Nat) : ReadEnd → Prop where
  | headTooLong : maxHttpHeaderBytes < offset → Found request i offset len (.rejected badRequest)
  | bodyTooLong : offset ≤ maxHttpHeaderBytes →
      maxHttpBodyBytes < contentLength (request.take offset) →
      Found request i offset len (.rejected payloadTooLarge)
  | complete {q : Nat} : offset ≤ maxHttpHeaderBytes →
      contentLength (request.take offset) ≤ maxHttpBodyBytes →
      Awaited request (expectedAt request offset len) i q →
      Found request i offset len (.complete (request.take q) (some (expectedAt request offset len)))

/-- What the loop may end with. -/
inductive Searched (request : Bytes) : ReadEnd → Prop where
  | eof : request.length ≤ maxHttpHeaderBytes → headerEnd request = none →
      Searched request (.complete request none)
  | headTooLong {i : Nat} : maxHttpHeaderBytes < i → i ≤ request.length →
      headerEnd (request.take i) = none → Searched request (.rejected badRequest)
  | found {j i offset len : Nat} {r : ReadEnd} : headerEnd (request.take j) = none →
      j ≤ maxHttpHeaderBytes → j < i → i ≤ j + readSize → i ≤ request.length →
      headerEnd (request.take i) = some (offset, len) → Found request i offset len r →
      Searched request r

variable {request : Bytes} {e : Expected} {r : ReadEnd} {i p : Nat}

theorem length_take_of_le (hi : i ≤ request.length) : (request.take i).length = i := by
  rw [List.length_take, Nat.min_eq_left hi]

theorem headerEnd_le {offset len : Nat} (h : headerEnd request = some (offset, len)) :
    offset + len ≤ request.length := by
  unfold headerEnd at h
  cases hcr : findBytes request crlfCrlf with
  | some c =>
      rw [hcr] at h
      obtain ⟨rfl, rfl⟩ := Prod.mk.inj (Option.some.inj h)
      exact Search.find_add_le hcr
  | none =>
      rw [hcr] at h
      obtain ⟨l, hlf, hl⟩ := Option.map_eq_some_iff.1 h
      obtain ⟨rfl, rfl⟩ := Prod.mk.inj hl
      exact Search.find_add_le hlf

/-- No header block in a part, none in a part of it. -/
theorem headerEnd_take_mono {k j : Nat} (hkj : k ≤ j) (h : headerEnd (request.take j) = none) :
    headerEnd (request.take k) = none := by
  have hfind : ∀ needle : Bytes, needle ≠ [] → findBytes (request.take j) needle = none →
      findBytes (request.take k) needle = none := by
    intro needle hne hj
    rw [Option.eq_none_iff_forall_ne_some]
    intro n hn
    obtain ⟨hfound, hle⟩ := (Search.find_take hne).1 hn
    rw [findBytes, (Search.find_take hne).2 ⟨hfound, Nat.le_trans hle hkj⟩] at hj
    exact absurd hj (by simp)
  unfold headerEnd at h ⊢
  cases hcr : findBytes (request.take j) crlfCrlf with
  | some c =>
      rw [hcr] at h
      exact absurd h (by simp)
  | none =>
      rw [hcr, Option.map_eq_none_iff] at h
      rw [hfind crlfCrlf crlfCrlf_ne_nil hcr, hfind lfLf lfLf_ne_nil h]
      rfl

theorem awaitBody_take (hi : i ≤ request.length) :
    awaitBody (request.take i) e =
      if e.total ≤ i then .stop (.complete (request.take i) (some e)) else .more (some e) := by
  rw [awaitBody, length_take_of_le hi]

theorem afterRead_none (hi : i ≤ request.length) (h : headerEnd (request.take i) = none) :
    afterRead (request.take i) none =
      if maxHttpHeaderBytes < i then .stop (.rejected badRequest) else .more none := by
  rw [afterRead, h]
  show (if maxHttpHeaderBytes < (request.take i).length then _ else _) = _
  rw [length_take_of_le hi]

theorem afterRead_some {offset len : Nat} (hi : i ≤ request.length)
    (h : headerEnd (request.take i) = some (offset, len)) :
    afterRead (request.take i) none =
      if maxHttpHeaderBytes < offset then .stop (.rejected badRequest)
      else if maxHttpBodyBytes < contentLength (request.take offset) then
        .stop (.rejected payloadTooLarge)
      else awaitBody (request.take i) (expectedAt request offset len) := by
  have hle := headerEnd_le h
  rw [length_take_of_le hi] at hle
  rw [afterRead, h]
  show (if maxHttpHeaderBytes < offset then _
    else if maxHttpBodyBytes < contentLength ((request.take i).take offset) then _ else _) = _
  rw [List.take_take, Nat.min_eq_left (by omega)]
  rfl

/-- Once a body is awaited, the loop goes on until it is there. -/
theorem ends_awaiting (h : MayEnd request p (some e) r) (hp : p < e.total) :
    ∃ q, r = .complete (request.take q) (some e) ∧
      (e.total ≤ q ∧ q < e.total + readSize ∧ q ≤ request.length ∨
        request.length < e.total ∧ q = request.length) := by
  generalize hs : some e = s at h
  induction h with
  | eof s =>
      subst hs
      refine ⟨request.length, ?_, .inr ⟨hp, rfl⟩⟩
      rw [List.take_length]
      rfl
  | @stop p i s r hpi hib hi hstep =>
      subst hs
      have hstep : awaitBody (request.take i) e = .stop r := hstep
      rw [awaitBody_take hi] at hstep
      by_cases htotal : e.total ≤ i
      · rw [if_pos htotal] at hstep
        exact ⟨i, (Chunks.Step.stop.inj hstep).symm, .inl ⟨htotal, by omega, hi⟩⟩
      · rw [if_neg htotal] at hstep
        exact absurd hstep (by simp)
  | @more p i s s' r hpi hib hi hstep _ ih =>
      subst hs
      have hstep : awaitBody (request.take i) e = .more s' := hstep
      rw [awaitBody_take hi] at hstep
      by_cases htotal : e.total ≤ i
      · rw [if_pos htotal] at hstep
        exact absurd hstep (by simp)
      · rw [if_neg htotal] at hstep
        obtain rfl := Chunks.Step.more.inj hstep
        exact ih (Nat.not_le.1 htotal) rfl

/-- What the loop does after finding the header block, told by one step of it. -/
theorem found_of_step {offset len : Nat} (hi : i ≤ request.length)
    (hend : headerEnd (request.take i) = some (offset, len))
    (hstep : afterRead (request.take i) none = .stop r ∨
      ∃ s, afterRead (request.take i) none = .more s ∧ MayEnd request i s r) :
    Found request i offset len r := by
  rw [afterRead_some hi hend] at hstep
  by_cases hlong : maxHttpHeaderBytes < offset
  · simp only [if_pos hlong, Chunks.Step.stop.injEq, reduceCtorEq, false_and, exists_false,
      or_false] at hstep
    exact hstep ▸ .headTooLong hlong
  · rw [if_neg hlong] at hstep
    by_cases hbig : maxHttpBodyBytes < contentLength (request.take offset)
    · simp only [if_pos hbig, Chunks.Step.stop.injEq, reduceCtorEq, false_and, exists_false,
        or_false] at hstep
      exact hstep ▸ .bodyTooLong (Nat.not_lt.1 hlong) hbig
    · rw [if_neg hbig, awaitBody_take hi] at hstep
      by_cases htotal : (expectedAt request offset len).total ≤ i
      · simp only [if_pos htotal, Chunks.Step.stop.injEq, reduceCtorEq, false_and, exists_false,
          or_false] at hstep
        exact hstep ▸ .complete (Nat.not_lt.1 hlong) (Nat.not_lt.1 hbig) (.inl ⟨htotal, rfl⟩)
      · simp only [if_neg htotal, Chunks.Step.more.injEq, reduceCtorEq, false_or,
          exists_eq_left'] at hstep
        obtain ⟨q, rfl, hq⟩ := ends_awaiting hstep (Nat.not_le.1 htotal)
        exact .complete (Nat.not_lt.1 hlong) (Nat.not_lt.1 hbig) (.inr ⟨Nat.not_le.1 htotal, hq⟩)

/-- Every end of the loop is among those told. -/
theorem searched_of_ends (h : MayEnd request p none r) (hp : p ≤ maxHttpHeaderBytes)
    (hnone : headerEnd (request.take p) = none) : Searched request r := by
  generalize hs : (none : Option Expected) = s at h
  induction h with
  | eof s =>
      subst hs
      rw [List.take_length] at hnone
      exact .eof hp hnone
  | @stop p i s r hpi hib hi hstep =>
      subst hs
      cases hend : headerEnd (request.take i) with
      | none =>
          have hstep := (afterRead_none hi hend).symm.trans hstep
          by_cases hlong : maxHttpHeaderBytes < i
          · rw [if_pos hlong] at hstep
            exact Chunks.Step.stop.inj hstep ▸ .headTooLong hlong hi hend
          · rw [if_neg hlong] at hstep
            exact absurd hstep (by simp)
      | some b => exact .found hnone hp hpi hib hi hend (found_of_step hi hend (.inl hstep))
  | @more p i s s' r hpi hib hi hstep hrest ih =>
      subst hs
      cases hend : headerEnd (request.take i) with
      | none =>
          have hstep := (afterRead_none hi hend).symm.trans hstep
          by_cases hlong : maxHttpHeaderBytes < i
          · rw [if_pos hlong] at hstep
            exact absurd hstep (by simp)
          · rw [if_neg hlong] at hstep
            exact ih (Nat.not_lt.1 hlong) hend (Chunks.Step.more.inj hstep)
      | some b =>
          exact .found hnone hp hpi hib hi hend (found_of_step hi hend (.inr ⟨s', hstep, hrest⟩))

/-- Up to a place before the end of the header block, and no longer than a header block
may be, a request can arrive byte by byte. -/
theorem ends_of_search {j : Nat} (hnone : headerEnd (request.take j) = none)
    (hj : j ≤ maxHttpHeaderBytes) (hlen : j ≤ request.length) (h : MayEnd request j none r) :
    MayEnd request 0 none r := by
  refine Chunks.Reader.Ends.walk readSize_pos hlen (fun i _ hij => ?_) (Nat.zero_le j) h
  show afterRead (request.take i) none = .more none
  rw [afterRead_none (Nat.le_trans hij hlen) (headerEnd_take_mono hij hnone),
    if_neg (Nat.not_lt.2 (Nat.le_trans hij hj))]

/-- A body that is awaited may end anywhere up to a read after its length. -/
theorem ends_of_await {q : Nat} (hi : i ≤ request.length) (hlt : i < e.total)
    (hq : e.total ≤ q ∧ q < e.total + readSize ∧ q ≤ request.length ∨
      request.length < e.total ∧ q = request.length) :
    MayEnd request i (some e) (.complete (request.take q) (some e)) := by
  have hmore : ∀ k, k ≤ request.length → k < e.total →
      requestReader.chunk (request.take k) (some e) = .more (some e) := by
    intro k hk hke
    show awaitBody (request.take k) e = .more (some e)
    rw [awaitBody_take hk, if_neg (Nat.not_le.2 hke)]
  rcases hq with ⟨htotal, hq, hqlen⟩ | ⟨hshort, rfl⟩
  · -- byte by byte to the last byte of the body, which comes with what is after it
    have hlast : i ≤ e.total - 1 := by omega
    refine Chunks.Reader.Ends.walk readSize_pos (by omega) (fun k _ hk => ?_) hlast ?_
    · exact hmore k (by omega) (by omega)
    · refine .stop (i := q) (by omega) (by omega) hqlen ?_
      show awaitBody (request.take q) e = _
      rw [awaitBody_take hqlen, if_pos htotal]
  · refine Chunks.Reader.Ends.walk readSize_pos (Nat.le_refl _) (fun k _ hk => ?_) hi ?_
    · exact hmore k hk (by omega)
    · rw [List.take_length]
      exact .eof (some e)

/-- **What the loop may end with is just what is told.** -/
theorem ends_iff_searched : MayEnd request 0 none r ↔ Searched request r := by
  constructor
  · intro h
    exact searched_of_ends h (Nat.zero_le _) rfl
  · intro h
    cases h with
    | eof hshort hnone =>
        refine ends_of_search ?_ hshort (Nat.le_refl _) (.eof none)
        rwa [List.take_length]
    | @headTooLong i hlong hi hnone =>
        have hfirst : maxHttpHeaderBytes + 1 ≤ request.length := by omega
        refine ends_of_search (headerEnd_take_mono (Nat.le_of_lt hlong) hnone) (Nat.le_refl _)
          (by omega) ?_
        refine .stop (i := maxHttpHeaderBytes + 1) (Nat.lt_succ_self _)
          (Nat.add_le_add_left readSize_pos _) hfirst ?_
        show afterRead (request.take (maxHttpHeaderBytes + 1)) none = _
        rw [afterRead_none hfirst (headerEnd_take_mono hlong hnone), if_pos (Nat.lt_succ_self _)]
    | @found j i offset len r hnone hj hji hij hi hend hfound =>
        apply ends_of_search hnone hj (by omega)
        have hstep := afterRead_some hi hend
        cases hfound with
        | headTooLong hlong =>
            rw [if_pos hlong] at hstep
            exact .stop hji hij hi hstep
        | bodyTooLong hhead hbig =>
            rw [if_neg (Nat.not_lt.2 hhead), if_pos hbig] at hstep
            exact .stop hji hij hi hstep
        | complete hhead hbody hq =>
            rw [if_neg (Nat.not_lt.2 hhead), if_neg (Nat.not_lt.2 hbody), awaitBody_take hi] at hstep
            rcases hq with ⟨htotal, rfl⟩ | ⟨hlt, hq⟩
            · rw [if_pos htotal] at hstep
              exact .stop hji hij hi hstep
            · rw [if_neg (Nat.not_le.2 hlt)] at hstep
              exact .more hji hij hi hstep (ends_of_await hi hlt hq)

end Transport
end FolkAround
