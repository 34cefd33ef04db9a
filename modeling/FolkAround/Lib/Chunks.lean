import Mathlib.Data.List.Basic
import Mathlib.Tactic.Common

/-!
# Readers of a list that arrives in chunks

A reader gets a list chunk by chunk.  After each chunk it looks at everything that
has arrived and at its state, and goes on or stops; at the end it takes what it has.

* `Arrival` — a way for a list to arrive: non-empty chunks, bounded in length.
* `Reader`, `Reader.read` — a reader and its run.
* `Reader.Ends` — the results it may have, told by the places in the list at which
  chunks end.  `ends_iff` says that these are the results over all arrivals.
* `Reader.Ends.walk` — a chunk of one element at a time, as long as the reader goes on.
-/

namespace Chunks

variable {α σ ρ : Type*}

/-- A way for `xs` to arrive. -/
structure Arrival (bound : Nat) (xs : List α) where
  chunks : List (List α)
  flatten : chunks.flatten = xs
  nonempty : ∀ c ∈ chunks, c ≠ []
  bounded : ∀ c ∈ chunks, c.length ≤ bound

/-- One element at a time. -/
def Arrival.single {bound : Nat} (h : 0 < bound) (xs : List α) : Arrival bound xs where
  chunks := xs.map fun x => [x]
  flatten := by
    induction xs with
    | nil => rfl
    | cons x xs ih => exact congrArg (x :: ·) ih
  nonempty := by
    intro c hc
    obtain ⟨x, -, rfl⟩ := List.mem_map.1 hc
    exact List.cons_ne_nil x []
  bounded := by
    intro c hc
    obtain ⟨x, -, rfl⟩ := List.mem_map.1 hc
    exact h

/-- What a reader does after a chunk. -/
inductive Step (σ ρ : Type*) where
  | more (s : σ)
  | stop (r : ρ)

/-- A reader: what it does after a chunk, and at the end, with all that has arrived. -/
structure Reader (α σ ρ : Type*) where
  chunk : List α → σ → Step σ ρ
  eof : List α → σ → ρ

/-- The run of a reader that has `buffer` already. -/
def Reader.read (R : Reader α σ ρ) (buffer : List α) (s : σ) : List (List α) → ρ
  | [] => R.eof buffer s
  | c :: cs =>
    match R.chunk (buffer ++ c) s with
    | .more s' => R.read (buffer ++ c) s' cs
    | .stop r => r

/-- The results from the place `p` of `xs` on: chunks end at places after it. -/
inductive Reader.Ends (R : Reader α σ ρ) (bound : Nat) (xs : List α) : Nat → σ → ρ → Prop where
  | eof (s : σ) : R.Ends bound xs xs.length s (R.eof xs s)
  | stop {p i : Nat} {s : σ} {r : ρ} : p < i → i ≤ p + bound → i ≤ xs.length →
      R.chunk (xs.take i) s = .stop r → R.Ends bound xs p s r
  | more {p i : Nat} {s s' : σ} {r : ρ} : p < i → i ≤ p + bound → i ≤ xs.length →
      R.chunk (xs.take i) s = .more s' → R.Ends bound xs i s' r → R.Ends bound xs p s r

variable {R : Reader α σ ρ} {bound : Nat} {xs : List α}

theorem take_append_chunk {p : Nat} {c rest : List α} (h : c ++ rest = xs.drop p) :
    xs.take p ++ c = xs.take (p + c.length) := by
  rw [List.take_add, ← h, List.take_left]

theorem drop_chunk {p : Nat} {c rest : List α} (h : c ++ rest = xs.drop p) :
    rest = xs.drop (p + c.length) := by
  rw [← List.drop_drop, ← h, List.drop_left]

/-- Every run has one of the results. -/
theorem ends_of_read {cs : List (List α)} (hne : ∀ c ∈ cs, c ≠ [])
    (hbound : ∀ c ∈ cs, c.length ≤ bound) {p : Nat} (hp : p ≤ xs.length)
    (hflat : cs.flatten = xs.drop p) (s : σ) :
    R.Ends bound xs p s (R.read (xs.take p) s cs) := by
  induction cs generalizing p s with
  | nil =>
      have hlen := congrArg List.length hflat
      rw [List.flatten_nil, List.length_nil, List.length_drop] at hlen
      obtain rfl : p = xs.length := by omega
      rw [Reader.read, List.take_length]
      exact .eof s
  | cons c cs ih =>
      rw [List.flatten_cons] at hflat
      have hpos := List.length_pos_iff.2 (hne c List.mem_cons_self)
      have hle := hbound c List.mem_cons_self
      have hlen := congrArg List.length hflat
      rw [List.length_append, List.length_drop] at hlen
      have hi : p + c.length ≤ xs.length := by omega
      rw [Reader.read, take_append_chunk hflat]
      cases hstep : R.chunk (xs.take (p + c.length)) s with
      | stop r => exact .stop (by omega) (by omega) hi hstep
      | more s' =>
          refine .more (by omega) (by omega) hi hstep (ih ?_ ?_ hi (drop_chunk hflat) s')
          · exact fun c hc => hne c (List.mem_cons_of_mem _ hc)
          · exact fun c hc => hbound c (List.mem_cons_of_mem _ hc)

theorem take_append_drop_drop {p i : Nat} (h : p < i) :
    (xs.drop p).take (i - p) ++ xs.drop i = xs.drop p := by
  have hdrop : xs.drop i = (xs.drop p).drop (i - p) := by
    rw [List.drop_drop, Nat.add_sub_cancel' (Nat.le_of_lt h)]
  rw [hdrop, List.take_append_drop]

theorem length_take_drop {p i : Nat} (hi : i ≤ xs.length) :
    ((xs.drop p).take (i - p)).length = i - p := by
  rw [List.length_take, List.length_drop]
  omega

/-- A first chunk that ends at the place `i`, and then the rest. -/
def Arrival.cut {p i : Nat} (hpi : p < i) (hib : i ≤ p + bound) (hi : i ≤ xs.length)
    (rest : Arrival bound (xs.drop i)) : Arrival bound (xs.drop p) where
  chunks := (xs.drop p).take (i - p) :: rest.chunks
  flatten := by rw [List.flatten_cons, rest.flatten, take_append_drop_drop hpi]
  nonempty := by
    intro c hc
    rcases List.mem_cons.1 hc with rfl | hc
    · exact List.ne_nil_of_length_pos (by rw [length_take_drop hi]; omega)
    · exact rest.nonempty c hc
  bounded := by
    intro c hc
    rcases List.mem_cons.1 hc with rfl | hc
    · rw [length_take_drop hi]
      omega
    · exact rest.bounded c hc

theorem read_cut {p i : Nat} (hpi : p < i) (hib : i ≤ p + bound) (hi : i ≤ xs.length)
    (rest : Arrival bound (xs.drop i)) (s : σ) :
    R.read (xs.take p) s (Arrival.cut hpi hib hi rest).chunks =
      match R.chunk (xs.take i) s with
      | .more s' => R.read (xs.take i) s' rest.chunks
      | .stop r => r := by
  rw [Arrival.cut, Reader.read, take_append_chunk (take_append_drop_drop hpi), length_take_drop hi,
    Nat.add_sub_cancel' (Nat.le_of_lt hpi)]

/-- Every result is that of a run. -/
theorem exists_read_of_ends (hb : 0 < bound) {p : Nat} {s : σ} {r : ρ}
    (h : R.Ends bound xs p s r) :
    ∃ cs : Arrival bound (xs.drop p), R.read (xs.take p) s cs.chunks = r := by
  induction h with
  | eof s =>
      refine ⟨⟨[], by simp, by simp, by simp⟩, ?_⟩
      rw [Reader.read, List.take_length]
  | stop hpi hib hi hstep =>
      refine ⟨.cut hpi hib hi (.single hb _), ?_⟩
      rw [read_cut, hstep]
  | more hpi hib hi hstep _ ih =>
      obtain ⟨rest, hrest⟩ := ih
      refine ⟨.cut hpi hib hi rest, ?_⟩
      rw [read_cut, hstep]
      exact hrest

/-- The results are those of the runs over all arrivals. -/
theorem ends_iff (hb : 0 < bound) {s : σ} {r : ρ} :
    R.Ends bound xs 0 s r ↔ ∃ cs : Arrival bound xs, R.read [] s cs.chunks = r := by
  constructor
  · intro h
    obtain ⟨cs, hcs⟩ := exists_read_of_ends hb h
    exact ⟨⟨cs.chunks, cs.flatten, cs.nonempty, cs.bounded⟩, hcs⟩
  · rintro ⟨cs, rfl⟩
    exact ends_of_read cs.nonempty cs.bounded (Nat.zero_le _) cs.flatten s

/-- One element at a time up to `q`, while the reader goes on as it is. -/
theorem Reader.Ends.walk (hb : 0 < bound) {p q : Nat} {s : σ} {r : ρ} (hq : q ≤ xs.length)
    (hmore : ∀ i, p < i → i ≤ q → R.chunk (xs.take i) s = .more s) (hpq : p ≤ q)
    (h : R.Ends bound xs q s r) : R.Ends bound xs p s r := by
  obtain ⟨n, rfl⟩ := Nat.exists_eq_add_of_le hpq
  induction n generalizing p with
  | zero => exact h
  | succ n ih =>
      have hnext : R.Ends bound xs (p + 1) s r := by
        apply ih (p := p + 1) (by omega) (fun i hi hiq => hmore i (by omega) (by omega)) (by omega)
        rwa [Nat.add_right_comm, Nat.add_assoc]
      exact .more (Nat.lt_succ_self p) (by omega) (by omega)
        (hmore _ (Nat.lt_succ_self p) (by omega)) hnext

end Chunks
