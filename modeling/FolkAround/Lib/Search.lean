import Mathlib.Data.List.Basic
import Mathlib.Tactic.Common

/-!
# The first place of a piece in a list

* `find needle xs` — the first place at which `needle` stands in `xs`.
* `find_eq_some_iff` — what being the first place means.
* `find_take` — the search in an initial part: the first place does not move while
  the list is read, it is only not there yet.
-/

namespace Search

variable {α : Type*} {needle xs : List α} {i k : Nat}

theorem prefix_drop_take (h : needle ≠ []) :
    needle <+: (xs.take k).drop i ↔ needle <+: xs.drop i ∧ i + needle.length ≤ k := by
  have hpos := List.length_pos_iff.2 h
  rw [List.drop_take, List.prefix_take_iff]
  constructor
  · exact fun ⟨hpre, hle⟩ => ⟨hpre, by omega⟩
  · exact fun ⟨hpre, hle⟩ => ⟨hpre, by omega⟩

variable [DecidableEq α]

/-- The first place of `needle`. -/
def find (needle : List α) : List α → Option Nat
  | [] => if needle = [] then some 0 else none
  | x :: xs => if needle.isPrefixOf (x :: xs) then some 0 else (find needle xs).map (· + 1)

theorem find_eq_some_iff :
    find needle xs = some i ↔
      needle <+: xs.drop i ∧ i ≤ xs.length ∧ ∀ j < i, ¬ needle <+: xs.drop j := by
  induction xs generalizing i with
  | nil =>
      rw [find, List.drop_nil, List.prefix_nil, List.length_nil, Nat.le_zero]
      by_cases h : needle = []
      · simp only [h, if_true, Option.some.injEq, true_and]
        constructor
        · rintro rfl
          exact ⟨rfl, fun j hj => absurd hj (Nat.not_lt_zero j)⟩
        · exact fun hi => hi.1.symm
      · simp [h]
  | cons x xs ih =>
      rw [find]
      by_cases h : needle <+: x :: xs
      · rw [if_pos (List.isPrefixOf_iff_prefix.2 h), Option.some.injEq]
        constructor
        · rintro rfl
          exact ⟨h, Nat.zero_le _, fun j hj => absurd hj (Nat.not_lt_zero j)⟩
        · rintro ⟨-, -, hfirst⟩
          by_contra hi
          exact hfirst 0 (by omega) h
      · rw [if_neg (fun hc => h (List.isPrefixOf_iff_prefix.1 hc)), Option.map_eq_some_iff]
        constructor
        · rintro ⟨n, hn, rfl⟩
          obtain ⟨hpre, hle, hfirst⟩ := ih.1 hn
          refine ⟨hpre, Nat.succ_le_succ hle, fun j hj => ?_⟩
          cases j with
          | zero => exact h
          | succ j => exact hfirst j (by omega)
        · rintro ⟨hpre, hle, hfirst⟩
          cases i with
          | zero => exact absurd hpre h
          | succ i =>
              refine ⟨i, ih.2 ⟨hpre, Nat.le_of_succ_le_succ hle, fun j hj => ?_⟩, rfl⟩
              exact hfirst (j + 1) (by omega)

/-- The piece fits where it was found. -/
theorem find_add_le (h : find needle xs = some i) : i + needle.length ≤ xs.length := by
  obtain ⟨hpre, hle, -⟩ := find_eq_some_iff.1 h
  have := hpre.length_le
  rw [List.length_drop] at this
  omega

/-- In an initial part, the piece is found at the same place, or not yet. -/
theorem find_take (hne : needle ≠ []) :
    find needle (xs.take k) = some i ↔ find needle xs = some i ∧ i + needle.length ≤ k := by
  constructor
  · intro h
    obtain ⟨hpre, -, hfirst⟩ := find_eq_some_iff.1 h
    obtain ⟨hpre, hle⟩ := (prefix_drop_take hne).1 hpre
    have hlen := hpre.length_le
    rw [List.length_drop] at hlen
    have hpos := List.length_pos_iff.2 hne
    refine ⟨find_eq_some_iff.2 ⟨hpre, by omega, fun j hj hc => ?_⟩, hle⟩
    exact hfirst j hj ((prefix_drop_take hne).2 ⟨hc, by omega⟩)
  · rintro ⟨h, hle⟩
    obtain ⟨hpre, hlen, hfirst⟩ := find_eq_some_iff.1 h
    have hfit := find_add_le h
    refine find_eq_some_iff.2 ⟨(prefix_drop_take hne).2 ⟨hpre, hle⟩, ?_, fun j hj hc => ?_⟩
    · rw [List.length_take]
      omega
    · exact hfirst j hj ((prefix_drop_take hne).1 hc).1

/-- `find_take` as an equation. -/
theorem find_take_eq (hne : needle ≠ []) :
    find needle (xs.take k) =
      (find needle xs).bind fun n => if n + needle.length ≤ k then some n else none := by
  apply Option.ext
  intro n
  rw [find_take hne, Option.bind_eq_some_iff]
  constructor
  · rintro ⟨hn, hle⟩
    exact ⟨n, hn, if_pos hle⟩
  · rintro ⟨m, hm, hite⟩
    by_cases hle : m + needle.length ≤ k
    · rw [if_pos hle] at hite
      exact Option.some.inj hite ▸ ⟨hm, hle⟩
    · rw [if_neg hle] at hite
      exact absurd hite (by simp)

/-- The piece, element by element. -/
theorem getElem?_find (h : find needle xs = some i) (hk : k < needle.length) :
    xs[i + k]? = needle[k]? := by
  obtain ⟨t, ht⟩ := (find_eq_some_iff.1 h).1
  rw [← List.getElem?_drop, ← ht, List.getElem?_append_left hk]

end Search
