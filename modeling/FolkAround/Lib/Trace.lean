import Mathlib.Data.List.Basic

/-!
# Traces

A trace is a list that grows at its end.  What is known of an entry may refer to the
entries before it, so it is stated for every way to cut the trace at an entry.

* `EachAfter` — a property of every entry and what came before it.
* `eachAfter_concat` — it is checked for a new entry alone.
* `EachAfter.getElem` — an entry at a position, with the positions before it.
-/

namespace Trace

variable {α : Type}

/-- Every entry has the property, given the entries before it. -/
def EachAfter (P : List α → α → Prop) (l : List α) : Prop :=
  ∀ before e after, l = before ++ e :: after → P before e

theorem eachAfter_nil (P : List α → α → Prop) : EachAfter P [] := fun before e after h =>
  absurd h.symm (by simp)

/-- A longer trace is a matter of its last entry. -/
theorem eachAfter_concat {P : List α → α → Prop} {l : List α} {e : α} (hl : EachAfter P l)
    (he : P l e) : EachAfter P (l ++ [e]) := by
  intro before x after h
  rcases List.eq_nil_or_concat after with rfl | ⟨after, y, rfl⟩
  · obtain ⟨rfl, hx⟩ := List.append_inj' h rfl
    rwa [← List.singleton_inj.1 hx]
  · rw [List.concat_eq_append, ← List.cons_append, ← List.append_assoc] at h
    exact hl before x after (List.append_inj' h rfl).1

/-- The entry at a position. -/
theorem EachAfter.getElem {P : List α → α → Prop} {l : List α} (h : EachAfter P l) {n : Nat} {e : α}
    (hn : l[n]? = some e) : P (l.take n) e := by
  obtain ⟨hlt, rfl⟩ := List.getElem?_eq_some_iff.1 hn
  exact h _ _ (l.drop (n + 1)) (by rw [List.getElem_cons_drop, List.take_append_drop])

/-- An entry before a position is among the entries the position comes after. -/
theorem mem_take_of_getElem {l : List α} {m n : Nat} {e : α} (hm : l[m]? = some e) (hmn : m < n) :
    e ∈ l.take n := by
  rw [← List.getElem?_take_of_lt hmn] at hm
  exact List.mem_of_getElem? hm

/-- What is counted before a position is at most what is counted before a later one. -/
theorem countP_take_le {p : α → Bool} {l : List α} {m n : Nat} (h : m ≤ n) :
    (l.take m).countP p ≤ (l.take n).countP p := by
  rw [← Nat.min_eq_left h, ← List.take_take]
  exact (List.take_sublist m (l.take n)).countP_le

end Trace
