import Mathlib.Data.List.Induction
import Mathlib.Data.List.Nodup
import FolkAround.Lib.Runs

/-!
# A bounded cache of keyed entries

A list of entries, the oldest first.  To insert an entry is to drop those that are no
longer fresh, and an older one of the same key, and then the oldest as long as there is
no room.

* `insert`, `run` — one insertion, and many.
* `length_run_le`, `nodup_run` — the bound, and one entry for each key.
* `latest`, `latest_of_find` — what is found under a key is what was inserted last under it.
* `Near`, `near_run` — an entry stays as long as it is fresh and few others come after it.
-/

namespace BoundedCache

variable {α κ : Type} [DecidableEq κ]

/-- An entry, and which of the others are still fresh when it comes. -/
structure Insertion (α : Type) where
  entry : α
  fresh : α → Bool

def insert (key : α → κ) (capacity : Nat) (cache : List α) (e : Insertion α) : List α :=
  let kept := cache.filter fun y => e.fresh y ∧ key y ≠ key e.entry
  let all := kept ++ [e.entry]
  all.drop (all.length - capacity)

/-- The cache after some insertions, empty at first. -/
def run (key : α → κ) (capacity : Nat) (es : List (Insertion α)) : List α :=
  Runs.run (insert key capacity) [] es

variable {key : α → κ} {capacity : Nat} {cache : List α} {e : Insertion α}
  {es : List (Insertion α)} {y : α}

theorem run_concat : run key capacity (es ++ [e]) = insert key capacity (run key capacity es) e := by
  rw [run, Runs.run, List.foldl_append]
  rfl

/-! ## The bound, and the keys -/

theorem length_insert_le : (insert key capacity cache e).length ≤ capacity := by
  rw [insert, List.length_drop]
  omega

theorem length_run_le (es : List (Insertion α)) : (run key capacity es).length ≤ capacity := by
  induction es using List.reverseRecOn with
  | nil => exact Nat.zero_le _
  | append_singleton es e _ =>
      rw [run_concat]
      exact length_insert_le

/-- What is in the cache afterwards is new, or was there and is kept. -/
theorem mem_insert (h : y ∈ insert key capacity cache e) :
    y = e.entry ∨ (y ∈ cache ∧ key y ≠ key e.entry) := by
  rcases List.mem_append.1 (List.mem_of_mem_drop h) with hkept | hnew
  · have hy := List.mem_filter.1 hkept
    exact .inr ⟨hy.1, (of_decide_eq_true hy.2).2⟩
  · exact .inl (List.mem_singleton.1 hnew)

theorem nodup_insert (h : (cache.map key).Nodup) : ((insert key capacity cache e).map key).Nodup := by
  have hsub : ((cache.filter fun y => e.fresh y ∧ key y ≠ key e.entry).map key).Sublist
      (cache.map key) := List.filter_sublist.map key
  have hall : (((cache.filter fun y => e.fresh y ∧ key y ≠ key e.entry) ++ [e.entry]).map
      key).Nodup := by
    rw [List.map_append, List.nodup_append]
    refine ⟨h.sublist hsub, List.nodup_singleton _, ?_⟩
    intro a ha b hb
    obtain ⟨y, hy, rfl⟩ := List.mem_map.1 ha
    rw [List.mem_singleton.1 hb]
    exact (of_decide_eq_true (List.mem_filter.1 hy).2).2
  exact hall.sublist ((List.drop_sublist _ _).map key)

/-- **There is one entry for each key.** -/
theorem nodup_run (es : List (Insertion α)) : ((run key capacity es).map key).Nodup := by
  induction es using List.reverseRecOn with
  | nil => exact List.nodup_nil
  | append_singleton es e ih =>
      rw [run_concat]
      exact nodup_insert ih

/-! ## What is found -/

/-- The entry that was inserted last under the key. -/
def latest (key : α → κ) (es : List (Insertion α)) (k : κ) : Option α :=
  (es.reverse.find? fun e => key e.entry = k).map Insertion.entry

@[simp] theorem latest_concat_self : latest key (es ++ [e]) (key e.entry) = some e.entry := by
  simp [latest]

theorem latest_concat_of_ne {k : κ} (h : key e.entry ≠ k) :
    latest key (es ++ [e]) k = latest key es k := by
  simp [latest, h]

/-- Everything in the cache is what was inserted last under its key. -/
theorem latest_of_mem (h : y ∈ run key capacity es) : latest key es (key y) = some y := by
  induction es using List.reverseRecOn with
  | nil => exact absurd h List.not_mem_nil
  | append_singleton es e ih =>
      rw [run_concat] at h
      rcases mem_insert h with rfl | ⟨hmem, hne⟩
      · exact latest_concat_self
      · rw [latest_concat_of_ne (Ne.symm hne)]
        exact ih hmem

/-- **What is found under a key is what was inserted last under it.** -/
theorem latest_of_find {k : κ} (h : (run key capacity es).find? (fun y => key y = k) = some y) :
    latest key es k = some y := by
  have hkey : key y = k := by simpa using List.find?_some h
  rw [← hkey]
  exact latest_of_mem (List.mem_of_find?_eq_some h)

/-! ## What stays -/

/-- The entry is in the cache, and at most `n` entries have come after it. -/
def Near (n : Nat) (y : α) (cache : List α) : Prop :=
  ∃ front back, cache = front ++ y :: back ∧ back.length ≤ n

theorem near_insert_self (hpos : 0 < capacity) :
    Near 0 e.entry (insert key capacity cache e) := by
  refine ⟨(cache.filter fun y => e.fresh y ∧ key y ≠ key e.entry).drop
    ((cache.filter fun y => e.fresh y ∧ key y ≠ key e.entry).length + 1 - capacity), [], ?_,
    Nat.le_refl 0⟩
  rw [insert, List.length_append, List.length_singleton, List.drop_append_of_le_length (by omega)]

/-- One more has come after it. -/
theorem Near.insert {n : Nat} (h : Near n y cache) (hfresh : e.fresh y = true)
    (hne : key y ≠ key e.entry) (hroom : n + 1 < capacity) :
    Near (n + 1) y (insert key capacity cache e) := by
  obtain ⟨front, back, rfl, hback⟩ := h
  let keeps : α → Bool := fun y => e.fresh y ∧ key y ≠ key e.entry
  have hy : keeps y = true := decide_eq_true ⟨hfresh, hne⟩
  have hkept : (front ++ y :: back).filter keeps = front.filter keeps ++ y :: back.filter keeps := by
    rw [List.filter_append, List.filter_cons_of_pos hy]
  have hlen : (back.filter keeps).length ≤ back.length := List.length_filter_le ..
  refine ⟨(front.filter keeps).drop ((front.filter keeps).length + 1 + (back.filter keeps).length + 1
    - capacity), back.filter keeps ++ [e.entry], ?_, ?_⟩
  · show (((front ++ y :: back).filter keeps) ++ [e.entry]).drop
      ((((front ++ y :: back).filter keeps) ++ [e.entry]).length - capacity) = _
    rw [hkept, List.append_assoc, List.cons_append]
    have hsize : (front.filter keeps ++ y :: (back.filter keeps ++ [e.entry])).length =
        (front.filter keeps).length + 1 + (back.filter keeps).length + 1 := by
      simp only [List.length_append, List.length_cons, List.length_nil]
      omega
    rw [hsize, List.drop_append_of_le_length (by omega)]
  · rw [List.length_append, List.length_singleton]
    omega

/-- How many of the insertions are under other keys. -/
def others (key : α → κ) (k : κ) (es : List (Insertion α)) : Nat :=
  es.countP fun e => key e.entry ≠ k

theorem others_concat_of_ne {k : κ} (h : key e.entry ≠ k) :
    others key k (es ++ [e]) = others key k es + 1 := by
  simp [others, h]

/-- **What stays.**  An entry is still in the cache if it was the last one of its key, was
fresh at all later insertions, and there were fewer of these, under other keys, than there
is room for. -/
theorem near_run {before after : List (Insertion α)}
    (hlatest : latest key (before ++ e :: after) (key e.entry) = some e.entry)
    (hfresh : ∀ e' ∈ after, e'.fresh e.entry = true)
    (hroom : others key (key e.entry) after < capacity) :
    Near (others key (key e.entry) after) e.entry (run key capacity (before ++ e :: after)) := by
  induction after using List.reverseRecOn with
  | nil =>
      rw [run_concat]
      exact near_insert_self (by omega)
  | append_singleton after e' ih =>
      have hsplit : before ++ e :: (after ++ [e']) = (before ++ e :: after) ++ [e'] := by simp
      rw [hsplit] at hlatest ⊢
      rw [run_concat]
      by_cases hkey : key e'.entry = key e.entry
      · rw [← hkey, latest_concat_self, Option.some_inj] at hlatest
        rw [← hlatest]
        have hlast : Near 0 e'.entry
            (insert key capacity (run key capacity (before ++ e :: after)) e') :=
          near_insert_self (Nat.lt_of_le_of_lt (Nat.zero_le _) hroom)
        obtain ⟨front, back, hcache, hback⟩ := hlast
        exact ⟨front, back, hcache, Nat.le_trans hback (Nat.zero_le _)⟩
      · rw [latest_concat_of_ne hkey] at hlatest
        rw [others_concat_of_ne hkey] at hroom ⊢
        have hnear := ih hlatest (fun e'' he'' => hfresh e'' (List.mem_append_left _ he''))
          (by omega)
        exact hnear.insert (hfresh e' (by simp)) (Ne.symm hkey) hroom

/-- It is found under its key. -/
theorem find_of_mem (hnodup : (cache.map key).Nodup) (h : y ∈ cache) :
    cache.find? (fun x => key x = key y) = some y := by
  induction cache with
  | nil => exact absurd h List.not_mem_nil
  | cons x cache ih =>
      rw [List.map_cons, List.nodup_cons] at hnodup
      rcases List.mem_cons.1 h with rfl | h
      · simp
      · have hne : key x ≠ key y := fun heq => hnodup.1 (heq ▸ List.mem_map_of_mem h)
        rw [List.find?_cons_of_neg (by simpa using hne)]
        exact ih hnodup.2 h

theorem Near.mem {n : Nat} (h : Near n y cache) : y ∈ cache := by
  obtain ⟨front, back, rfl, -⟩ := h
  simp

end BoundedCache
