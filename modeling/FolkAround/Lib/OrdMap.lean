import Mathlib.Data.List.Nodup

/-!
# Maps in insertion order

A finite map that remembers the order in which its keys first came in: `set` on a
key that is present replaces the value where it stands, and on a new key adds the
pair at the end.  This is the iteration order of a JavaScript `Map`; a map whose
order nobody looks at is the same structure read through `get` alone.

* `get`, `set`, `delete`, `keys` — the operations; the keys are distinct by
  construction.
* `get_set`, `get_delete` — what a lookup sees after an update.
* `mem_keys_iff`, `mem_entries_iff` — the keys and pairs that are there, in terms
  of `get`.
* `DistinctBy` — no two keys stand for the same thing; `distinctBy_insert_iff` says
  which key may be added.
-/

/-- A map whose pairs are kept in the order in which their keys first came in. -/
structure OrdMap (κ α : Type) where
  /-- The pairs, oldest key first. -/
  entries : List (κ × α)
  /-- No key occurs twice. -/
  nodup : (entries.map Prod.fst).Nodup

namespace OrdMap

variable {κ α : Type} [DecidableEq κ]

/-! ## On lists of pairs -/

/-- The value of the first pair with the given key. -/
def getL (k : κ) : List (κ × α) → Option α
  | [] => none
  | p :: l => if p.1 = k then some p.2 else getL k l

/-- Replace the value where the key stands, or add the pair at the end. -/
def setL (k : κ) (v : α) : List (κ × α) → List (κ × α)
  | [] => [(k, v)]
  | p :: l => if p.1 = k then (k, v) :: l else p :: setL k v l

/-- Drop the pairs with the given key. -/
def deleteL (k : κ) (l : List (κ × α)) : List (κ × α) := l.filter fun p => p.1 ≠ k

theorem getL_eq_none_iff {k : κ} {l : List (κ × α)} :
    getL k l = none ↔ k ∉ l.map Prod.fst := by
  induction l with
  | nil => simp [getL]
  | cons p l ih =>
      by_cases h : p.1 = k
      · simp [getL, h]
      · simp only [getL, if_neg h, ih, List.map_cons, List.mem_cons, not_or]
        exact ⟨fun hl => ⟨Ne.symm h, hl⟩, And.right⟩

theorem mem_of_getL {k : κ} {v : α} {l : List (κ × α)} (h : getL k l = some v) :
    (k, v) ∈ l := by
  induction l with
  | nil => simp [getL] at h
  | cons p l ih =>
      by_cases hp : p.1 = k
      · rw [getL, if_pos hp] at h
        obtain rfl : p.2 = v := Option.some.inj h
        subst hp
        exact List.mem_cons_self ..
      · rw [getL, if_neg hp] at h
        exact List.mem_cons_of_mem _ (ih h)

theorem getL_of_mem {k : κ} {v : α} {l : List (κ × α)} (hnd : (l.map Prod.fst).Nodup)
    (h : (k, v) ∈ l) : getL k l = some v := by
  induction l with
  | nil => simp at h
  | cons p l ih =>
      rw [List.map_cons, List.nodup_cons] at hnd
      rcases List.mem_cons.1 h with rfl | hl
      · simp [getL]
      · have hk : k ∈ l.map Prod.fst := List.mem_map.2 ⟨(k, v), hl, rfl⟩
        have hp : p.1 ≠ k := fun hc => hnd.1 (hc ▸ hk)
        rw [getL, if_neg hp, ih hnd.2 hl]

theorem getL_setL (k k' : κ) (v : α) (l : List (κ × α)) :
    getL k' (setL k v l) = if k = k' then some v else getL k' l := by
  induction l with
  | nil => simp [setL, getL]
  | cons p l ih =>
      by_cases hp : p.1 = k
      · rw [setL, if_pos hp]
        subst hp
        by_cases hk : p.1 = k' <;> simp [getL, hk]
      · rw [setL, if_neg hp, getL, ih, getL]
        by_cases hk : p.1 = k'
        · have hne : k ≠ k' := fun hc => hp (hk.trans hc.symm)
          simp [hk, hne]
        · simp [hk]

theorem getL_deleteL (k k' : κ) (l : List (κ × α)) :
    getL k' (deleteL k l) = if k = k' then none else getL k' l := by
  induction l with
  | nil => simp [deleteL, getL]
  | cons p l ih =>
      by_cases hp : p.1 = k
      · rw [deleteL, List.filter_cons_of_neg (by simp [hp]), ← deleteL, ih, getL]
        by_cases hk : k = k'
        · simp [hk]
        · rw [if_neg hk, if_neg hk, if_neg (fun hc => hk (hp.symm.trans hc))]
      · rw [deleteL, List.filter_cons_of_pos (by simp [hp]), ← deleteL, getL, ih, getL]
        by_cases hk : p.1 = k'
        · have hne : k ≠ k' := fun hc => hp (hk.trans hc.symm)
          simp [hk, hne]
        · simp [hk]

/-- The keys after a `set`: the same if the key was there, one more otherwise. -/
theorem keys_setL (k : κ) (v : α) (l : List (κ × α)) :
    (setL k v l).map Prod.fst =
      if k ∈ l.map Prod.fst then l.map Prod.fst else l.map Prod.fst ++ [k] := by
  induction l with
  | nil => simp [setL]
  | cons p l ih =>
      by_cases hp : p.1 = k
      · simp [setL, hp]
      · rw [setL, if_neg hp, List.map_cons, ih, List.map_cons]
        by_cases hk : k ∈ l.map Prod.fst
        · rw [if_pos hk, if_pos (List.mem_cons_of_mem _ hk)]
        · rw [if_neg hk, if_neg (by simpa [not_or, Ne.symm hp] using hk)]
          rfl

/-! ## The map -/

/-- The map with no pairs. -/
def empty : OrdMap κ α := ⟨[], List.nodup_nil⟩

/-- The value stored under a key. -/
def get (m : OrdMap κ α) (k : κ) : Option α := getL k m.entries

/-- The keys, oldest first. -/
def keys (m : OrdMap κ α) : List κ := m.entries.map Prod.fst

/-- Store a value: in place for a key that is there, at the end for a new one. -/
def set (m : OrdMap κ α) (k : κ) (v : α) : OrdMap κ α where
  entries := setL k v m.entries
  nodup := by
    rw [keys_setL]
    by_cases h : k ∈ m.entries.map Prod.fst
    · rw [if_pos h]; exact m.nodup
    · rw [if_neg h, List.nodup_append]
      exact ⟨m.nodup, List.nodup_singleton k, fun a ha b hb hab =>
        h (by rw [List.mem_singleton] at hb; exact hb ▸ hab ▸ ha)⟩

/-- Remove a key and its value. -/
def delete (m : OrdMap κ α) (k : κ) : OrdMap κ α where
  entries := deleteL k m.entries
  nodup := m.nodup.sublist (List.filter_sublist.map _)

@[simp] theorem get_empty (k : κ) : (empty : OrdMap κ α).get k = none := rfl

/-- What a lookup sees after a `set`. -/
theorem get_set (m : OrdMap κ α) (k k' : κ) (v : α) :
    (m.set k v).get k' = if k = k' then some v else m.get k' :=
  getL_setL k k' v m.entries

@[simp] theorem get_set_self (m : OrdMap κ α) (k : κ) (v : α) : (m.set k v).get k = some v := by
  rw [get_set, if_pos rfl]

theorem get_set_of_ne {m : OrdMap κ α} {k k' : κ} {v : α} (h : k ≠ k') :
    (m.set k v).get k' = m.get k' := by
  rw [get_set, if_neg h]

/-- What a lookup sees after a `delete`. -/
theorem get_delete (m : OrdMap κ α) (k k' : κ) :
    (m.delete k).get k' = if k = k' then none else m.get k' :=
  getL_deleteL k k' m.entries

@[simp] theorem get_delete_self (m : OrdMap κ α) (k : κ) : (m.delete k).get k = none := by
  rw [get_delete, if_pos rfl]

theorem get_delete_of_ne {m : OrdMap κ α} {k k' : κ} (h : k ≠ k') :
    (m.delete k).get k' = m.get k' := by
  rw [get_delete, if_neg h]

/-- The keys are those at which a value is stored. -/
theorem mem_keys_iff {m : OrdMap κ α} {k : κ} : k ∈ m.keys ↔ ∃ v, m.get k = some v := by
  rw [keys, ← Option.isSome_iff_exists, ← not_iff_not, Option.not_isSome_iff_eq_none, get,
    getL_eq_none_iff]

/-- The pairs are the keys with what is stored at them. -/
theorem mem_entries_iff {m : OrdMap κ α} {k : κ} {v : α} :
    (k, v) ∈ m.entries ↔ m.get k = some v :=
  ⟨getL_of_mem m.nodup, mem_of_getL⟩

theorem mem_keys_set {m : OrdMap κ α} {k k' : κ} {v : α} :
    k' ∈ (m.set k v).keys ↔ k' = k ∨ k' ∈ m.keys := by
  rw [mem_keys_iff, get_set, mem_keys_iff]
  by_cases h : k = k'
  · simp [h]
  · simp [h, Ne.symm h]

theorem mem_of_mem_keys_delete {m : OrdMap κ α} {k k' : κ} (h : k' ∈ (m.delete k).keys) :
    k' ∈ m.keys := by
  obtain ⟨v, hv⟩ := mem_keys_iff.1 h
  rw [get_delete] at hv
  split at hv
  · exact absurd hv (by simp)
  · exact mem_keys_iff.2 ⟨v, hv⟩

/-! ## What keys stand for -/

/-- No two keys stand for the same thing; a key that stands for nothing does not count. -/
def DistinctBy {β : Type} (f : κ → Option β) (m : OrdMap κ α) : Prop :=
  ∀ x y b, x ∈ m.keys → y ∈ m.keys → f x = some b → f y = some b → x = y

variable {β : Type} {f : κ → Option β} {m m' : OrdMap κ α}

omit [DecidableEq κ] in
theorem DistinctBy.mono (h : m.DistinctBy f) (hsub : ∀ x ∈ m'.keys, x ∈ m.keys) :
    m'.DistinctBy f := fun x y b hx hy => h x y b (hsub x hx) (hsub y hy)

omit [DecidableEq κ] in
/-- **A key may be added** if no other one stands for the same thing. -/
theorem distinctBy_insert_iff (h : m.DistinctBy f) {k : κ}
    (hkeys : ∀ x, x ∈ m'.keys ↔ x = k ∨ x ∈ m.keys) :
    m'.DistinctBy f ↔ ∀ y b, y ∈ m.keys → f k = some b → f y = some b → k = y := by
  constructor
  · intro h' y b hy hk hb
    exact h' k y b ((hkeys k).2 (.inl rfl)) ((hkeys y).2 (.inr hy)) hk hb
  · intro hnew x y b hx hy hbx hby
    rcases (hkeys x).1 hx with rfl | hx
    · rcases (hkeys y).1 hy with rfl | hy
      · rfl
      · exact hnew y b hy hbx hby
    · rcases (hkeys y).1 hy with rfl | hy
      · exact (hnew x b hx hby hbx).symm
      · exact h x y b hx hy hbx hby

end OrdMap
