/-!
# Access modes

How much of the host the tools may touch.
-/

namespace FolkAround

inductive AccessMode where
  | full
  | limited
  | sandbox
  deriving DecidableEq, Repr

namespace AccessMode

def parse (value : String) : Option AccessMode :=
  if value = "full" then some full
  else if value = "limited" then some limited
  else if value = "sandbox" then some sandbox
  else none

def asStr : AccessMode → String
  | full => "full"
  | limited => "limited"
  | sandbox => "sandbox"

/-- A mode is read back from its name. -/
theorem parse_asStr (mode : AccessMode) : parse mode.asStr = some mode := by
  cases mode with
  | full => rfl
  | limited => rfl
  | sandbox => rfl

/-- Only its name is read as a mode. -/
theorem parse_eq_some_iff {value : String} {mode : AccessMode} :
    parse value = some mode ↔ value = mode.asStr := by
  constructor
  · intro h
    unfold parse at h
    split at h
    · next hvalue => rw [hvalue, ← Option.some.inj h, asStr]
    · split at h
      · next hvalue => rw [hvalue, ← Option.some.inj h, asStr]
      · split at h
        · next hvalue => rw [hvalue, ← Option.some.inj h, asStr]
        · exact absurd h (by simp)
  · rintro rfl
    exact parse_asStr mode

end AccessMode

end FolkAround
