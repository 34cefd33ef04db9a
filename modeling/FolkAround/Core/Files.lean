import Mathlib.Logic.Function.Basic
import FolkAround.Lib.Text
import FolkAround.Lib.Utf8
import FolkAround.Lib.Worlds

/-!
# Files of one's own

What the program keeps in its owner's home, as effects on files.

* `Op`, `Answer` — the calls of the operating system.  An interrupted call is made
  again by the standard library, and does not show.
* `Disk`, `answers` — the files, and how a call may be answered: it may fail, and a read
  or a write may do less than it was asked to.
* `Succeeds` — the answers of calls that did not fail.
* `Files`, `FilesExec` — programs with these calls; in `FilesExec` they may fail.
-/

namespace FolkAround

inductive ConfigError where
  | homeMissing
  | io
  | invalidHttpBearer
  | privatePermissionsUnavailable
  deriving DecidableEq

/-- `PathBuf::join` with a relative path. -/
def joinPath (base path : String) : String :=
  if base = "" then path
  else if base.toList.getLast? = some '/' then base ++ path
  else base ++ "/" ++ path

/-- A byte as two hexadecimal digits. -/
def hexByte (byte : UInt8) : List Char :=
  [Nat.digitChar (byte.toNat / 16), Nat.digitChar (byte.toNat % 16)]

namespace Core

abbrev Bytes := List UInt8

/-! ## Calls -/

inductive IoError where
  | notFound
  | alreadyExists
  | other
  deriving DecidableEq

structure Metadata where
  isFile : Bool
  len : Nat

inductive Op where
  /-- A variable of the environment. -/
  | var (name : String)
  | createDirAll (path : String)
  | setPermissions (path : String) (mode : Nat)
  /-- All of a file, as text. -/
  | readToString (path : String)
  /-- A file with these contents, whether it was there or not. -/
  | writeFile (path contents : String)
  /-- Create a file that is not there yet, and open it for writing. -/
  | openNew (path : String) (mode : Nat)
  /-- One write at the end of an open file; the answer says how many bytes it took. -/
  | write (path : String) (bytes : Bytes)
  | syncAll (path : String)
  | openFile (path : String)
  /-- One read of an open file, of so many bytes at most. -/
  | read (path : String) (offset limit : Nat)
  | symlinkMetadata (path : String)
  /-- Random bytes. -/
  | random (count : Nat)

def Answer : Op → Type
  | .var _ => Option String
  | .readToString _ => Except IoError String
  | .write .. => Except IoError Nat
  | .read .. => Except IoError Bytes
  | .symlinkMetadata _ => Except IoError Metadata
  | .random count => Fin count → UInt8
  | _ => Except IoError Unit

/-! ## The disk -/

/-- What is found under a path; a link or a directory is no regular file. -/
structure Entry where
  regular : Bool
  contents : Bytes
  deriving DecidableEq

abbrev Disk := String → Option Entry

/-- How a call may be answered, and the disk after it. -/
def answers (home : Option String) (disk : Disk) : (op : Op) → Answer op → Disk → Prop
  | .var name, value, disk' => disk' = disk ∧ (name = "HOME" → value = home)
  | .readToString path, result, disk' =>
    disk' = disk ∧
      match (result : Except IoError String) with
      | .ok text => ∃ entry, disk path = some entry ∧ entry.contents = Utf8.encode text.toList
      | .error .notFound => disk path = none
      | .error _ => True
  | .writeFile path contents, result, disk' =>
    match (result : Except IoError Unit) with
    | .ok () => ∃ regular,
        disk' = Function.update disk path (some ⟨regular, Utf8.encode contents.toList⟩)
    -- the file may have been emptied and part of the text written
    | .error _ => disk' = disk ∨ ∃ entry, disk' = Function.update disk path (some entry)
  | .openNew path _, result, disk' =>
    match (result : Except IoError Unit) with
    | .ok () => disk path = none ∧ disk' = Function.update disk path (some ⟨true, []⟩)
    | .error .alreadyExists => disk path ≠ none ∧ disk' = disk
    | .error _ => disk' = disk
  | .write path bytes, result, disk' =>
    match (result : Except IoError Nat) with
    | .ok count => ∃ entry, disk path = some entry ∧ count ≤ bytes.length ∧
        disk' = Function.update disk path
          (some { entry with contents := entry.contents ++ bytes.take count })
    | .error _ => disk' = disk
  | .read path offset limit, result, disk' =>
    disk' = disk ∧
      match (result : Except IoError Bytes) with
      | .ok bytes => ∃ entry, disk path = some entry ∧
          bytes <+: (entry.contents.drop offset).take limit ∧
          (bytes = [] → (entry.contents.drop offset).take limit = [])
      | .error _ => True
  | .symlinkMetadata path, result, disk' =>
    disk' = disk ∧
      match (result : Except IoError Metadata) with
      | .ok metadata => ∃ entry, disk path = some entry ∧ metadata.isFile = entry.regular ∧
          (entry.regular = true → metadata.len = entry.contents.length)
      | .error _ => True
  | .createDirAll _, _, disk' => disk' = disk
  | .setPermissions .., _, disk' => disk' = disk
  | .syncAll _, _, disk' => disk' = disk
  | .openFile _, _, disk' => disk' = disk
  | .random _, _, disk' => disk' = disk

/-- The call did not fail.  That a file is there already, or is not there at all, is no
failure of the call that finds out; a write takes at least one byte. -/
def Succeeds : (op : Op) → Answer op → Prop
  | .var _, _ => True
  | .readToString _, result => (result : Except IoError String).isOk ∨
      result = Except.error IoError.notFound
  | .openNew .., result => (result : Except IoError Unit).isOk ∨
      result = Except.error IoError.alreadyExists
  | .write _ bytes, result => ∃ count, result = Except.ok count ∧ (bytes ≠ [] → 0 < count)
  | .read .., result => (result : Except IoError Bytes).isOk
  | .symlinkMetadata _, result => (result : Except IoError Metadata).isOk
  | .random _, _ => True
  | .writeFile .., result => (result : Except IoError Unit).isOk
  | .createDirAll _, result => (result : Except IoError Unit).isOk
  | .setPermissions .., result => (result : Except IoError Unit).isOk
  | .syncAll _, result => (result : Except IoError Unit).isOk
  | .openFile _, result => (result : Except IoError Unit).isOk

/-- The world in which no call fails. -/
def working (home : Option String) : Effects.World Op Answer Disk :=
  Effects.World.restrict (answers home) Succeeds

/-! ## Programs -/

abbrev Files := Effects.Prog Op Answer

abbrev FilesExec := ExceptT ConfigError Files

def perform (op : Op) : Files (Answer op) := Effects.Prog.effect op

/-- A call whose failure is one of the configuration. -/
def call {α : Type} (x : Files (Except IoError α)) : FilesExec α := do
  let answer : Except IoError α ← ExceptT.lift x
  match answer with
  | .ok value => pure value
  | .error _ => throw .io

section

open Effects Effects.World

variable {S : Type} {W : World Op Answer S} {α : Type}

theorem finishes_call_ok_iff {x : Files (Except IoError α)} {value : α} {s s' : S} :
    Finishes W (call x).run s (.ok value) s' ↔ Finishes W x s (.ok value) s' := by
  rw [call, finishes_except_bind_iff]
  constructor
  · rintro (⟨answer, s₁, hx, h⟩ | ⟨err, -, herr⟩)
    · obtain ⟨answer', hx, ha⟩ := finishes_except_lift_iff.1 hx
      cases Except.ok.inj ha
      cases answer with
      | ok v =>
          obtain ⟨hv, rfl⟩ := finishes_except_pure_iff.1 h
          rwa [Except.ok.inj hv]
      | error err =>
          obtain ⟨herr, -⟩ := finishes_throw_iff.1 h
          exact absurd herr (by simp)
    · exact absurd herr (by simp)
  · intro hx
    exact .inl ⟨_, s', finishes_except_lift_iff.2 ⟨_, hx, rfl⟩, finishes_except_pure_iff.2 ⟨rfl, rfl⟩⟩

/-- A call fails as one of the configuration. -/
theorem finishes_call_error {x : Files (Except IoError α)} {err : ConfigError} {s s' : S}
    (h : Finishes W (call x).run s (.error err) s') : ∃ e, Finishes W x s (.error e) s' := by
  rw [call, finishes_except_bind_iff] at h
  rcases h with ⟨answer, s₁, hx, h⟩ | ⟨err', hx, -⟩
  · obtain ⟨answer', hx, ha⟩ := finishes_except_lift_iff.1 hx
    cases Except.ok.inj ha
    cases answer with
    | ok v =>
        obtain ⟨hv, -⟩ := finishes_except_pure_iff.1 h
        exact absurd hv (by simp)
    | error e =>
        obtain ⟨-, rfl⟩ := finishes_throw_iff.1 h
        exact ⟨e, hx⟩
  · obtain ⟨_, -, ha⟩ := finishes_except_lift_iff.1 hx
    exact absurd ha (by simp)

theorem finishes_call_of_error {x : Files (Except IoError α)} {e : IoError} {s s' : S}
    (h : Finishes W x s (.error e) s') : Finishes W (call x).run s (.error .io) s' := by
  rw [call, finishes_except_bind_iff]
  exact .inl ⟨_, s', finishes_except_lift_iff.2 ⟨_, h, rfl⟩, finishes_throw_iff.2 ⟨rfl, rfl⟩⟩

/-- A call that always succeeds. -/
theorem finishes_call_iff {x : Files (Except IoError α)} {P : S → α → S → Prop}
    (hx : ∀ s a s', Finishes W x s a s' ↔ ∃ value, a = .ok value ∧ P s value s')
    {result : Except ConfigError α} {s s' : S} :
    Finishes W (call x).run s result s' ↔ ∃ value, result = .ok value ∧ P s value s' := by
  cases result with
  | ok value =>
      rw [finishes_call_ok_iff, hx]
      simp
  | error err =>
      constructor
      · intro h
        obtain ⟨e, he⟩ := finishes_call_error h
        obtain ⟨_, he, -⟩ := (hx ..).1 he
        exact absurd he (by simp)
      · rintro ⟨_, herr, -⟩
        exact absurd herr (by simp)

end

/-! ## Calls that leave the disk alone -/

section

open Effects Effects.World

variable {home : Option String} {disk disk' : Disk} {result : Except ConfigError Unit}

theorem isOk_iff {α : Type} {a : Except IoError α} : a.isOk = true ↔ ∃ value, a = .ok value := by
  cases a with
  | ok value => simp [Except.isOk, Except.toBool]
  | error err => simp [Except.isOk, Except.toBool]

/-- Without failures such a call does nothing. -/
theorem finishes_quiet_iff {x : Files (Except IoError Unit)}
    (hx : ∀ s a s', Finishes (working home) x s a s' ↔ s' = s ∧ a.isOk = true) :
    Finishes (working home) (call x).run disk result disk' ↔ result = .ok () ∧ disk' = disk := by
  have hvalue : ∀ s a s', Finishes (working home) x s a s' ↔ ∃ value, a = .ok value ∧ s' = s := by
    intro s a s'
    rw [hx, isOk_iff, and_comm, exists_and_right]
  rw [finishes_call_iff hvalue]
  constructor
  · rintro ⟨_, h⟩
    exact h
  · exact fun h => ⟨(), h⟩

theorem createDirAll_working {path : String} :
    Finishes (working home) (call (perform (.createDirAll path))).run disk result disk' ↔
      result = .ok () ∧ disk' = disk := finishes_quiet_iff fun _ _ _ => finishes_effect_iff

theorem setPermissions_working {path : String} {mode : Nat} :
    Finishes (working home) (call (perform (.setPermissions path mode))).run disk result disk' ↔
      result = .ok () ∧ disk' = disk := finishes_quiet_iff fun _ _ _ => finishes_effect_iff

theorem syncAll_working {path : String} :
    Finishes (working home) (call (perform (.syncAll path))).run disk result disk' ↔
      result = .ok () ∧ disk' = disk := finishes_quiet_iff fun _ _ _ => finishes_effect_iff

theorem openFile_working {path : String} :
    Finishes (working home) (call (perform (.openFile path))).run disk result disk' ↔
      result = .ok () ∧ disk' = disk := finishes_quiet_iff fun _ _ _ => finishes_effect_iff

end

end Core
end FolkAround
