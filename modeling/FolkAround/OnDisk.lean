import FolkAround.Core.Bearer
import FolkAround.Lib.Lifetimes
import FolkAround.Main

/-!
# The effects of the daemon on the disk

The daemon keeps two files in its home, the settings and the token of the endpoint.

* `pairingCode` — the code that is drawn for a room.
* `Spares` — the calls that do not write to a path; the token has a file of its own
  (`spares_loadOrCreate`).
* `onDisk` — what the effects of the daemon do to the files.
* `Holds` — the file holds the settings: what is loaded (`loaded_of_holds`), and what was
  saved (`holds_of_saved`).
-/

namespace FolkAround
namespace Daemon

open Effects Effects.World
open FolkAround.Core (AppConfig Disk Op answers configPathIn configText parseConfig)

/-! ## Pairing codes -/

/-- `generate_pairing_code`, for the number that was drawn: 16 hexadecimal digits. -/
def pairingCode (n : UInt64) : String :=
  String.ofList ((List.range 16).reverse.map fun k => Nat.digitChar (n.toNat / 16 ^ k % 16))

theorem plain_pairingCode (n : UInt64) : Core.Plain (pairingCode n).toList := by
  have hdigit : ∀ m < 16, Text.isWhitespace (Nat.digitChar m) = false := by decide
  have hplain : ∀ d ∈ (pairingCode n).toList, Text.isWhitespace d = false := by
    intro d hd
    rw [pairingCode, String.toList_ofList, List.mem_map] at hd
    obtain ⟨k, -, rfl⟩ := hd
    exact hdigit _ (Nat.mod_lt _ (by decide))
  refine ⟨?_, ?_, Text.trim_of_plain hplain⟩
  · rw [pairingCode, String.toList_ofList]
    simp
  · intro h
    exact absurd (hplain _ h) (by decide)

/-! ## The file of the settings -/

/-- The call does not write to the path. -/
def Spares (path : String) : Op → Prop
  | .writeFile p _ => p ≠ path
  | .openNew p _ => p ≠ path
  | .write p _ => p ≠ path
  | _ => True

theorem answers_spares {home : Option String} {path : String} (disk : Disk) (op : Op)
    (r : Core.Answer op) (disk' : Disk) (hop : Spares path op) (h : answers home disk op r disk') :
    disk' path = disk path := by
  cases op with
  | writeFile p contents =>
      cases r with
      | ok value =>
          obtain ⟨regular, rfl⟩ := h
          exact Function.update_of_ne (Ne.symm hop) ..
      | error err =>
          rcases h with rfl | ⟨entry, rfl⟩
          · rfl
          · exact Function.update_of_ne (Ne.symm hop) ..
  | openNew p mode =>
      cases r with
      | ok value =>
          obtain ⟨-, rfl⟩ := h
          exact Function.update_of_ne (Ne.symm hop) ..
      | error err =>
          cases err with
          | alreadyExists => rw [h.2]
          | _ => rw [show disk' = disk from h]
  | write p bytes =>
      cases r with
      | ok count =>
          obtain ⟨entry, -, -, rfl⟩ := h
          exact Function.update_of_ne (Ne.symm hop) ..
      | error err => rw [show disk' = disk from h]
  | var name => rw [h.1]
  | readToString p => rw [h.1]
  | read p offset limit => rw [h.1]
  | symlinkMetadata p => rw [h.1]
  | createDirAll p => rw [show disk' = disk from h]
  | setPermissions p mode => rw [show disk' = disk from h]
  | syncAll p => rw [show disk' = disk from h]
  | openFile p => rw [show disk' = disk from h]
  | random count => rw [show disk' = disk from h]

/-! ## What the token is kept in -/

section

open FolkAround.Core (Files FilesExec IoError)

variable {path : String} {α : Type}

theorem spares_op {op : Op} (h : Spares path op) : (Core.perform op).Within (Spares path) :=
  ⟨h, fun _ => trivial⟩

theorem spares_lift {x : Files α} (hx : x.Within (Spares path)) :
    (ExceptT.lift x : FilesExec α).run.Within (Spares path) :=
  Prog.within_bind hx fun _ => trivial

theorem spares_call {x : Files (Except IoError α)} (hx : x.Within (Spares path)) :
    (Core.call x).run.Within (Spares path) := by
  refine Prog.within_except_bind (spares_lift hx) fun answer => ?_
  cases answer with
  | ok value => trivial
  | error err => trivial

theorem spares_configDir : Core.configDir.run.Within (Spares path) := by
  refine Prog.within_except_bind (spares_lift (spares_op trivial)) fun home => ?_
  cases home with
  | none => trivial
  | some home => trivial

theorem spares_loadConfig : Core.loadConfig.run.Within (Spares path) := by
  refine Prog.within_except_bind (Prog.within_except_bind spares_configDir fun _ => trivial)
    fun file => Prog.within_except_bind (spares_lift (spares_op trivial)) fun contents => ?_
  cases contents with
  | ok text => trivial
  | error err =>
      cases err with
      | notFound => trivial
      | _ => trivial

theorem spares_restrictFilePermissions (unix : Bool) (file : String) :
    (Core.restrictFilePermissions unix file).run.Within (Spares path) := by
  cases unix with
  | true => exact spares_call (spares_op trivial)
  | false => trivial

theorem spares_ensurePrivateDir (unix : Bool) (dir : String) :
    (Core.ensurePrivateDir unix dir).run.Within (Spares path) := by
  refine Prog.within_except_bind (spares_call (spares_op trivial)) fun _ => ?_
  cases unix with
  | true => exact spares_call (spares_op trivial)
  | false => trivial

theorem spares_syncDir (dir : String) : (Core.syncDir dir).run.Within (Spares path) :=
  Prog.within_except_bind (spares_call (spares_op trivial)) fun _ => spares_call (spares_op trivial)

theorem spares_writeAll {file : String} (hfile : file ≠ path) (bytes : Core.Bytes) :
    (Core.writeAll file bytes).run.Within (Spares path) := by
  induction hlen : bytes.length using Nat.strong_induction_on generalizing bytes with
  | _ n ih =>
      rw [Core.writeAll]
      split
      · trivial
      · rename_i hbytes
        refine Prog.within_except_bind (spares_call (spares_op hfile)) fun count => ?_
        split
        · trivial
        · rename_i hcount
          have hpos : 0 < bytes.length := List.length_pos_iff.2 hbytes
          refine ih _ ?_ (bytes.drop count) rfl
          rw [List.length_drop]
          omega

theorem spares_readToEnd (file : String) (sofar : Core.Bytes) (limit : Nat) :
    (Core.readToEnd file sofar limit).run.Within (Spares path) := by
  induction limit using Nat.strong_induction_on generalizing sofar with
  | _ limit ih =>
      rw [Core.readToEnd]
      split
      · trivial
      · rename_i hlimit
        refine Prog.within_except_bind (spares_call (spares_op trivial)) fun bytes => ?_
        split
        · trivial
        · rename_i hbytes
          have hpos : 0 < bytes.length := List.length_pos_iff.2 hbytes
          exact ih _ (by omega) _

theorem spares_readText (file : String) (limit : Nat) :
    (Core.readText file limit).run.Within (Spares path) := by
  refine Prog.within_except_bind (spares_readToEnd file [] limit) fun bytes => ?_
  split
  · trivial
  · trivial

variable {dir : String}

theorem spares_createHttpBearer (hdir : Core.tokenPathIn dir ≠ path) :
    (Core.createHttpBearer dir).run.Within (Spares path) := by
  refine Prog.within_except_bind (spares_lift ?_) fun token => ?_
  · exact Prog.within_bind (spares_op trivial) fun _ => trivial
  refine Prog.within_except_bind (spares_writeAll hdir _) fun _ => ?_
  refine Prog.within_except_bind (spares_call (spares_op trivial)) fun _ => ?_
  exact Prog.within_except_bind (spares_syncDir dir) fun _ => trivial

theorem spares_loadHttpBearer (unix : Bool) : (Core.loadHttpBearer unix dir).run.Within (Spares path) := by
  refine Prog.within_except_bind (spares_call (spares_op trivial)) fun metadata => ?_
  split
  · trivial
  · refine Prog.within_except_bind (spares_restrictFilePermissions unix _) fun _ => ?_
    refine Prog.within_except_bind (spares_call (spares_op trivial)) fun _ => ?_
    refine Prog.within_except_bind (spares_readText _ _) fun token => ?_
    split
    · trivial
    · trivial

/-- The token has a file of its own. -/
theorem spares_loadOrCreate (hdir : ∀ dir, Core.tokenPathIn dir ≠ path) (unix : Bool) :
    (Core.loadOrCreateHttpBearer unix).run.Within (Spares path) := by
  unfold Core.loadOrCreateHttpBearer
  split
  · refine Prog.within_except_bind spares_configDir fun dir => ?_
    refine Prog.within_except_bind (spares_ensurePrivateDir unix dir) fun _ => ?_
    refine Prog.within_except_bind (spares_lift (spares_op (hdir dir))) fun opened => ?_
    cases opened with
    | ok value => exact spares_createHttpBearer (hdir dir)
    | error err =>
        cases err with
        | alreadyExists => exact spares_loadHttpBearer unix
        | _ => trivial
  · trivial

end

theorem getLast?_joinPath (base path : String) (hpath : path.toList ≠ []) :
    (joinPath base path).toList.getLast? = path.toList.getLast? := by
  have happend : ∀ s : String, (s ++ path).toList.getLast? = path.toList.getLast? := by
    intro s
    rw [String.toList_append, List.getLast?_append]
    obtain ⟨d, hd⟩ := List.getLast?_isSome.2 hpath |> Option.isSome_iff_exists.1
    rw [hd]
    rfl
  unfold joinPath
  split
  · rfl
  · split
    · exact happend base
    · exact happend (base ++ "/")

theorem tokenPathIn_ne (dir home : String) : Core.tokenPathIn dir ≠ configPathIn home := by
  intro h
  have hlast := congrArg (fun s : String => s.toList.getLast?) h
  simp only [Core.tokenPathIn, configPathIn] at hlast
  rw [getLast?_joinPath _ _ (by decide), getLast?_joinPath _ _ (by decide)] at hlast
  exact absurd hlast (by decide)

/-! ## The effects of the daemon on the disk -/

/-- The configuration and the token are kept as `Core` does it.  Whoever is served may change
any file but the one with the settings.  An effect in the middle of which the daemon is stopped
counts as one that has failed.  So does a save: `fs::write` empties the file before it fills it,
and what is left of a save that was cut short may be anything. -/
def onDisk (home : Option String) (unix : Bool) : World Effect Answer Disk :=
  fun disk e => match e with
  | .loadConfig => fun r disk' => Finishes (answers home) Core.loadConfig.run disk r disk'
  | .saveConfig config => fun r disk' =>
    Finishes (answers home) (Core.saveConfig unix config).run disk r disk'
  | .loadOrCreateHttpBearer => fun r disk' =>
    Finishes (answers home) (Core.loadOrCreateHttpBearer unix).run disk r disk'
  | .generatePairingCode => fun code disk' => disk' = disk ∧ ∃ n, code = pairingCode n
  | .printHelp | .printVersion | .logStatus _ => fun _ disk' => disk' = disk
  | .startP2P .. | .runHttp .. | .runStdio .. => fun _ disk' =>
    ∀ path, home = some path → disk' (configPathIn path) = disk (configPathIn path)

variable {home : String} {unix : Bool} {disk disk' : Disk} {settings : AppConfig}

/-- Only saving changes the settings. -/
theorem onDisk_keeps (disk : Disk) (event : Exchange Effect Answer) (disk' : Disk)
    (hsave : ∀ config, event.op ≠ .saveConfig config)
    (h : onDisk (some home) unix disk event.op event.answer disk') :
    disk' (configPathIn home) = disk (configPathIn home) := by
  have hspared : ∀ {α : Type} {x : Core.Files α} {a : α}, x.Within (Spares (configPathIn home)) →
      Finishes (answers (some home)) x disk a disk' →
      disk' (configPathIn home) = disk (configPathIn home) :=
    fun hx h => finishes_keep (fun disk : Disk => disk (configPathIn home)) answers_spares hx h
  obtain ⟨e, r⟩ := event
  cases e with
  | loadConfig => exact hspared spares_loadConfig h
  | saveConfig config => exact absurd rfl (hsave config)
  | loadOrCreateHttpBearer =>
      exact hspared (spares_loadOrCreate (fun dir => tokenPathIn_ne dir home) unix) h
  | generatePairingCode => rw [h.1]
  | printHelp => rw [show disk' = disk from h]
  | printVersion => rw [show disk' = disk from h]
  | logStatus text => rw [show disk' = disk from h]
  | startP2P verbose mode url room => exact h home rfl
  | runHttp verbose mode port bearer => exact h home rfl
  | runStdio verbose mode => exact h home rfl

/-! ## What the file holds -/

/-- The file holds the settings; without a file they are the defaults. -/
def Holds (home : String) (disk : Disk) (settings : AppConfig) : Prop :=
  match disk (configPathIn home) with
  | none => settings = .default
  | some entry => ∃ text, entry.contents = Utf8.encode text ∧ parseConfig text = settings

theorem holds_none (hfile : disk (configPathIn home) = none) :
    Holds home disk settings ↔ settings = .default := by
  rw [Holds, hfile]

theorem holds_some {entry : Core.Entry} (hfile : disk (configPathIn home) = some entry) :
    Holds home disk settings ↔
      ∃ text, entry.contents = Utf8.encode text ∧ parseConfig text = settings := by
  rw [Holds, hfile]

theorem holds_congr (hsame : disk' (configPathIn home) = disk (configPathIn home)) :
    Holds home disk' settings ↔ Holds home disk settings := by
  rw [Holds, Holds, hsame]

/-- What was held is storable, whoever wrote the file. -/
theorem Holds.storable (h : Holds home disk settings) : Core.Storable settings := by
  cases hfile : disk (configPathIn home) with
  | none =>
      obtain rfl := (holds_none hfile).1 h
      exact ⟨fun _ hv => absurd hv (by simp [AppConfig.default]),
        fun _ hv => absurd hv (by simp [AppConfig.default]),
        fun _ hv => absurd hv (by simp [AppConfig.default])⟩
  | some entry =>
      obtain ⟨text, -, rfl⟩ := (holds_some hfile).1 h
      exact Core.storable_parseConfig text

/-- What is loaded is what the file holds. -/
theorem loaded_of_holds (h : Holds home disk settings) {config : AppConfig}
    (hload : Finishes (answers (some home)) Core.loadConfig.run disk (.ok config) disk') :
    config = settings := by
  obtain ⟨path, disk₁, hpath, hload⟩ := finishes_except_bind_ok_iff.1 hload
  obtain ⟨dir, disk₂, hdir, hpath⟩ := finishes_except_bind_ok_iff.1 hpath
  obtain ⟨rfl, home', hhome, rfl⟩ := Core.configDir_ok hdir
  obtain ⟨heq, rfl⟩ := finishes_except_pure_iff.1 hpath
  obtain rfl : path = configPathIn home := by
    rw [Except.ok.inj heq, Option.some.inj hhome]
    rfl
  obtain ⟨contents, disk₃, hread, hload⟩ := finishes_except_bind_ok_iff.1 hload
  obtain ⟨answer, hread, hanswer⟩ := finishes_except_lift_iff.1 hread
  cases Except.ok.inj hanswer
  obtain ⟨rfl, hread⟩ := finishes_effect_iff.1 hread
  cases contents with
  | ok contents =>
      obtain ⟨entry, hfile, hcontents⟩ := hread
      obtain ⟨text, htext, rfl⟩ := (holds_some hfile).1 h
      obtain ⟨heq, -⟩ := finishes_except_pure_iff.1 hload
      rw [Except.ok.inj heq, Utf8.encode_injective (hcontents.symm.trans htext)]
  | error err =>
      cases err with
      | notFound =>
          obtain ⟨heq, -⟩ := finishes_except_pure_iff.1 hload
          rw [(holds_none hread).1 h]
          exact Except.ok.inj heq
      | alreadyExists => exact absurd (finishes_throw_iff.1 hload).1 (by simp)
      | other => exact absurd (finishes_throw_iff.1 hload).1 (by simp)

/-- What was saved is held, if its texts are plain. -/
theorem holds_of_saved {config : AppConfig} (hconfig : Core.Storable config)
    (hsave : Finishes (answers (some home)) (Core.saveConfig unix config).run disk (.ok ()) disk') :
    Holds home disk' config := by
  obtain ⟨path, hpath, regular, hdisk⟩ := Core.saveConfig_ok hsave
  cases Option.some.inj hpath
  have hfile : disk' (configPathIn home) = some ⟨regular, Utf8.encode (configText config)⟩ := by
    rw [hdisk, Function.update_self]
  exact (holds_some hfile).2 ⟨_, rfl, Core.parseConfig_configText hconfig⟩

end Daemon
end FolkAround
