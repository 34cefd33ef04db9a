import Mathlib.Algebra.Group.Nat.Defs
import FolkAround.Core.Files

/-!
# The configuration file

The last signalling server, pairing code, port and mode are kept in a file, a line
`key=value` for each.

* `AppConfig`, `configText`, `parseConfig` — the settings, what is written and how it is
  read.
* `saveConfig`, `loadConfig` — the two functions on the disk.
* `Plain`, `Storable` — the values that survive: not empty, without a line end, and with
  no white space around them.  Every value that is read is one (`storable_parseConfig`),
  and every one is read back (`parseConfig_configText`).
* `config_round_trip_iff` — what was saved is loaded exactly if it is storable.
-/

namespace FolkAround
namespace Core

structure AppConfig where
  signalUrl : Option String
  room : Option String
  httpPort : Option UInt16
  mode : Option String
  deriving DecidableEq

/-- `AppConfig::default()` -/
def AppConfig.default : AppConfig := ⟨none, none, none, none⟩

/-! ## Paths and permissions -/

/-- The directory in a home. -/
def configDirIn (home : String) : String := joinPath (joinPath home ".config") "folk-around"

def configDir : FilesExec String := do
  let home : Option String ← ExceptT.lift (perform (.var "HOME"))
  match home with
  | none => throw .homeMissing
  | some home => pure (configDirIn home)

def configPath : FilesExec String := do
  let dir ← configDir
  pure (joinPath dir "config")

/-- Permissions are only set on Unix. -/
def ensurePrivateDir (unix : Bool) (path : String) : FilesExec Unit := do
  call (perform (.createDirAll path))
  if unix then call (perform (.setPermissions path 0o700)) else pure ()

def restrictFilePermissions (unix : Bool) (path : String) : FilesExec Unit :=
  if unix then call (perform (.setPermissions path 0o600)) else pure ()

/-! ## The text of the file -/

/-- The line of a setting, if it is there. -/
def settingText (key : String) : Option String → List Char
  | none => []
  | some value => key.toList ++ '=' :: value.toList ++ ['\n']

def configText (config : AppConfig) : List Char :=
  settingText "signal_url" config.signalUrl ++ settingText "room" config.room ++
    settingText "http_port"
      (config.httpPort.map fun port => String.ofList (Nat.toDigits 10 port.toNat)) ++
    settingText "mode" config.mode

/-- A setting that was read. -/
def setSetting (config : AppConfig) (key value : List Char) : AppConfig :=
  if key = "signal_url".toList then { config with signalUrl := some (String.ofList value) }
  else if key = "room".toList then { config with room := some (String.ofList value) }
  else if key = "http_port".toList then
    { config with httpPort := (Text.parseUnsigned (2 ^ 16) value).map UInt16.ofNat }
  else if key = "mode".toList then { config with mode := some (String.ofList value) }
  else config

/-- A line of the file; a line that is no setting, or sets nothing, is skipped. -/
def readSetting (config : AppConfig) (rawLine : List Char) : AppConfig :=
  let line := Text.trim rawLine
  if line = [] then config
  else
    match Text.splitOnce '=' line with
    | none => config
    | some (key, value) =>
      let value := Text.trim value
      if value = [] then config else setSetting config (Text.trim key) value

def parseConfig (contents : List Char) : AppConfig :=
  (Text.lines contents).foldl readSetting .default

/-! ## The two functions -/

def loadConfig : FilesExec AppConfig := do
  let path ← configPath
  let contents : Except IoError String ← ExceptT.lift (perform (.readToString path))
  match contents with
  | .ok contents => pure (parseConfig contents.toList)
  | .error .notFound => pure .default
  | .error _ => throw .io

def saveConfig (unix : Bool) (config : AppConfig) : FilesExec Unit := do
  let dir ← configDir
  ensurePrivateDir unix dir
  let path := joinPath dir "config"
  call (perform (.writeFile path (String.ofList (configText config))))
  restrictFilePermissions unix path

/-! ## Values that survive -/

/-- Not empty, on one line, and with no white space around it. -/
structure Plain (value : List Char) : Prop where
  nonempty : value ≠ []
  oneLine : '\n' ∉ value
  trimmed : Text.trim value = value

/-- All texts of the settings are plain. -/
structure Storable (config : AppConfig) : Prop where
  signalUrl : ∀ value, config.signalUrl = some value → Plain value.toList
  room : ∀ value, config.room = some value → Plain value.toList
  mode : ∀ value, config.mode = some value → Plain value.toList

theorem storable_setSetting {config : AppConfig} (h : Storable config) {value : List Char}
    (hvalue : Plain value) (key : List Char) : Storable (setSetting config key value) := by
  have hnew : ∀ v : String, some (String.ofList value) = some v → Plain v.toList := by
    intro v hv
    rw [← Option.some.inj hv, String.toList_ofList]
    exact hvalue
  unfold setSetting
  split
  · exact ⟨hnew, h.room, h.mode⟩
  · split
    · exact ⟨h.signalUrl, hnew, h.mode⟩
    · split
      · exact ⟨h.signalUrl, h.room, h.mode⟩
      · split
        · exact ⟨h.signalUrl, h.room, hnew⟩
        · exact h

theorem storable_readSetting {config : AppConfig} (h : Storable config) {rawLine : List Char}
    (hline : '\n' ∉ rawLine) : Storable (readSetting config rawLine) := by
  unfold readSetting
  simp only
  split
  · exact h
  · split
    · exact h
    · next key value hsplit =>
        split
        · exact h
        · next hvalue =>
            apply storable_setSetting h
            refine ⟨hvalue, ?_, Text.trim_trim value⟩
            intro hmem
            apply hline
            apply Text.mem_of_mem_trim
            rw [Text.splitOnce_eq_some hsplit]
            exact List.mem_append_right _ (List.mem_cons_of_mem _ (Text.mem_of_mem_trim hmem))

/-- **Every value that is read is plain**, whatever the file holds. -/
theorem storable_parseConfig (contents : List Char) : Storable (parseConfig contents) := by
  have hfold : ∀ (ls : List (List Char)) (config : AppConfig), (∀ l ∈ ls, '\n' ∉ l) →
      Storable config → Storable (ls.foldl readSetting config) := by
    intro ls
    induction ls with
    | nil => exact fun _ _ h => h
    | cons l ls ih =>
        intro config hls h
        apply ih _ fun l' hl' => hls l' (List.mem_cons_of_mem _ hl')
        exact storable_readSetting h (hls l (List.mem_cons_self ..))
  apply hfold
  · exact fun l hl => Text.newline_not_mem_lines hl
  · exact ⟨by simp [AppConfig.default], by simp [AppConfig.default], by simp [AppConfig.default]⟩

/-! ## Plain values are read back -/

theorem Plain.last {value : List Char} (h : Plain value) :
    ∃ l d, value = l ++ [d] ∧ Text.isWhitespace d = false := by
  rcases List.eq_nil_or_concat' value with hnil | ⟨l, d, hd⟩
  · exact absurd hnil h.nonempty
  · exact ⟨l, d, hd, Text.isWhitespace_getLast h.trimmed hd⟩

/-- A line of a plain key and a plain value is read as it was written. -/
theorem trim_setting {key value : List Char} (hkey : Plain key) (hvalue : Plain value) :
    Text.trim (key ++ '=' :: value) = key ++ '=' :: value := by
  obtain ⟨l, d, rfl, hd⟩ := hvalue.last
  cases hk : key with
  | nil => exact absurd hk hkey.nonempty
  | cons c m =>
      have hc : Text.isWhitespace c = false := Text.trim_head (hkey.trimmed.trans hk)
      exact Text.trim_eq_self rfl hc ⟨c :: m ++ '=' :: l, by simp⟩ hd

theorem lines_settingText {key : String} {value : String} (hkey : Plain key.toList)
    (hvalue : Plain value.toList) (rest : List Char) :
    Text.lines (settingText key (some value) ++ rest) =
      (key.toList ++ '=' :: value.toList) :: Text.lines rest := by
  have hone : '\n' ∉ key.toList ++ '=' :: value.toList := by
    intro hmem
    rcases List.mem_append.1 hmem with hmem | hmem
    · exact hkey.oneLine hmem
    · rcases List.mem_cons.1 hmem with hmem | hmem
      · exact absurd hmem (by decide)
      · exact hvalue.oneLine hmem
  obtain ⟨l, d, hl, hd⟩ := hvalue.last
  have hreturn : (key.toList ++ '=' :: value.toList).getLast? ≠ some '\r' := by
    rw [hl, ← List.cons_append, ← List.append_assoc, List.getLast?_concat]
    intro hd'
    rw [Option.some.inj hd'] at hd
    exact absurd hd (by decide)
  rw [settingText, List.append_assoc, List.singleton_append, Text.lines_cons hone,
    Text.stripLineEnd_newline, if_neg hreturn]

/-- A setting that was written is set when it is read. -/
theorem readSetting_setting {key value : List Char} (hkey : Plain key) (heq : '=' ∉ key)
    (hvalue : Plain value) (config : AppConfig) :
    readSetting config (key ++ '=' :: value) = setSetting config key value := by
  have hne : key ++ '=' :: value ≠ [] := by simp
  simp only [readSetting, trim_setting hkey hvalue, if_neg hne, Text.splitOnce_append heq,
    hvalue.trimmed, hkey.trimmed, if_neg hvalue.nonempty]

/-- Reading the line of a setting, if there is one. -/
theorem foldl_settingText {key : String} (hkey : Plain key.toList) (heq : '=' ∉ key.toList)
    {setting : Option String} (hsetting : ∀ value, setting = some value → Plain value.toList)
    (rest : List Char) (config : AppConfig) :
    (Text.lines (settingText key setting ++ rest)).foldl readSetting config =
      (Text.lines rest).foldl readSetting
        (setting.elim config fun value => setSetting config key.toList value.toList) := by
  cases setting with
  | none => rfl
  | some value =>
      have hvalue := hsetting value rfl
      rw [lines_settingText hkey hvalue, List.foldl_cons, readSetting_setting hkey heq hvalue]
      rfl

theorem plain_toDigits (n : Nat) : Plain (Nat.toDigits 10 n) := by
  have hdigit : ∀ c ∈ Nat.toDigits 10 n, c.isDigit = true := fun c hc =>
    Nat.isDigit_of_mem_toDigits (by decide) (by decide) hc
  have hspace : ∀ c ∈ Nat.toDigits 10 n, Text.isWhitespace c = false := fun c hc =>
    Text.isWhitespace_of_isDigit (hdigit c hc)
  refine ⟨Nat.toDigits_ne_nil, ?_, ?_⟩
  · intro hmem
    exact absurd (hspace _ hmem) (by decide)
  · rcases List.eq_nil_or_concat' (Nat.toDigits 10 n) with hnil | ⟨l, d, hd⟩
    · exact absurd hnil Nat.toDigits_ne_nil
    · cases hhead : Nat.toDigits 10 n with
      | nil => exact absurd hhead Nat.toDigits_ne_nil
      | cons c m =>
          rw [hhead] at hd hspace
          exact Text.trim_eq_self rfl (hspace c (List.mem_cons_self ..)) ⟨l, hd⟩
            (hspace d (by rw [hd]; simp))

theorem setSetting_room (config : AppConfig) (value : List Char) :
    setSetting config "room".toList value = { config with room := some (String.ofList value) } := by
  rw [setSetting, if_neg (by decide), if_pos rfl]

theorem setSetting_mode (config : AppConfig) (value : List Char) :
    setSetting config "mode".toList value = { config with mode := some (String.ofList value) } := by
  rw [setSetting, if_neg (by decide), if_neg (by decide), if_neg (by decide), if_pos rfl]

theorem setSetting_httpPort (config : AppConfig) (port : UInt16) :
    setSetting config "http_port".toList (String.ofList (Nat.toDigits 10 port.toNat)).toList =
      { config with httpPort := some port } := by
  have hdigits : (String.ofList (Nat.toDigits 10 port.toNat)).toList =
      Nat.toDigits 10 port.toNat := String.toList_ofList
  rw [hdigits, setSetting, if_neg (by decide), if_neg (by decide), if_pos rfl,
    Text.parseUnsigned_toDigits port.toNat_lt, Option.map_some, UInt16.ofNat_toNat]

/-- **Plain values are read back**, all four settings of them. -/
theorem parseConfig_configText {config : AppConfig} (h : Storable config) :
    parseConfig (configText config) = config := by
  have hport : ∀ value, (config.httpPort.map fun port => String.ofList (Nat.toDigits 10 port.toNat)) =
      some value → Plain value.toList := by
    intro value hvalue
    obtain ⟨port, -, rfl⟩ := Option.map_eq_some_iff.1 hvalue
    rw [String.toList_ofList]
    exact plain_toDigits _
  have hsignal : Plain "signal_url".toList := ⟨by decide, by decide, by decide +kernel⟩
  have hroom : Plain "room".toList := ⟨by decide, by decide, by decide +kernel⟩
  have hhttp : Plain "http_port".toList := ⟨by decide, by decide, by decide +kernel⟩
  have hmode : Plain "mode".toList := ⟨by decide, by decide, by decide +kernel⟩
  have hend := foldl_settingText hmode (by decide) h.mode []
  rw [List.append_nil] at hend
  rw [parseConfig, configText, List.append_assoc, List.append_assoc,
    foldl_settingText hsignal (by decide) h.signalUrl, foldl_settingText hroom (by decide) h.room,
    foldl_settingText hhttp (by decide) hport, hend]
  obtain ⟨signalUrl, room, httpPort, mode⟩ := config
  -- each setting was the default until its own line set it
  have h₁ : (signalUrl.elim AppConfig.default fun value =>
      setSetting .default "signal_url".toList value.toList) = ⟨signalUrl, none, none, none⟩ := by
    cases signalUrl with
    | none => rfl
    | some value => rw [Option.elim_some, setSetting, if_pos rfl, String.ofList_toList]; rfl
  have h₂ : (room.elim ⟨signalUrl, none, none, none⟩ fun value =>
      setSetting ⟨signalUrl, none, none, none⟩ "room".toList value.toList) =
      ⟨signalUrl, room, none, none⟩ := by
    cases room with
    | none => rfl
    | some value => rw [Option.elim_some, setSetting_room, String.ofList_toList]
  have h₃ : ((httpPort.map fun port => String.ofList (Nat.toDigits 10 port.toNat)).elim
      ⟨signalUrl, room, none, none⟩ fun value =>
        setSetting ⟨signalUrl, room, none, none⟩ "http_port".toList value.toList) =
      ⟨signalUrl, room, httpPort, none⟩ := by
    cases httpPort with
    | none => rfl
    | some port => rw [Option.map_some, Option.elim_some, setSetting_httpPort]
  have h₄ : (mode.elim ⟨signalUrl, room, httpPort, none⟩ fun value =>
      setSetting ⟨signalUrl, room, httpPort, none⟩ "mode".toList value.toList) =
      ⟨signalUrl, room, httpPort, mode⟩ := by
    cases mode with
    | none => rfl
    | some value => rw [Option.elim_some, setSetting_mode, String.ofList_toList]
  rw [h₁, h₂, h₃, h₄]
  rfl

/-! ## On the disk -/

open Effects Effects.World

/-- The directory that was found is the one in the home. -/
theorem configDir_ok {home : Option String} {disk disk' : Disk} {dir : String}
    (h : Finishes (answers home) configDir.run disk (.ok dir) disk') :
    disk' = disk ∧ ∃ path, home = some path ∧ dir = configDirIn path := by
  obtain ⟨value, _, hvar, h⟩ := finishes_except_bind_ok_iff.1 h
  obtain ⟨value', hvar, hvalue⟩ := finishes_except_lift_iff.1 hvar
  obtain ⟨rfl, hhome⟩ := finishes_effect_iff.1 hvar
  cases Except.ok.inj hvalue
  cases value with
  | none =>
      obtain ⟨herr, -⟩ := finishes_throw_iff.1 h
      exact absurd herr (by simp)
  | some path =>
      obtain ⟨hdir, rfl⟩ := finishes_except_pure_iff.1 h
      exact ⟨rfl, path, (hhome rfl).symm, Except.ok.inj hdir⟩

theorem restrictFilePermissions_ok {home : Option String} {unix : Bool} {path : String}
    {disk disk' : Disk}
    (h : Finishes (answers home) (restrictFilePermissions unix path).run disk (.ok ()) disk') :
    disk' = disk := by
  cases unix with
  | true => exact finishes_effect_iff.1 (finishes_call_ok_iff.1 h)
  | false => exact (finishes_except_pure_iff.1 h).2

theorem ensurePrivateDir_ok {home : Option String} {unix : Bool} {path : String}
    {disk disk' : Disk}
    (h : Finishes (answers home) (ensurePrivateDir unix path).run disk (.ok ()) disk') :
    disk' = disk := by
  obtain ⟨_, disk₁, hcreate, h⟩ := finishes_except_bind_ok_iff.1 h
  have hdisk : disk₁ = disk := finishes_effect_iff.1 (finishes_call_ok_iff.1 hcreate)
  rw [← hdisk]
  cases unix with
  | true => exact finishes_effect_iff.1 (finishes_call_ok_iff.1 h)
  | false => exact (finishes_except_pure_iff.1 h).2

/-- The path of the file in a home. -/
def configPathIn (home : String) : String := joinPath (configDirIn home) "config"

/-- A save that succeeds leaves the text of the settings in the file. -/
theorem saveConfig_ok {home : Option String} {unix : Bool} {config : AppConfig} {disk disk' : Disk}
    (h : Finishes (answers home) (saveConfig unix config).run disk (.ok ()) disk') :
    ∃ path, home = some path ∧ ∃ regular, disk' = Function.update disk (configPathIn path)
      (some ⟨regular, Utf8.encode (configText config)⟩) := by
  obtain ⟨dir, _, hdir, h⟩ := finishes_except_bind_ok_iff.1 h
  obtain ⟨rfl, path, hhome, rfl⟩ := configDir_ok hdir
  obtain ⟨_, _, hprivate, h⟩ := finishes_except_bind_ok_iff.1 h
  rw [ensurePrivateDir_ok hprivate] at h
  obtain ⟨_, _, hwrite, h⟩ := finishes_except_bind_ok_iff.1 h
  obtain ⟨regular, hdisk⟩ := finishes_effect_iff.1 (finishes_call_ok_iff.1 hwrite)
  rw [restrictFilePermissions_ok h]
  rw [String.toList_ofList] at hdisk
  exact ⟨path, hhome, regular, hdisk⟩

theorem configDir_working {home : String} (disk : Disk) (result : Except ConfigError String)
    (disk' : Disk) :
    Finishes (working (some home)) configDir.run disk result disk' ↔
      result = .ok (configDirIn home) ∧ disk' = disk := by
  have hvar : ∀ (s : Disk) (r : Except ConfigError (Option String)) (s' : Disk),
      Finishes (working (some home)) (ExceptT.lift (perform (.var "HOME")) :
        FilesExec (Option String)).run s r s' ↔ r = .ok (some home) ∧ s' = s := by
    intro s r s'
    refine Iff.trans finishes_except_lift_iff ?_
    constructor
    · rintro ⟨value, h, rfl⟩
      obtain ⟨⟨rfl, hhome⟩, -⟩ := finishes_effect_iff.1 h
      rw [hhome rfl]
      exact ⟨rfl, rfl⟩
    · rintro ⟨rfl, rfl⟩
      exact ⟨some home, finishes_effect_iff.2 ⟨⟨rfl, fun _ => rfl⟩, trivial⟩, rfl⟩
  exact (finishes_except_bind_of_eq (hvar disk)).trans finishes_except_pure_iff

theorem ensurePrivateDir_working {home : Option String} {unix : Bool} {path : String}
    (disk : Disk) (result : Except ConfigError Unit) (disk' : Disk) :
    Finishes (working home) (ensurePrivateDir unix path).run disk result disk' ↔
      result = .ok () ∧ disk' = disk := by
  refine (finishes_except_bind_of_eq fun _ _ => createDirAll_working).trans ?_
  cases unix with
  | true => exact setPermissions_working
  | false => exact finishes_except_pure_iff

theorem restrictFilePermissions_working {home : Option String} {unix : Bool} {path : String}
    (disk : Disk) (result : Except ConfigError Unit) (disk' : Disk) :
    Finishes (working home) (restrictFilePermissions unix path).run disk result disk' ↔
      result = .ok () ∧ disk' = disk := by
  cases unix with
  | true => exact setPermissions_working
  | false => exact finishes_except_pure_iff

/-- Loading a file of text, if no call fails. -/
theorem loadConfig_working {home : String} {disk : Disk} {entry : Entry} {text : List Char}
    (hfile : disk (configPathIn home) = some entry) (hentry : entry.contents = Utf8.encode text)
    (result : Except ConfigError AppConfig) (disk' : Disk) :
    Finishes (working (some home)) loadConfig.run disk result disk' ↔
      result = .ok (parseConfig text) ∧ disk' = disk := by
  have hpath : ∀ (s : Disk) (r : Except ConfigError String) (s' : Disk),
      Finishes (working (some home)) configPath.run s r s' ↔
        r = .ok (configPathIn home) ∧ s' = s := fun s r s' =>
    (finishes_except_bind_of_eq (configDir_working s)).trans finishes_except_pure_iff
  have hread : ∀ (a : Except IoError String) (s' : Disk),
      Finishes (working (some home)) (perform (.readToString (configPathIn home))) disk a s' ↔
        a = .ok (String.ofList text) ∧ s' = disk := by
    intro a s'
    refine Iff.trans finishes_effect_iff ?_
    constructor
    · rintro ⟨⟨rfl, hanswer⟩, hsucceeds⟩
      refine ⟨?_, rfl⟩
      cases a with
      | ok contents =>
          obtain ⟨entry', hfile', hcontents⟩ := hanswer
          obtain rfl : entry = entry' := Option.some.inj (hfile.symm.trans hfile')
          have htext : contents.toList = text := by
            apply Utf8.encode_injective
            rw [← hcontents, hentry]
          rw [← htext, String.ofList_toList]
      | error err =>
          -- the file is there, so that it cannot be missing
          rcases hsucceeds with hok | hmissing
          · exact absurd hok (by simp [Except.isOk, Except.toBool])
          · cases Except.error.inj hmissing
            rw [hfile] at hanswer
            exact absurd hanswer (by simp)
    · rintro ⟨rfl, rfl⟩
      refine ⟨⟨rfl, entry, hfile, ?_⟩, .inl rfl⟩
      rw [String.toList_ofList, hentry]
  have hlift : ∀ (r : Except ConfigError (Except IoError String)) (s' : Disk),
      Finishes (working (some home)) (ExceptT.lift (perform (.readToString (configPathIn home))) :
        FilesExec (Except IoError String)).run disk r s' ↔
        r = .ok (.ok (String.ofList text)) ∧ s' = disk := by
    intro r s'
    refine finishes_except_lift_iff.trans ?_
    constructor
    · rintro ⟨a, heffect, rfl⟩
      obtain ⟨rfl, rfl⟩ := (hread ..).1 heffect
      exact ⟨rfl, rfl⟩
    · rintro ⟨rfl, rfl⟩
      exact ⟨_, (hread ..).2 ⟨rfl, rfl⟩, rfl⟩
  refine (finishes_except_bind_of_eq (hpath disk)).trans ?_
  refine (finishes_except_bind_of_eq hlift).trans ?_
  refine finishes_except_pure_iff.trans ?_
  rw [String.toList_ofList]

/-- Loading ends whenever no call fails, and only with these settings. -/
def Loads (home : Option String) (disk : Disk) (config : AppConfig) : Prop :=
  (∃ result disk', Finishes (working home) loadConfig.run disk result disk') ∧
    ∀ result disk', Finishes (working home) loadConfig.run disk result disk' → result = .ok config

/-- **What was saved is loaded** exactly if all its texts are plain. -/
theorem config_round_trip_iff {home : Option String} {unix : Bool} {config : AppConfig}
    {disk disk' : Disk}
    (h : Finishes (answers home) (saveConfig unix config).run disk (.ok ()) disk') :
    Loads home disk' config ↔ Storable config := by
  obtain ⟨path, rfl, regular, hdisk⟩ := saveConfig_ok h
  have hfile : disk' (configPathIn path) = some ⟨regular, Utf8.encode (configText config)⟩ := by
    rw [hdisk, Function.update_self]
  constructor
  · rintro ⟨-, hall⟩
    have hconfig := hall _ disk' ((loadConfig_working hfile rfl ..).2 ⟨rfl, rfl⟩)
    rw [← Except.ok.inj hconfig]
    apply storable_parseConfig
  · intro hstorable
    refine ⟨⟨_, disk', (loadConfig_working hfile rfl ..).2 ⟨rfl, rfl⟩⟩, ?_⟩
    intro result disk'' hload
    rw [((loadConfig_working hfile rfl ..).1 hload).1, parseConfig_configText hstorable]

/-- A save can succeed on any disk. -/
theorem saveConfig_finishes (home : String) (unix : Bool) (config : AppConfig) (disk : Disk) :
    Finishes (answers (some home)) (saveConfig unix config).run disk (.ok ())
      (Function.update disk (configPathIn home)
        (some ⟨true, Utf8.encode (configText config)⟩)) := by
  refine finishes_except_bind_ok_iff.2
    ⟨_, disk, ((configDir_working ..).2 ⟨rfl, rfl⟩).of_restrict, ?_⟩
  refine finishes_except_bind_ok_iff.2
    ⟨(), disk, ((ensurePrivateDir_working ..).2 ⟨rfl, rfl⟩).of_restrict, ?_⟩
  refine finishes_except_bind_ok_iff.2
    ⟨(), _, ?_, ((restrictFilePermissions_working ..).2 ⟨rfl, rfl⟩).of_restrict⟩
  refine finishes_call_ok_iff.2 (finishes_effect_iff.2 ⟨true, ?_⟩)
  rw [String.toList_ofList]
  rfl

/-! ## Two starts of the program -/

/-- `folk-around --p2p --room abc`, on a disk with nothing on it. -/
def pairedConfig (room : String) : AppConfig :=
  ⟨some "https://folkaround.undivisible.dev", some room, some 8080, some "full"⟩

/-- The disk after the start has saved its settings. -/
def pairedDisk (room : String) : Disk :=
  Function.update (fun _ => none) (configPathIn "/home/me")
    (some ⟨true, Utf8.encode (configText (pairedConfig room))⟩)

theorem storable_pairedConfig_iff (room : String) :
    Storable (pairedConfig room) ↔ Plain room.toList := by
  constructor
  · intro h
    exact h.room room rfl
  · intro h
    refine ⟨?_, ?_, ?_⟩
    · rintro value ⟨⟩
      exact ⟨by decide, by decide, by decide +kernel⟩
    · rintro value ⟨⟩
      exact h
    · rintro value ⟨⟩
      exact ⟨by decide, by decide, by decide +kernel⟩

theorem config_round_trip_paired :
    Loads (some "/home/me") (pairedDisk "abc") (pairedConfig "abc") := by
  apply (config_round_trip_iff (saveConfig_finishes "/home/me" true (pairedConfig "abc") _)).2
  rw [storable_pairedConfig_iff]
  exact ⟨by decide, by decide, by decide +kernel⟩

/-- With a blank behind the pairing code, the next start has another one. -/
theorem padded_room_lost :
    Finishes (answers (some "/home/me")) (saveConfig true (pairedConfig "abc ")).run
        (fun _ => none) (.ok ()) (pairedDisk "abc ") ∧
      Loads (some "/home/me") (pairedDisk "abc ") (pairedConfig "abc") ∧
      ¬ Loads (some "/home/me") (pairedDisk "abc ") (pairedConfig "abc ") := by
  have hfile : pairedDisk "abc " (configPathIn "/home/me") =
      some ⟨true, Utf8.encode (configText (pairedConfig "abc "))⟩ := Function.update_self ..
  have hload := loadConfig_working hfile rfl
  have hparse : parseConfig (configText (pairedConfig "abc ")) = pairedConfig "abc" := by
    decide +kernel
  refine ⟨saveConfig_finishes "/home/me" true (pairedConfig "abc ") _, ⟨?_, ?_⟩, ?_⟩
  · exact ⟨_, _, (hload _ _).2 ⟨rfl, rfl⟩⟩
  · intro result disk' h
    rw [((hload _ _).1 h).1, hparse]
  · rintro ⟨-, hall⟩
    have hsame := hall _ _ ((hload _ _).2 ⟨rfl, rfl⟩)
    rw [hparse] at hsame
    exact absurd (Except.ok.inj hsame) (by decide)

end Core
end FolkAround
