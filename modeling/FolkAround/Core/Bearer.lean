import FolkAround.Core.Config

/-!
# The bearer of the HTTP server

The token that clients of the HTTP server must show is made once and kept in a file.

* `loadOrCreateHttpBearer` — create the file and write a new token to it, or read the one
  that is there.
* `IsBearer` — 64 lower-case hexadecimal digits; `validHttpBearer_iff`,
  `isBearer_ofFn` — what the check lets pass, and what is generated.
-/

namespace FolkAround
namespace Core

def httpBearerBytes : Nat := 32

def httpBearerHexLen : Nat := httpBearerBytes * 2

/-! ## Tokens -/

def generateHex (count : Nat) : Files String := do
  let bytes : Fin count → UInt8 ← perform (.random count)
  pure (String.ofList ((List.ofFn bytes).flatMap hexByte))

def generateHttpBearer : Files String := generateHex httpBearerBytes

/-- A lower-case hexadecimal digit. -/
def isHexByte (byte : UInt8) : Bool := (0x30 ≤ byte && byte ≤ 0x39) || (0x61 ≤ byte && byte ≤ 0x66)

def validHttpBearer (token : String) : Bool :=
  (Utf8.encode token.toList).length == httpBearerHexLen && (Utf8.encode token.toList).all isHexByte

/-! ## Open files -/

/-- `Write::write_all` on an open file. -/
def writeAll (path : String) (bytes : Bytes) : FilesExec Unit :=
  if bytes = [] then pure ()
  else do
    let count ← call (perform (.write path bytes))
    if count = 0 then throw .io else writeAll path (bytes.drop count)
termination_by bytes.length
decreasing_by
  rename_i hbytes _
  have hpos : 0 < bytes.length := List.length_pos_iff.2 hbytes
  rw [List.length_drop]
  omega

/-- Read an open file to its end, but no further than `limit` bytes from where it is. -/
def readToEnd (path : String) (sofar : Bytes) (limit : Nat) : FilesExec Bytes :=
  if limit = 0 then pure sofar
  else do
    let bytes ← call (perform (.read path sofar.length limit))
    if bytes = [] then pure sofar
    else readToEnd path (sofar ++ bytes) (limit - bytes.length)
termination_by limit
decreasing_by
  rename_i hbytes
  have hpos : 0 < bytes.length := List.length_pos_iff.2 hbytes
  omega

/-- `Read::read_to_string`, of at most `limit` bytes. -/
def readText (path : String) (limit : Nat) : FilesExec String := do
  let bytes ← readToEnd path [] limit
  match Utf8.fromUtf8 bytes with
  | none => throw .io
  | some text => pure (String.ofList text)

def openNewPrivateFile (path : String) : Files (Except IoError Unit) := perform (.openNew path 0o600)

def syncDir (path : String) : FilesExec Unit := do
  call (perform (.openFile path))
  call (perform (.syncAll path))

/-! ## The function -/

/-- The path of the token in a directory. -/
def tokenPathIn (dir : String) : String := joinPath dir "http-token"

/-- The file was created by this call. -/
def createHttpBearer (dir : String) : FilesExec String := do
  let path := tokenPathIn dir
  let token ← ExceptT.lift generateHttpBearer
  writeAll path (Utf8.encode token.toList)
  call (perform (.syncAll path))
  syncDir dir
  pure token

/-- The file was there already. -/
def loadHttpBearer (unix : Bool) (dir : String) : FilesExec String := do
  let path := tokenPathIn dir
  let metadata ← call (perform (.symlinkMetadata path))
  if metadata.isFile = false ∨ metadata.len ≠ httpBearerHexLen then throw .invalidHttpBearer
  else do
    restrictFilePermissions unix path
    call (perform (.openFile path))
    let token ← readText path (httpBearerHexLen + 1)
    if validHttpBearer token then pure token else throw .invalidHttpBearer

def loadOrCreateHttpBearer (unix : Bool) : FilesExec String :=
  if unix then do
    let dir ← configDir
    ensurePrivateDir unix dir
    let opened : Except IoError Unit ← ExceptT.lift (openNewPrivateFile (tokenPathIn dir))
    match opened with
    | .ok () => createHttpBearer dir
    | .error .alreadyExists => loadHttpBearer unix dir
    | .error _ => throw .io
  else throw .privatePermissionsUnavailable

/-! ## What a token is -/

def IsHexDigit (d : Char) : Prop := ('0' ≤ d ∧ d ≤ '9') ∨ ('a' ≤ d ∧ d ≤ 'f')

/-- 64 lower-case hexadecimal digits. -/
structure IsBearer (token : String) : Prop where
  length : token.toList.length = 64
  digits : ∀ d ∈ token.toList, IsHexDigit d

theorem isHexDigit_iff {d : Char} :
    IsHexDigit d ↔ (0x30 ≤ d.toNat ∧ d.toNat ≤ 0x39) ∨ (0x61 ≤ d.toNat ∧ d.toNat ≤ 0x66) := by
  have hle : ∀ x y : Char, x ≤ y ↔ x.toNat ≤ y.toNat := fun _ _ => UInt32.le_iff_toNat_le
  rw [IsHexDigit, hle, hle, hle, hle]
  exact Iff.rfl

theorem isHexByte_iff {b : UInt8} :
    isHexByte b = true ↔
      (0x30 ≤ b.toNat ∧ b.toNat ≤ 0x39) ∨ (0x61 ≤ b.toNat ∧ b.toNat ≤ 0x66) := by
  simp [isHexByte, UInt8.le_iff_toNat_le]

theorem isHexByte_lt {b : UInt8} (h : isHexByte b = true) : b.toNat < 0x80 := by
  have hb := isHexByte_iff.1 h
  omega

theorem IsHexDigit.lt {d : Char} (h : IsHexDigit d) : d.toNat < 0x80 := by
  have hd := isHexDigit_iff.1 h
  omega

/-- The bytes of a text are digits exactly if its characters are. -/
theorem forall_isHexByte_iff {cs : List Char} :
    (∀ b ∈ Utf8.encode cs, isHexByte b = true) ↔ ∀ d ∈ cs, IsHexDigit d := by
  rw [Utf8.forall_encode_iff fun _ => isHexByte_lt]
  refine forall_congr' fun d => forall_congr' fun _ => ?_
  constructor
  · rintro ⟨hlt, hbyte⟩
    rw [isHexByte_iff, Utf8.toNat_ofNat_of_lt (by omega)] at hbyte
    exact isHexDigit_iff.2 hbyte
  · intro hd
    have hlt := hd.lt
    refine ⟨hlt, ?_⟩
    rw [isHexByte_iff, Utf8.toNat_ofNat_of_lt (by omega)]
    exact isHexDigit_iff.1 hd

/-- **The check lets exactly the tokens pass.** -/
theorem validHttpBearer_iff {token : String} : validHttpBearer token = true ↔ IsBearer token := by
  rw [validHttpBearer, Bool.and_eq_true, beq_iff_eq, List.all_eq_true, forall_isHexByte_iff]
  constructor
  · rintro ⟨hlen, hdigits⟩
    refine ⟨?_, hdigits⟩
    rw [← Utf8.length_encode_of_ascii fun d hd => (hdigits d hd).lt, hlen]
    rfl
  · rintro ⟨hlen, hdigits⟩
    refine ⟨?_, hdigits⟩
    rw [Utf8.length_encode_of_ascii fun d hd => (hdigits d hd).lt, hlen]
    rfl

/-- 64 bytes that are digits are a token. -/
theorem exists_isBearer {bytes : Bytes} (hlen : bytes.length = httpBearerHexLen)
    (hhex : ∀ b ∈ bytes, isHexByte b = true) :
    ∃ token : String, IsBearer token ∧ Utf8.encode token.toList = bytes := by
  have hencode : Utf8.encode (bytes.map fun b => Char.ofNat b.toNat) = bytes := by
    refine Utf8.encode_map_ofNat fun b hb => ?_
    have hrange := isHexByte_iff.1 (hhex b hb)
    omega
  refine ⟨String.ofList (bytes.map fun b => Char.ofNat b.toNat), ?_, ?_⟩
  · rw [← validHttpBearer_iff, validHttpBearer, String.toList_ofList, hencode, Bool.and_eq_true,
      beq_iff_eq, List.all_eq_true]
    exact ⟨hlen, hhex⟩
  · rw [String.toList_ofList, hencode]

theorem IsBearer.length_encode {token : String} (h : IsBearer token) :
    (Utf8.encode token.toList).length = httpBearerHexLen := by
  rw [Utf8.length_encode_of_ascii fun d hd => (h.digits d hd).lt, h.length]
  rfl

theorem length_flatMap_hexByte (bytes : Bytes) :
    (bytes.flatMap hexByte).length = 2 * bytes.length := by
  induction bytes with
  | nil => rfl
  | cons b bytes ih =>
      rw [List.flatMap_cons, List.length_append, ih, List.length_cons]
      simp only [hexByte, List.length_cons, List.length_nil]
      omega

/-- What is generated is a token. -/
theorem isBearer_ofFn (bytes : Fin httpBearerBytes → UInt8) :
    IsBearer (String.ofList ((List.ofFn bytes).flatMap hexByte)) := by
  have hdigit : ∀ n < 16, ('0' ≤ Nat.digitChar n ∧ Nat.digitChar n ≤ '9') ∨
      ('a' ≤ Nat.digitChar n ∧ Nat.digitChar n ≤ 'f') := by decide
  constructor
  · rw [String.toList_ofList, length_flatMap_hexByte, List.length_ofFn]
    rfl
  · intro d hd
    rw [String.toList_ofList] at hd
    obtain ⟨b, -, hb⟩ := List.mem_flatMap.1 hd
    have hlt : b.toNat < 256 := b.toNat_lt
    rcases List.mem_pair.1 hb with rfl | rfl
    · exact hdigit _ (by omega)
    · exact hdigit _ (by omega)

/-! ## Without failures -/

section

open Effects Effects.World

variable {home : Option String} {disk disk' : Disk} {path : String} {entry : Entry}

/-- A write that does not fail. -/
structure Takes (path : String) (bytes : Bytes) (disk : Disk) (count : Nat) (disk' : Disk) :
    Prop where
  pos : bytes ≠ [] → 0 < count
  answer : ∃ entry, disk path = some entry ∧ count ≤ bytes.length ∧
    disk' = Function.update disk path
      (some { entry with contents := entry.contents ++ bytes.take count })

theorem write_working {bytes : Bytes} (disk : Disk) (result : Except ConfigError Nat)
    (disk' : Disk) :
    Finishes (working home) (call (perform (.write path bytes))).run disk result disk' ↔
      ∃ count, result = .ok count ∧ Takes path bytes disk count disk' := by
  refine finishes_call_iff fun s answer s' => finishes_effect_iff.trans ?_
  constructor
  · rintro ⟨hanswer, count, rfl, hpos⟩
    exact ⟨count, rfl, hpos, hanswer⟩
  · rintro ⟨count, rfl, hpos, hanswer⟩
    exact ⟨hanswer, count, rfl, hpos⟩

/-- All bytes are written, in one go or in several. -/
theorem writeAll_working (hentry : disk path = some entry) {bytes : Bytes}
    {result : Except ConfigError Unit} :
    Finishes (working home) (writeAll path bytes).run disk result disk' ↔
      result = .ok () ∧ disk' = Function.update disk path
        (some { entry with contents := entry.contents ++ bytes }) := by
  induction hlen : bytes.length using Nat.strong_induction_on generalizing disk entry bytes with
  | _ n ih =>
      rw [writeAll]
      split
      · rename_i hbytes
        rw [hbytes, List.append_nil, ← hentry, Function.update_eq_self]
        exact finishes_except_pure_iff
      · rename_i hbytes
        have hpos : 0 < bytes.length := List.length_pos_iff.2 hbytes
        have hrest : ∀ count, 0 < count → (
            Finishes (working home) (writeAll path (bytes.drop count)).run
              (Function.update disk path
                (some { entry with contents := entry.contents ++ bytes.take count })) result disk' ↔
              result = .ok () ∧ disk' = Function.update disk path
                (some { entry with contents := entry.contents ++ bytes })) := by
          intro count hcount
          have hfewer : (bytes.drop count).length < n := by
            rw [List.length_drop]
            omega
          rw [ih _ hfewer (Function.update_self ..) rfl, Function.update_idem,
            List.append_assoc, List.take_append_drop]
        refine (finishes_except_bind_of_ok write_working).trans ?_
        constructor
        · rintro ⟨count, s', ⟨hcount, entry', hentry', -, rfl⟩, h⟩
          cases Option.some.inj (hentry'.symm.trans hentry)
          rw [if_neg (hcount hbytes).ne'] at h
          exact (hrest count (hcount hbytes)).1 h
        · intro h
          refine ⟨bytes.length, _, ⟨fun _ => hpos, entry, hentry, le_rfl, rfl⟩, ?_⟩
          rw [if_neg hpos.ne']
          exact (hrest bytes.length hpos).2 h

/-- A read that does not fail. -/
structure Gives (path : String) (offset limit : Nat) (disk : Disk) (bytes : Bytes) (disk' : Disk) :
    Prop where
  same : disk' = disk
  answer : ∃ entry, disk path = some entry ∧ bytes <+: (entry.contents.drop offset).take limit ∧
    (bytes = [] → (entry.contents.drop offset).take limit = [])

theorem read_working {offset limit : Nat} (disk : Disk) (result : Except ConfigError Bytes)
    (disk' : Disk) :
    Finishes (working home) (call (perform (.read path offset limit))).run disk result disk' ↔
      ∃ bytes, result = .ok bytes ∧ Gives path offset limit disk bytes disk' := by
  refine finishes_call_iff fun s answer s' => finishes_effect_iff.trans ?_
  constructor
  · rintro ⟨⟨hsame, hanswer⟩, hok⟩
    obtain ⟨bytes, rfl⟩ := isOk_iff.1 hok
    exact ⟨bytes, rfl, hsame, hanswer⟩
  · rintro ⟨bytes, rfl, hsame, hanswer⟩
    exact ⟨⟨hsame, hanswer⟩, rfl⟩

/-- A file is read to its end or to the limit, in one go or in several. -/
theorem readToEnd_working (hentry : disk path = some entry) {sofar : Bytes} {limit : Nat}
    (hsofar : sofar <+: entry.contents) {result : Except ConfigError Bytes} :
    Finishes (working home) (readToEnd path sofar limit).run disk result disk' ↔
      result = .ok (entry.contents.take (sofar.length + limit)) ∧ disk' = disk := by
  induction hlimit : limit using Nat.strong_induction_on generalizing sofar limit with
  | _ n ih =>
      subst hlimit
      obtain ⟨rest, hrest⟩ := hsofar
      have hdrop : entry.contents.drop sofar.length = rest := by rw [← hrest, List.drop_left]
      have htake : entry.contents.take (sofar.length + limit) = sofar ++ rest.take limit := by
        rw [← hrest, List.take_length_add_append]
      rw [readToEnd, htake]
      split
      · rename_i hzero
        rw [hzero, List.take_zero, List.append_nil]
        exact finishes_except_pure_iff
      · have hmore : ∀ bytes, bytes ≠ [] → bytes <+: rest.take limit → (
            Finishes (working home) (readToEnd path (sofar ++ bytes) (limit - bytes.length)).run
              disk result disk' ↔ result = .ok (sofar ++ rest.take limit) ∧ disk' = disk) := by
          intro bytes hbytes hstart
          have hpos : 0 < bytes.length := List.length_pos_iff.2 hbytes
          have hle : bytes.length ≤ limit :=
            hstart.length_le.trans ((List.length_take ..).trans_le (Nat.min_le_left ..))
          have hlong : sofar ++ bytes <+: entry.contents := by
            rw [← hrest]
            exact (List.prefix_append_right_inj sofar).2 (hstart.trans (List.take_prefix ..))
          rw [ih _ (by omega) hlong rfl, List.length_append, ← htake]
          have hsum : sofar.length + bytes.length + (limit - bytes.length) =
              sofar.length + limit := by
            omega
          rw [hsum]
        refine (finishes_except_bind_of_ok read_working).trans ?_
        constructor
        · rintro ⟨bytes, s', ⟨rfl, entry', hentry', hstart, hend⟩, h⟩
          cases Option.some.inj (hentry'.symm.trans hentry)
          rw [hdrop] at hstart hend
          split at h
          · rename_i hnil
            rw [hend hnil, List.append_nil]
            exact finishes_except_pure_iff.1 h
          · rename_i hbytes
            exact (hmore bytes hbytes hstart).1 h
        · intro h
          refine ⟨rest.take limit, disk, ⟨rfl, entry, hentry, ?_, ?_⟩, ?_⟩
          · exact ⟨[], by rw [hdrop, List.append_nil]⟩
          · rw [hdrop]
            exact id
          · split
            · rename_i hnil
              rw [hnil, List.append_nil] at h
              exact finishes_except_pure_iff.2 h
            · rename_i hbytes
              exact (hmore _ hbytes List.prefix_rfl).2 h

theorem generateHttpBearer_working (disk : Disk) (result : Except ConfigError String)
    (disk' : Disk) :
    Finishes (working home) (ExceptT.lift generateHttpBearer : FilesExec String).run disk result
        disk' ↔
      ∃ token, result = .ok token ∧ (∃ bytes : Fin httpBearerBytes → UInt8,
        token = String.ofList ((List.ofFn bytes).flatMap hexByte)) ∧ disk' = disk := by
  refine finishes_except_lift_iff.trans ?_
  constructor
  · rintro ⟨token, h, rfl⟩
    obtain ⟨bytes, s', hrandom, htoken⟩ := finishes_bind_iff.1 h
    obtain ⟨rfl, -⟩ := finishes_effect_iff.1 hrandom
    obtain ⟨rfl, rfl⟩ := finishes_pure_iff.1 htoken
    exact ⟨_, rfl, ⟨bytes, rfl⟩, rfl⟩
  · rintro ⟨token, rfl, ⟨bytes, rfl⟩, rfl⟩
    exact ⟨_, finishes_bind_iff.2 ⟨bytes, disk', finishes_effect_iff.2 ⟨rfl, trivial⟩,
      finishes_pure_iff.2 ⟨rfl, rfl⟩⟩, rfl⟩

theorem syncDir_working {dir : String} (disk : Disk) (result : Except ConfigError Unit)
    (disk' : Disk) :
    Finishes (working home) (syncDir dir).run disk result disk' ↔ result = .ok () ∧ disk' = disk :=
  (finishes_except_bind_of_eq fun _ _ => openFile_working).trans syncAll_working

/-- A file with this token in it. -/
def tokenEntry (token : String) : Entry := ⟨true, Utf8.encode token.toList⟩

theorem createHttpBearer_working {dir : String} (hentry : disk (tokenPathIn dir) = some ⟨true, []⟩)
    {result : Except ConfigError String} :
    Finishes (working home) (createHttpBearer dir).run disk result disk' ↔
      ∃ token, (∃ bytes : Fin httpBearerBytes → UInt8,
        token = String.ofList ((List.ofFn bytes).flatMap hexByte)) ∧ result = .ok token ∧
        disk' = Function.update disk (tokenPathIn dir) (some (tokenEntry token)) := by
  have hrest : ∀ token, Finishes (working home) (do
      writeAll (tokenPathIn dir) (Utf8.encode token.toList)
      call (perform (.syncAll (tokenPathIn dir)))
      syncDir dir
      pure token : FilesExec String).run disk result disk' ↔ result = .ok token ∧
        disk' = Function.update disk (tokenPathIn dir) (some (tokenEntry token)) := by
    intro token
    refine (finishes_except_bind_of_eq fun _ _ => writeAll_working hentry).trans ?_
    refine (finishes_except_bind_of_eq fun _ _ => syncAll_working).trans ?_
    exact (finishes_except_bind_of_eq (syncDir_working _)).trans finishes_except_pure_iff
  refine (finishes_except_bind_of_ok generateHttpBearer_working).trans ?_
  constructor
  · rintro ⟨token, s', ⟨hbytes, rfl⟩, h⟩
    exact ⟨token, hbytes, (hrest token).1 h⟩
  · rintro ⟨token, hbytes, h⟩
    exact ⟨token, disk, ⟨hbytes, rfl⟩, (hrest token).2 h⟩

/-- A `symlink_metadata` that does not fail. -/
structure Describes (path : String) (disk : Disk) (metadata : Metadata) (disk' : Disk) : Prop where
  same : disk' = disk
  answer : ∃ entry, disk path = some entry ∧ metadata.isFile = entry.regular ∧
    (entry.regular = true → metadata.len = entry.contents.length)

theorem symlinkMetadata_working (disk : Disk) (result : Except ConfigError Metadata)
    (disk' : Disk) :
    Finishes (working home) (call (perform (.symlinkMetadata path))).run disk result disk' ↔
      ∃ metadata, result = .ok metadata ∧ Describes path disk metadata disk' := by
  refine finishes_call_iff fun s answer s' => finishes_effect_iff.trans ?_
  constructor
  · rintro ⟨⟨hsame, hanswer⟩, hok⟩
    obtain ⟨metadata, rfl⟩ := isOk_iff.1 hok
    exact ⟨metadata, rfl, hsame, hanswer⟩
  · rintro ⟨metadata, rfl, hsame, hanswer⟩
    exact ⟨⟨hsame, hanswer⟩, rfl⟩

/-- The text of a file. -/
def textOf (entry : Entry) : Except ConfigError String :=
  match Utf8.fromUtf8 entry.contents with
  | none => .error .io
  | some text => .ok (String.ofList text)

/-- The token in a file. -/
def tokenIn (entry : Entry) : Except ConfigError String :=
  if entry.regular = false ∨ entry.contents.length ≠ httpBearerHexLen then .error .invalidHttpBearer
  else do
    let token ← textOf entry
    if validHttpBearer token then pure token else throw .invalidHttpBearer

/-- A token is read from the files that hold one, and from no others. -/
theorem tokenIn_eq_ok_iff {token : String} :
    tokenIn entry = .ok token ↔ IsBearer token ∧ entry = tokenEntry token := by
  constructor
  · intro h
    unfold tokenIn at h
    split at h
    · exact absurd h (by simp)
    · rename_i hchecked
      rw [not_or, Bool.not_eq_false] at hchecked
      cases htext : Utf8.fromUtf8 entry.contents with
      | none =>
          simp only [textOf, htext] at h
          exact absurd h (by simp [bind, Except.bind])
      | some text =>
          simp only [textOf, htext, bind, Except.bind] at h
          split at h
          · rename_i hvalid
            cases Except.ok.inj h
            refine ⟨validHttpBearer_iff.1 hvalid, ?_⟩
            obtain ⟨regular, contents⟩ := entry
            obtain ⟨rfl, -⟩ := hchecked
            rw [tokenEntry, String.toList_ofList, ← Utf8.fromUtf8_eq_some_iff.1 htext]
          · exact absurd h (by simp [throw, throwThe, MonadExceptOf.throw])
  · rintro ⟨htoken, rfl⟩
    have hvalid := validHttpBearer_iff.2 htoken
    simp [tokenIn, textOf, tokenEntry, htoken.length_encode, Utf8.fromUtf8_encode, hvalid, bind,
      Except.bind, pure,
      Except.pure]

theorem readText_working (hentry : disk path = some entry) {limit : Nat}
    (hlimit : entry.contents.length ≤ limit) (result : Except ConfigError String) (disk' : Disk) :
    Finishes (working home) (readText path limit).run disk result disk' ↔
      result = textOf entry ∧ disk' = disk := by
  have hread : ∀ (r : Except ConfigError Bytes) (s' : Disk),
      Finishes (working home) (readToEnd path [] limit).run disk r s' ↔
        r = .ok entry.contents ∧ s' = disk := by
    intro r s'
    rw [readToEnd_working hentry (List.nil_prefix ..), List.length_nil, Nat.zero_add,
      List.take_of_length_le hlimit]
  refine (finishes_except_bind_of_eq hread).trans ?_
  rw [textOf]
  split
  · exact finishes_throw_iff
  · exact finishes_except_pure_iff

/-- Loading, if no call fails. -/
theorem loadHttpBearer_working {unix : Bool} {dir : String}
    (hentry : disk (tokenPathIn dir) = some entry) {result : Except ConfigError String} :
    Finishes (working home) (loadHttpBearer unix dir).run disk result disk' ↔
      result = tokenIn entry ∧ disk' = disk := by
  have hrest : ∀ metadata : Metadata, metadata.isFile = entry.regular →
      (entry.regular = true → metadata.len = entry.contents.length) →
      (Finishes (working home) (if metadata.isFile = false ∨ metadata.len ≠ httpBearerHexLen then
          throw .invalidHttpBearer
        else do
          restrictFilePermissions unix (tokenPathIn dir)
          call (perform (.openFile (tokenPathIn dir)))
          let token ← readText (tokenPathIn dir) (httpBearerHexLen + 1)
          if validHttpBearer token then pure token else throw .invalidHttpBearer :
            FilesExec String).run disk result disk' ↔ result = tokenIn entry ∧ disk' = disk) := by
    intro metadata hfile hlen
    have hsame : (metadata.isFile = false ∨ metadata.len ≠ httpBearerHexLen) ↔
        (entry.regular = false ∨ entry.contents.length ≠ httpBearerHexLen) := by
      rw [hfile]
      cases hregular : entry.regular with
      | false => simp
      | true => rw [hlen hregular]
    rw [tokenIn, ← if_congr hsame rfl rfl]
    split
    · exact finishes_throw_iff
    · rename_i hchecked
      rw [hsame, not_or, not_not] at hchecked
      refine (finishes_except_bind_of_eq (restrictFilePermissions_working _)).trans ?_
      refine (finishes_except_bind_of_eq fun _ _ => openFile_working).trans ?_
      have hread : ∀ result disk', Finishes (working home)
          (readText (tokenPathIn dir) (httpBearerHexLen + 1)).run disk result disk' ↔
            result = textOf entry ∧ disk' = disk :=
        readText_working hentry (hchecked.2.le.trans (Nat.le_succ _))
      cases htext : textOf entry with
      | error err =>
          rw [htext] at hread
          exact finishes_except_bind_of_error hread
      | ok token =>
          rw [htext] at hread
          refine (finishes_except_bind_of_eq hread).trans ?_
          simp only [bind, Except.bind]
          split
          · exact finishes_except_pure_iff
          · exact finishes_throw_iff
  refine (finishes_except_bind_of_ok symlinkMetadata_working).trans ?_
  constructor
  · rintro ⟨metadata, s', ⟨rfl, entry', hentry', hfile, hlen⟩, h⟩
    cases Option.some.inj (hentry'.symm.trans hentry)
    exact (hrest metadata hfile hlen).1 h
  · intro h
    exact ⟨⟨entry.regular, entry.contents.length⟩, disk, ⟨rfl, entry, hentry, rfl, fun _ => rfl⟩,
      (hrest _ rfl fun _ => rfl).2 h⟩

/-- Up to the file, a call does nothing. -/
theorem loadOrCreate_working {home : String} {result : Except ConfigError String} :
    Finishes (working (some home)) (loadOrCreateHttpBearer true).run disk result disk' ↔
      ∃ opened disk₁, Finishes (working (some home))
          (openNewPrivateFile (tokenPathIn (configDirIn home))) disk opened disk₁ ∧
        Finishes (working (some home)) (match opened with
          | .ok () => createHttpBearer (configDirIn home)
          | .error .alreadyExists => loadHttpBearer true (configDirIn home)
          | .error _ => throw .io : FilesExec String).run disk₁ result disk' := by
  refine (finishes_except_bind_of_eq (configDir_working _)).trans ?_
  refine (finishes_except_bind_of_eq (ensurePrivateDir_working _)).trans ?_
  refine (finishes_except_bind_of_ok (P := fun s opened s' => Finishes (working (some home))
    (openNewPrivateFile (tokenPathIn (configDirIn home))) s opened s') ?_).trans Iff.rfl
  intro s r s'
  rw [finishes_except_lift_iff]
  simp only [and_comm]

/-- A call that finds no file makes a token. -/
theorem loadOrCreate_free {home : String} (hfree : disk (tokenPathIn (configDirIn home)) = none)
    {result : Except ConfigError String} :
    Finishes (working (some home)) (loadOrCreateHttpBearer true).run disk result disk' ↔
      ∃ token, (∃ bytes : Fin httpBearerBytes → UInt8,
        token = String.ofList ((List.ofFn bytes).flatMap hexByte)) ∧ result = .ok token ∧
        disk' = Function.update disk (tokenPathIn (configDirIn home)) (some (tokenEntry token)) := by
  have hcreate : ∀ result disk', Finishes (working (some home)) (createHttpBearer (configDirIn home)).run
      (Function.update disk (tokenPathIn (configDirIn home)) (some ⟨true, []⟩)) result disk' ↔ _ :=
    fun result disk' => createHttpBearer_working (Function.update_self ..)
  simp only [Function.update_idem] at hcreate
  rw [loadOrCreate_working, ← hcreate]
  constructor
  · rintro ⟨opened, disk₁, hopen, h⟩
    obtain ⟨hanswer, hsucceeds⟩ := finishes_effect_iff.1 hopen
    cases opened with
    | ok value =>
        obtain ⟨-, rfl⟩ := hanswer
        exact h
    | error err =>
        rcases hsucceeds with hok | hexists
        · exact absurd hok (by simp [Except.isOk, Except.toBool])
        · cases Except.error.inj hexists
          exact absurd hfree hanswer.1
  · intro h
    exact ⟨.ok (), _, finishes_effect_iff.2 ⟨⟨hfree, rfl⟩, .inl rfl⟩, h⟩

/-- A call that finds a file reads it. -/
theorem loadOrCreate_there {home : String}
    (hentry : disk (tokenPathIn (configDirIn home)) = some entry)
    {result : Except ConfigError String} :
    Finishes (working (some home)) (loadOrCreateHttpBearer true).run disk result disk' ↔
      result = tokenIn entry ∧ disk' = disk := by
  rw [loadOrCreate_working]
  constructor
  · rintro ⟨opened, disk₁, hopen, h⟩
    obtain ⟨hanswer, hsucceeds⟩ := finishes_effect_iff.1 hopen
    cases opened with
    | ok value => exact absurd (hentry.symm.trans hanswer.1) (by simp)
    | error err =>
        rcases hsucceeds with hok | hexists
        · exact absurd hok (by simp [Except.isOk, Except.toBool])
        · cases Except.error.inj hexists
          obtain ⟨-, rfl⟩ := hanswer
          exact (loadHttpBearer_working hentry).1 h
  · intro h
    have hthere : disk (tokenPathIn (configDirIn home)) ≠ none := by
      rw [hentry]
      exact Option.some_ne_none _
    exact ⟨.error .alreadyExists, disk, finishes_effect_iff.2 ⟨⟨hthere, rfl⟩, .inr rfl⟩,
      (loadHttpBearer_working hentry).2 h⟩

end

end Core
end FolkAround
