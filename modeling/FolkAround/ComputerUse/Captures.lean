import Mathlib.Order.BooleanAlgebra.Set
import FolkAround.Lib.Transcript
import FolkAround.ComputerUse.Enforcement

/-!
# What a capture leaves behind

A capture first makes an empty file in the directory of the artifacts and then has the
screen written into it, and each of the steps may fail.

* `artifactsWorld` — what the host's answers say of the files in that directory.
* `createdFiles`, `Withdrawn` — what can be read from the answers to one call: the file
  that was made, and whether it was taken away again.
* `Untouched`, `Made` — how far a call has come.
* `capture_artifacts_iff` — a call that fails leaves the directory as it was exactly when
  every file it has made was taken away again.
-/

namespace FolkAround
namespace ComputerUse

open Effects

/-! ## The directory -/

def artifactsDir (home : String) : String :=
  joinPath (joinPath (joinPath home ".config") "folk-around") "artifacts"

/-- The path is one in the directory of the artifacts; without a home there is none. -/
def InArtifacts (home : Option String) (path : String) : Prop :=
  ∃ dir name, home = some dir ∧ path = joinPath (artifactsDir dir) name

/-- The files in the directory of the artifacts. -/
abbrev Artifacts := Set String

/-- What an answer of the host says of the artifacts.  A capture may write the file it is
given, and lets the others be; of programs and of actions on the desktop nothing is said. -/
def artifactsWorld (home : Option String) : World Effect Answer Artifacts :=
  fun files e r files' =>
    match e, r with
    | .var name, value => files' = files ∧ (name = "HOME" → value = home)
    | .file (.openNew path _), .ok () =>
      path ∉ files ∧ (InArtifacts home path → files' = insert path files) ∧
        (¬ InArtifacts home path → files' = files)
    | .file (.removeFile path), .ok () => files' = files \ {path}
    | .image _ path _, _ | .imageApp _ path _, _ =>
      files' = files ∨ InArtifacts home path ∧ files' = insert path files
    | .run .., _ | .spawn .., _ | .act _, _ | .query _, _ | .cleanSnapshots .., _ => True
    | .semantic (.execute ..), _ => True
    | _, _ => files' = files

/-! ## What was done -/

/-- The file that was made. -/
def created (x : Exchange Effect Answer) : Option String :=
  match x.op, x.answer with
  | .file (.openNew path _), .ok () => some path
  | _, _ => none

/-- The file that was removed. -/
def removed (x : Exchange Effect Answer) : Option String :=
  match x.op, x.answer with
  | .file (.removeFile path), .ok () => some path
  | _, _ => none

/-- The file the screen was to be written into, and what the capture reports. -/
def captured (x : Exchange Effect Answer) : Option (String × ImageCapture) :=
  match x.op, x.answer with
  | .image _ path _, some capture => some (path, capture)
  | .imageApp _ path _, some capture => some (path, capture)
  | _, _ => none

def createdFiles (t : Transcript Effect Answer) : List String := t.filterMap created

def removedFiles (t : Transcript Effect Answer) : List String := t.filterMap removed

def captures (t : Transcript Effect Answer) : List (String × ImageCapture) := t.filterMap captured

/-- The file was captured into, the capture was reported as one not to be kept and as
being in that very file, and the file could be removed. -/
def Withdrawn (t : Transcript Effect Answer) (path : String) : Prop :=
  (∃ capture, (path, capture) ∈ captures t ∧ capture.ephemeral = true ∧ capture.path = path) ∧
    path ∈ removedFiles t

abbrev Recorded := Artifacts × Transcript Effect Answer

/-- Nothing was made so far. -/
structure Untouched (files : Artifacts) (s : Recorded) : Prop where
  files_eq : s.1 = files
  created_eq : createdFiles s.2 = []
  removed_eq : removedFiles s.2 = []

/-- One file was made, and it is still there. -/
structure Made (files : Artifacts) (path : String) (s : Recorded) : Prop where
  new : path ∉ files
  files_eq : s.1 = insert path files
  created_eq : createdFiles s.2 = [path]
  removed_eq : removedFiles s.2 = []

/-- How a call may end: well, or with the directory as it should be or not. -/
def Ends (files : Artifacts) : Except ToolExecError Value → Recorded → Prop
  | .ok value, _ => value.get "isError" = none
  | .error _, s => s.1 = files ↔ ∀ path ∈ createdFiles s.2, Withdrawn s.2 path

variable {home : Option String} {files : Artifacts} {path : String}

/-- A call that fails before it has made a file changes nothing. -/
theorem Untouched.ends {s : Recorded} (h : Untouched files s) (err : ToolExecError) :
    Ends files (.error err) s := by
  refine ⟨fun _ path hpath => ?_, fun _ => h.files_eq⟩
  rw [h.created_eq] at hpath
  exact absurd hpath List.not_mem_nil

/-- One that fails later leaves the file. -/
theorem Made.ends {s : Recorded} (h : Made files path s) (err : ToolExecError) :
    Ends files (.error err) s := by
  constructor
  · intro hfiles
    exact absurd (hfiles ▸ h.files_eq ▸ Set.mem_insert path files) h.new
  · intro hall
    have hremoved := (hall path (by simp [h.created_eq])).2
    rw [h.removed_eq] at hremoved
    exact absurd hremoved List.not_mem_nil

/-! ## One effect -/

theorem createdFiles_next (t : Transcript Effect Answer) (x : Exchange Effect Answer) :
    createdFiles (t ++ [x]) = createdFiles t ++ (created x).toList := by
  cases h : created x <;> simp [createdFiles, h]

theorem removedFiles_next (t : Transcript Effect Answer) (x : Exchange Effect Answer) :
    removedFiles (t ++ [x]) = removedFiles t ++ (removed x).toList := by
  cases h : removed x <;> simp [removedFiles, h]

theorem captures_next (t : Transcript Effect Answer) (x : Exchange Effect Answer) :
    captures (t ++ [x]) = captures t ++ (captured x).toList := by
  cases h : captured x <;> simp [captures, h]

/-- What neither makes nor removes a file, in the world and in the transcript. -/
theorem quiet_step {s s' : Recorded} {e : Effect} {r : Answer e} (he : Quiet e)
    (h : (artifactsWorld home).recording s e r s') :
    s'.1 = s.1 ∧ createdFiles s'.2 = createdFiles s.2 ∧ removedFiles s'.2 = removedFiles s.2 := by
  obtain ⟨hworld, hrecord⟩ := h
  have hrecord : s'.2 = s.2 ++ [⟨e, r⟩] := hrecord
  have hquiet : s'.1 = s.1 ∧ created ⟨e, r⟩ = none ∧ removed ⟨e, r⟩ = none := by
    cases e with
    | var name => exact ⟨hworld.1, rfl, rfl⟩
    | file op =>
        cases op with
        | openNew _ _ => exact he.elim
        | removeFile _ => exact he.elim
        | _ => exact ⟨hworld, rfl, rfl⟩
    | semantic call =>
        cases call with
        | observe _ => exact ⟨hworld, rfl, rfl⟩
        | _ => exact he.elim
    | now => exact ⟨hworld, rfl, rfl⟩
    | random _ => exact ⟨hworld, rfl, rfl⟩
    | metadata _ => exact ⟨hworld, rfl, rfl⟩
    | readFile _ => exact ⟨hworld, rfl, rfl⟩
    | lockObservations => exact ⟨hworld, rfl, rfl⟩
    | _ => exact he.elim
  obtain ⟨hfiles, hcreated, hremoved⟩ := hquiet
  rw [hrecord, createdFiles_next, removedFiles_next, hcreated, hremoved]
  exact ⟨hfiles, List.append_nil _, List.append_nil _⟩

theorem Untouched.quiet {s s' : Recorded} {e : Effect} {r : Answer e} (hs : Untouched files s)
    (he : Quiet e) (h : (artifactsWorld home).recording s e r s') : Untouched files s' := by
  obtain ⟨hfiles, hcreated, hremoved⟩ := quiet_step he h
  exact ⟨hfiles.trans hs.files_eq, hcreated.trans hs.created_eq, hremoved.trans hs.removed_eq⟩

theorem Made.quiet {s s' : Recorded} {e : Effect} {r : Answer e} (hs : Made files path s)
    (he : Quiet e) (h : (artifactsWorld home).recording s e r s') : Made files path s' := by
  obtain ⟨hfiles, hcreated, hremoved⟩ := quiet_step he h
  exact ⟨hs.new, hfiles.trans hs.files_eq, hcreated.trans hs.created_eq,
    hremoved.trans hs.removed_eq⟩

/-! ## Programs with quiet effects -/

section

variable {ε α : Type} {x : ExceptT ε Host α}

/-- An assertion that quiet effects do not make false. -/
theorem ensures_untouched (hx : Within Quiet x.run) :
    Ensures (artifactsWorld home).recording (Untouched files) x fun _ => Untouched files :=
  ensures_of_within hx fun _ _ _ _ he hs h => hs.quiet he h

theorem ensures_made (hx : Within Quiet x.run) :
    Ensures (artifactsWorld home).recording (Made files path) x fun _ => Made files path :=
  ensures_of_within hx fun _ _ _ _ he hs h => hs.quiet he h

end

/-! ## Making the file -/

/-- A new file was made, or it may have been. -/
def Creates {ε : Type} (files : Artifacts) : Except ε ArtifactFile → Recorded → Prop
  | .ok artifact, s => Made files artifact.path s
  | .error _, s => Untouched files s ∨ ∃ path, Made files path s

/-- To open a new file in the directory makes that file, or fails and makes none. -/
theorem Untouched.openNew {s s' : Recorded} {mode : Nat} {opened : Except FileError Unit}
    (hs : Untouched files s) (hpath : InArtifacts home path)
    (h : (artifactsWorld home).recording s (.file (.openNew path mode)) opened s') :
    (∀ err, opened = .error err → Untouched files s') ∧ (opened = .ok () → Made files path s') := by
  obtain ⟨hworld, hrecord⟩ := h
  have hrecord : s'.2 = s.2 ++ [⟨.file (.openNew path mode), opened⟩] := hrecord
  have hremoved : removedFiles s'.2 = [] := by
    rw [hrecord, removedFiles_next, hs.removed_eq]
    rfl
  cases opened with
  | error err =>
      refine ⟨fun _ _ => ⟨Eq.trans hworld hs.files_eq, ?_, hremoved⟩, fun h => absurd h (by simp)⟩
      rw [hrecord, createdFiles_next, hs.created_eq]
      rfl
  | ok done =>
      obtain ⟨hnew, hinside, -⟩ := hworld
      refine ⟨fun err herr => absurd herr (by simp), fun _ => ⟨?_, ?_, ?_, hremoved⟩⟩
      · rw [← hs.files_eq]
        exact hnew
      · rw [← hs.files_eq]
        exact hinside hpath
      · rw [hrecord, createdFiles_next, hs.created_eq]
        rfl

theorem ensures_createArtifactIn {dir : String} (hhome : home = some dir) (tries : Nat) :
    Ensures (artifactsWorld home).recording (Untouched files)
      (createArtifactIn (artifactsDir dir) tries) (Creates files) := by
  induction tries with
  | zero => exact ensures_throw fun s hs => .inl hs
  | succ tries ih =>
      have hhex : Within Quiet (ExceptT.lift (generateHex artifactIdBytes) : ConfigExec String).run :=
        within_except_lift (within_generateHex (fun _ => id) _)
      refine ensures_bind (ensures_untouched hhex) (fun hex => ?_) fun err s hs => .inl hs
      have hinside : InArtifacts home (joinPath (artifactsDir dir) (hex ++ ".png")) :=
        ⟨dir, hex ++ ".png", hhome, rfl⟩
      refine ensures_effect_bind fun opened => ?_
      have hkeep (op : FileOp) (path : String) (hop : Quiet (.file op)) :
          Ensures (artifactsWorld home).recording (Made files path) (fileStep op)
            fun _ => Made files path := ensures_made (within_fileStep hop)
      match opened with
      | .ok () =>
          refine ensures_weaken (fun s ⟨s₀, hs, h⟩ => (hs.openNew hinside h).2 rfl) ?_
          refine ensures_bind (hkeep (.syncAll _) _ trivial) (fun _ => ?_) fun _ s hs => .inr ⟨_, hs⟩
          refine ensures_bind (hkeep (.openFile _) _ trivial) (fun _ => ?_) fun _ s hs => .inr ⟨_, hs⟩
          refine ensures_bind (hkeep (.syncAll _) _ trivial) (fun _ => ?_) fun _ s hs => .inr ⟨_, hs⟩
          exact ensures_pure fun s hs => hs
      | .error .alreadyExists =>
          exact ensures_weaken (fun s ⟨s₀, hs, h⟩ => (hs.openNew hinside h).1 _ rfl) ih
      | .error .other =>
          exact ensures_throw fun s ⟨s₀, hs, h⟩ => .inl ((hs.openNew hinside h).1 _ rfl)

/-- The directory of the configuration is one in the home of the host. -/
theorem ensures_configDir :
    Ensures (artifactsWorld home).recording (Untouched files) configDir
      fun r s => Untouched files s ∧ ∀ config, r = .ok config →
        ∃ dir, home = some dir ∧ config = joinPath (joinPath dir ".config") "folk-around" := by
  refine ensures_effect_bind fun answer => ?_
  have hstep : ∀ s, (∃ s₀, Untouched files s₀ ∧
      (artifactsWorld home).recording s₀ (.var "HOME") answer s) →
      Untouched files s ∧ answer = home := by
    rintro s ⟨s₀, hs, h⟩
    exact ⟨hs.quiet (e := .var "HOME") trivial h, h.1.2 rfl⟩
  cases answer with
  | none =>
      exact ensures_throw fun s hs => ⟨(hstep s hs).1, fun config h => absurd h (by simp)⟩
  | some dir =>
      refine ensures_pure fun s hs => ⟨(hstep s hs).1, ?_⟩
      rintro config ⟨⟩
      exact ⟨dir, (hstep s hs).2.symm, rfl⟩

theorem ensures_createArtifactFile (env : Externals) :
    Ensures (artifactsWorld home).recording (Untouched files) (createArtifactFile env)
      (Creates files) := by
  have hdir (path : String) :
      Ensures (artifactsWorld home).recording (Untouched files) (ensurePrivateDir path)
        fun _ => Untouched files := ensures_untouched (within_ensurePrivateDir (fun _ => id) path)
  unfold createArtifactFile
  split
  · refine ensures_bind ensures_configDir (fun config => ?_) fun err s hs => .inl hs.1
    intro q s ⟨hs, hconfig⟩
    obtain ⟨dir, hhome, rfl⟩ := hconfig config rfl
    refine ensures_bind (hdir _) (fun _ => ?_) (fun err s hs => .inl hs) q s hs
    refine ensures_bind (hdir _) (fun _ => ?_) fun err s hs => .inl hs
    exact ensures_createArtifactIn hhome 16
  · exact ensures_throw fun s hs => .inl hs

theorem ensures_newArtifact (env : Externals) :
    Ensures (artifactsWorld home).recording (Untouched files) (newArtifact env) (Creates files) :=
  ensures_adapt (ensures_createArtifactFile env) (fun _ _ hs => hs) fun _ _ hs => hs

/-- However far the making of the file came, the call may end there. -/
theorem Creates.ends {err : ToolExecError} {s : Recorded} (h : Creates files (.error err) s) :
    Ends files (.error err) s := by
  rcases h with hs | ⟨path, hs⟩
  · exact hs.ends err
  · exact hs.ends err

/-! ## Capturing, and the answer -/

/-- The program captures into the file that was made, or fails and leaves it. -/
def CapturesInto (home : Option String) (files : Artifacts) (path : String)
    (x : Exec ImageCapture) : Prop :=
  Ensures (artifactsWorld home).recording (Made files path) x fun r s =>
    Made files path s ∧ ∀ capture, r = .ok capture → (path, capture) ∈ captures s.2

/-- A capture by the desktop automation. -/
theorem capturesInto_effect (e : Effect) (answer : Answer e → Option ImageCapture)
    (hworld : ∀ files r files', artifactsWorld home files e r files' →
      files' = files ∨ InArtifacts home path ∧ files' = insert path files)
    (hcaptured : ∀ r, captured ⟨e, r⟩ = (answer r).map fun capture => (path, capture))
    (hcreated : ∀ r, created ⟨e, r⟩ = none) (hremoved : ∀ r, removed ⟨e, r⟩ = none) :
    CapturesInto home files path (ExceptT.lift (perform e) >>= fun r => desktop (answer r)) := by
  refine ensures_effect_bind fun r => ?_
  have hstep : ∀ s, (∃ s₀, Made files path s₀ ∧ (artifactsWorld home).recording s₀ e r s) →
      Made files path s ∧ ∀ capture, answer r = some capture → (path, capture) ∈ captures s.2 := by
    rintro s ⟨s₀, hs, hfiles, hrecord⟩
    have hrecord : s.2 = s₀.2 ++ [⟨e, r⟩] := hrecord
    have hsame : s.1 = insert path files := by
      rcases hworld _ _ _ hfiles with hsame | ⟨-, hinsert⟩
      · exact hsame.trans hs.files_eq
      · rw [hinsert, hs.files_eq, Set.insert_idem]
    refine ⟨⟨hs.new, hsame, ?_, ?_⟩, fun capture hcapture => ?_⟩
    · rw [hrecord, createdFiles_next, hcreated, hs.created_eq]
      rfl
    · rw [hrecord, removedFiles_next, hremoved, hs.removed_eq]
      rfl
    · rw [hrecord, captures_next, hcaptured, hcapture]
      simp
  cases hanswer : answer r with
  | none =>
      refine ensures_throw fun s hs => ⟨(hstep s hs).1, fun capture h => absurd h (by simp)⟩
  | some capture =>
      refine ensures_pure fun s hs => ⟨(hstep s hs).1, ?_⟩
      rintro capture' ⟨⟩
      exact (hstep s hs).2 capture hanswer

theorem capturesInto_captureImage (mode : ImageMode) (retina : Bool) :
    CapturesInto home files path (captureImage mode path retina) :=
  capturesInto_effect (.image mode path retina) id (fun _ _ _ h => h)
    (fun r => by cases r <;> rfl) (fun _ => rfl) fun _ => rfl

/-- To remove a capture that is not to be kept takes the file away exactly if it is the
file that was made, and could be removed. -/
theorem ends_of_removed {s s' : Recorded} {capture : ImageCapture} {done : Except FileError Unit}
    (hs : Made files path s) (hcapture : (path, capture) ∈ captures s.2)
    (hephemeral : capture.ephemeral = true)
    (h : (artifactsWorld home).recording s (.file (.removeFile capture.path)) done s')
    (err : ToolExecError) : Ends files (.error err) s' := by
  obtain ⟨hworld, hrecord⟩ := h
  have hrecord : s'.2 = s.2 ++ [⟨.file (.removeFile capture.path), done⟩] := hrecord
  have hcreated : createdFiles s'.2 = [path] := by
    rw [hrecord, createdFiles_next, hs.created_eq]
    rfl
  have hcaptures : (path, capture) ∈ captures s'.2 := by
    rw [hrecord, captures_next]
    exact List.mem_append_left _ hcapture
  cases done with
  | error _ =>
      have hremoved : removedFiles s'.2 = [] := by
        rw [hrecord, removedFiles_next, hs.removed_eq]
        rfl
      exact Made.ends ⟨hs.new, Eq.trans hworld hs.files_eq, hcreated, hremoved⟩ err
  | ok done =>
      have hfiles : s'.1 = insert path files \ {capture.path} := by
        rw [← hs.files_eq]
        exact hworld
      have hremoved : removedFiles s'.2 = [capture.path] := by
        rw [hrecord, removedFiles_next, hs.removed_eq]
        rfl
      show s'.1 = files ↔ ∀ p ∈ createdFiles s'.2, Withdrawn s'.2 p
      rw [hfiles, hcreated]
      by_cases hpath : capture.path = path
      · constructor
        · intro _ p hp
          rw [List.mem_singleton.1 hp]
          refine ⟨⟨capture, hcaptures, hephemeral, hpath⟩, ?_⟩
          rw [hremoved, hpath]
          exact List.mem_singleton_self path
        · intro _
          rw [hpath]
          exact Set.insert_sdiff_self_of_notMem hs.new
      · constructor
        · intro hsame
          refine absurd (hsame ▸ ?_ : path ∈ files) hs.new
          exact ⟨Set.mem_insert path files, fun h => hpath (Set.mem_singleton_iff.1 h).symm⟩
        · intro hall
          have hmem := (hall path (List.mem_singleton_self path)).2
          rw [hremoved] at hmem
          exact absurd (List.mem_singleton.1 hmem).symm hpath

/-- The answer with a reference, or the end of the call. -/
theorem ensures_imageResult (env : Externals) (metadata : List (String × Value))
    (capture : ImageCapture) (locator : String) :
    Ensures (artifactsWorld home).recording
      (fun s => Made files path s ∧ (path, capture) ∈ captures s.2)
      (imageResult env metadata capture locator) (Ends files) := by
  unfold imageResult
  split
  · rename_i hephemeral
    refine ensures_effect_bind fun done => ensures_throw ?_
    rintro s ⟨s₀, ⟨hs, hcapture⟩, h⟩
    exact ends_of_removed hs hcapture hephemeral h _
  · have hreference : Ensures (artifactsWorld home).recording (Made files path)
        (screenshotReference env capture) fun _ => Made files path :=
      ensures_made (within_screenshotReference env (fun _ => id) capture)
    refine ensures_bind (ensures_weaken (fun s hs => hs.1) hreference) (fun reference => ?_)
      fun err s hs => hs.ends err
    exact ensures_pure fun s hs => rfl

/-- To capture into the file, and to answer. -/
theorem CapturesInto.ends {x : Exec ImageCapture} {f : ImageCapture → Exec Value}
    (hx : CapturesInto home files path x)
    (hf : ∀ capture, ∃ metadata locator env, f capture = imageResult env metadata capture locator) :
    Ensures (artifactsWorld home).recording (Made files path) (x >>= f) (Ends files) := by
  refine ensures_bind hx (fun capture => ?_) fun err s hs => hs.1.ends err
  obtain ⟨metadata, locator, env, h⟩ := hf capture
  rw [h]
  exact ensures_weaken (fun s hs => ⟨hs.1, hs.2 capture rfl⟩)
    (ensures_imageResult env metadata capture locator)

/-! ## The tools -/

/-- From where nothing was made the program ends as it should. -/
def ToolEnds (home : Option String) (files : Artifacts) (x : Exec Value) : Prop :=
  Ensures (artifactsWorld home).recording (Untouched files) x (Ends files)

/-- Whenever the call ends with an error, the directory is as it was exactly if every file
the call has made was taken away again. -/
def LeavesArtifacts (home : Option String) (x : Host Value) : Prop :=
  ∀ q value q' files files' t,
    (artifactsWorld home).recording.Finishes (x q) (files, []) (value, q') (files', t) →
    value.get "isError" = some (.bool true) →
    (files' = files ↔ ∀ path ∈ createdFiles t, Withdrawn t path)

section

variable (env : Externals) (args : Value) (mode : AccessMode)

/-- A tool that ends as it should leaves the directory as it should. -/
theorem leavesArtifacts_flatten {x : Exec Value} (hx : ∀ files, ToolEnds home files x) :
    LeavesArtifacts home (flatten x) := by
  intro q value q' files files' t h herr
  obtain ⟨r, q₁, s₁, hr, h⟩ := World.finishes_state_bind_iff.1 h
  have hends := hx files q (files, []) ⟨rfl, rfl, rfl⟩ r q₁ s₁ hr
  cases r with
  | ok value' =>
      obtain ⟨hp, rfl⟩ := World.finishes_state_pure_iff.1 h
      obtain ⟨rfl, rfl⟩ := Prod.mk.inj hp
      have hnone : value.get "isError" = none := hends
      rw [hnone] at herr
      exact absurd herr (by simp)
  | error err =>
      obtain ⟨-, rfl⟩ := World.finishes_state_pure_iff.1 h
      exact hends

/-- The check of the platform, and what comes after it. -/
theorem toolEnds_supported {f : Unit → Exec Value} (hf : ToolEnds home files (f ())) :
    ToolEnds home files (ensureScreenshotReferenceSupported env >>= f) :=
  ensures_bind (ensures_untouched (within_ensureScreenshotReferenceSupported env)) (fun _ => hf)
    fun err _ hs => hs.ends err

/-- The check of the mode, and what comes after it. -/
theorem toolEnds_imageModeArg {f : ImageMode → Exec Value} (hf : ∀ m, ToolEnds home files (f m)) :
    ToolEnds home files (imageModeArg env args >>= f) :=
  ensures_bind (ensures_untouched (within_orFail _ _)) hf fun err _ hs => hs.ends err

/-- The making of the file, and what comes after it. -/
theorem toolEnds_newArtifact {f : ArtifactFile → Exec Value}
    (hf : ∀ artifact, Ensures (artifactsWorld home).recording (Made files artifact.path) (f artifact)
      (Ends files)) : ToolEnds home files (newArtifact env >>= f) :=
  ensures_bind (ensures_newArtifact env) hf fun _ _ hs => hs.ends

theorem screenCapture_leaves : LeavesArtifacts home (screenCapture env args mode) := by
  refine leavesArtifacts_flatten fun files => toolEnds_supported env ?_
  extract_lets target
  split
  · exact ensures_throw fun _ hs => hs.ends _
  · refine toolEnds_newArtifact env fun artifact => ?_
    exact (capturesInto_captureImage _ true).ends fun _ => ⟨_, _, _, rfl⟩

/-- Here the mode is only looked at when the file is there. -/
theorem image_leaves : LeavesArtifacts home (image env args mode) := by
  refine leavesArtifacts_flatten fun files => toolEnds_supported env ?_
  refine toolEnds_newArtifact env fun artifact => ?_
  extract_lets retina shown
  have hshown (capture : ImageCapture) : ∃ metadata locator env,
      shown capture = imageResult env metadata capture locator := ⟨_, _, _, rfl⟩
  split
  · rename_i app _
    exact (capturesInto_effect (.imageApp app artifact.path retina) id (fun _ _ _ h => h)
      (fun r => by cases r <;> rfl) (fun _ => rfl) fun _ => rfl).ends hshown
  · have hmode : Ensures (artifactsWorld home).recording (Made files artifact.path)
        (imageModeArg env args) fun _ => Made files artifact.path :=
      ensures_made (within_orFail _ _)
    refine ensures_bind hmode (fun captureMode => ?_) fun err _ hs => hs.ends err
    exact (capturesInto_captureImage captureMode retina).ends hshown

/-- Here the mode is looked at first, but the observation is made when the file is there. -/
theorem see_leaves : LeavesArtifacts home (see env args mode) := by
  refine leavesArtifacts_flatten fun files => toolEnds_supported env ?_
  refine toolEnds_imageModeArg env args fun captureMode => ?_
  refine toolEnds_newArtifact env fun artifact => ?_
  have hobserve : Ensures (artifactsWorld home).recording (Made files artifact.path)
      (observeSemantic env) fun _ => Made files artifact.path :=
    ensures_made (within_observeSemantic env fun _ => id)
  refine ensures_bind hobserve (fun observation => ?_) fun err _ hs => hs.ends err
  exact (capturesInto_captureImage captureMode _).ends fun _ => ⟨_, _, _, rfl⟩

/-- **What a failed capture leaves behind.**  Whatever the arguments are and wherever the
call fails: the directory of the artifacts has the files it had before exactly if every
file that the call has made was captured into, was reported by the capture as a file not
to be kept, under the very path it was made at, and could be removed. -/
theorem capture_artifacts_iff (home : Option String) :
    LeavesArtifacts home (screenCapture env args mode) ∧ LeavesArtifacts home (image env args mode) ∧
      LeavesArtifacts home (see env args mode) :=
  ⟨screenCapture_leaves env args mode, image_leaves env args mode, see_leaves env args mode⟩

end

/-- A host that knows one mode of capture. -/
def screenHost : Externals :=
  { bareHost with parseImageMode := fun name => if name = "screen" then some .screen else none }

/-- The arguments of `image` with a mode of capture that there is not. -/
def unknownMode : Value := .object [("mode", .string "nope")]

/-- The call makes the file, and then it fails. -/
theorem image_unknownMode : image screenHost unknownMode .full = flatten (do
    ensureScreenshotReferenceSupported screenHost
    let _artifact ← newArtifact screenHost
    throw .peekaboo) := by
  have happ : strArg unknownMode "app" = none := by decide
  have hmode : imageModeArg screenHost unknownMode = throw .peekaboo := by
    have hname : (strArg unknownMode "mode").getD "screen" = "nope" := by decide
    rw [imageModeArg, hname]
    rfl
  unfold image
  rw [happ, hmode]
  rfl

/-- Such a call leaves an empty file where there was none. -/
theorem image_leaves_artifact :
    ∃ value q' files' t, (artifactsWorld (some "/home/me")).recording.Finishes
      (image screenHost unknownMode .full []) (∅, []) (value, q') (files', t) ∧
        value.get "isError" = some (.bool true) ∧ files' ≠ ∅ := by
  let path := joinPath (artifactsDir "/home/me") "00000000000000000000000000000000.png"
  have hinside : InArtifacts (some "/home/me") path := ⟨"/home/me", _, rfl, rfl⟩
  rw [image_unknownMode]
  refine ⟨Mcp.errResult ToolExecError.peekaboo.text, [], insert path ∅, ?t, ?run, rfl,
    (Set.insert_nonempty path ∅).ne_empty⟩
  case run =>
    refine .record (some "/home/me") ⟨rfl, fun _ => rfl⟩ ?_
    refine .record (.ok ()) rfl ?_
    refine .record (.ok ()) rfl ?_
    refine .record (.ok ()) rfl ?_
    refine .record (.ok ()) rfl ?_
    refine .record (fun _ => 0) rfl ?_
    refine .record (.ok ()) ⟨fun h => h, fun _ => rfl, fun h => absurd hinside h⟩ ?_
    refine .record (.ok ()) rfl ?_
    refine .record (.ok ()) rfl ?_
    refine .record (.ok ()) rfl ?_
    exact .pure _ _

end ComputerUse
end FolkAround
