import FolkAround.Core.Bearer
import FolkAround.Lib.Interleaving

/-!
# One token for everyone

Any number of calls of `loadOrCreateHttpBearer` in any number of processes share one
home.  A call may fail or be killed at any step.

* `creators`, `written` — who created the file, and how many bytes were written to it,
  read off the trace.
* `TokenFile` — the invariant: the file is what it was in the beginning, or one call
  created it and has written that much of a token.
* `bearerConduct` — with it, what calls do to each other: nobody changes a file of 64
  bytes, and nobody writes to a file another call created.
* `triple_loadOrCreate` — a call by itself; `bearer_agreement` — all calls together
  return one token.
-/

namespace FolkAround
namespace Core

open Effects Effects.Conduct

variable {ι : Type}

/-! ## What the trace says of the file -/

section

variable (path : String)

/-- The effect created the file. -/
def creates : Event ι Op Answer → Bool
  | ⟨_, .openNew p _, result⟩ => decide (p = path) && (result : Except IoError Unit).isOk
  | _ => false

/-- How many bytes the effect wrote to the file. -/
def bytesWritten : Event ι Op Answer → Nat
  | ⟨_, .write p _, result⟩ =>
    match (result : Except IoError Nat) with
    | .ok count => if p = path then count else 0
    | .error _ => 0
  | _ => 0

def creators (trace : List (Event ι Op Answer)) : List ι :=
  (trace.filter (creates path)).map Event.who

def written (trace : List (Event ι Op Answer)) : Nat :=
  trace.foldl (fun count ev => count + bytesWritten path ev) 0

end

variable {path : String}

theorem creators_concat (trace : List (Event ι Op Answer)) (ev : Event ι Op Answer) :
    creators path (trace ++ [ev]) =
      creators path trace ++ if creates path ev then [ev.who] else [] := by
  rw [creators, List.filter_append, List.map_append, creators]
  cases h : creates path ev with
  | true => simp [h]
  | false => simp [h]

theorem written_concat (trace : List (Event ι Op Answer)) (ev : Event ι Op Answer) :
    written path (trace ++ [ev]) = written path trace + bytesWritten path ev := by
  rw [written, List.foldl_append]
  rfl

theorem not_mem_creators {trace : List (Event ι Op Answer)} {i j : ι}
    (h : creators path trace = [i]) (hj : j ≠ i) : j ∉ creators path trace := by
  rw [h, List.mem_singleton]
  exact hj

/-! ## The invariant and the conduct -/

/-- The file, where `initial` was found in the beginning. -/
inductive TokenFile (initial : Option Entry) (path : String) : Seen ι Op Answer Disk → Prop where
  | untouched {s : Seen ι Op Answer Disk} :
      creators path s.2 = [] → written path s.2 = 0 → s.1 path = initial → TokenFile initial path s
  | created {s : Seen ι Op Answer Disk} (i : ι) (bytes : Bytes) :
      creators path s.2 = [i] → initial = none → s.1 path = some ⟨true, bytes⟩ →
      bytes.length = written path s.2 → bytes.length ≤ httpBearerHexLen →
      (∀ b ∈ bytes, isHexByte b = true) → TokenFile initial path s

/-- What the others leave alone. -/
structure Leaves (path : String) (i : ι) (s s' : Seen ι Op Answer Disk) : Prop where
  own : creators path s.2 = [i] → creators path s'.2 = [i] ∧ s'.1 path = s.1 path
  notOwn : i ∉ creators path s.2 → i ∉ creators path s'.2
  complete : ∀ entry, s.1 path = some entry → entry.contents.length = httpBearerHexLen →
    s'.1 path = some entry

def bearerConduct (ι : Type) (initial : Option Entry) (path : String) : Conduct ι Op Answer Disk where
  invariant := TokenFile initial path
  interference := Leaves path

/-! ## Assertions -/

/-- The file was not created by this call. -/
def Idle (path : String) (i : ι) (s : Seen ι Op Answer Disk) : Prop := i ∉ creators path s.2

/-- The file was created by this call, which has written so much to it. -/
def Writing (path : String) (i : ι) (bytes : Bytes) (s : Seen ι Op Answer Disk) : Prop :=
  creators path s.2 = [i] ∧ s.1 path = some ⟨true, bytes⟩

/-- The file has all its bytes. -/
def Complete (path : String) (bytes : Bytes) (s : Seen ι Op Answer Disk) : Prop :=
  bytes.length = httpBearerHexLen ∧ ∃ entry, s.1 path = some entry ∧ entry.contents = bytes

variable {initial : Option Entry} {i : ι}

theorem stable_idle : (bearerConduct ι initial path).Stable i (Idle path i) :=
  fun _ _ _ _ hleaves hp => hleaves.notOwn hp

theorem stable_writing (bytes : Bytes) :
    (bearerConduct ι initial path).Stable i (Writing path i bytes) := by
  rintro s s' - - hleaves ⟨hown, hfile⟩
  obtain ⟨hown', hfile'⟩ := hleaves.own hown
  exact ⟨hown', hfile'.trans hfile⟩

theorem stable_complete (bytes : Bytes) :
    (bearerConduct ι initial path).Stable i (Complete path bytes) := by
  rintro s s' - - hleaves ⟨hlen, entry, hfile, rfl⟩
  exact ⟨hlen, entry, hleaves.complete entry hfile hlen, rfl⟩

/-! ## Effects that do not touch the file -/

/-- Such an effect is no creation and no write. -/
def Quiet (path : String) (ev : Event ι Op Answer) : Prop :=
  creates path ev = false ∧ bytesWritten path ev = 0

/-- What an assertion can see: the file, and who created it. -/
def view (path : String) (s : Seen ι Op Answer Disk) : Option Entry × List ι :=
  (s.1 path, creators path s.2)

theorem view_quiet {s : Seen ι Op Answer Disk} {op : Op} {r : Answer op} {disk : Disk}
    (hev : Quiet path (⟨i, op, r⟩ : Event ι Op Answer)) (hdisk : disk = s.1) :
    view path (s.next i op r disk) = view path s ∧
      written path (s.next i op r disk).2 = written path s.2 := by
  obtain ⟨hcreate, hwrite⟩ := hev
  constructor
  · rw [view, Seen.next, creators_concat, hcreate, hdisk]
    simp [view]
  · rw [Seen.next, written_concat, hwrite, Nat.add_zero]

theorem guarantee_quiet {s : Seen ι Op Answer Disk} {op : Op} {r : Answer op} {disk : Disk}
    (hs : TokenFile initial path s) (hev : Quiet path (⟨i, op, r⟩ : Event ι Op Answer))
    (hdisk : disk = s.1) :
    (bearerConduct ι initial path).Guarantee i s (s.next i op r disk) := by
  obtain ⟨hview, hwritten⟩ := view_quiet hev hdisk
  obtain ⟨hfile, hcreators⟩ := Prod.mk.inj hview
  constructor
  · cases hs with
    | untouched hnone hzero hinitial =>
        exact .untouched (hcreators.trans hnone) (hwritten.trans hzero) (hfile.trans hinitial)
    | created j bytes hone hinitial hbytes hlen hle hhex =>
        exact .created j bytes (hcreators.trans hone) hinitial (hfile.trans hbytes)
          (hlen.trans hwritten.symm) hle hhex
  · intro j _
    refine ⟨fun hown => ⟨hcreators.trans hown, hfile⟩, fun hown => ?_, fun entry hentry _ => ?_⟩
    · rw [hcreators]
      exact hown
    · exact hfile.trans hentry

/-- The assertion is about the file and its creator alone. -/
def Visible (path : String) (P : Seen ι Op Answer Disk → Prop) : Prop :=
  ∀ s s', view path s' = view path s → P s → P s'

theorem visible_idle : Visible path (Idle path i) := by
  intro s s' hview hp
  have hcreators : creators path s'.2 = creators path s.2 := congrArg Prod.snd hview
  rw [Idle, hcreators]
  exact hp

theorem visible_writing (bytes : Bytes) : Visible path (Writing path i bytes) := by
  rintro s s' hview ⟨hown, hfile⟩
  exact ⟨(congrArg Prod.snd hview).trans hown, (congrArg Prod.fst hview).trans hfile⟩

theorem visible_complete (bytes : Bytes) :
    Visible path (Complete path bytes : Seen ι Op Answer Disk → Prop) := by
  rintro s s' hview ⟨hlen, entry, hfile, hbytes⟩
  exact ⟨hlen, entry, (congrArg Prod.fst hview).trans hfile, hbytes⟩

variable {home : Option String} {P : Seen ι Op Answer Disk → Prop}

/-- A quiet effect keeps what was known, and its answer is one for the disk as it is. -/
theorem triple_quiet (op : Op) (hquiet : ∀ r, Quiet path (⟨i, op, r⟩ : Event ι Op Answer))
    (hdisk : ∀ disk r disk', answers home disk op r disk' → disk' = disk)
    (hP : (bearerConduct ι initial path).Stable i P) (hvisible : Visible path P)
    {Q : Answer op → Seen ι Op Answer Disk → Prop}
    (hQ : ∀ r, (bearerConduct ι initial path).Stable i (Q r))
    (h : ∀ s r, answers home s.1 op r s.1 → P s → (∀ s', s'.1 = s.1 → P s' → Q r s')) :
    (bearerConduct ι initial path).Triple (answers home) i P (perform op) Q := by
  refine triple_effect hP hQ ?_
  intro s r disk hs hp hanswer
  have hsame := hdisk _ _ _ hanswer
  refine ⟨guarantee_quiet hs (hquiet r) hsame, ?_⟩
  rw [hsame] at hanswer ⊢
  exact h s r hanswer hp _ rfl (hvisible _ _ (view_quiet (hquiet r) rfl).1 hp)

/-- A call that ends well ended well. -/
theorem triple_call {α : Type} {x : Files (Except IoError α)}
    {Q : α → Seen ι Op Answer Disk → Prop}
    (hQ : ∀ a, (bearerConduct ι initial path).Stable i (Q a))
    (hx : (bearerConduct ι initial path).Triple (answers home) i P x (OnOk Q)) :
    (bearerConduct ι initial path).Triple (answers home) i P (call x).run (OnOk Q) := by
  refine triple_except_bind (triple_except_lift (stable_onOk hQ) hx) fun answer => ?_
  cases answer with
  | ok value => exact triple_except_pure value (hQ value)
  | error err => exact triple_throw _

/-- A call that does not touch the file keeps what was known. -/
theorem triple_skip {x : Files (Except IoError Unit)}
    (hP : (bearerConduct ι initial path).Stable i P)
    (hx : (bearerConduct ι initial path).Triple (answers home) i P x fun _ => P) :
    (bearerConduct ι initial path).Triple (answers home) i P (call x).run (OnOk fun _ => P) := by
  refine triple_call (fun _ => hP) (triple_post ?_ hx)
  intro answer s hp
  cases answer with
  | ok value => exact hp
  | error err => trivial

section

variable (hP : (bearerConduct ι initial path).Stable i P) (hvisible : Visible path P)

include hP hvisible

theorem triple_createDirAll (p : String) :
    (bearerConduct ι initial path).Triple (answers home) i P (call (perform (.createDirAll p))).run
      (OnOk fun _ => P) :=
  triple_skip hP (triple_quiet (.createDirAll p) (fun _ => ⟨rfl, rfl⟩) (fun _ _ _ h => h) hP hvisible
    (fun _ => hP) fun _ _ _ _ _ _ hp => hp)

theorem triple_setPermissions (p : String) (mode : Nat) :
    (bearerConduct ι initial path).Triple (answers home) i P
      (call (perform (.setPermissions p mode))).run (OnOk fun _ => P) :=
  triple_skip hP (triple_quiet (.setPermissions p mode) (fun _ => ⟨rfl, rfl⟩) (fun _ _ _ h => h) hP
    hvisible
    (fun _ => hP) fun _ _ _ _ _ _ hp => hp)

theorem triple_openFile (p : String) :
    (bearerConduct ι initial path).Triple (answers home) i P (call (perform (.openFile p))).run
      (OnOk fun _ => P) :=
  triple_skip hP (triple_quiet (.openFile p) (fun _ => ⟨rfl, rfl⟩) (fun _ _ _ h => h) hP hvisible
    (fun _ => hP) fun _ _ _ _ _ _ hp => hp)

theorem triple_syncAll (p : String) :
    (bearerConduct ι initial path).Triple (answers home) i P (call (perform (.syncAll p))).run
      (OnOk fun _ => P) :=
  triple_skip hP (triple_quiet (.syncAll p) (fun _ => ⟨rfl, rfl⟩) (fun _ _ _ h => h) hP hvisible
    (fun _ => hP) fun _ _ _ _ _ _ hp => hp)

theorem triple_restrictFilePermissions (unix : Bool) (p : String) :
    (bearerConduct ι initial path).Triple (answers home) i P (restrictFilePermissions unix p).run
      (OnOk fun _ => P) := by
  cases unix with
  | true => exact triple_setPermissions hP hvisible p _
  | false => exact triple_except_pure (Q := fun _ => P) () hP

theorem triple_ensurePrivateDir (unix : Bool) (p : String) :
    (bearerConduct ι initial path).Triple (answers home) i P (ensurePrivateDir unix p).run
      (OnOk fun _ => P) := by
  refine triple_except_bind (triple_createDirAll hP hvisible p) fun _ => ?_
  cases unix with
  | true => exact triple_setPermissions hP hvisible p _
  | false => exact triple_except_pure (Q := fun _ => P) () hP

theorem triple_syncDir (p : String) :
    (bearerConduct ι initial path).Triple (answers home) i P (syncDir p).run (OnOk fun _ => P) :=
  triple_except_bind (triple_openFile hP hvisible p) fun _ => triple_syncAll hP hvisible p

/-- The directory is the one in the home. -/
theorem triple_configDir :
    (bearerConduct ι initial path).Triple (answers home) i P configDir.run
      (OnOk fun dir s => home.map configDirIn = some dir ∧ P s) := by
  have hfact : ∀ fact : Prop, (bearerConduct ι initial path).Stable i fun s => fact ∧ P s :=
    fun fact => (stable_const fact).and hP
  have hvar := triple_quiet (.var "HOME") (fun _ => ⟨rfl, rfl⟩)
    (fun _ _ _ h => h.1) hP hvisible (fun value => hfact (home = value))
    fun s value hanswer _ s' _ hp => ⟨(hanswer.2 rfl).symm, hp⟩
  refine triple_except_bind
    (triple_except_lift (fun value => hfact (home = value)) hvar) fun value => ?_
  cases value with
  | none => exact triple_throw _
  | some h =>
      refine triple_assuming fun hhome => ?_
      refine triple_weaken (fun s _ hp => ⟨?_, hp⟩)
        (triple_except_pure (Q := fun dir s => home.map configDirIn = some dir ∧ P s) _ (hfact _))
      rw [hhome]
      rfl

theorem triple_generateHttpBearer :
    (bearerConduct ι initial path).Triple (answers home) i P generateHttpBearer
      fun token s => IsBearer token ∧ P s := by
  refine triple_bind (Q := fun _ => P) ?_ fun bytes => ?_
  · exact triple_quiet (.random httpBearerBytes) (fun _ => ⟨rfl, rfl⟩) (fun _ _ _ h => h) hP hvisible
      (fun _ => hP) fun _ _ _ _ _ _ hp => hp
  · exact triple_weaken (fun s _ hp => ⟨isBearer_ofFn bytes, hp⟩)
      (triple_pure (Q := fun token s => IsBearer token ∧ P s) _ ((stable_const _).and hP))

end

/-! ## Creating the file -/

theorem triple_openNewPrivateFile :
    (bearerConduct ι initial path).Triple (answers home) i (Idle path i) (openNewPrivateFile path)
      fun opened => match opened with
        | .ok _ => Writing path i []
        | .error _ => Idle path i := by
  refine triple_effect stable_idle (fun opened => ?_) ?_
  · cases opened with
    | ok value => exact stable_writing []
    | error err => exact stable_idle
  · intro s opened disk hs hidle hanswer
    cases opened with
    | ok value =>
        obtain ⟨hfree, rfl⟩ := hanswer
        -- the file was not there, so nobody created it
        cases hs with
        | created j bytes _ _ hbytes => exact absurd (hbytes.symm.trans hfree) (by simp)
        | untouched hnone hzero hinitial =>
            have hcreators : creators path (s.2 ++ [⟨i, .openNew path 0o600, .ok value⟩]) = [i] := by
              rw [creators_concat, hnone]
              simp [creates, Except.isOk, Except.toBool]
            have hfile : Function.update s.1 path (some ⟨true, []⟩) path = some ⟨true, []⟩ :=
              Function.update_self ..
            refine ⟨⟨.created i [] hcreators (hinitial.symm.trans hfree) hfile ?_ (Nat.zero_le _)
              (by simp), fun j hj => ⟨fun hown => ?_, fun _ => ?_, fun entry hentry _ => ?_⟩⟩,
              hcreators, hfile⟩
            · refine Eq.trans ?_ (written_concat s.2 _).symm
              rw [hzero]
              rfl
            · exact absurd (hnone.symm.trans hown) (by simp)
            · exact not_mem_creators hcreators hj
            · exact absurd (hentry.symm.trans hfree) (by simp)
    | error err =>
        have hquiet : Quiet path (⟨i, .openNew path 0o600, .error err⟩ : Event ι Op Answer) := by
          constructor
          · exact Bool.and_false _
          · rfl
        have hdisk : disk = s.1 := by
          cases err with
          | alreadyExists => exact hanswer.2
          | notFound => exact hanswer
          | other => exact hanswer
        exact ⟨guarantee_quiet hs hquiet hdisk, visible_idle _ _ (view_quiet hquiet hdisk).1 hidle⟩

/-- The bytes that one write may add. -/
structure Fits (done rest : Bytes) : Prop where
  length : (done ++ rest).length ≤ httpBearerHexLen
  hex : ∀ b ∈ done ++ rest, isHexByte b = true

theorem Fits.take {done rest : Bytes} (h : Fits done rest) (count : Nat) :
    Fits (done ++ rest.take count) (rest.drop count) := by
  have hsplit : done ++ rest.take count ++ rest.drop count = done ++ rest := by
    rw [List.append_assoc, List.take_append_drop]
  constructor
  · rw [hsplit]
    exact h.length
  · rw [hsplit]
    exact h.hex

theorem triple_write {done rest : Bytes} (h : Fits done rest) :
    (bearerConduct ι initial path).Triple (answers home) i (Writing path i done)
      (perform (.write path rest)) (OnOk fun count => Writing path i (done ++ rest.take count)) := by
  refine triple_effect (stable_writing done) (stable_onOk fun count => stable_writing _) ?_
  rintro s result disk hs ⟨hown, hfile⟩ hanswer
  cases result with
  | error err =>
      have hquiet : Quiet path (⟨i, .write path rest, .error err⟩ : Event ι Op Answer) := ⟨rfl, rfl⟩
      exact ⟨guarantee_quiet hs hquiet hanswer, trivial⟩
  | ok count =>
      obtain ⟨entry, hentry, hcount, rfl⟩ := hanswer
      cases Option.some.inj (hentry.symm.trans hfile)
      cases hs with
      | untouched hnone => exact absurd (hnone.symm.trans hown) (by simp)
      | created j bytes _ hinitial hbytes hlen hle hhex =>
          have hdone : bytes = done := by
            rw [hbytes] at hfile
            exact congrArg Entry.contents (Option.some.inj hfile)
          subst hdone
          have hcreators : creators path (s.2 ++ [⟨i, .write path rest, .ok count⟩]) = [i] := by
            rw [creators_concat, hown]
            rfl
          have hfile' : Function.update s.1 path (some ⟨true, bytes ++ rest.take count⟩) path =
              some ⟨true, bytes ++ rest.take count⟩ := Function.update_self ..
          have hfits := (h.take count)
          refine ⟨⟨.created i _ hcreators hinitial hfile' ?_ ?_ ?_, fun j hj =>
            ⟨fun hown' => ?_, fun hown' => ?_, fun entry' hentry' hfull => ?_⟩⟩, hcreators, hfile'⟩
          · refine Eq.trans ?_ (written_concat s.2 _).symm
            rw [← hlen, List.length_append, List.length_take_of_le hcount]
            simp [bytesWritten]
          · exact (List.length_append ▸ Nat.le_add_right _ _).trans hfits.length
          · exact fun b hb => hfits.hex b (List.mem_append_left _ hb)
          · exact absurd (List.singleton_inj.1 (hown.symm.trans hown')).symm hj
          · exact not_mem_creators hcreators hj
          · -- a file with all its bytes takes no more
            have hbytes' : entry'.contents = bytes := by
              rw [hbytes] at hentry'
              exact (congrArg Entry.contents (Option.some.inj hentry')).symm
            have hrest : rest = [] := by
              have hroom := h.length
              rw [List.length_append, ← hbytes', hfull] at hroom
              exact List.length_eq_zero_iff.1 (by omega)
            refine hfile'.trans ?_
            rw [hrest, List.take_nil, List.append_nil, ← hbytes, hentry']

theorem triple_writeAll {done rest : Bytes} (h : Fits done rest) :
    (bearerConduct ι initial path).Triple (answers home) i (Writing path i done)
      (writeAll path rest).run (OnOk fun _ => Writing path i (done ++ rest)) := by
  induction hlen : rest.length using Nat.strong_induction_on generalizing done rest with
  | _ n ih =>
      rw [writeAll]
      split
      · rename_i hrest
        rw [hrest, List.append_nil]
        exact triple_except_pure (Q := fun _ => Writing path i done) () (stable_writing done)
      · rename_i hrest
        refine triple_except_bind (triple_call (fun count => stable_writing _) (triple_write h))
          fun count => ?_
        split
        · exact triple_throw _
        · rename_i hcount
          have hpos : 0 < rest.length := List.length_pos_iff.2 hrest
          have hsplit : done ++ rest.take count ++ rest.drop count = done ++ rest := by
            rw [List.append_assoc, List.take_append_drop]
          rw [← hsplit]
          refine ih (rest.drop count).length ?_ (h.take count) rfl
          rw [List.length_drop]
          omega

/-- The token is in the file. -/
def Holds (path : String) (token : String) (s : Seen ι Op Answer Disk) : Prop :=
  IsBearer token ∧ Complete path (Utf8.encode token.toList) s

theorem stable_holds (token : String) :
    (bearerConduct ι initial path).Stable i (Holds path token) :=
  (stable_const _).and (stable_complete _)

theorem visible_holds (token : String) :
    Visible path (Holds path token : Seen ι Op Answer Disk → Prop) :=
  fun s s' hview h => ⟨h.1, visible_complete _ s s' hview h.2⟩

theorem IsBearer.fits {token : String} (h : IsBearer token) :
    Fits [] (Utf8.encode token.toList) := by
  have hvalid := validHttpBearer_iff.2 h
  rw [validHttpBearer, Bool.and_eq_true, beq_iff_eq, List.all_eq_true] at hvalid
  exact ⟨hvalid.1.le, hvalid.2⟩

/-- Whoever created the file puts a token into it. -/
theorem triple_createHttpBearer {dir : String} (hpath : path = tokenPathIn dir) :
    (bearerConduct ι initial path).Triple (answers home) i (Writing path i [])
      (createHttpBearer dir).run (OnOk (Holds path)) := by
  rw [createHttpBearer, ← hpath]
  refine triple_except_bind (triple_except_lift
    (fun token => (stable_const (IsBearer token)).and (stable_writing []))
    (triple_generateHttpBearer (stable_writing []) (visible_writing []))) fun token => ?_
  refine triple_assuming fun htoken => ?_
  refine triple_except_bind (Q := fun _ => Holds path token) ?_ fun _ => ?_
  · refine triple_post ?_ (triple_writeAll htoken.fits)
    intro result s hq
    cases result with
    | ok value => exact ⟨htoken, htoken.length_encode, _, hq.2, rfl⟩
    | error err => trivial
  · have hstable : (bearerConduct ι initial path).Stable i (Holds path token) := stable_holds token
    refine triple_except_bind (triple_syncAll hstable (visible_holds token) path) fun _ => ?_
    refine triple_except_bind (triple_syncDir hstable (visible_holds token) dir) fun _ => ?_
    exact triple_except_pure token hstable

/-! ## Reading the file -/

theorem triple_read {bytes : Bytes} (offset limit : Nat) :
    (bearerConduct ι initial path).Triple (answers home) i (Complete path bytes)
      (call (perform (.read path offset limit))).run
      (OnOk fun got s => (got <+: (bytes.drop offset).take limit ∧
        (got = [] → (bytes.drop offset).take limit = [])) ∧ Complete path bytes s) := by
  refine triple_call (fun got => (stable_const _).and (stable_complete bytes)) ?_
  refine triple_quiet (.read path offset limit) (fun _ => ⟨rfl, rfl⟩) (fun _ _ _ h => h.1)
    (stable_complete bytes) (visible_complete bytes)
    (stable_onOk fun got => (stable_const _).and (stable_complete bytes)) ?_
  intro s result hanswer hp s' _ hp'
  cases result with
  | error err => trivial
  | ok got =>
      obtain ⟨-, entry, hentry, hgot, hend⟩ := hanswer
      obtain ⟨-, entry', hentry', rfl⟩ := hp
      cases Option.some.inj (hentry.symm.trans hentry')
      exact ⟨⟨hgot, hend⟩, hp'⟩

/-- A complete file is read to its end: there is room for one byte more. -/
theorem triple_readToEnd {bytes sofar : Bytes} {limit : Nat} (hsofar : sofar <+: bytes)
    (hbytes : bytes.length = httpBearerHexLen)
    (hlimit : sofar.length + limit = httpBearerHexLen + 1) :
    (bearerConduct ι initial path).Triple (answers home) i (Complete path bytes)
      (readToEnd path sofar limit).run
      (OnOk fun got s => got = bytes ∧ Complete path bytes s) := by
  induction hn : limit using Nat.strong_induction_on generalizing sofar limit with
  | _ n ih =>
      subst hn
      have hle := hsofar.length_le
      rw [readToEnd]
      split
      · omega
      · refine triple_except_bind (triple_read sofar.length limit) fun got => ?_
        refine triple_assuming fun hgot => ?_
        obtain ⟨hstart, hend⟩ := hgot
        split
        · rename_i hnil
          -- nothing is left
          have hdone : sofar = bytes := by
            have hempty := hend hnil
            have hshort := congrArg List.length hempty
            rw [List.length_take, List.length_drop, List.length_nil] at hshort
            exact hsofar.eq_of_length (by omega)
          rw [hdone]
          exact triple_weaken (fun s _ hp => ⟨rfl, hp⟩)
            (triple_except_pure bytes ((stable_const (bytes = bytes)).and (stable_complete bytes)))
        · rename_i hgot
          have hpos : 0 < got.length := List.length_pos_iff.2 hgot
          have hlen : got.length ≤ limit :=
            hstart.length_le.trans ((List.length_take ..).trans_le (Nat.min_le_left ..))
          have hmore : sofar ++ got <+: bytes := by
            obtain ⟨rest, rfl⟩ := hsofar
            rw [List.drop_left] at hstart
            exact (List.prefix_append_right_inj sofar).2 (hstart.trans (List.take_prefix ..))
          refine ih (limit - got.length) (by omega) hmore ?_ rfl
          rw [List.length_append]
          omega

theorem triple_readText {bytes : Bytes} (hbytes : bytes.length = httpBearerHexLen) :
    (bearerConduct ι initial path).Triple (answers home) i (Complete path bytes)
      (readText path (httpBearerHexLen + 1)).run
      (OnOk fun token s => Utf8.encode token.toList = bytes ∧ Complete path bytes s) := by
  refine triple_except_bind (triple_readToEnd (List.nil_prefix ..) hbytes ?_) fun got => ?_
  · exact Nat.zero_add _
  · refine triple_assuming fun hgot => ?_
    split
    · exact triple_throw _
    · rename_i text htext
      have hencode : Utf8.encode (String.ofList text).toList = bytes := by
        rw [String.toList_ofList, ← hgot]
        exact (Utf8.fromUtf8_eq_some_iff.1 htext).symm
      refine triple_weaken (T := fun s => _ ∧ Complete path bytes s) (fun s _ hp => ⟨hencode, hp⟩) ?_
      exact triple_except_pure
        (Q := fun (token : String) s => Utf8.encode token.toList = bytes ∧ Complete path bytes s)
        (String.ofList text) ((stable_const _).and (stable_complete bytes))

/-- A file found to have all its bytes has them. -/
theorem triple_symlinkMetadata :
    (bearerConduct ι initial path).Triple (answers home) i (fun _ => True)
      (call (perform (.symlinkMetadata path))).run
      (OnOk fun metadata s => ∃ bytes, metadata.isFile = true → metadata.len = httpBearerHexLen →
        Complete path bytes s) := by
  have hstable : ∀ metadata : Metadata, (bearerConduct ι initial path).Stable i fun s =>
      ∃ bytes, metadata.isFile = true → metadata.len = httpBearerHexLen →
        Complete path bytes s := by
    intro metadata
    refine stable_exists fun bytes s s' hs hs' hleaves hp hfile hlen => ?_
    exact stable_complete bytes s s' hs hs' hleaves (hp hfile hlen)
  refine triple_call hstable ?_
  refine triple_quiet (.symlinkMetadata path) (fun _ => ⟨rfl, rfl⟩) (fun _ _ _ h => h.1)
    (stable_const True) (fun _ _ _ _ => trivial) (stable_onOk hstable) ?_
  intro s result hanswer _ s' hsame _
  cases result with
  | error err => trivial
  | ok metadata =>
      obtain ⟨-, entry, hentry, hisFile, hlen⟩ := hanswer
      refine ⟨entry.contents, fun hfile hfull => ⟨?_, entry, ?_, rfl⟩⟩
      · rw [← hlen (hisFile.symm.trans hfile), hfull]
      · rw [hsame, hentry]

/-- Whoever finds the file reads the token in it, or fails. -/
theorem triple_loadHttpBearer (unix : Bool) {dir : String} (hpath : path = tokenPathIn dir) :
    (bearerConduct ι initial path).Triple (answers home) i (fun _ => True)
      (loadHttpBearer unix dir).run (OnOk (Holds path)) := by
  rw [loadHttpBearer, ← hpath]
  refine triple_except_bind triple_symlinkMetadata fun metadata => ?_
  split
  · exact triple_throw _
  · rename_i hchecked
    rw [not_or, Bool.not_eq_false, not_not] at hchecked
    obtain ⟨hfile, hlen⟩ := hchecked
    refine triple_exists fun bytes => ?_
    refine triple_weaken (T := Complete path bytes) (fun s _ hp => hp hfile hlen) ?_
    have hstable : (bearerConduct ι initial path).Stable i (Complete path bytes) :=
      stable_complete bytes
    refine triple_except_bind
      (triple_restrictFilePermissions hstable (visible_complete bytes) unix path) fun _ => ?_
    refine triple_except_bind (triple_openFile hstable (visible_complete bytes) path) fun _ => ?_
    refine triple_weaken (T := fun s => bytes.length = httpBearerHexLen ∧ Complete path bytes s)
      (fun s _ hp => ⟨hp.1, hp⟩) (triple_assuming fun hbytes => ?_)
    refine triple_except_bind (triple_readText hbytes) fun token => ?_
    refine triple_assuming fun htoken => ?_
    split
    · rename_i hvalid
      have hbearer := validHttpBearer_iff.1 hvalid
      rw [← htoken]
      exact triple_weaken (T := Holds path token) (fun s _ hp => ⟨hbearer, hp⟩)
        (triple_except_pure token (stable_holds token))
    · exact triple_throw _

/-- **A call by itself.**  Whatever the others do: what it returns is a token, and the
token is in the file. -/
theorem triple_loadOrCreate (unix : Bool)
    (hpath : ∀ dir, home.map configDirIn = some dir → path = tokenPathIn dir) :
    (bearerConduct ι initial path).Triple (answers home) i (Idle path i)
      (loadOrCreateHttpBearer unix).run (OnOk (Holds path)) := by
  rw [loadOrCreateHttpBearer]
  split
  · refine triple_except_bind (triple_configDir stable_idle visible_idle) fun dir => ?_
    refine triple_assuming fun hdir => ?_
    refine triple_except_bind (triple_ensurePrivateDir stable_idle visible_idle unix dir)
      fun _ => ?_
    rw [← hpath dir hdir]
    refine triple_except_bind (triple_except_lift (fun opened => ?_) triple_openNewPrivateFile)
      fun opened => ?_
    · cases opened with
      | ok value => exact stable_writing []
      | error err => exact stable_idle
    · cases opened with
      | ok value => exact triple_createHttpBearer (hpath dir hdir)
      | error err =>
          cases err with
          | alreadyExists =>
              exact triple_weaken (fun _ _ _ => trivial) (triple_loadHttpBearer unix (hpath dir hdir))
          | notFound => exact triple_throw _
          | other => exact triple_throw _
  · exact triple_throw _

/-! ## All calls together -/

/-- Where the token of a home is. -/
def tokenPath (home : Option String) : String := ((home.map configDirIn).map tokenPathIn).getD ""

theorem tokenPath_eq {dir : String} (h : home.map configDirIn = some dir) :
    tokenPath home = tokenPathIn dir := by
  rw [tokenPath, h]
  rfl

section

variable [DecidableEq ι] {unix : Bool} {disk : Disk}
  {c c' : Pool ι Op Answer Disk (Except ConfigError String)}

/-- The invariant holds all along, and every call that has returned did so with the token
that is in the file. -/
theorem reaches_bearer
    (h : Reaches (answers home) (.start (loadOrCreateHttpBearer unix).run disk) c) :
    TokenFile (disk (tokenPath home)) (tokenPath home) c.seen ∧
      ∀ i token, c.progs i = .pure (.ok token) → Holds (tokenPath home) token c.seen := by
  have hinitial : TokenFile (disk (tokenPath home)) (tokenPath home)
      ((disk, []) : Seen ι Op Answer Disk) := .untouched rfl rfl rfl
  have hsafe : ∀ i, (bearerConduct ι (disk (tokenPath home)) (tokenPath home)).Safe
      (answers home) i (OnOk (Holds (tokenPath home))) (loadOrCreateHttpBearer unix).run
      (disk, []) :=
    fun i => triple_loadOrCreate unix (fun dir => tokenPath_eq) _ hinitial (by simp [Idle, creators])
  refine ⟨(reaches_safe h hinitial hsafe).1, fun i token hi => ?_⟩
  exact reaches_result (Q := fun _ => OnOk (Holds (tokenPath home))) h hinitial hsafe hi

/-- **One token for everyone.**  Take any number of calls that have come to a point, and
go on from there: what one call had returned by then is what every call returns that
ends well, and it is a token. -/
theorem bearer_agreement
    (h : Reaches (answers home) (.start (loadOrCreateHttpBearer unix).run disk) c)
    (h' : Reaches (answers home) c c') {i j : ι} {t u : String}
    (hi : c.progs i = .pure (.ok t)) (hj : c'.progs j = .pure (.ok u)) : u = t ∧ IsBearer t := by
  obtain ⟨-, hholds⟩ := reaches_bearer (h.trans h')
  obtain ⟨hbearer, -, entry, hentry, ht⟩ := hholds i t (h'.ended hi)
  obtain ⟨-, -, entry', hentry', hu⟩ := hholds j u hj
  cases Option.some.inj (hentry.symm.trans hentry')
  exact ⟨String.toList_inj.1 (Utf8.encode_injective (hu.symm.trans ht)), hbearer⟩

end

/-- One call makes the token, and the next one finds it. -/
theorem bearer_agreement_restart :
    ∃ (c c' : Pool Bool Op Answer Disk (Except ConfigError String)) (t u : String),
      Reaches (answers (some "/home/me"))
        (.start (loadOrCreateHttpBearer true).run fun _ => none) c ∧
      Reaches (answers (some "/home/me")) c c' ∧ c.progs false = .pure (.ok t) ∧
      c'.progs true = .pure (.ok u) ∧ u = t ∧ IsBearer t := by
  have hfirst : World.Finishes (working (some "/home/me")) (loadOrCreateHttpBearer true).run
      (fun _ => none) _ _ := (loadOrCreate_free rfl).2 ⟨_, ⟨fun _ => 0, rfl⟩, rfl, rfl⟩
  obtain ⟨c, hc, hfalse, hdisk, hothers⟩ := start_reaches_of_finishes false hfirst.of_restrict
  have hentry := congrFun hdisk (tokenPathIn (configDirIn "/home/me"))
  rw [Function.update_self] at hentry
  have htoken := tokenIn_eq_ok_iff.2 ⟨isBearer_ofFn fun _ => 0, rfl⟩
  have hsecond := (loadOrCreate_there hentry).2 ⟨htoken.symm, rfl⟩
  obtain ⟨c', hc', htrue, -, -⟩ :=
    reaches_of_finishes hsecond.of_restrict (hothers true (by simp)) rfl
  exact ⟨c, c', _, _, hc, hc', hfalse, htrue, bearer_agreement hc hc' hfalse htrue⟩

end Core
end FolkAround
