import FolkAround.ComputerUse.Enforcement

/-!
# What a restricted command can change

A restricted command is one of a few programs with words that hold none of some
characters.  Four of the programs change something when their words say so.

* `restrictedCommand_iff` — which programs and words are admitted: all that are made of
  plain words.
* `findChanges` — how `find` reads the actions in its words; `fileChanges` is the same
  without the options that run a command, whose end takes a character that is refused.
* `Programs` — what the other three read in theirs; `Mutates` — that a program is told to
  change something.
* `restricted_shell_iff` — when an admitted command changes nothing.
* `shell_harmless` — nor does the tool then.
-/

namespace FolkAround
namespace ComputerUse

open Effects

variable {program : String} {args : List String} {command : String}

/-! ## What is admitted -/

/-- A word that a restricted command can hold. -/
structure PlainWord (word : String) : Prop where
  piece : Text.IsPiece word.toList
  allowed : ∀ ch ∈ word.toList, ch ∉ restrictedShellChars

/-- A command of these words. -/
def joinWords (words : List String) : String :=
  String.ofList (List.intercalate [' '] (words.map String.toList))

theorem commandWords_joinWords {words : List String} (h : ∀ word ∈ words, PlainWord word) :
    commandWords (joinWords words) = words := by
  have hpieces : ∀ w ∈ words.map String.toList, Text.IsPiece w := by
    intro w hw
    obtain ⟨word, hword, rfl⟩ := List.mem_map.1 hw
    exact (h word hword).piece
  rw [commandWords, joinWords, String.toList_ofList, Text.splitWhitespace_intercalate hpieces,
    List.map_map]
  exact List.map_id'' (fun word => String.ofList_toList) words

theorem mem_joinWords {words : List String} {ch : Char} (h : ch ∈ (joinWords words).toList) :
    ch = ' ' ∨ ∃ word ∈ words, ch ∈ word.toList := by
  rw [joinWords, String.toList_ofList] at h
  induction words with
  | nil => exact absurd h List.not_mem_nil
  | cons word words ih =>
      cases words with
      | nil =>
          rw [List.map_singleton, List.intercalate_singleton] at h
          exact .inr ⟨word, List.mem_cons_self, h⟩
      | cons next words =>
          rw [List.map_cons, List.map_cons, List.intercalate_cons_cons, ← List.map_cons] at h
          rcases List.mem_append.1 h with h | h
          · rcases List.mem_append.1 h with h | h
            · exact .inr ⟨word, List.mem_cons_self, h⟩
            · exact .inl (List.mem_singleton.1 h)
          · rcases ih h with h | ⟨other, hother, h⟩
            · exact .inl h
            · exact .inr ⟨other, List.mem_cons_of_mem _ hother, h⟩

theorem piece_of_mem_commandWords {word : String} (h : word ∈ commandWords command) :
    Text.IsPiece word.toList := by
  obtain ⟨w, hw, rfl⟩ := List.mem_map.1 h
  rw [String.toList_ofList]
  exact Text.isPiece_of_mem_splitWhitespace hw

theorem DirectRun.plainWords (h : DirectRun (some command) program args) :
    ∀ word ∈ program :: args, PlainWord word := by
  obtain ⟨text, -, hwords⟩ := h.words
  intro word hword
  exact ⟨piece_of_mem_commandWords (hwords ▸ hword), h.plain word hword⟩

/-- **What is admitted.**  Every allow-listed program is, with any plain words. -/
theorem restrictedCommand_iff :
    (∃ command, restrictedCommand command = some (program, args)) ↔
      program ∈ safeCommands ∧ ∀ word ∈ program :: args, PlainWord word := by
  constructor
  · rintro ⟨command, h⟩
    have hrun := restrictedCommand_eq_some h
    exact ⟨hrun.safe, hrun.plainWords⟩
  · rintro ⟨hsafe, hplain⟩
    refine ⟨joinWords (program :: args), ?_⟩
    have hchars : ¬ ((joinWords (program :: args)).toList.any fun ch =>
        ch ∈ restrictedShellChars) = true := by
      rw [List.any_eq_true]
      rintro ⟨ch, hch, hbad⟩
      rcases mem_joinWords hch with rfl | ⟨word, hword, hmem⟩
      · exact absurd hbad (by decide)
      · exact (hplain word hword).allowed ch hmem (of_decide_eq_true hbad)
    rw [restrictedCommand, if_neg hchars, commandWords_joinWords hplain]
    exact if_pos hsafe

/-! ## What find does -/

/-- The options of `find` that run a command. -/
def execFamily : List String := ["-exec", "-execdir", "-ok", "-okdir"]

/-- How many words follow an option of `find` that deletes or writes. -/
def fileAction : String → Option Nat
  | "-delete" => some 0
  | "-fprint" => some 1
  | "-fprint0" => some 1
  | "-fls" => some 1
  | "-fprintf" => some 2
  | _ => none

/-- Where `find` is in its words. -/
inductive Reading where
  /-- So many words still belong to what was read last. -/
  | operands (count : Nat)
  /-- In the command of an option, after this word of it. -/
  | command (option last : String)

/-- The word that ends the command of an option. -/
def endsCommand (option last word : String) : Prop :=
  word = ";" ∨ option ∈ ["-exec", "-execdir"] ∧ last = "\x7b\x7d" ∧ word = "+"

instance (option last word : String) : Decidable (endsCommand option last word) :=
  inferInstanceAs (Decidable (_ ∨ _ ∧ _ ∧ _))

/-- The actions by which `find` changes something; `none` if it refuses its words, and does
nothing.  `operands` says how many words follow any other word, if `find` knows it. -/
def findChanges (operands : String → Option Nat) : Reading → List String → Option (List String)
  | .operands 0, [] => some []
  | .operands (_ + 1), [] => none
  | .operands 0, word :: words =>
    if word ∈ execFamily then (findChanges operands (.command word "") words).map (word :: ·)
    else
      match fileAction word with
      | some count => (findChanges operands (.operands count) words).map (word :: ·)
      | none => (operands word).bind fun count => findChanges operands (.operands count) words
  | .operands (count + 1), _ :: words => findChanges operands (.operands count) words
  | .command _ _, [] => none
  | .command option last, word :: words =>
    if endsCommand option last word then findChanges operands (.operands 0) words
    else findChanges operands (.command option word) words

/-- The same if an option that runs a command is refused. -/
def fileChanges (operands : String → Option Nat) : Nat → List String → Option (List String)
  | 0, [] => some []
  | _ + 1, [] => none
  | 0, word :: words =>
    if word ∈ execFamily then none
    else
      match fileAction word with
      | some count => (fileChanges operands count words).map (word :: ·)
      | none => (operands word).bind fun count => fileChanges operands count words
  | count + 1, _ :: words => fileChanges operands count words

theorem PlainWord.not_ends {option last word : String} (hlast : PlainWord last ∨ last = "")
    (hword : PlainWord word) : ¬ endsCommand option last word := by
  rintro (rfl | ⟨-, rfl, -⟩)
  · exact hword.allowed ';' (by decide) (by decide)
  · rcases hlast with hlast | hlast
    · exact hlast.allowed '\x7b' (by decide) (by decide)
    · exact absurd hlast (by decide)

/-- Plain words never end the command of an option. -/
theorem findChanges_command {operands : String → Option Nat} {option last : String}
    {words : List String} (hlast : PlainWord last ∨ last = "")
    (h : ∀ word ∈ words, PlainWord word) :
    findChanges operands (.command option last) words = none := by
  induction words generalizing last with
  | nil => rw [findChanges]
  | cons word words ih =>
      have hword := h word List.mem_cons_self
      rw [findChanges, if_neg (hword.not_ends hlast)]
      exact ih (.inl hword) fun other hother => h other (List.mem_cons_of_mem _ hother)

/-- With plain words `find` runs no command. -/
theorem findChanges_plain {operands : String → Option Nat} {count : Nat} {words : List String}
    (h : ∀ word ∈ words, PlainWord word) :
    findChanges operands (.operands count) words = fileChanges operands count words := by
  induction words generalizing count with
  | nil => cases count <;> rfl
  | cons word words ih =>
      have hrest : ∀ other ∈ words, PlainWord other := fun other hother =>
        h other (List.mem_cons_of_mem _ hother)
      cases count with
      | succ count =>
          rw [findChanges, fileChanges]
          exact ih hrest
      | zero =>
          rw [findChanges, fileChanges]
          by_cases hexec : word ∈ execFamily
          · rw [if_pos hexec, if_pos hexec, findChanges_command (.inr rfl) hrest]
            rfl
          · rw [if_neg hexec, if_neg hexec]
            cases fileAction word with
            | some n => simp only [ih hrest]
            | none => simp only [ih hrest]

/-! ## What the programs change -/

/-- How the programs read their words. -/
structure Programs where
  /-- How many words follow a word of `find` that is no action. -/
  findOperands : String → Option Nat
  /-- The output and upload options among the words of `curl`. -/
  curlTransfers : List String → List String
  /-- The time that `date` is given to set. -/
  dateValue : List String → Option String
  /-- The name that `hostname` is given to set. -/
  hostnameValue : List String → Option String

variable (P : Programs)

/-- The program writes, deletes, sends or sets something.  The other allow-listed programs
only read; of all others nothing is known. -/
def Programs.Mutates : String → List String → Prop
  | "find", args => ∃ changes, findChanges P.findOperands (.operands 0) args = some changes ∧
      changes ≠ []
  | "curl", args => P.curlTransfers args ≠ []
  | "date", args => P.dateValue args ≠ none
  | "hostname", args => P.hostnameValue args ≠ none
  | program, _ => program ∉ safeCommands

/-- The words of a command that neither delete or write files by `find`, nor have output or
upload options of `curl`, nor a value to set. -/
def Programs.Harmless : List String → Prop
  | "find" :: args => ∀ changes, fileChanges P.findOperands 0 args = some changes → changes = []
  | "curl" :: args => P.curlTransfers args = []
  | "date" :: args => P.dateValue args = none
  | "hostname" :: args => P.hostnameValue args = none
  | _ => True

theorem mutates_iff (hsafe : program ∈ safeCommands) (hplain : ∀ word ∈ args, PlainWord word) :
    P.Mutates program args ↔ ¬ P.Harmless (program :: args) := by
  unfold Programs.Mutates
  split
  · rw [findChanges_plain hplain, Programs.Harmless]
    simp only [not_forall, exists_prop, ne_eq]
  · rfl
  · rfl
  · rfl
  · next hfind hcurl hdate hhostname =>
      have hharmless : P.Harmless (program :: args) := by
        unfold Programs.Harmless
        split <;> simp_all
      exact iff_of_false (not_not_intro hsafe) (not_not_intro hharmless)

/-- **A restricted command changes nothing exactly if its words say so.**  No condition is
needed for the options of `find` that run a command. -/
theorem restricted_shell_iff (h : restrictedCommand command = some (program, args)) :
    ¬ P.Mutates program args ↔ P.Harmless (commandWords command) := by
  have hrun := restrictedCommand_eq_some h
  obtain ⟨text, htext, hwords⟩ := hrun.words
  have hplain := fun word hword => hrun.plainWords word (List.mem_cons_of_mem _ hword)
  rw [Option.some.inj htext, hwords, mutates_iff P hrun.safe hplain, not_not]

/-- Some words of these programs, read as they are. -/
def customary : Programs where
  findOperands word :=
    if word.toList.head? ≠ some '-' ∨ word = "-print" then some 0
    else if word ∈ ["-name", "-type", "-maxdepth"] then some 1
    else none
  curlTransfers words := words.filter (· ∈ ["-o", "-O", "-T", "-d", "-F"])
  dateValue words := words.find? fun word => word.toList.head? ∉ [some '-', some '+']
  hostnameValue words := words.find? fun word => word.toList.head? ≠ some '-'

/-- Looking for a name changes nothing. -/
theorem restricted_shell_find_name : ¬ customary.Mutates "find" ["/home/me", "-name", "notes"] := by
  have hrun : restrictedCommand "find /home/me -name notes" =
      some ("find", ["/home/me", "-name", "notes"]) := by decide +kernel
  have hwords : commandWords "find /home/me -name notes" =
      ["find", "/home/me", "-name", "notes"] := by decide +kernel
  have hnone : fileChanges customary.findOperands 0 ["/home/me", "-name", "notes"] = some [] := by
    decide +kernel
  rw [restricted_shell_iff customary hrun, hwords]
  intro changes hchanges
  exact Option.some.inj (hchanges.symm.trans hnone)

/-- A restricted command can delete a directory. -/
theorem restricted_find_deletes :
    restrictedCommand "find /home/me -delete" = some ("find", ["/home/me", "-delete"]) ∧
      customary.Mutates "find" ["/home/me", "-delete"] := by
  refine ⟨by decide +kernel, ["-delete"], ?_, by decide⟩
  decide +kernel

/-! ## The tool -/

variable {mode : AccessMode} {toolArgs : Value}

/-- The tool starts no process that changes something, if the command is harmless. -/
theorem shell_harmless (hmode : mode ≠ .full)
    (h : ∀ command, strArg toolArgs "command" = some command → P.Harmless (commandWords command)) :
    Within (fun e => ∀ program words input cwd, e = .run program words input cwd →
      ¬ P.Mutates program words) (shell toolArgs mode) := by
  refine within_mono ?_ (shell_within toolArgs hmode)
  rintro e he program words input cwd rfl
  obtain ⟨-, -, ⟨rfl, -, -⟩ | hrun⟩ := he
  · exact not_not_intro (by decide)
  · obtain ⟨text, htext, hwords⟩ := hrun.words
    rw [htext] at hrun
    have hplain := fun word hword => hrun.plainWords word (List.mem_cons_of_mem _ hword)
    rw [mutates_iff P hrun.safe hplain, not_not, ← hwords]
    exact h text htext

end ComputerUse
end FolkAround
