import LinuxLikeKernel.Machine
import Mathlib.Data.List.TakeWhile

/-!
# Command lines

A command is a word, after any spaces, and an argument text, after any spaces. The parser of
`execute` finds both, but it tests the index in the whole command where it means the length of the
word, and a word of 32 characters leaves no room for its NUL.

## Main definitions

- `firstWord`, `argText` — what a command says
- `ParsesTo` — the parser says the same
- `CommandFits` — the index stays in bounds while the word is recorded

## Main results

- `parsesTo_iff` — which commands are parsed right
-/

namespace LinuxLikeKernel
open ByteMemory

/-! ### What a command says -/

/-- The number of leading spaces. -/
def leadingSpaces (command : List UInt8) : Nat := (command.takeWhile (· = 32)).length

/-- The command from its first word on. -/
def fromWord (command : List UInt8) : List UInt8 := command.dropWhile (· = 32)

def firstWord (command : List UInt8) : List UInt8 := (fromWord command).takeWhile (· ≠ 32)

/-- The command from the space after its first word on. -/
def afterWord (command : List UInt8) : List UInt8 := (fromWord command).dropWhile (· ≠ 32)

/-- The rest, after the spaces that follow the first word. -/
def argText (command : List UInt8) : List UInt8 := (afterWord command).dropWhile (· = 32)

/-- The parser accepts the command within its buffers, the name that is looked up is the first
word, and the arguments are the rest. -/
def ParsesTo (command : List UInt8) (stale : Stale) : Prop :=
  ∃ st, parseCommand command = some st ∧
    (st.filename.length ≤ maxFilenameLength ∧ st.fileargs.length ≤ maxArgLength) ∧
    commandName st.filename stale = firstWord command ∧ st.fileargs = argText command

/-- The raw index is at most 32 at every character after the first one of the word, and at the
space after it. -/
def CommandFits (command : List UInt8) : Prop :=
  leadingSpaces command + (firstWord command).length ≤
      (if afterWord command = [] then maxFilenameLength + 1 else maxFilenameLength) ∨
    (firstWord command).length = 1 ∧ afterWord command = []

instance (command : List UInt8) : Decidable (CommandFits command) :=
  inferInstanceAs (Decidable (_ ∨ _))

/-! ### The states of the parser -/

variable {i : Nat} {f args : List UInt8}

/-- Leading spaces are skipped. -/
theorem parseFrom_leading (cs : List UInt8) : parseFrom i ⟨-1, [], []⟩ cs =
    parseFrom (i + leadingSpaces cs) ⟨-1, [], []⟩ (fromWord cs) := by
  induction cs generalizing i with
  | nil => rfl
  | cons c cs ih =>
    by_cases hc : c = 32
    · subst hc
      have hstep : parseStep i 32 ⟨-1, [], []⟩ = some ⟨-1, [], []⟩ := by simp [parseStep]
      have hidx : i + 1 + leadingSpaces cs = i + leadingSpaces (32 :: cs) := by
        simp only [leadingSpaces, List.takeWhile_cons, decide_true, if_true, List.length_cons]
        omega
      rw [parseFrom, hstep, Option.bind_some, ih, hidx]
      rfl
    · simp [leadingSpaces, fromWord, hc]

/-- The word is recorded, up to the first index that is too large. -/
theorem parseFrom_word (cs : List UInt8) : parseFrom i ⟨0, f, []⟩ cs =
    if cs.takeWhile (· ≠ 32) = [] ∨ i + (cs.takeWhile (· ≠ 32)).length ≤ maxFilenameLength + 1 then
      parseFrom (i + (cs.takeWhile (· ≠ 32)).length) ⟨0, f ++ cs.takeWhile (· ≠ 32), []⟩
        (cs.dropWhile (· ≠ 32))
    else none := by
  induction cs generalizing i f with
  | nil => simp
  | cons c cs ih =>
    by_cases hc : c = 32
    · simp [hc]
    · have htake : (c :: cs).takeWhile (· ≠ 32) = c :: cs.takeWhile (· ≠ 32) := by simp [hc]
      have hdrop : (c :: cs).dropWhile (· ≠ 32) = cs.dropWhile (· ≠ 32) := by simp [hc]
      rw [htake, hdrop, List.length_cons]
      by_cases hi : maxFilenameLength < i
      · have hstep : parseStep i c ⟨0, f, []⟩ = none := if_pos ⟨hi, rfl⟩
        have hlong : ¬ (c :: cs.takeWhile (· ≠ 32) = [] ∨
            i + ((cs.takeWhile (· ≠ 32)).length + 1) ≤ maxFilenameLength + 1) := by
          rintro (h | h)
          · cases h
          · omega
        rw [parseFrom, hstep, if_neg hlong]
        rfl
      · have hstep : parseStep i c ⟨0, f, []⟩ = some ⟨0, f ++ [c], []⟩ := by
          simp [parseStep, hc, Nat.le_of_not_lt hi]
        have hiff : (cs.takeWhile (· ≠ 32) = [] ∨
              i + ((cs.takeWhile (· ≠ 32)).length + 1) ≤ maxFilenameLength + 1) ↔
            (c :: cs.takeWhile (· ≠ 32) = [] ∨
              i + ((cs.takeWhile (· ≠ 32)).length + 1) ≤ maxFilenameLength + 1) := by
          constructor
          · rintro (h | h)
            · rw [h, List.length_nil]
              omega
            · omega
          · rintro (h | h)
            · cases h
            · omega
        have hidx : i + 1 + (cs.takeWhile (· ≠ 32)).length =
            i + ((cs.takeWhile (· ≠ 32)).length + 1) := by omega
        rw [parseFrom, hstep, Option.bind_some, ih, List.append_assoc, List.singleton_append]
        simp only [hidx, hiff]

/-- The spaces after the word are skipped. -/
theorem parseFrom_spaces (cs : List UInt8) : parseFrom i ⟨1, f, []⟩ cs =
    parseFrom (i + (cs.takeWhile (· = 32)).length) ⟨1, f, []⟩ (cs.dropWhile (· = 32)) := by
  induction cs generalizing i with
  | nil => rfl
  | cons c cs ih =>
    by_cases hc : c = 32
    · subst hc
      have hstep : parseStep i 32 ⟨1, f, []⟩ = some ⟨1, f, []⟩ := by simp [parseStep]
      have hidx : i + 1 + (cs.takeWhile (· = 32)).length =
          i + ((32 :: cs).takeWhile (· = 32)).length := by
        simp only [List.takeWhile_cons, decide_true, if_true, List.length_cons]
        omega
      rw [parseFrom, hstep, Option.bind_some, ih, hidx]
      rfl
    · simp [hc]

/-- The arguments are recorded with their spaces. -/
theorem parseFrom_args (cs : List UInt8) : parseFrom i ⟨2, f, args⟩ cs =
    some ⟨2, f, args ++ cs⟩ := by
  induction cs generalizing i args with
  | nil => simp [parseFrom]
  | cons c cs ih =>
    have hstep : parseStep i c ⟨2, f, args⟩ = some ⟨2, f, args ++ [c]⟩ := by simp [parseStep]
    rw [parseFrom, hstep, Option.bind_some, ih, List.append_assoc, List.singleton_append]

/-- After the word. -/
theorem parseFrom_rest (cs : List UInt8) (hcs : cs.head? ≠ none → cs.head? = some 32) :
    parseFrom i ⟨0, f, []⟩ cs =
      if cs = [] ∨ i ≤ maxFilenameLength then
        parseFrom (i + (cs.takeWhile (· = 32)).length) ⟨if cs = [] then 0 else 1, f, []⟩
          (cs.dropWhile (· = 32))
      else none := by
  cases cs with
  | nil => rfl
  | cons c cs =>
    obtain rfl : c = 32 := Option.some.inj (hcs nofun)
    by_cases hi : i ≤ maxFilenameLength
    · have hstep : parseStep i 32 ⟨0, f, []⟩ = some ⟨1, f, []⟩ := by
        simp [parseStep, Nat.not_lt.mpr hi]
      have hidx : i + 1 + (cs.takeWhile (· = 32)).length =
          i + ((32 :: cs).takeWhile (· = 32)).length := by
        simp only [List.takeWhile_cons, decide_true, if_true, List.length_cons]
        omega
      rw [parseFrom, hstep, Option.bind_some, parseFrom_spaces, hidx, if_pos (.inr hi)]
      rfl
    · have hstep : parseStep i 32 ⟨0, f, []⟩ = none := if_pos ⟨Nat.lt_of_not_le hi, rfl⟩
      have hno : ¬ ((32 : UInt8) :: cs = [] ∨ i ≤ maxFilenameLength) := by
        rintro (h | h)
        · cases h
        · exact hi h
      rw [parseFrom, hstep, if_neg hno]
      rfl

/-- A text that does not start with a space is recorded as it is. -/
theorem parseFrom_text {flag : Int} (cs : List UInt8) (hcs : cs ≠ [] → flag = 1)
    (hhead : cs.head? ≠ some 32) : ∃ flag', parseFrom i ⟨flag, f, []⟩ cs = some ⟨flag', f, cs⟩ := by
  cases cs with
  | nil => exact ⟨flag, rfl⟩
  | cons c cs =>
    obtain rfl := hcs nofun
    have hc : c ≠ 32 := fun h => hhead (congrArg some h)
    have hstep : parseStep i c ⟨1, f, []⟩ = some ⟨2, f, [c]⟩ := by simp [parseStep, hc]
    refine ⟨2, ?_⟩
    rw [parseFrom, hstep, Option.bind_some, parseFrom_args, List.singleton_append]

/-- What is dropped stops at the first element that should stay. -/
theorem head?_dropWhile_ne {p : UInt8 → Bool} {l : List UInt8} {c : UInt8}
    (h : (l.dropWhile p).head? = some c) : p c = false := by
  have := List.head?_dropWhile_not p l
  rwa [h] at this

/-- What the parser makes of a command with a word. -/
theorem parseCommand_eq {command : List UInt8} (hw : firstWord command ≠ []) :
    (CommandFits command → ∃ flag, parseCommand command =
      some ⟨flag, firstWord command, argText command⟩) ∧
    (¬ CommandFits command → parseCommand command = none) := by
  obtain ⟨c, rest, hfrom⟩ : ∃ c rest, fromWord command = c :: rest :=
    List.exists_cons_of_ne_nil fun h => hw (by rw [firstWord, h]; rfl)
  have hc : c ≠ 32 := by
    have hhead : (fromWord command).head? = some c := by
      rw [hfrom]
      rfl
    simpa using head?_dropWhile_ne hhead
  have hword : firstWord command = c :: rest.takeWhile (· ≠ 32) := by
    rw [firstWord, hfrom]
    simp [hc]
  have hafter : afterWord command = rest.dropWhile (· ≠ 32) := by
    rw [afterWord, hfrom]
    simp [hc]
  have hafter32 : (afterWord command).head? ≠ none → (afterWord command).head? = some 32 := by
    intro hne
    obtain ⟨d, hd⟩ := Option.ne_none_iff_exists'.mp hne
    rw [hd]
    simpa using head?_dropWhile_ne hd
  have hargs : (argText command).head? ≠ some 32 := by
    intro h
    simpa using head?_dropWhile_ne h
  -- the parser, segment by segment
  let len := (rest.takeWhile (· ≠ 32)).length
  have hlen : (firstWord command).length = len + 1 := by rw [hword, List.length_cons]
  have hfirst : parseStep (0 + leadingSpaces command) c ⟨-1, [], []⟩ = some ⟨0, [c], []⟩ := by
    simp [parseStep, hc]
  have hparse : parseCommand command =
      if rest.takeWhile (· ≠ 32) = [] ∨
        0 + leadingSpaces command + 1 + len ≤ maxFilenameLength + 1 then
        if afterWord command = [] ∨
          0 + leadingSpaces command + 1 + len ≤ maxFilenameLength then
          parseFrom (0 + leadingSpaces command + 1 + len +
              ((afterWord command).takeWhile (· = 32)).length)
            ⟨if afterWord command = [] then 0 else 1, firstWord command, []⟩ (argText command)
        else none
      else none := by
    rw [parseCommand, parseFrom_leading, hfrom, parseFrom, hfirst, Option.bind_some,
      parseFrom_word, ← hafter, parseFrom_rest _ hafter32, hword]
    rfl
  have hfits : CommandFits command ↔
      (rest.takeWhile (· ≠ 32) = [] ∨
        0 + leadingSpaces command + 1 + len ≤ maxFilenameLength + 1) ∧
      (afterWord command = [] ∨ 0 + leadingSpaces command + 1 + len ≤ maxFilenameLength) := by
    have hnil : rest.takeWhile (· ≠ 32) = [] ↔ len = 0 := List.length_eq_zero_iff.symm
    rw [CommandFits, hlen, hnil]
    by_cases ha : afterWord command = []
    · simp only [ha, if_true, true_or, and_true]
      omega
    · simp only [ha, if_false, false_or, and_false, or_false]
      omega
  refine ⟨fun h => ?_, fun h => ?_⟩
  · obtain ⟨h1, h2⟩ := hfits.mp h
    rw [hparse, if_pos h1, if_pos h2]
    refine parseFrom_text _ (fun hne => if_neg fun ha => hne ?_) hargs
    rw [argText, ha]
    rfl
  · rw [hparse]
    by_cases h1 : rest.takeWhile (· ≠ 32) = [] ∨
        0 + leadingSpaces command + 1 + len ≤ maxFilenameLength + 1
    · rw [if_pos h1, if_neg fun h2 => h (hfits.mpr ⟨h1, h2⟩)]
    · rw [if_neg h1]

/-- A command without a word is nothing but spaces. -/
theorem fromWord_eq_nil {command : List UInt8} (hw : firstWord command = []) :
    fromWord command = [] := by
  cases hc : fromWord command with
  | nil => rfl
  | cons c rest =>
    have hne : c ≠ 32 := by
      have hhead : (fromWord command).head? = some c := by
        rw [hc]
        rfl
      simpa using head?_dropWhile_ne hhead
    rw [firstWord, hc, List.takeWhile_cons_of_pos (by simpa using hne)] at hw
    cases hw

theorem argText_eq_nil {command : List UInt8} (hw : firstWord command = []) :
    argText command = [] := by
  rw [argText, afterWord, fromWord_eq_nil hw]
  rfl

/-- A command that is accepted is taken apart into its word and the rest. -/
theorem parseCommand_eq_some {command : List UInt8} {st : ParseState}
    (h : parseCommand command = some st) :
    st.filename = firstWord command ∧ st.fileargs = argText command := by
  by_cases hw : firstWord command = []
  · have hfrom := fromWord_eq_nil hw
    rw [parseCommand, parseFrom_leading, hfrom] at h
    rw [← Option.some.inj h, hw, argText_eq_nil hw]
    exact ⟨rfl, rfl⟩
  · obtain ⟨hyes, hno⟩ := parseCommand_eq hw
    by_cases hfits : CommandFits command
    · obtain ⟨flag, hparse⟩ := hyes hfits
      rw [← Option.some.inj (hparse.symm.trans h)]
      exact ⟨rfl, rfl⟩
    · rw [hno hfits] at h
      cases h

/-- **Command lines.** A command whose word and arguments have room is parsed right exactly if the
index stays in bounds, and a word of 32 characters happens to be followed by a NUL. -/
theorem parsesTo_iff {command : List UInt8} (hword : 1 ≤ (firstWord command).length)
    (hname : (firstWord command).length ≤ maxFilenameLength)
    (hargs : (argText command).length < maxArgLength) (stale : Stale) :
    ParsesTo command stale ↔ CommandFits command ∧
      ((firstWord command).length = maxFilenameLength → stale.afterFilename = []) := by
  obtain ⟨hyes, hno⟩ := parseCommand_eq (List.ne_nil_of_length_pos hword)
  have hcommandName : commandName (firstWord command) stale = firstWord command ↔
      ((firstWord command).length = maxFilenameLength → stale.afterFilename = []) := by
    rw [commandName]
    by_cases hfull : (firstWord command).length = maxFilenameLength
    · rw [if_pos hfull, List.append_right_eq_self]
      simp only [hfull, true_implies]
    · rw [if_neg hfull]
      exact iff_of_true rfl fun h => absurd h hfull
  constructor
  · rintro ⟨st, hst, -, hlookup, -⟩
    have hfits : CommandFits command := by
      by_contra h
      rw [hno h] at hst
      cases hst
    obtain ⟨flag, hparse⟩ := hyes hfits
    rw [hparse] at hst
    rw [← Option.some.inj hst] at hlookup
    exact ⟨hfits, hcommandName.mp hlookup⟩
  · rintro ⟨hfits, hnul⟩
    obtain ⟨flag, hparse⟩ := hyes hfits
    exact ⟨_, hparse, ⟨hname, Nat.le_of_lt hargs⟩, hcommandName.mpr hnul, rfl⟩

/-- Spaces everywhere, and a NUL where it is needed. -/
theorem parsesTo_iff_sample :
    ParsesTo (text [' ', ' ', 'c', 'a', 't', ' ', ' ', 'a', ' ', 'b', ' ']) noStale :=
  (parsesTo_iff (by decide) (by decide) (by decide) noStale).mpr (by decide +kernel)

/-- `ls` after 32 spaces is refused. -/
theorem not_parsesTo : ¬ ∀ (command : List UInt8) (stale : Stale),
    1 ≤ (firstWord command).length → (firstWord command).length ≤ maxFilenameLength →
      (argText command).length < maxArgLength → ParsesTo command stale := by
  intro hparses
  let command := List.replicate 32 (32 : UInt8) ++ text ['l', 's']
  obtain ⟨st, hst, -⟩ := hparses command noStale (by decide) (by decide) (by decide)
  have hno : (parseCommand command).isNone = true := by decide +kernel
  rw [hst] at hno
  cases hno

/-! ### What is looked up -/

/-- The header buffer starts with the magic number. -/
def HasMagic (img : Image) (inode : Nat) (stale : Stale) : Prop :=
  strncmp (headerByte img inode stale) (cstr magicNumber) 4 = 0

instance (img : Image) (inode : Nat) (stale : Stale) : Decidable (HasMagic img inode stale) :=
  inferInstanceAs (Decidable (_ = _))

/-- What a command has to be for a program to be found. -/
theorem lookup_eq_found_iff {img : Image} {command : List UInt8} {stale : Stale}
    {prog : Program} : lookup img command stale = .found prog ↔
    ∃ st dentry, parseCommand command = some st ∧
      (st.filename.length ≤ maxFilenameLength ∧ st.fileargs.length ≤ maxArgLength) ∧
      readDentryByName img (commandName st.filename stale) = some dentry ∧
      HasMagic img dentry.inode stale ∧
      prog = ⟨dentry.inode, entryPoint (headerByte img dentry.inode stale), st.fileargs⟩ := by
  constructor
  · intro h
    simp only [lookup] at h
    split at h
    · cases h
    · rename_i st hst
      split at h
      · cases h
      · rename_i hroom
        split at h
        · cases h
        · rename_i dentry hdentry
          split at h
          · cases h
          · rename_i hmagic
            obtain ⟨hname, hargs⟩ := not_or.mp hroom
            exact ⟨st, dentry, hst, ⟨Nat.not_lt.mp hname, Nat.not_lt.mp hargs⟩, hdentry,
              not_not.mp hmagic, (Lookup.found.inj h).symm⟩
  · rintro ⟨st, dentry, hst, ⟨hname, hargs⟩, hdentry, hmagic, rfl⟩
    have hroom : ¬(maxFilenameLength < st.filename.length ∨ maxArgLength < st.fileargs.length) :=
      not_or.mpr ⟨Nat.not_lt.mpr hname, Nat.not_lt.mpr hargs⟩
    rw [HasMagic] at hmagic
    simp only [lookup, hst, if_neg hroom, hdentry, hmagic, ne_eq, not_true_eq_false, if_false]

/-- A command that is parsed right starts the program that its first word names, with the rest as
its arguments. -/
theorem lookup_of_parsesTo {command : List UInt8} {stale : Stale} (h : ParsesTo command stale)
    {img : Image} {dentry : Dentry} (hfind : readDentryByName img (firstWord command) = some dentry)
    (hmagic : HasMagic img dentry.inode stale) :
    lookup img command stale =
      .found ⟨dentry.inode, entryPoint (headerByte img dentry.inode stale), argText command⟩ := by
  obtain ⟨st, hst, hroom, hlookup, hrest⟩ := h
  refine lookup_eq_found_iff.mpr ⟨st, dentry, hst, hroom, ?_, hmagic, ?_⟩
  · rw [hlookup]
    exact hfind
  · rw [hrest]

/-- The shell is found if it has an entry and the header of a program. -/
theorem lookup_shellCommand {img : Image} {stale : Stale} {dentry : Dentry}
    (hfind : readDentryByName img shellCommand = some dentry)
    (hmagic : HasMagic img dentry.inode stale) :
    lookup img shellCommand stale =
      .found ⟨dentry.inode, entryPoint (headerByte img dentry.inode stale), []⟩ := by
  have hparse : parseCommand shellCommand = some ⟨0, shellCommand, []⟩ := rfl
  exact lookup_eq_found_iff.mpr ⟨_, dentry, hparse, by decide, hfind, hmagic, rfl⟩

end LinuxLikeKernel
