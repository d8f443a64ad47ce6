import LinuxLikeKernel.ProgramStart

/-!
# The buffers of `execute`

The parser writes `filename` and `fileargs` at a running offset, which it does not compare with
their sizes. The arguments are then copied to the PCB, with a NUL behind the last byte of the
array.

## Main definitions

- `BufferWrite`, `executeWrites` — the places that `execute` writes to, in order

## Main results

- `parseWrites_inBounds_iff` — the parser stays in its buffers if their contents do, after every
  character
- `executeWrites_inBounds_iff` — when all the writes are in bounds
-/

namespace LinuxLikeKernel
open ByteMemory Kernel

/-! ### The writes -/

/-- A write to `filename[i]`, `fileargs[i]` or `pcb->argbuf[i]`. -/
inductive BufferWrite
  | filename (i : Nat)
  | fileargs (i : Nat)
  | argbuf (i : Nat)
  deriving DecidableEq, Repr

/-- The index is inside the array. -/
def BufferWrite.InBounds : BufferWrite → Prop
  | filename i => i < maxFilenameLength
  | fileargs i => i < maxArgLength
  | argbuf i => i < maxArgLength

instance : DecidablePred BufferWrite.InBounds
  | .filename _ | .fileargs _ | .argbuf _ => inferInstanceAs (Decidable (_ < _))

/-- The write of `parseStep`, at the offset. -/
def parseStepWrites (i : Nat) (c : UInt8) (st : ParseState) : List BufferWrite :=
  if maxFilenameLength < i ∧ st.filenameFlag = 0 then []
  else if c = 32 ∧ st.filenameFlag = -1 then []
  else if c ≠ 32 ∧ (st.filenameFlag = -1 ∨ st.filenameFlag = 0) then
    [.filename st.filename.length]
  else if c = 32 ∧ (st.filenameFlag = 0 ∨ st.filenameFlag = 1) then []
  else if st.filenameFlag = 1 ∨ st.filenameFlag = 2 then [.fileargs st.fileargs.length]
  else []

/-- The writes of `parseFrom`. -/
def parseWrites (i : Nat) (st : ParseState) : List UInt8 → List BufferWrite
  | [] => []
  | c :: cs => parseStepWrites i c st ++
      match parseStep i c st with
      | none => []
      | some st => parseWrites (i + 1) st cs

/-- The two loops over `argbuf`, and the NUL after them. -/
def argbufWrites : List BufferWrite :=
  (List.range maxArgLength).map .argbuf ++ (List.range maxArgLength).map .argbuf ++
    [.argbuf maxArgLength]

/-- The writes of `execute` from its parser on. -/
def executeWrites (img : Image) (s : Kernel) (sp : StackPtr) (command : List UInt8)
    (stale : Stale) : List BufferWrite :=
  parseWrites 0 ⟨-1, [], []⟩ command ++
    match execute img s sp command stale with
    | some (.started _) => argbufWrites
    | _ => []

/-! ### The parser -/

/-- The contents of the two buffers have room. -/
def ParseState.Fits (st : ParseState) : Prop :=
  st.filename.length ≤ maxFilenameLength ∧ st.fileargs.length ≤ maxArgLength

/-- A character is written in bounds exactly if there is room for it. -/
theorem parseStepWrites_inBounds_iff {i : Nat} {c : UInt8} {st : ParseState} (hst : st.Fits) :
    (∀ w ∈ parseStepWrites i c st, w.InBounds) ↔ ∀ st', parseStep i c st = some st' → st'.Fits := by
  obtain ⟨hname, hargs⟩ := hst
  have hsome : ∀ {a : ParseState} {P : ParseState → Prop},
      (∀ st', some a = some st' → P st') ↔ P a :=
    ⟨fun h => h _ rfl, fun h _ heq => Option.some.inj heq ▸ h⟩
  simp only [parseStepWrites, parseStep]
  split
  · simp
  · split
    · rw [hsome]
      exact iff_of_true (fun w hw => by cases hw) ⟨hname, hargs⟩
    · split
      · rw [hsome, List.forall_mem_singleton]
        simp only [BufferWrite.InBounds, ParseState.Fits, List.length_append,
          List.length_singleton, Nat.succ_le_iff, hargs, and_true]
      · split
        · rw [hsome]
          exact iff_of_true (fun w hw => by cases hw) ⟨hname, hargs⟩
        · split
          · rw [hsome, List.forall_mem_singleton]
            simp only [BufferWrite.InBounds, ParseState.Fits, List.length_append,
              List.length_singleton, Nat.succ_le_iff, hname, true_and]
          · rw [hsome]
            exact iff_of_true (fun w hw => by cases hw) ⟨hname, hargs⟩

/-- The parser stays in bounds exactly if the contents have room after every character. -/
theorem parseWrites_inBounds_iff {cs : List UInt8} {i : Nat} {st : ParseState} (hst : st.Fits) :
    (∀ w ∈ parseWrites i st cs, w.InBounds) ↔
      ∀ p r, p ++ r = cs → ∀ st', parseFrom i st p = some st' → st'.Fits := by
  induction cs generalizing i st with
  | nil =>
    refine iff_of_true (fun w hw => by cases hw) fun p r hp st' h => ?_
    obtain ⟨rfl, -⟩ := List.append_eq_nil_iff.mp hp
    exact Option.some.inj h ▸ hst
  | cons c cs ih =>
    rw [parseWrites, List.forall_mem_append, parseStepWrites_inBounds_iff hst]
    constructor
    · rintro ⟨hstep, hrest⟩ p r hp st' h
      cases p with
      | nil => exact Option.some.inj h ▸ hst
      | cons d p =>
        obtain ⟨rfl, htail⟩ := List.cons.inj hp
        obtain ⟨m, hm, h⟩ := Option.bind_eq_some_iff.mp h
        rw [hm] at hrest
        exact (ih (hstep m hm)).mp hrest p r htail st' h
    · intro hall
      have hstep : ∀ m, parseStep i c st = some m → m.Fits := by
        intro m hm
        refine hall [c] cs rfl m ?_
        rw [parseFrom, hm]
        rfl
      refine ⟨hstep, ?_⟩
      cases hm : parseStep i c st with
      | none => exact fun w hw => by cases hw
      | some m =>
        refine (ih (hstep m hm)).mpr fun p r hp st' h => hall (c :: p) r (by rw [← hp]; rfl) st' ?_
        rw [parseFrom, hm]
        exact h

/-! ### The beginning of a command -/

variable {command p r : List UInt8}

theorem fromWord_append (h : fromWord p ≠ []) : fromWord (p ++ r) = fromWord p ++ r ∧
    leadingSpaces (p ++ r) = leadingSpaces p := by
  have hlen : (p.takeWhile (· = 32)).length ≠ p.length := by
    intro heq
    have hsplit := congrArg List.length (p.takeWhile_append_dropWhile (p := (· = 32)))
    rw [List.length_append] at hsplit
    exact h (List.eq_nil_of_length_eq_zero (by rw [fromWord]; omega))
  constructor
  · simp only [fromWord] at h ⊢
    rw [List.dropWhile_append, if_neg (by simpa using h)]
  · rw [leadingSpaces, List.takeWhile_append, if_neg hlen]
    rfl

theorem afterWord_append (h : afterWord p ≠ []) : afterWord (p ++ r) = afterWord p ++ r ∧
    firstWord (p ++ r) = firstWord p := by
  have hfrom : fromWord p ≠ [] := fun hnil => h (by rw [afterWord, hnil]; rfl)
  have hlen : ((fromWord p).takeWhile (· ≠ 32)).length ≠ (fromWord p).length := by
    intro heq
    have hsplit := congrArg List.length ((fromWord p).takeWhile_append_dropWhile (p := (· ≠ 32)))
    rw [List.length_append] at hsplit
    exact h (List.eq_nil_of_length_eq_zero (by rw [afterWord]; omega))
  rw [afterWord, firstWord, (fromWord_append hfrom).1]
  constructor
  · simp only [afterWord] at h ⊢
    rw [List.dropWhile_append, if_neg (by simpa using h)]
  · rw [List.takeWhile_append, if_neg hlen]
    rfl

theorem argText_append (h : argText p ≠ []) :
    afterWord p ≠ [] ∧ argText (p ++ r) = argText p ++ r := by
  have hafter : afterWord p ≠ [] := fun hnil => h (by rw [argText, hnil]; rfl)
  refine ⟨hafter, ?_⟩
  simp only [argText] at h ⊢
  rw [(afterWord_append hafter).1, List.dropWhile_append, if_neg (by simpa using h)]

theorem firstWord_length_le (h : fromWord p ≠ []) :
    (firstWord p).length ≤ (firstWord (p ++ r)).length := by
  rw [firstWord, firstWord, (fromWord_append h).1, List.takeWhile_append]
  split
  · rename_i heq
    rw [List.length_append]
    omega
  · exact le_rfl

/-! ### All commands -/

theorem commandFits_of_parseCommand {st : ParseState} (hword : firstWord p ≠ [])
    (h : parseCommand p = some st) : CommandFits p := by
  by_contra hno
  rw [(parseCommand_eq hword).2 hno] at h
  cases h

theorem fromWord_ne_nil (h : firstWord p ≠ []) : fromWord p ≠ [] :=
  fun hnil => h (by rw [firstWord, hnil]; rfl)

/-- The first 33 characters of a word that is too long are recorded. -/
theorem exists_prefix_of_long_word (hspaces : leadingSpaces command = 0)
    (hlong : maxFilenameLength < (firstWord command).length) :
    ∃ p r st, p ++ r = command ∧ parseCommand p = some st ∧
      st.filename.length = maxFilenameLength + 1 := by
  have hfrom : fromWord command = command := by
    have hsplit := command.takeWhile_append_dropWhile (p := (· = 32))
    rwa [List.eq_nil_of_length_eq_zero hspaces, List.nil_append] at hsplit
  obtain ⟨rest, hrest⟩ : firstWord command <+: command := by
    rw [firstWord, hfrom]
    exact List.takeWhile_prefix _
  -- cut the word one character behind the room that `filename` has
  obtain ⟨p, r, hp, hlen⟩ : ∃ p r, p ++ r = firstWord command ∧
      p.length = maxFilenameLength + 1 :=
    ⟨_, _, List.take_append_drop (maxFilenameLength + 1) _, by
      rw [List.length_take]
      omega⟩
  have hne32 : ∀ c ∈ p, c ≠ 32 := by
    intro c hc
    have hmem : c ∈ firstWord command := hp ▸ List.mem_append_left _ hc
    simpa using List.mem_takeWhile_imp hmem
  have hspaces' : p.takeWhile (· = 32) = [] ∧ p.dropWhile (· = 32) = p := by
    cases p with
    | nil => exact ⟨rfl, rfl⟩
    | cons c p => simp [hne32 c List.mem_cons_self]
  have hword : firstWord p = p := by
    rw [firstWord, fromWord, hspaces'.2]
    exact List.takeWhile_eq_self_iff.mpr fun c hc => by simpa using hne32 c hc
  have hafter : afterWord p = [] := by
    rw [afterWord, fromWord, hspaces'.2]
    exact List.dropWhile_eq_nil_iff.mpr fun c hc => by simpa using hne32 c hc
  have hfits : CommandFits p := by
    refine .inl ?_
    rw [leadingSpaces, hspaces'.1, hword, hafter, if_pos rfl, hlen]
    rfl
  have hne : firstWord p ≠ [] := by
    rw [hword]
    exact List.ne_nil_of_length_pos (by omega)
  obtain ⟨flag, hparse⟩ := (parseCommand_eq hne).1 hfits
  exact ⟨p, r ++ rest, _, by rw [← List.append_assoc, hp, hrest], hparse,
    (congrArg List.length hword).trans hlen⟩

/-- The contents have room all the time unless the command starts with a word that is too long, or
is accepted with too long arguments. -/
theorem forall_fits_iff : (∀ p r, p ++ r = command → ∀ st, parseCommand p = some st → st.Fits) ↔
    ¬(leadingSpaces command = 0 ∧ maxFilenameLength < (firstWord command).length) ∧
      ¬(CommandFits command ∧ maxArgLength < (argText command).length) := by
  constructor
  · intro hall
    refine ⟨?_, ?_⟩
    · rintro ⟨hspaces, hlong⟩
      obtain ⟨p, r, st, hp, hst, hlen⟩ := exists_prefix_of_long_word hspaces hlong
      have hroom := (hall p r hp st hst).1
      omega
    · rintro ⟨hfits, hlong⟩
      have hne : firstWord command ≠ [] := by
        intro hnil
        rw [argText_eq_nil hnil] at hlong
        exact absurd hlong (Nat.not_lt_zero _)
      obtain ⟨flag, hparse⟩ := (parseCommand_eq hne).1 hfits
      exact absurd (hall command [] (List.append_nil _) _ hparse).2 (Nat.not_le.mpr hlong)
  · -- what is recorded for a prefix is there in the whole command too
    rintro ⟨hname, hargs⟩ p r rfl st hst
    obtain ⟨hfilename, hfileargs⟩ := parseCommand_eq_some hst
    rw [ParseState.Fits, hfilename, hfileargs]
    by_cases hword : firstWord p = []
    · rw [hword, argText_eq_nil hword]
      exact ⟨Nat.zero_le _, Nat.zero_le _⟩
    · have hfits := commandFits_of_parseCommand hword hst
      have hspaces := (fromWord_append (r := r) (fromWord_ne_nil hword)).2
      constructor
      · by_contra hlong
        have hle := firstWord_length_le (r := r) (fromWord_ne_nil hword)
        refine hname ⟨?_, by omega⟩
        obtain hfits | ⟨hone, -⟩ := hfits
        · split at hfits <;> omega
        · simp only [maxFilenameLength] at hlong
          omega
      · by_contra hlong
        have hne : argText p ≠ [] := List.ne_nil_of_length_pos (by omega)
        obtain ⟨hafter, hargs'⟩ := argText_append (r := r) hne
        obtain ⟨hafter', hword'⟩ := afterWord_append (r := r) hafter
        refine hargs ⟨?_, ?_⟩
        · have hne' : afterWord (p ++ r) ≠ [] := by
            rw [hafter']
            exact List.append_ne_nil_of_left_ne_nil hafter _
          obtain hfits | ⟨-, hnil⟩ := hfits
          · rw [if_neg hafter] at hfits
            refine .inl ?_
            rwa [hspaces, hword', if_neg hne']
          · exact absurd hnil hafter
        · rw [hargs', List.length_append]
          omega

/-- **Buffers.** All the writes of `execute` are in bounds exactly if the command does not start
with a word that is too long, it is not accepted with too long arguments, and no program starts. -/
theorem executeWrites_inBounds_iff (img : Image) (s : Kernel) (sp : StackPtr)
    (command : List UInt8) (stale : Stale) :
    (∀ w ∈ executeWrites img s sp command stale, w.InBounds) ↔
      ¬(leadingSpaces command = 0 ∧ maxFilenameLength < (firstWord command).length) ∧
        ¬(CommandFits command ∧ maxArgLength < (argText command).length) ∧
        ¬(HasRoom s ∧ ∃ prog, lookup img command stale = .found prog ∧ Loads img s prog.inode) := by
  have hparser : (∀ w ∈ parseWrites 0 ⟨-1, [], []⟩ command, w.InBounds) ↔ _ :=
    parseWrites_inBounds_iff ⟨Nat.zero_le _, Nat.zero_le _⟩
  have hstarts : StartsCommand img s sp command stale ↔ _ := starts_iff_lookup
  rw [executeWrites, List.forall_mem_append, hparser, ← hstarts, ← and_assoc]
  refine and_congr forall_fits_iff ?_
  constructor
  · -- the NUL behind the loop goes to the index 100, whatever the arguments are
    rintro hbounds ⟨s₁, hs₁⟩
    rw [hs₁] at hbounds
    have hlast : BufferWrite.argbuf maxArgLength ∈ argbufWrites :=
      List.mem_append_right _ (List.mem_singleton_self _)
    exact Nat.lt_irrefl _ (hbounds _ hlast)
  · intro hno
    split
    · rename_i s₁ hs₁
      exact absurd ⟨s₁, hs₁⟩ hno
    · exact fun w hw => by cases hw

/-- A word of 33 characters is recorded before its length is looked at. -/
theorem not_executeWrites_inBounds : ¬ ∀ (img : Image) (s : Kernel) (sp : StackPtr)
    (command : List UInt8) (stale : Stale), 0 ∉ command →
      ∀ w ∈ executeWrites img s sp command stale, w.InBounds := by
  intro hbuffers
  have hmem : BufferWrite.filename 32 ∈ parseWrites 0 ⟨-1, [], []⟩ (List.replicate 33 97) := by
    decide +kernel
  exact absurd (hbuffers sampleImage powerOn ⟨0, 0⟩ (List.replicate 33 97) noStale (by decide) _
    (List.mem_append_left _ hmem)) (by decide)

end LinuxLikeKernel
