import LinuxLikeKernel.Machine
import LinuxLikeKernel.TypedLines

/-!
# Key buffers

`key_buf` and the copies of it that `term_save` keeps hold a line: bytes other than NUL up to the
index, and NULs from there on, by which `term_read` knows how long the line is. Characters stop one
place before the end of the buffer, so that there is always room for the newline.

## Main definitions

- `BufferSound`, `BuffersSound` — a buffer with its index, and all the buffers of a console
- `BufferEvent` — what edits or copies the buffers
- `Console.readTurns` — a `term_read` that nothing interrupts

## Main results

- `readTurns_wait` — such a `term_read` ends with the buffer cleared, if Enter has been pressed
- `buffers_stay_sound` — the buffers are sound in every run
-/

namespace LinuxLikeKernel
open Transition

/-! ### A buffer -/

/-- The bytes of a line, none of them a NUL, then NULs; in the last place only a newline. -/
structure BufferSound (buf : Nat → UInt8) (idx : Nat) : Prop where
  idx_le : idx ≤ keyBufMax
  ne_nul : ∀ j < idx, buf j ≠ 0
  eq_nul : ∀ j, idx ≤ j → j < keyBufMax → buf j = 0
  last : buf (keyBufMax - 1) = 0 ∨ buf (keyBufMax - 1) = 10

namespace BufferSound

variable {buf buf' : Nat → UInt8} {idx : Nat}

theorem congr (h : BufferSound buf idx) (hbuf : ∀ j < keyBufMax, buf' j = buf j) :
    BufferSound buf' idx where
  idx_le := h.idx_le
  ne_nul j hj := by
    rw [hbuf j (Nat.lt_of_lt_of_le hj h.idx_le)]
    exact h.ne_nul j hj
  eq_nul j hle hj := (hbuf j hj).trans (h.eq_nul j hle hj)
  last := by
    rw [hbuf _ (by decide)]
    exact h.last

theorem copyKeyBuf (h : BufferSound buf idx) : BufferSound (copyKeyBuf buf buf') idx :=
  h.congr fun _ hj => if_pos hj

theorem cleared (h : ∀ j < keyBufMax, buf j = 0) : BufferSound buf 0 where
  idx_le := Nat.zero_le _
  ne_nul _ hj := absurd hj (Nat.not_lt_zero _)
  eq_nul j _ hj := h j hj
  last := .inl (h _ (by decide))

/-- A byte is put behind the line. In the last place it has to be a newline. -/
theorem added (h : BufferSound buf idx) {key : UInt8} (hlt : idx < keyBufMax) (hkey : key ≠ 0)
    (hlast : idx = keyBufMax - 1 → key = 10) :
    BufferSound (Function.update buf idx key) (idx + 1) where
  idx_le := hlt
  ne_nul j hj := by
    by_cases heq : j = idx
    · subst heq
      rwa [Function.update_self]
    · rw [Function.update_of_ne heq]
      exact h.ne_nul j (by omega)
  eq_nul j hle hj := by
    rw [Function.update_of_ne (by omega)]
    exact h.eq_nul j (by omega) hj
  last := by
    by_cases heq : keyBufMax - 1 = idx
    · rw [heq, Function.update_self]
      exact .inr (hlast heq.symm)
    · rw [Function.update_of_ne heq]
      exact h.last

/-- The last byte of the line is taken away. -/
theorem erased (h : BufferSound buf idx) :
    BufferSound (Function.update buf (idx - 1) 0) (idx - 1) where
  idx_le := (Nat.sub_le ..).trans h.idx_le
  ne_nul j hj := by
    rw [Function.update_of_ne (by omega)]
    exact h.ne_nul j (by omega)
  eq_nul j hle hj := by
    by_cases heq : j = idx - 1
    · subst heq
      rw [Function.update_self]
    · rw [Function.update_of_ne heq]
      exact h.eq_nul j (by omega) hj
  last := by
    by_cases heq : keyBufMax - 1 = idx - 1
    · rw [heq, Function.update_self]
      exact .inl rfl
    · rw [Function.update_of_ne heq]
      exact h.last

end BufferSound

/-! ### A `term_read` in one step -/

/-- A `term_read` that nothing interrupts, from a phase of it on: the console when it returns,
if it does within the given number of turns. -/
def Console.readTurns (length : Int) : Nat → Console → ReadPhase → Option Console
  | 0, _, _ => none
  | n + 1, k, phase =>
    match (k.termReadTurn length phase).next with
    | none => some (k.termReadTurn length phase).con
    | some next => readTurns length n (k.termReadTurn length phase).con next

/-- The turns of a `term_read` after the wait loop, at most. -/
def readTurnsMax : Nat := 2 * keyBufMax + 4

namespace Console

variable {k : Console} {length : Int}

/-- The loop of `buf_clear`, from byte `j` on. -/
theorem readTurns_clear {j n : Nat} (count : Nat) (hj : j ≤ keyBufMax) (hn : keyBufMax - j < n) :
    k.readTurns length n (.clear j count) = some { k with
      keyBuf := fun i => if j ≤ i ∧ i < keyBufMax then 0 else k.keyBuf i
      keyBufIdx := 0 } := by
  induction n generalizing k j with
  | zero => omega
  | succ n ih =>
    by_cases hlt : j < keyBufMax
    · simp only [readTurns, termReadTurn, if_pos hlt]
      rw [ih hlt (by omega)]
      congr 2
      funext i
      by_cases heq : i = j
      · subst heq
        simp [hlt]
      · have hiff : j + 1 ≤ i ↔ j ≤ i := by omega
        simp only [hiff, Function.update_of_ne heq]
    · simp only [readTurns, termReadTurn, if_neg hlt]
      congr 2
      funext i
      rw [if_neg (by omega)]

/-- The copying loop, from byte `i` on, and `buf_clear`. -/
theorem readTurns_copy {i n : Nat} (hi : i ≤ keyBufMax) (hn : 2 * keyBufMax + 1 - i < n) :
    k.readTurns length n (.copy i) = some k.bufClear := by
  induction n generalizing i with
  | zero => omega
  | succ n ih =>
    by_cases hcopy : i < keyBufMax ∧ (i : Int) < length ∧ k.keyBuf i ≠ 0
    · simp only [readTurns, termReadTurn, if_pos hcopy]
      exact ih hcopy.1 (by omega)
    · simp only [readTurns, termReadTurn, if_neg hcopy]
      rw [readTurns_clear i (Nat.zero_le _) (by omega)]
      simp [bufClear]

/-- A `term_read` that nothing interrupts takes `enter_state` down and clears the buffer; without
`enter_state` it waits. -/
theorem readTurns_wait (k : Console) (length : Int) :
    k.readTurns length readTurnsMax .wait =
      if k.nowTerm.enterState = true then
        some (k.setTerm k.nowTermId { k.nowTerm with enterState := false }).bufClear
      else none := by
  by_cases henter : k.nowTerm.enterState = true
  · have hstart : ∀ n, k.readTurns length (n + 2) .wait = readTurns length n
        (k.setTerm k.nowTermId { k.nowTerm with enterState := false }) (.copy 0) := by
      intro n
      simp only [readTurns, termReadTurn, henter, if_true]
    rw [if_pos henter]
    exact (hstart _).trans (readTurns_copy (Nat.zero_le _) (Nat.lt_succ_self _))
  · have hwait : ∀ n, k.readTurns length n .wait = none := by
      intro n
      induction n with
      | zero => rfl
      | succ n ih =>
        simp only [readTurns, termReadTurn, if_neg henter]
        exact ih
    rw [if_neg henter]
    exact hwait _

end Console

/-! ### Runs -/

/-- What edits or copies the buffers. Between two of these another terminal can come to run. -/
inductive BufferEvent
  | key (scancode : UInt8)
  | switch (oldId newId : TermId)
  | launch (id : TermId)
  | bufClear
  /-- A whole `term_read` of the process that runs. -/
  | read (length : Int)
  | run (id : TermId)

/-- The effect of an event. After Ctrl and C the handler calls `halt`, which clears the buffer once
more. -/
def BufferEvent.step (k : Console) : BufferEvent → Option Console
  | .key scancode => (k.keyboardInterruptHandler scancode).map fun r =>
    if r.2 then r.1.bufClear else r.1
  | .switch oldId newId => k.termSwitch (some oldId) newId
  | .launch id => some (k.launchTerm id)
  | .bufClear => some k.bufClear
  | .read length => k.readTurns length readTurnsMax .wait
  | .run id => some { k with nowTermId := id }

/-- The displayed buffer and the saved ones are sound. -/
structure BuffersSound (k : Console) : Prop where
  shown : BufferSound k.keyBuf k.keyBufIdx
  saved : ∀ t, BufferSound (k.term t).keyBuf (k.term t).keyBufIdx

/-- Unless a newline is in the last place already, Enter ends the line and tells its terminal. -/
def EnterEndsLine (k : Console) : Prop :=
  k.keyBufIdx < keyBufMax → ∃ k' cur, k.keyboardInterruptHandler 0x1C = some (k', false) ∧
    k.curTermId = some cur ∧ (k'.term cur).enterState = true ∧
    k'.keyBuf = Function.update k.keyBuf k.keyBufIdx 10 ∧ k'.keyBufIdx = k.keyBufIdx + 1

namespace BuffersSound

variable {k k' : Console}

theorem of_term (h : BuffersSound k) (hterm : k'.term = k.term)
    (hshown : BufferSound k'.keyBuf k'.keyBufIdx) : BuffersSound k' :=
  ⟨hshown, fun t => hterm ▸ h.saved t⟩

theorem setTerm (h : BuffersSound k) (t : TermId) (tm : Term)
    (htm : BufferSound tm.keyBuf tm.keyBufIdx) : BuffersSound (k.setTerm t tm) := by
  refine ⟨h.shown, fun u => ?_⟩
  by_cases hu : u = t
  · subst hu
    simpa [Console.setTerm] using htm
  · simpa [Console.setTerm, Function.update_of_ne hu] using h.saved u

theorem bufClear (h : BuffersSound k) : BuffersSound k.bufClear :=
  h.of_term rfl (.cleared fun _ hj => if_pos hj)

theorem termSave (h : BuffersSound k) (id : TermId) : BuffersSound (k.termSave id) := by
  have hsaved := h.setTerm id { k.term id with
    keyBuf := copyKeyBuf k.keyBuf (k.term id).keyBuf
    keyBufIdx := k.keyBufIdx
    cursorX := k.screen.screenX
    cursorY := k.screen.screenY } h.shown.copyKeyBuf
  exact hsaved.of_term rfl hsaved.shown

theorem termRestore (h : BuffersSound k) (id : TermId) : BuffersSound (k.termRestore id) :=
  h.of_term rfl (h.saved id).copyKeyBuf

theorem launchTerm (h : BuffersSound k) (id : TermId) : BuffersSound (k.launchTerm id) := by
  have hrestored : ∀ {k : Console}, BuffersSound k →
      BuffersSound ((k.termRestore id).setTerm id
        { (k.termRestore id).term id with running := true }) :=
    fun h => (h.termRestore id).setTerm id _ ((h.termRestore id).saved id)
  simp only [Console.launchTerm]
  cases hcur : k.curTermId with
  | none => exact hrestored h
  | some d => exact hrestored (h.termSave d)

theorem keyEnter (h : BuffersSound k) (hk : k.keyEnter = some k') : BuffersSound k' := by
  rw [Console.keyEnter] at hk
  split at hk
  · rename_i hlt
    obtain ⟨d, hd, rfl⟩ := Option.map_eq_some_iff.mp hk
    have hshown : BufferSound (Function.update k.keyBuf k.keyBufIdx 10) (k.keyBufIdx + 1) :=
      h.shown.added hlt (by decide) fun _ => rfl
    have hflag := h.setTerm d { k.term d with enterState := true } (h.saved d)
    exact hflag.of_term rfl hshown
  · rwa [← Option.some.inj hk]

theorem keyBackspace (h : BuffersSound k) : BuffersSound k.keyBackspace := by
  rw [Console.keyBackspace]
  split
  · exact h.of_term rfl h.shown.erased
  · exact h

theorem char {key : UInt8} {ctrlC : Bool} (h : BuffersSound k) (hkey : key ≠ 0)
    (hk : CharStep k key k' ctrlC) : BuffersSound k' := by
  cases hk with
  | clear => exact h.of_term rfl h.shown
  | ctrlC => exact h.bufClear
  | shortcut => exact h
  | typed hctrl hlt =>
    exact h.of_term rfl (h.shown.added (by omega) hkey fun heq => absurd heq (by omega))
  | full => exact h

theorem key {scancode : UInt8} {ctrlC : Bool} (h : BuffersSound k)
    (hk : k.keyboardInterruptHandler scancode = some (k', ctrlC)) : BuffersSound k' := by
  cases keyStep hk with
  | modifier => exact h.of_term rfl h.shown
  | enter _ henter => exact h.keyEnter henter
  | backspace => exact h.keyBackspace
  | switch _ _ hswitch =>
    obtain ⟨d, -, rfl⟩ := Option.map_eq_some_iff.mp hswitch
    exact (h.termSave d).termRestore _
  | fn => exact h
  | noChar => exact h
  | char _ hchar hstep => exact h.char (keyChar_ne hchar).1 hstep

/-- **Step lemma.** The events keep the buffers sound. -/
theorem step {e : BufferEvent} (h : BuffersSound k) (hk : e.step k = some k') :
    BuffersSound k' := by
  cases e with
  | key scancode =>
    obtain ⟨⟨k₁, ctrlC⟩, hkey, rfl⟩ := Option.map_eq_some_iff.mp hk
    have h₁ := h.key hkey
    cases ctrlC with
    | true => exact h₁.bufClear
    | false => exact h₁
  | switch oldId newId =>
    obtain rfl := Option.some.inj hk
    exact (h.termSave oldId).termRestore newId
  | launch id =>
    obtain rfl := Option.some.inj hk
    exact h.launchTerm id
  | bufClear =>
    obtain rfl := Option.some.inj hk
    exact h.bufClear
  | read length =>
    have hread := (k.readTurns_wait length).symm.trans hk
    split at hread
    · obtain rfl := Option.some.inj hread
      have hflag := h.setTerm k.nowTermId { k.nowTerm with enterState := false } (h.saved _)
      exact hflag.bufClear
    · cases hread
  | run id =>
    obtain rfl := Option.some.inj hk
    exact h.of_term rfl h.shown

end BuffersSound

/-! ### Displayed terminals -/

variable {k k' : Console}

/-- Once a terminal is displayed there is always one. -/
theorem displayed_key {scancode : UInt8} {ctrlC : Bool} (h : k.curTermId ≠ none)
    (hk : k.keyboardInterruptHandler scancode = some (k', ctrlC)) : k'.curTermId ≠ none := by
  cases keyStep hk with
  | modifier => exact h
  | enter _ henter =>
    rw [Console.keyEnter] at henter
    split at henter
    · obtain ⟨d, hd, rfl⟩ := Option.map_eq_some_iff.mp henter
      exact h
    · rwa [← Option.some.inj henter]
  | backspace =>
    rw [Console.keyBackspace]
    split
    · exact h
    · exact h
  | switch _ _ hswitch =>
    obtain ⟨d, -, rfl⟩ := Option.map_eq_some_iff.mp hswitch
    exact Option.some_ne_none _
  | fn => exact h
  | noChar => exact h
  | char _ _ hstep =>
    cases hstep with
    | clear => exact h
    | ctrlC => exact h
    | shortcut => exact h
    | typed => exact h
    | full => exact h

theorem displayed_step {e : BufferEvent} (h : k.curTermId ≠ none) (hk : e.step k = some k') :
    k'.curTermId ≠ none := by
  cases e with
  | key scancode =>
    obtain ⟨⟨k₁, ctrlC⟩, hkey, rfl⟩ := Option.map_eq_some_iff.mp hk
    have h₁ := displayed_key h hkey
    cases ctrlC with
    | true => exact h₁
    | false => exact h₁
  | read length =>
    have hread := (k.readTurns_wait length).symm.trans hk
    split at hread
    · obtain rfl := Option.some.inj hread
      exact h
    · cases hread
  | switch oldId newId =>
    obtain rfl := Option.some.inj hk
    exact Option.some_ne_none _
  | launch id =>
    obtain rfl := Option.some.inj hk
    exact Option.some_ne_none _
  | bufClear =>
    obtain rfl := Option.some.inj hk
    exact h
  | run id =>
    obtain rfl := Option.some.inj hk
    exact h

theorem enterEndsLine (h : k.curTermId ≠ none) : EnterEndsLine k := by
  obtain ⟨cur, hcur⟩ := Option.ne_none_iff_exists'.mp h
  intro hlt
  let k₁ : Console := { k with
    keyBuf := Function.update k.keyBuf k.keyBufIdx 10, keyBufIdx := k.keyBufIdx + 1 }
  let k₂ := (k₁.setTerm cur { k₁.term cur with enterState := true }).setScreen
    (enter (some cur) k.screen)
  have henter : k.keyEnter = some k₂ := by
    rw [Console.keyEnter, if_pos hlt]
    exact congrArg (Option.map _) hcur
  have hhandler : k.keyboardInterruptHandler 0x1C = some (k₂, false) := by
    have hdecode : decodeKey 0x1C = .enter := rfl
    simp only [Console.keyboardInterruptHandler, hdecode, henter]
    rfl
  have hflag : (k₂.term cur).enterState = true := by
    simp [k₂, Console.setTerm, Console.setScreen]
  exact ⟨k₂, cur, hhandler, hcur, hflag, rfl, rfl⟩

/-- **Line buffers.** Once the first terminal is launched, all buffers are sound in every run, and
Enter can end every line of up to 127 characters. -/
theorem buffers_stay_sound (s : Kernel) (id : TermId) (es : List BufferEvent) :
    Along BufferEvent.step (fun k => BuffersSound k ∧ EnterEndsLine k)
      ((boot s).con.launchTerm id) es := by
  have hboot : BuffersSound (boot s).con :=
    ⟨.cleared fun _ hj => if_pos hj, fun _ => .cleared fun _ hj => if_pos hj⟩
  have hstep : ∀ k e k', BuffersSound k ∧ k.curTermId ≠ none → True →
      BufferEvent.step k e = some k' → BuffersSound k' ∧ k'.curTermId ≠ none :=
    fun _ _ _ h _ hk => ⟨h.1.step hk, displayed_step h.2 hk⟩
  have hall := Guarded.along hstep ⟨hboot.launchTerm id, Option.some_ne_none _⟩
    (Guarded.of_forall (fun _ _ => trivial) _ es)
  exact hall.mono fun _ h => ⟨h.1, enterEndsLine h.2⟩

end LinuxLikeKernel
