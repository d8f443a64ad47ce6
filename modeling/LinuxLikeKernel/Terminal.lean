import LinuxLikeKernel.Lib

/-!
# Terminals

`terminal.c` without `term_launch`, which starts a process: saving, restoring and switching
the displayed terminal, and the terminal's `read`.
-/

namespace LinuxLikeKernel
open ByteMemory

/-- The copy loop over a line buffer. -/
def copyKeyBuf (src dst : Nat → UInt8) : Nat → UInt8 := fun j =>
  if j < keyBufMax then src j else dst j

namespace Console

/-- `term_save`. -/
def termSave (k : Console) (id : TermId) : Console :=
  let tm := k.term id
  let k' := k.setTerm id { tm with
    keyBuf := copyKeyBuf k.keyBuf tm.keyBuf
    keyBufIdx := k.keyBufIdx
    cursorX := k.screen.screenX
    cursorY := k.screen.screenY }
  k'.setScreen { k.screen with
    mem := copy k.screen.mem tm.videoMem video (2 * numCols * numRows) }

/-- `term_restore`. The cursor is placed while `cur_term_id` is still the old one. -/
def termRestore (k : Console) (id : TermId) : Console :=
  let tm := k.term id
  let sc := setScreenCursor k.curTermId k.screen tm.cursorX tm.cursorY
  { k with
    keyBuf := copyKeyBuf tm.keyBuf k.keyBuf
    keyBufIdx := tm.keyBufIdx
    screen := { sc with mem := copy sc.mem video tm.videoMem (2 * numCols * numRows) }
    curTermId := some id }

/-- `term_switch`. With the id 3 for the old terminal, `term_save` indexes past `term`: what
happens then is not defined. -/
def termSwitch (k : Console) (oldId : Option TermId) (newId : TermId) : Option Console :=
  oldId.map fun id => (k.termSave id).termRestore newId

/-- `buf_clear`. -/
def bufClear (k : Console) : Console :=
  { k with
    keyBuf := fun j => if j < keyBufMax then 0 else k.keyBuf j
    keyBufIdx := 0 }

/-- A turn of `term_read`: the console after it, the byte it moves to the read buffer with
its offset there, and the phase that follows, or `none` when it has returned. -/
structure ReadTurn where
  con : Console
  stored : Option (Nat × UInt8)
  next : Option ReadPhase

/-- One turn of the loops of `term_read`; interrupts come between two turns. -/
def termReadTurn (k : Console) (length : Int) : ReadPhase → ReadTurn
  | .wait => ⟨k, none, some (if k.nowTerm.enterState then .woken else .wait)⟩
  | .woken => ⟨k.setTerm k.nowTermId { k.nowTerm with enterState := false }, none, some (.copy 0)⟩
  | .copy i =>
    if i < keyBufMax ∧ (i : Int) < length ∧ k.keyBuf i ≠ 0 then
      ⟨k, some (i, k.keyBuf i), some (.copy (i + 1))⟩
    else ⟨k, none, some (.clear 0 i)⟩
  | .clear j count =>
    if j < keyBufMax then
      ⟨{ k with keyBuf := Function.update k.keyBuf j 0 }, none, some (.clear (j + 1) count)⟩
    else ⟨{ k with keyBufIdx := 0 }, none, none⟩

end Console

end LinuxLikeKernel
