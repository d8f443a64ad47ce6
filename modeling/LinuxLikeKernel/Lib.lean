import LinuxLikeKernel.Types

/-!
# Screen output

The part of `lib.c` that draws. `putc` and its helpers draw on the visible screen with the
global cursor, the `multi_` copies on the page and cursor of the running terminal.
-/

namespace LinuxLikeKernel
open ByteMemory

/-- The text attribute of a terminal, as every drawing function picks it by comparing an id
with 0, 1 and 2. -/
def attrib : Option TermId → UInt8
  | some 0 => 0xD
  | some 1 => 0xA
  | some 2 => 0xE
  | none => 0x7

/-- Cell `i` of the page at `base`: its character byte, and the attribute byte after it. -/
def charAddr (base i : Nat) : Nat := base + 2 * i

def attribAddr (base i : Nat) : Nat := base + 2 * i + 1

def putCell (m : Mem) (base i : Nat) (c at' : UInt8) : Mem :=
  store (store m (charAddr base i) c) (attribAddr base i) at'

/-- The two loops of `scroll_up` and `multi_scroll_up`. -/
def scrollPage (m : Mem) (base : Nat) (at' : UInt8) : Mem :=
  let moved := forRange ((numRows - 1) * numCols) (fun i m =>
    let m := store m (charAddr base i) (m (charAddr base (i + numCols)))
    store m (attribAddr base i) (m (attribAddr base (i + numCols)))) m
  forRange numCols (fun k m => putCell m base ((numRows - 1) * numCols + k) 32 at') moved

/-! ### The visible screen -/

/-- `scroll_up`. -/
def scrollUp (cur : Option TermId) (sc : Screen) : Screen :=
  { sc with videoMem := video, mem := scrollPage sc.mem video (attrib cur) }

/-- The part of `set_screen_cursor` that a column inside the screen leads to. -/
def placeCursor (cur : Option TermId) (sc : Screen) (newX newY : Nat) : Screen :=
  let sc := { sc with screenX := newX }
  let sc := if newY < numRows then { sc with screenY := newY }
    else { scrollUp cur sc with screenY := numRows - 1 }
  { sc with cursorPos := (sc.screenY * numCols + sc.screenX) % 2 ^ 16 }

/-- `enter`; the call `set_screen_cursor(0, screen_y + 1)` always takes the first branch. -/
def enter (cur : Option TermId) (sc : Screen) : Screen :=
  placeCursor cur sc 0 (sc.screenY + 1)

/-- `set_screen_cursor`. -/
def setScreenCursor (cur : Option TermId) (sc : Screen) (newX newY : Nat) : Screen :=
  if newX < numCols then placeCursor cur sc newX newY else enter cur sc

/-- `putc`. -/
def putc (cur : Option TermId) (c : UInt8) (sc : Screen) : Screen :=
  if c = 10 ∨ c = 13 then enter cur sc
  else
    let sc := { sc with videoMem := video }
    let mem := putCell sc.mem video (numCols * sc.screenY + sc.screenX) c (attrib cur)
    let sc := { sc with mem := mem, screenX := sc.screenX + 1 }
    setScreenCursor cur sc sc.screenX sc.screenY

/-- `puts`, and `printf` of a text without conversions. -/
def puts (cur : Option TermId) (s : List UInt8) (sc : Screen) : Screen :=
  s.foldl (fun sc c => putc cur c sc) sc

/-- `backspace`. -/
def backspace (cur : Option TermId) (sc : Screen) : Screen :=
  if sc.screenX = 0 ∧ sc.screenY = 0 then sc
  else
    let sc := if sc.screenX ≠ 0 then setScreenCursor cur sc (sc.screenX - 1) sc.screenY
      else setScreenCursor cur sc (numCols - 1) (sc.screenY - 1)
    let pos := (sc.screenY * numCols + sc.screenX) % 2 ^ 16
    { sc with videoMem := video, mem := putCell sc.mem video pos 32 (attrib cur) }

/-- `clear`. -/
def clear (cur : Option TermId) (sc : Screen) : Screen :=
  { sc with
    videoMem := video
    mem := forRange (numRows * numCols) (fun i m => putCell m video i 32 (attrib cur)) sc.mem }

/-- `set_vidmem`. -/
def setVidmem (sc : Screen) (addr : Nat) : Screen := { sc with videoMem := addr }

@[simp] theorem enter_eq (cur : Option TermId) (sc : Screen) :
    setScreenCursor cur sc 0 (sc.screenY + 1) = enter cur sc := rfl

/-! ### The running terminal in the background -/

namespace Console

/-- The terminal that is running. -/
def nowTerm (k : Console) : Term := k.term k.nowTermId

/-- An update of one terminal's record. -/
def setTerm (k : Console) (id : TermId) (tm : Term) : Console :=
  { k with term := Function.update k.term id tm }

def setScreen (k : Console) (sc : Screen) : Console := { k with screen := sc }

/-- `multi_scroll_up`. -/
def multiScrollUp (k : Console) : Console :=
  { k with screen := { k.screen with
      mem := scrollPage k.screen.mem k.nowTerm.videoMem (attrib (some k.nowTermId)) } }

/-- The part of `multi_set_screen_cursor` that a column inside the screen leads to. -/
def multiPlaceCursor (k : Console) (newX newY : Nat) : Console :=
  let k := k.setTerm k.nowTermId { k.nowTerm with cursorX := newX }
  if newY < numRows then k.setTerm k.nowTermId { k.nowTerm with cursorY := newY }
  else
    let k := k.multiScrollUp
    k.setTerm k.nowTermId { k.nowTerm with cursorY := numRows - 1 }

/-- `multi_enter`. -/
def multiEnter (k : Console) : Console := k.multiPlaceCursor 0 (k.nowTerm.cursorY + 1)

/-- `multi_set_screen_cursor`. -/
def multiSetScreenCursor (k : Console) (newX newY : Nat) : Console :=
  if newX < numCols then k.multiPlaceCursor newX newY else k.multiEnter

/-- `multi_putc`. The character goes to the page of the running terminal, at its cursor; the
attribute goes through `video_mem`, at the cursor of the visible screen, and is that of the
displayed terminal. -/
def multiPutc (c : UInt8) (k : Console) : Console :=
  if c = 10 ∨ c = 13 then k.multiEnter
  else
    let tm := k.nowTerm
    let sc := k.screen
    let mem := store sc.mem (charAddr tm.videoMem (numCols * tm.cursorY + tm.cursorX)) c
    let mem := store mem (attribAddr sc.videoMem (numCols * sc.screenY + sc.screenX))
      (attrib k.curTermId)
    let k := k.setScreen { sc with mem := mem }
    let k := k.setTerm k.nowTermId { tm with cursorX := tm.cursorX + 1 }
    k.multiSetScreenCursor k.nowTerm.cursorX k.nowTerm.cursorY

/-- `multi_puts`. -/
def multiPuts (s : List UInt8) (k : Console) : Console :=
  s.foldl (fun k c => k.multiPutc c) k

/-- `puts` on the console's screen. -/
def puts (s : List UInt8) (k : Console) : Console :=
  k.setScreen (LinuxLikeKernel.puts k.curTermId s k.screen)

end Console

end LinuxLikeKernel
