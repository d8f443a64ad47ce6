import LinuxLikeKernel.SoundConsole

/-!
# Video writes

The stores that the drawing functions of `lib.c`, `term_save` and `term_restore` make in video
memory, each with the pointer it goes through and its offset from there. The cursors index the
pages with no check of their own, so that they have to stay inside the screen.

## Main definitions

- `VideoWrite`, `draw` — a store, and the memory after a list of them
- `putcWrites`, `multiPutcWrites`, `termSaveWrites` and the like — what each function stores
- `ScreenOp` — a call of one of the functions
- `CursorsInside`, `WritesInside` — cursors on the screen, and stores inside a page

## Main results

- `Draws` — each function stores what its list says, below the end of the page
- `cursors_stay_inside` — after `term_init` this is so in every run
-/

namespace LinuxLikeKernel
open ByteMemory TextSheet Transition

/-! ### Stores -/

/-- A store of a byte in video memory, at an offset from the pointer that it goes through. -/
structure VideoWrite where
  base : Nat
  offset : Nat
  byte : UInt8

/-- The memory after a store. -/
def write (m : Mem) (w : VideoWrite) : Mem := store m (w.base + w.offset) w.byte

/-- The memory after the stores in order. -/
def draw (m : Mem) (ws : List VideoWrite) : Mem := ws.foldl write m

/-- The two stores to a cell of a page. -/
def cellWrites (base i : Nat) (c at' : UInt8) : List VideoWrite :=
  [⟨base, 2 * i, c⟩, ⟨base, 2 * i + 1, at'⟩]

/-- The first loop of `scroll_up` and `multi_scroll_up` at the cell `i`. -/
def moveWrites (base i : Nat) (m : Mem) : List VideoWrite :=
  let m' := store m (charAddr base i) (m (charAddr base (i + numCols)))
  cellWrites base i (m (charAddr base (i + numCols))) (m' (attribAddr base (i + numCols)))

/-- `scroll_up` and `multi_scroll_up` on the page at `base`. -/
def scrollWrites (m : Mem) (base : Nat) (at' : UInt8) : List VideoWrite :=
  let moves := forLog write (moveWrites base) ((numRows - 1) * numCols) m
  moves ++ forLog write (fun k _ => cellWrites base ((numRows - 1) * numCols + k) 32 at') numCols
    (draw m moves)

/-- `memcpy` between the pages at `dst` and `src`. -/
def pageWrites (m : Mem) (dst src : Nat) : List VideoWrite :=
  forLog write (fun i m => [⟨dst, i, m (src + i)⟩]) (2 * numCols * numRows) m

/-! ### The visible screen -/

/-- `scroll_up`. -/
def scrollUpWrites (cur : Option TermId) (sc : Screen) : List VideoWrite :=
  scrollWrites sc.mem video (attrib cur)

/-- The part of `set_screen_cursor` that a column inside the screen leads to. -/
def placeCursorWrites (cur : Option TermId) (sc : Screen) (newX newY : Nat) : List VideoWrite :=
  if newY < numRows then [] else scrollUpWrites cur { sc with screenX := newX }

/-- `enter`. -/
def enterWrites (cur : Option TermId) (sc : Screen) : List VideoWrite :=
  placeCursorWrites cur sc 0 (sc.screenY + 1)

/-- `set_screen_cursor`. -/
def setScreenCursorWrites (cur : Option TermId) (sc : Screen) (newX newY : Nat) :
    List VideoWrite :=
  if newX < numCols then placeCursorWrites cur sc newX newY else enterWrites cur sc

/-- `putc`. -/
def putcWrites (cur : Option TermId) (c : UInt8) (sc : Screen) : List VideoWrite :=
  if c = 10 ∨ c = 13 then enterWrites cur sc
  else
    let cell := cellWrites video (numCols * sc.screenY + sc.screenX) c (attrib cur)
    let sc := { sc with videoMem := video, mem := draw sc.mem cell, screenX := sc.screenX + 1 }
    cell ++ setScreenCursorWrites cur sc sc.screenX sc.screenY

/-- `backspace`. -/
def backspaceWrites (cur : Option TermId) (sc : Screen) : List VideoWrite :=
  if sc.screenX = 0 ∧ sc.screenY = 0 then []
  else
    let newX := if sc.screenX ≠ 0 then sc.screenX - 1 else numCols - 1
    let newY := if sc.screenX ≠ 0 then sc.screenY else sc.screenY - 1
    let moved := setScreenCursor cur sc newX newY
    let pos := (moved.screenY * numCols + moved.screenX) % 2 ^ 16
    setScreenCursorWrites cur sc newX newY ++ cellWrites video pos 32 (attrib cur)

/-- `clear`. -/
def clearWrites (cur : Option TermId) (sc : Screen) : List VideoWrite :=
  forLog write (fun i _ => cellWrites video i 32 (attrib cur)) (numRows * numCols) sc.mem

namespace Console

/-! ### The running terminal, and switches -/

/-- `multi_scroll_up`. -/
def multiScrollUpWrites (k : Console) : List VideoWrite :=
  scrollWrites k.screen.mem k.nowTerm.videoMem (attrib (some k.nowTermId))

/-- The part of `multi_set_screen_cursor` that a column inside the screen leads to. -/
def multiPlaceCursorWrites (k : Console) (newX newY : Nat) : List VideoWrite :=
  if newY < numRows then []
  else (k.setTerm k.nowTermId { k.nowTerm with cursorX := newX }).multiScrollUpWrites

/-- `multi_enter`. -/
def multiEnterWrites (k : Console) : List VideoWrite :=
  k.multiPlaceCursorWrites 0 (k.nowTerm.cursorY + 1)

/-- `multi_set_screen_cursor`. -/
def multiSetScreenCursorWrites (k : Console) (newX newY : Nat) : List VideoWrite :=
  if newX < numCols then k.multiPlaceCursorWrites newX newY else k.multiEnterWrites

/-- `multi_putc`, whose second store goes through `video_mem`. -/
def multiPutcWrites (c : UInt8) (k : Console) : List VideoWrite :=
  if c = 10 ∨ c = 13 then k.multiEnterWrites
  else
    let tm := k.nowTerm
    let sc := k.screen
    let cell : List VideoWrite :=
      [⟨tm.videoMem, 2 * (numCols * tm.cursorY + tm.cursorX), c⟩,
        ⟨sc.videoMem, 2 * (numCols * sc.screenY + sc.screenX) + 1, attrib k.curTermId⟩]
    let k := k.setScreen { sc with mem := draw sc.mem cell }
    let k := k.setTerm k.nowTermId { tm with cursorX := tm.cursorX + 1 }
    cell ++ k.multiSetScreenCursorWrites k.nowTerm.cursorX k.nowTerm.cursorY

/-- `term_save`. -/
def termSaveWrites (k : Console) (id : TermId) : List VideoWrite :=
  pageWrites k.screen.mem (k.term id).videoMem video

/-- `term_restore`. -/
def termRestoreWrites (k : Console) (id : TermId) : List VideoWrite :=
  let tm := k.term id
  let sc := setScreenCursor k.curTermId k.screen tm.cursorX tm.cursorY
  setScreenCursorWrites k.curTermId k.screen tm.cursorX tm.cursorY ++
    pageWrites sc.mem video tm.videoMem

end Console

/-! ### Lists of stores -/

/-- A cursor is on the screen. -/
def OnScreen (x y : Nat) : Prop := x < numCols ∧ y < numRows

instance (x y : Nat) : Decidable (OnScreen x y) :=
  inferInstanceAs (Decidable (x < numCols ∧ y < numRows))

/-- The stores of the list, in order, lead from one memory to the other, and each of them is on the
page that its pointer points to. -/
structure Draws (m m' : Mem) (ws : List VideoWrite) : Prop where
  mem : m' = draw m ws
  offset : ∀ w ∈ ws, w.offset < 2 * numCols * numRows

variable {m m' m'' : Mem} {ws ws' : List VideoWrite}

theorem Draws.nil (m : Mem) : Draws m m [] := ⟨rfl, by simp⟩

theorem Draws.append (h : Draws m m' ws) (h' : Draws m' m'' ws') : Draws m m'' (ws ++ ws') where
  mem := by rw [draw, List.foldl_append, h'.mem, h.mem]; rfl
  offset w hw := (List.mem_append.mp hw).elim (h.offset w) (h'.offset w)

theorem draws_cell (m : Mem) (base : Nat) {i : Nat} (hi : i < numRows * numCols) (c at' : UInt8) :
    Draws m (putCell m base i c at') (cellWrites base i c at') := by
  have hi : i < 2000 := hi
  refine ⟨rfl, fun w hw => ?_⟩
  simp only [cellWrites, List.mem_cons, List.not_mem_nil, or_false] at hw
  show w.offset < 4000
  obtain rfl | rfl := hw <;> dsimp only <;> omega

/-- **Loop rule.** A loop whose turns draw on the page draws on the page. -/
theorem draws_forRange (writes : Nat → Mem → List VideoWrite) {body : Nat → Mem → Mem} {n : Nat}
    (h : ∀ i m, i < n → Draws m (body i m) (writes i m)) (m : Mem) :
    Draws m (forRange n body m) (forLog write writes n m) := by
  refine forRange_induction (fun i y => Draws m y (forLog write writes i m)) n (.nil m) ?_
  rintro i _ hi ⟨rfl, hin⟩
  exact Draws.append ⟨rfl, hin⟩ (h i _ hi)

theorem draws_scrollPage (m : Mem) (base : Nat) (at' : UInt8) :
    Draws m (scrollPage m base at') (scrollWrites m base at') := by
  have hmoves := draws_forRange (moveWrites base) (n := (numRows - 1) * numCols)
    (fun i m hi => draws_cell m base (Nat.lt_trans hi (by decide)) _ _) m
  refine hmoves.append ?_
  rw [← hmoves.mem]
  refine draws_forRange _ (fun k m hk => draws_cell m base ?_ _ _) _
  exact Nat.add_lt_add_left hk _

/-- Where two pages do not overlap, `memcpy` between them is a loop over their bytes. -/
theorem draws_copy (m : Mem) {dst src : Nat} (h : Apart dst src) :
    Draws m (copy m dst src (2 * numCols * numRows)) (pageWrites m dst src) := by
  rw [copy_eq_forRange h.symm]
  refine draws_forRange (fun i m => [⟨dst, i, m (src + i)⟩]) (fun i m hi => ⟨rfl, fun w hw => ?_⟩) m
  rw [List.mem_singleton.mp hw]
  exact hi

/-! ### The functions -/

variable (cur : Option TermId) (sc : Screen)

theorem draws_placeCursor (newX newY : Nat) :
    Draws sc.mem (placeCursor cur sc newX newY).mem (placeCursorWrites cur sc newX newY) := by
  simp only [placeCursor, placeCursorWrites]
  split
  · exact .nil _
  · exact draws_scrollPage ..

theorem draws_enter : Draws sc.mem (enter cur sc).mem (enterWrites cur sc) :=
  draws_placeCursor cur sc _ _

theorem draws_setScreenCursor (newX newY : Nat) : Draws sc.mem
    (setScreenCursor cur sc newX newY).mem (setScreenCursorWrites cur sc newX newY) := by
  simp only [setScreenCursor, setScreenCursorWrites]
  split
  · exact draws_placeCursor ..
  · exact draws_enter ..

theorem OnScreen.cell_lt {x y : Nat} (h : OnScreen x y) :
    numCols * y + x < numRows * numCols := by
  have hx : x < 80 := h.1
  have hy : y < 25 := h.2
  show 80 * y + x < 2000
  omega

theorem draws_putc {sc : Screen} (c : UInt8) (h : OnScreen sc.screenX sc.screenY) :
    Draws sc.mem (putc cur c sc).mem (putcWrites cur c sc) := by
  have hcell := draws_cell sc.mem video h.cell_lt c (attrib cur)
  simp only [putc, putcWrites]
  split
  · exact draws_enter ..
  · rw [← hcell.mem]
    exact hcell.append (draws_setScreenCursor cur { sc with
      videoMem := video, mem := putCell sc.mem video _ c (attrib cur), screenX := _ } _ _)

/-- Wherever the cursor is sent, it is on the screen afterwards. -/
theorem onScreen_setScreenCursor (newX newY : Nat) :
    OnScreen (setScreenCursor cur sc newX newY).screenX
      (setScreenCursor cur sc newX newY).screenY := by
  have hplace : ∀ x y, x < numCols →
      OnScreen (placeCursor cur sc x y).screenX (placeCursor cur sc x y).screenY := by
    intro x y hx
    simp only [placeCursor]
    split
    · rename_i hy
      exact ⟨hx, hy⟩
    · exact ⟨hx, show numRows - 1 < numRows by decide⟩
  simp only [setScreenCursor, enter]
  split
  · rename_i hx
    exact hplace newX newY hx
  · exact hplace 0 _ (by decide)

theorem draws_backspace : Draws sc.mem (backspace cur sc).mem (backspaceWrites cur sc) := by
  have hmoved : ∀ newX newY, Draws sc.mem (putCell (setScreenCursor cur sc newX newY).mem video
      (((setScreenCursor cur sc newX newY).screenY * numCols +
        (setScreenCursor cur sc newX newY).screenX) % 2 ^ 16) 32 (attrib cur))
      (setScreenCursorWrites cur sc newX newY ++ cellWrites video
        (((setScreenCursor cur sc newX newY).screenY * numCols +
          (setScreenCursor cur sc newX newY).screenX) % 2 ^ 16) 32 (attrib cur)) := by
    intro newX newY
    have hon := onScreen_setScreenCursor cur sc newX newY
    refine (draws_setScreenCursor cur sc newX newY).append (draws_cell _ _ ?_ _ _)
    rw [Nat.mul_comm]
    exact Nat.lt_of_le_of_lt (Nat.mod_le ..) hon.cell_lt
  simp only [backspace, backspaceWrites]
  split
  · exact .nil _
  · split
    · exact hmoved _ _
    · exact hmoved _ _

theorem draws_clear : Draws sc.mem (clear cur sc).mem (clearWrites cur sc) :=
  draws_forRange _ (fun _ m hi => draws_cell m video hi 32 (attrib cur)) sc.mem

namespace Console

variable (k : Console)

theorem draws_multiPlaceCursor (newX newY : Nat) : Draws k.screen.mem
    (k.multiPlaceCursor newX newY).screen.mem (k.multiPlaceCursorWrites newX newY) := by
  simp only [multiPlaceCursor, multiPlaceCursorWrites]
  split
  · exact .nil _
  · exact draws_scrollPage ..

theorem draws_multiEnter : Draws k.screen.mem k.multiEnter.screen.mem k.multiEnterWrites :=
  k.draws_multiPlaceCursor _ _

theorem draws_multiSetScreenCursor (newX newY : Nat) : Draws k.screen.mem
    (k.multiSetScreenCursor newX newY).screen.mem (k.multiSetScreenCursorWrites newX newY) := by
  simp only [multiSetScreenCursor, multiSetScreenCursorWrites]
  split
  · exact k.draws_multiPlaceCursor _ _
  · exact k.draws_multiEnter

/-- Both stores of `multi_putc` need their cursor, of the running terminal and of the screen. -/
theorem draws_multiPutc (c : UInt8) (hnow : OnScreen k.nowTerm.cursorX k.nowTerm.cursorY)
    (hscreen : OnScreen k.screen.screenX k.screen.screenY) :
    Draws k.screen.mem (k.multiPutc c).screen.mem (k.multiPutcWrites c) := by
  have hcell : Draws k.screen.mem
      (store (store k.screen.mem
        (charAddr k.nowTerm.videoMem (numCols * k.nowTerm.cursorY + k.nowTerm.cursorX)) c)
        (attribAddr k.screen.videoMem (numCols * k.screen.screenY + k.screen.screenX))
        (attrib k.curTermId))
      [⟨k.nowTerm.videoMem, 2 * (numCols * k.nowTerm.cursorY + k.nowTerm.cursorX), c⟩,
        ⟨k.screen.videoMem, 2 * (numCols * k.screen.screenY + k.screen.screenX) + 1,
          attrib k.curTermId⟩] := by
    have hchar : numCols * k.nowTerm.cursorY + k.nowTerm.cursorX < 2000 := hnow.cell_lt
    have hattrib : numCols * k.screen.screenY + k.screen.screenX < 2000 := hscreen.cell_lt
    refine ⟨rfl, fun w hw => ?_⟩
    simp only [List.mem_cons, List.not_mem_nil, or_false] at hw
    show w.offset < 4000
    obtain rfl | rfl := hw <;> dsimp only <;> omega
  have hmove : ∀ (sc : Screen) (tm : Term) x y, Draws sc.mem
      (((k.setScreen sc).setTerm k.nowTermId tm).multiSetScreenCursor x y).screen.mem
      (((k.setScreen sc).setTerm k.nowTermId tm).multiSetScreenCursorWrites x y) :=
    fun sc tm => ((k.setScreen sc).setTerm k.nowTermId tm).draws_multiSetScreenCursor
  simp only [multiPutc, multiPutcWrites]
  split
  · exact k.draws_multiEnter
  · rw [← hcell.mem]
    exact hcell.append (hmove { k.screen with mem := _ } _ _ _)

theorem draws_termSave (id : TermId) (hpage : (k.term id).videoMem = backingPage id) :
    Draws k.screen.mem (k.termSave id).screen.mem (k.termSaveWrites id) := by
  refine draws_copy _ ?_
  rw [hpage]
  exact (apart_video id).symm

theorem draws_termRestore (id : TermId) (hpage : (k.term id).videoMem = backingPage id) :
    Draws k.screen.mem (k.termRestore id).screen.mem (k.termRestoreWrites id) := by
  refine (draws_setScreenCursor _ _ _ _).append (draws_copy _ ?_)
  rw [hpage]
  exact apart_video id

end Console

/-! ### Runs -/

/-- A call of one of the functions. Between two calls another terminal can come to run. -/
inductive ScreenOp
  | putc (c : UInt8)
  | multiPutc (c : UInt8)
  | enter
  | multiEnter
  | backspace
  | clear
  /-- `set_screen_cursor(0, 0)`. -/
  | home
  | termSave (id : TermId)
  | termRestore (id : TermId)
  | run (id : TermId)

namespace ScreenOp

/-- The effect of a call. -/
def apply (k : Console) : ScreenOp → Console
  | .putc c => k.setScreen (LinuxLikeKernel.putc k.curTermId c k.screen)
  | .multiPutc c => k.multiPutc c
  | .enter => k.setScreen (LinuxLikeKernel.enter k.curTermId k.screen)
  | .multiEnter => k.multiEnter
  | .backspace => k.setScreen (LinuxLikeKernel.backspace k.curTermId k.screen)
  | .clear => k.setScreen (LinuxLikeKernel.clear k.curTermId k.screen)
  | .home => k.setScreen (setScreenCursor k.curTermId k.screen 0 0)
  | .termSave id => k.termSave id
  | .termRestore id => k.termRestore id
  | .run id => { k with nowTermId := id }

/-- What a call stores in video memory. -/
def writes (k : Console) : ScreenOp → List VideoWrite
  | .putc c => putcWrites k.curTermId c k.screen
  | .multiPutc c => k.multiPutcWrites c
  | .enter => enterWrites k.curTermId k.screen
  | .multiEnter => k.multiEnterWrites
  | .backspace => backspaceWrites k.curTermId k.screen
  | .clear => clearWrites k.curTermId k.screen
  | .home => setScreenCursorWrites k.curTermId k.screen 0 0
  | .termSave id => k.termSaveWrites id
  | .termRestore id => k.termRestoreWrites id
  | .run _ => []

/-- A call as a step of the console. -/
def step (k : Console) (op : ScreenOp) : Option Console := some (op.apply k)

end ScreenOp

/-- The screen's cursor and the saved ones are on the screen. -/
structure CursorsInside (k : Console) : Prop where
  screen : OnScreen k.screen.screenX k.screen.screenY
  terms : ∀ t, OnScreen (k.term t).cursorX (k.term t).cursorY

/-- The stores of a call are those of its list, each with an offset below 4000 from the pointer it
goes through. -/
def WritesInside (k : Console) (op : ScreenOp) : Prop :=
  (op.apply k).screen.mem = draw k.screen.mem (op.writes k) ∧ ∀ w ∈ op.writes k, w.offset < 4000

/-- The invariant: the cursors, and each terminal with its page. -/
structure SoundCursors (k : Console) : Prop extends CursorsInside k where
  pages : ∀ t, (k.term t).videoMem = backingPage t

namespace SoundCursors

variable {k : Console}

theorem setScreen (h : SoundCursors k) {sc : Screen} (hsc : OnScreen sc.screenX sc.screenY) :
    SoundCursors (k.setScreen sc) := ⟨⟨hsc, h.terms⟩, h.pages⟩

theorem setTerm (h : SoundCursors k) (t : TermId) (tm : Term)
    (hon : OnScreen tm.cursorX tm.cursorY) (hpage : tm.videoMem = backingPage t) :
    SoundCursors (k.setTerm t tm) := by
  refine ⟨⟨h.screen, fun u => ?_⟩, fun u => ?_⟩
  · by_cases hu : u = t
    · subst hu
      simpa [Console.setTerm] using hon
    · simpa [Console.setTerm, Function.update_of_ne hu] using h.terms u
  · by_cases hu : u = t
    · subst hu
      simpa [Console.setTerm] using hpage
    · simpa [Console.setTerm, Function.update_of_ne hu] using h.pages u

/-- The cursor of a sheet is on the screen. -/
theorem atBack (h : SoundCursors k) (m : Mem) (p : Cursor numCols numRows) :
    SoundCursors (k.atBack m p) := by
  have hback := h.setTerm k.nowTermId { k.nowTerm with cursorX := p.x, cursorY := p.y }
    ⟨p.x.isLt, p.y.isLt⟩ (h.pages _)
  exact ⟨⟨h.screen, hback.terms⟩, hback.pages⟩

theorem multiPutc (h : SoundCursors k) (c : UInt8) : SoundCursors (k.multiPutc c) := by
  have hnow := h.terms k.nowTermId
  rw [multiPutc_eq (cursorAt_x _ hnow.1) (cursorAt_y _ hnow.2)]
  exact h.atBack _ _

theorem multiEnter (h : SoundCursors k) : SoundCursors k.multiEnter := by
  have hnow := h.terms k.nowTermId
  have hwraps : (cursorAt k.nowTerm.cursorX k.nowTerm.cursorY).wraps false := fun h => by cases h
  rw [multiEnter_eq (cursorAt_y _ hnow.2) hwraps]
  exact h.atBack _ _

theorem termSave (h : SoundCursors k) (id : TermId) : SoundCursors (k.termSave id) := by
  have hsaved := h.setTerm id { k.term id with
    keyBuf := copyKeyBuf k.keyBuf (k.term id).keyBuf
    keyBufIdx := k.keyBufIdx
    cursorX := k.screen.screenX
    cursorY := k.screen.screenY } h.screen (h.pages id)
  exact hsaved.setScreen h.screen

theorem termRestore (h : SoundCursors k) (id : TermId) : SoundCursors (k.termRestore id) :=
  ⟨⟨onScreen_setScreenCursor .., h.terms⟩, h.pages⟩

end SoundCursors

/-- `putc` ends with the cursor on the screen, wherever it was. -/
theorem onScreen_putc (cur : Option TermId) (c : UInt8) (sc : Screen) :
    OnScreen (putc cur c sc).screenX (putc cur c sc).screenY := by
  simp only [putc]
  split
  · exact onScreen_setScreenCursor cur sc 0 _
  · exact onScreen_setScreenCursor ..

theorem OnScreen.backspace {sc : Screen} (h : OnScreen sc.screenX sc.screenY)
    (cur : Option TermId) :
    OnScreen (backspace cur sc).screenX (backspace cur sc).screenY := by
  simp only [LinuxLikeKernel.backspace]
  split
  · exact h
  · split
    · exact onScreen_setScreenCursor ..
    · exact onScreen_setScreenCursor ..

/-- **Step lemma.** A call keeps the invariant. -/
theorem SoundCursors.apply {k : Console} (h : SoundCursors k) (op : ScreenOp) :
    SoundCursors (op.apply k) := by
  cases op with
  | putc c => exact h.setScreen (onScreen_putc ..)
  | multiPutc c => exact h.multiPutc c
  | enter => exact h.setScreen (onScreen_setScreenCursor _ _ 0 _)
  | multiEnter => exact h.multiEnter
  | backspace => exact h.setScreen (h.screen.backspace _)
  | clear => exact h.setScreen h.screen
  | home => exact h.setScreen (onScreen_setScreenCursor ..)
  | termSave id => exact h.termSave id
  | termRestore id => exact h.termRestore id
  | run id => exact ⟨⟨h.screen, h.terms⟩, h.pages⟩

/-- **Step lemma.** The stores of a call are inside. -/
theorem SoundCursors.draws {k : Console} (h : SoundCursors k) (op : ScreenOp) :
    Draws k.screen.mem (op.apply k).screen.mem (op.writes k) := by
  cases op with
  | putc c => exact draws_putc _ c h.screen
  | multiPutc c => exact k.draws_multiPutc c (h.terms _) h.screen
  | enter => exact draws_enter ..
  | multiEnter => exact k.draws_multiEnter
  | backspace => exact draws_backspace ..
  | clear => exact draws_clear ..
  | home => exact draws_setScreenCursor ..
  | termSave id => exact k.draws_termSave id (h.pages id)
  | termRestore id => exact k.draws_termRestore id (h.pages id)
  | run id => exact .nil _

/-- The console after `term_init`. Before it `entry` clears the screen and prints its messages; the
static variables start as zeros. -/
def afterTermInit (k : Console) (pt : PageTables) (messages : List UInt8) : Console :=
  let sc := { k.screen with screenX := 0, screenY := 0, videoMem := video }
  (termInit { k with
    screen := puts k.curTermId messages (clear k.curTermId sc) } pt).1

theorem onScreen_puts {sc : Screen} (h : OnScreen sc.screenX sc.screenY) (cur : Option TermId)
    (s : List UInt8) : OnScreen (puts cur s sc).screenX (puts cur s sc).screenY := by
  induction s generalizing sc with
  | nil => exact h
  | cons c s ih => exact ih (onScreen_putc cur c sc)

theorem soundCursors_afterTermInit (k : Console) (pt : PageTables) (messages : List UInt8) :
    SoundCursors (afterTermInit k pt messages) where
  screen := onScreen_puts (show OnScreen 0 0 by decide) _ messages
  terms _ := show OnScreen 0 0 by decide
  pages _ := rfl

/-- **Cursors.** After `term_init` they stay on the screen, and nothing is stored in video memory
behind the page that it is meant for. -/
theorem cursors_stay_inside (k : Console) (pt : PageTables) (messages : List UInt8)
    (ops : List ScreenOp) :
    Along ScreenOp.step CursorsInside (afterTermInit k pt messages) ops ∧
      Guarded ScreenOp.step WritesInside (afterTermInit k pt messages) ops := by
  have hsound : Along ScreenOp.step SoundCursors (afterTermInit k pt messages) ops := by
    refine Guarded.along ?_ (soundCursors_afterTermInit k pt messages)
      (Guarded.of_forall (fun _ _ => trivial) _ _)
    intro k op k' h _ hstep
    obtain rfl := Option.some.inj hstep
    exact h.apply op
  have hrun : (run ScreenOp.step (afterTermInit k pt messages) ops).isSome :=
    run_isSome (fun _ _ => rfl) _ _
  refine ⟨hsound.mono fun _ h => h.toCursorsInside, hsound.guarded ?_ hrun⟩
  intro k op _ h _ _
  have hdraws := h.draws op
  exact ⟨hdraws.mem, hdraws.offset⟩

end LinuxLikeKernel
