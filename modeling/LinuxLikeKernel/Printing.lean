import LinuxLikeKernel.Page

/-!
# Printing on sheets

`putc` prints on the visible screen as on a sheet of text. `multi_putc` does so on the page of
the running terminal as far as characters and the cursor go; attributes it stores elsewhere.

## Main definitions

- `Screen.Shows` — the visible screen is a sheet with its cursor
- `multiMem` — the memory after `multi_putc`

## Main results

- `Screen.Shows.putc`, `Screen.Shows.puts` — `putc` refines printing on a sheet
- `Screen.Shows.backspace`, `shows_clear` — so do `backspace` and `clear` taking back
- `multiPuts_eq` — `multi_puts` as a change of memory and cursor
- `chars_multiMemAll`, `attribs_multiMemAll`, `gridAt_multiMemAll` — what is on the pages then
-/

namespace LinuxLikeKernel
open ByteMemory TextSheet

/-- What a character does: it fills a cell, or starts a new line. -/
def item (c : UInt8) : Option UInt8 := if c = 10 ∨ c = 13 then none else some c

/-- A character that fills a cell. -/
def isGlyph (c : UInt8) : Bool := (item c).isSome

theorem isGlyph_iff {c : UInt8} : isGlyph c = true ↔ ¬(c = 10 ∨ c = 13) := by
  simp only [isGlyph, item]
  split <;> simp_all

/-! ### The visible screen -/

/-- The visible page is the sheet, and the cursor, in memory and on the device, is its. -/
structure Screen.Shows (sc : Screen) (sh : Sheet numCols numRows (UInt8 × UInt8)) : Prop where
  grid : gridAt sc.mem video = sh.cells
  x : sc.screenX = sh.cursor.x
  y : sc.screenY = sh.cursor.y
  pos : sc.cursorPos = cellIndex sh.cursor

/-- A character with an attribute as a sheet's item. -/
def itemWith (at' c : UInt8) : Option (UInt8 × UInt8) := (item c).map fun c => (c, at')

variable {cur : Option TermId} {sc : Screen} {sh : Sheet numCols numRows (UInt8 × UInt8)}

theorem cellIndex_mod (p : Cursor numCols numRows) :
    (p.y.val * numCols + p.x.val) % 2 ^ 16 = cellIndex p := by
  have hlt := cellIndex_lt p
  simp only [cellIndex, numCols, numRows] at *
  omega

/-- `enter`, or the end of a line. -/
theorem shows_enter {g : Grid numCols numRows (UInt8 × UInt8)} (hg : gridAt sc.mem video = g)
    {p : Cursor numCols numRows} (hy : sc.screenY = p.y) {cell : Bool} (hw : p.wraps cell) :
    (enter cur sc).Shows ⟨g.follow (32, attrib cur) p cell, p.next cell⟩ := by
  have hlt := p.y.isLt
  by_cases hlast : p.y.val + 1 < numRows
  · obtain ⟨hno, hnext⟩ := Cursor.next_of_wraps hw hlast
    have henter : enter cur sc = { sc with
        screenX := 0
        screenY := p.y + 1
        cursorPos := ((p.y + 1) * numCols + 0) % 2 ^ 16 } := by
      simp only [enter, placeCursor, hy, if_pos hlast]
    rw [henter, hnext, Grid.follow, if_neg hno]
    exact ⟨hg, rfl, rfl, cellIndex_mod ⟨⟨0, p.x.pos⟩, ⟨p.y + 1, hlast⟩⟩⟩
  · have hscroll : p.scrolls cell := ⟨hw, by omega⟩
    have hy24 : p.y.val = numRows - 1 := by omega
    have henter : enter cur sc = { scrollUp cur sc with
        screenX := 0
        screenY := p.y
        cursorPos := (p.y * numCols + 0) % 2 ^ 16 } := by
      simp only [enter, placeCursor, hy, hy24]
      rfl
    rw [henter, Cursor.next_of_scrolls hscroll, Grid.follow, if_pos hscroll]
    refine ⟨?_, rfl, rfl, cellIndex_mod ⟨⟨0, p.x.pos⟩, p.y⟩⟩
    rw [← hg]
    exact gridAt_scrollPage ..

/-- The cursor goes on after a cell has been filled. -/
theorem shows_advance {g : Grid numCols numRows (UInt8 × UInt8)} (hg : gridAt sc.mem video = g)
    {p : Cursor numCols numRows} {x y : Nat} (hx : x = p.x) (hy : y = p.y)
    (hscreen : sc.screenY = y) :
    (setScreenCursor cur sc (x + 1) y).Shows ⟨g.follow (32, attrib cur) p true, p.next true⟩ := by
  have hlt := p.y.isLt
  subst hx hy
  by_cases hin : p.x.val + 1 < numCols
  · obtain ⟨hscroll, hnext⟩ := Cursor.next_of_lt hin
    rw [setScreenCursor, if_pos hin, placeCursor, if_pos hlt, hnext, Grid.follow, if_neg hscroll]
    exact ⟨hg, rfl, rfl, cellIndex_mod ⟨⟨p.x + 1, hin⟩, p.y⟩⟩
  · have hw : p.wraps true := fun _ => by
      have := p.x.isLt
      omega
    rw [setScreenCursor, if_neg hin]
    exact shows_enter hg hscreen hw

/-- **Refinement.** `putc` prints on the sheet that the screen shows. -/
theorem Screen.Shows.putc (h : sc.Shows sh) (cur : Option TermId) (c : UInt8) :
    (putc cur c sc).Shows (sh.print (32, attrib cur) (itemWith (attrib cur) c)) := by
  by_cases hnl : c = 10 ∨ c = 13
  · have hitem : itemWith (attrib cur) c = none := by simp [itemWith, item, hnl]
    rw [LinuxLikeKernel.putc, if_pos hnl, hitem]
    exact shows_enter h.grid h.y fun h => by cases h
  · have hitem : itemWith (attrib cur) c = some (c, attrib cur) := by simp [itemWith, item, hnl]
    have hindex : numCols * sc.screenY + sc.screenX = cellIndex sh.cursor := by
      rw [h.x, h.y, cellIndex]
    have hgrid : gridAt (putCell sc.mem video (cellIndex sh.cursor) c (attrib cur)) video =
        sh.cells.write sh.cursor (c, attrib cur) := by
      rw [gridAt_putCell, h.grid]
    have hputc : LinuxLikeKernel.putc cur c sc = setScreenCursor cur { sc with
        videoMem := video
        mem := putCell sc.mem video (cellIndex sh.cursor) c (attrib cur)
        screenX := sc.screenX + 1 } (sc.screenX + 1) sc.screenY := by
      rw [LinuxLikeKernel.putc, if_neg hnl, ← hindex]
    rw [hputc, hitem]
    exact shows_advance hgrid h.x h.y rfl

/-- **Refinement.** `puts` prints a text on the sheet. -/
theorem Screen.Shows.puts (h : sc.Shows sh) (cur : Option TermId) (s : List UInt8) :
    (puts cur s sc).Shows (sh.printAll (32, attrib cur) (s.map (itemWith (attrib cur)))) := by
  induction s generalizing sc sh with
  | nil => exact h
  | cons c s ih => exact ih (h.putc cur c)

/-- A cursor inside the screen is just placed. -/
theorem setScreenCursor_eq (cur : Option TermId) (sc : Screen) (p : Cursor numCols numRows) :
    setScreenCursor cur sc p.x p.y =
      { sc with screenX := p.x, screenY := p.y, cursorPos := cellIndex p } := by
  rw [setScreenCursor, if_pos p.x.isLt, placeCursor]
  simp only [if_pos p.y.isLt, cellIndex_mod]

/-- **Refinement.** `enter` starts a new line. -/
theorem Screen.Shows.enter (h : sc.Shows sh) (cur : Option TermId) :
    (enter cur sc).Shows (sh.print (32, attrib cur) none) :=
  shows_enter h.grid h.y fun h => by cases h

theorem backspace_eq (h : sc.Shows sh) (cur : Option TermId)
    (hne : ¬(sh.cursor.x.val = 0 ∧ sh.cursor.y.val = 0)) :
    backspace cur sc = { sc with
      screenX := sh.cursor.prev.x
      screenY := sh.cursor.prev.y
      cursorPos := cellIndex sh.cursor.prev
      videoMem := video
      mem := putCell sc.mem video (cellIndex sh.cursor.prev) 32 (attrib cur) } := by
  have hmoved : (if sc.screenX ≠ 0 then setScreenCursor cur sc (sc.screenX - 1) sc.screenY
      else setScreenCursor cur sc (numCols - 1) (sc.screenY - 1)) =
      { sc with
        screenX := sh.cursor.prev.x
        screenY := sh.cursor.prev.y
        cursorPos := cellIndex sh.cursor.prev } := by
    rw [← setScreenCursor_eq cur sc, h.x, h.y, Cursor.prev]
    by_cases hx : sh.cursor.x.val = 0
    · rw [if_neg (not_not.mpr hx), if_neg (by omega), if_pos (by omega)]
    · rw [if_pos hx, if_pos (by omega)]
  have hxy : ¬(sc.screenX = 0 ∧ sc.screenY = 0) := by rwa [h.x, h.y]
  simp only [backspace, if_neg hxy, hmoved, cellIndex_mod]

/-- **Refinement.** `backspace` takes back a cell. -/
theorem Screen.Shows.backspace (h : sc.Shows sh) (cur : Option TermId) :
    (backspace cur sc).Shows (sh.erase (32, attrib cur)) := by
  by_cases hzero : sh.cursor.x.val = 0 ∧ sh.cursor.y.val = 0
  · rw [Sheet.erase, if_pos hzero, LinuxLikeKernel.backspace, if_pos (by rwa [h.x, h.y])]
    exact h
  · rw [backspace_eq h cur hzero, Sheet.erase, if_neg hzero]
    refine ⟨?_, rfl, rfl, rfl⟩
    rw [← h.grid]
    exact gridAt_putCell ..

theorem clear_apply (cur : Option TermId) (sc : Screen) (a : Nat) :
    (clear cur sc).mem a = if video ≤ a ∧ a < video + pageBytes then
      (if (a - video) % 2 = 0 then 32 else attrib cur) else sc.mem a := by
  have hloop := blankCells_apply sc.mem video 0 (numRows * numCols) (attrib cur) a
  simp only [Nat.zero_add, Nat.mul_zero, Nat.add_zero] at hloop
  exact hloop

/-- **Refinement.** Ctrl+L empties the screen. -/
theorem shows_clear (cur : Option TermId) (sc : Screen)
    (sh : Sheet numCols numRows (UInt8 × UInt8)) :
    (setScreenCursor cur (clear cur sc) 0 0).Shows (sh.wipe (32, attrib cur)) := by
  have hset := setScreenCursor_eq cur (clear cur sc) (sh.wipe (32, attrib cur)).cursor
  refine hset ▸ ⟨?_, rfl, rfl, rfl⟩
  funext r c
  have hr := r.isLt
  have hc := c.isLt
  simp only [numCols, numRows] at hr hc
  simp only [gridAt, clear_apply, charAddr, attribAddr, pageBytes, numCols, numRows, Sheet.wipe]
  rw [if_pos (by omega), if_pos (by omega), if_pos (by omega), if_neg (by omega)]

/-! ### Other pages -/

theorem gridAt_placeCursor (cur : Option TermId) (sc : Screen) (x y : Nat) {base : Nat}
    (ha : Apart video base) :
    gridAt (placeCursor cur sc x y).mem base = gridAt sc.mem base := by
  simp only [placeCursor]
  split
  · rfl
  · exact gridAt_scrollPage_of_apart ha

theorem gridAt_setScreenCursor (cur : Option TermId) (sc : Screen) (x y : Nat) {base : Nat}
    (ha : Apart video base) :
    gridAt (setScreenCursor cur sc x y).mem base = gridAt sc.mem base := by
  simp only [setScreenCursor, enter]
  split
  · exact gridAt_placeCursor _ _ _ _ ha
  · exact gridAt_placeCursor _ _ _ _ ha

theorem gridAt_enter (cur : Option TermId) (sc : Screen) {base : Nat} (ha : Apart video base) :
    gridAt (enter cur sc).mem base = gridAt sc.mem base := gridAt_placeCursor _ _ _ _ ha

/-- Printing on the screen leaves other pages alone. -/
theorem gridAt_putc (h : sc.Shows sh) (cur : Option TermId) (c : UInt8) {base : Nat}
    (ha : Apart video base) : gridAt (putc cur c sc).mem base = gridAt sc.mem base := by
  rw [putc]
  split
  · exact gridAt_enter _ _ ha
  · have hindex : numCols * sc.screenY + sc.screenX = cellIndex sh.cursor := by
      rw [h.x, h.y, cellIndex]
    refine (gridAt_setScreenCursor _ _ _ _ ha).trans ?_
    rw [hindex]
    exact (gridAt_store_attrib_of_apart ha).trans (gridAt_store_char_of_apart ha)

theorem gridAt_backspace (h : sc.Shows sh) (cur : Option TermId) {base : Nat}
    (ha : Apart video base) : gridAt (backspace cur sc).mem base = gridAt sc.mem base := by
  by_cases hzero : sh.cursor.x.val = 0 ∧ sh.cursor.y.val = 0
  · rw [backspace, if_pos (by rwa [h.x, h.y])]
  · rw [backspace_eq h cur hzero]
    exact (gridAt_store_attrib_of_apart ha).trans (gridAt_store_char_of_apart ha)

theorem gridAt_clear (cur : Option TermId) (sc : Screen) {base : Nat} (ha : Apart video base) :
    gridAt (clear cur sc).mem base = gridAt sc.mem base := by
  refine gridAt_congr fun a hlo hhi => ?_
  simp only [Apart] at ha
  rw [clear_apply, if_neg (by omega)]

theorem gridAt_puts (h : sc.Shows sh) (cur : Option TermId) (s : List UInt8) {base : Nat}
    (ha : Apart video base) : gridAt (puts cur s sc).mem base = gridAt sc.mem base := by
  induction s generalizing sc sh with
  | nil => rfl
  | cons c s ih => exact (ih (h.putc cur c)).trans (gridAt_putc h cur c ha)

/-! ### The running terminal in the background -/

/-- The console with another memory and another cursor of the running terminal. -/
def Console.atBack (k : Console) (m : Mem) (p : Cursor numCols numRows) : Console :=
  { k with
    screen := { k.screen with mem := m }
    term := Function.update k.term k.nowTermId
      { k.nowTerm with cursorX := p.x, cursorY := p.y } }

/-- The constants of `multi_putc` during a text: the page and attribute of the running terminal,
and the store of an attribute that comes with each character. -/
structure Ink where
  page : Nat
  attrib : UInt8
  stray : Store

def Console.ink (k : Console) : Ink where
  page := k.nowTerm.videoMem
  attrib := LinuxLikeKernel.attrib (some k.nowTermId)
  stray := (attribAddr k.screen.videoMem (numCols * k.screen.screenY + k.screen.screenX),
    LinuxLikeKernel.attrib k.curTermId)

/-- The memory after `multi_putc` with the running terminal's cursor at `p`. -/
def multiMem (k : Ink) (m : Mem) (p : Cursor numCols numRows) (c : UInt8) : Mem :=
  let m := if isGlyph c then
      store (store m (charAddr k.page (cellIndex p)) c) k.stray.1 k.stray.2
    else m
  if p.scrolls (isGlyph c) then scrollPage m k.page k.attrib else m

/-- The memory after `multi_puts`. -/
def multiMemAll (k : Ink) : Mem → Cursor numCols numRows → List UInt8 → Mem
  | m, _, [] => m
  | m, p, c :: s => multiMemAll k (multiMem k m p c) (p.next (isGlyph c)) s

theorem nowTerm_setTerm (k : Console) (tm : Term) : (k.setTerm k.nowTermId tm).nowTerm = tm :=
  Function.update_self ..

theorem setTerm_setTerm (k : Console) (id : TermId) (tm tm' : Term) :
    (k.setTerm id tm).setTerm id tm' = k.setTerm id tm' := by
  simp [Console.setTerm]

/-- Placing the cursor without scrolling. -/
theorem multiPlaceCursor_of_lt (k : Console) (x : Nat) {y : Nat} (hy : y < numRows) :
    k.multiPlaceCursor x y =
      k.setTerm k.nowTermId { k.nowTerm with cursorX := x, cursorY := y } := by
  simp only [Console.multiPlaceCursor, if_pos hy]
  refine (setTerm_setTerm ..).trans ?_
  rw [nowTerm_setTerm]

/-- Placing the cursor below the last line. -/
theorem multiPlaceCursor_of_le (k : Console) (x : Nat) {y : Nat} (hy : numRows ≤ y) :
    k.multiPlaceCursor x y = (k.setScreen { k.screen with
        mem := scrollPage k.screen.mem k.nowTerm.videoMem (attrib (some k.nowTermId)) }).setTerm
      k.nowTermId { k.nowTerm with cursorX := x, cursorY := numRows - 1 } := by
  simp only [Console.multiPlaceCursor, if_neg (Nat.not_lt.mpr hy)]
  simp [Console.multiScrollUp, Console.nowTerm, Console.setTerm, Console.setScreen]

/-- `multi_enter`, or the end of a line. -/
theorem multiEnter_eq {k : Console} {p : Cursor numCols numRows} (hy : k.nowTerm.cursorY = p.y)
    {cell : Bool} (hw : p.wraps cell) : k.multiEnter = k.atBack
      (if p.scrolls cell then scrollPage k.screen.mem k.nowTerm.videoMem (attrib (some k.nowTermId))
        else k.screen.mem) (p.next cell) := by
  have hlt := p.y.isLt
  rw [Console.multiEnter, hy]
  by_cases hlast : p.y.val + 1 < numRows
  · obtain ⟨hno, hnext⟩ := Cursor.next_of_wraps hw hlast
    rw [multiPlaceCursor_of_lt k 0 hlast, if_neg hno, hnext]
    rfl
  · have hscroll : p.scrolls cell := ⟨hw, by omega⟩
    have hy24 : p.y.val = numRows - 1 := by omega
    rw [multiPlaceCursor_of_le k 0 (Nat.le_of_not_lt hlast), if_pos hscroll,
      Cursor.next_of_scrolls hscroll, ← hy24]
    rfl

/-- The cursor of the running terminal goes on after a cell has been filled. -/
theorem multiSetScreenCursor_eq {k : Console} {p : Cursor numCols numRows}
    (hy : k.nowTerm.cursorY = p.y) : k.multiSetScreenCursor (p.x + 1) p.y = k.atBack
      (if p.scrolls true then scrollPage k.screen.mem k.nowTerm.videoMem (attrib (some k.nowTermId))
        else k.screen.mem) (p.next true) := by
  have hlt := p.y.isLt
  rw [Console.multiSetScreenCursor]
  by_cases hin : p.x.val + 1 < numCols
  · obtain ⟨hscroll, hnext⟩ := Cursor.next_of_lt hin
    rw [if_pos hin, multiPlaceCursor_of_lt k _ hlt, if_neg hscroll, hnext]
    rfl
  · have hw : p.wraps true := fun _ => by
      have := p.x.isLt
      omega
    rw [if_neg hin, multiEnter_eq hy hw]

theorem atBack_atBack (k : Console) (m m' : Mem) (p p' : Cursor numCols numRows) :
    (k.atBack m p).atBack m' p' = k.atBack m' p' := by
  simp [Console.atBack, Console.nowTerm]

theorem multiPutc_eq {k : Console} {p : Cursor numCols numRows} (hx : k.nowTerm.cursorX = p.x)
    (hy : k.nowTerm.cursorY = p.y) (c : UInt8) :
    k.multiPutc c = k.atBack (multiMem k.ink k.screen.mem p c) (p.next (isGlyph c)) := by
  by_cases hnl : c = 10 ∨ c = 13
  · have hglyph : isGlyph c = false := by
      rw [Bool.eq_false_iff, ne_eq, isGlyph_iff, not_not]
      exact hnl
    simp only [Console.multiPutc, if_pos hnl, multiMem, hglyph]
    exact multiEnter_eq hy fun h => by cases h
  · have hglyph : isGlyph c = true := isGlyph_iff.mpr hnl
    have hindex : numCols * k.nowTerm.cursorY + k.nowTerm.cursorX = cellIndex p := by
      rw [hx, hy, cellIndex]
    let k' : Console := (k.setScreen { k.screen with
      mem := store (store k.screen.mem (charAddr k.ink.page (cellIndex p)) c)
        k.ink.stray.1 k.ink.stray.2 }).setTerm k.nowTermId
        { k.nowTerm with cursorX := k.nowTerm.cursorX + 1 }
    have hterm : k'.nowTerm = { k.nowTerm with cursorX := k.nowTerm.cursorX + 1 } :=
      nowTerm_setTerm ..
    have hputc : k.multiPutc c = k'.multiSetScreenCursor (p.x + 1) p.y := by
      rw [← hx, ← hy]
      simp only [Console.multiPutc, if_neg hnl, hindex]
      rw [nowTerm_setTerm]
      rfl
    have hy' : k'.nowTerm.cursorY = p.y := by rw [hterm]; exact hy
    have hback : ∀ m q, k'.atBack m q = k.atBack m q := by
      intro m q
      simp [k', Console.atBack, Console.setTerm, Console.setScreen, Console.nowTerm]
    rw [hputc, multiSetScreenCursor_eq hy', multiMem, hglyph, hterm, hback]
    rfl

/-- **`multi_puts`** changes the memory and the cursor of the running terminal only. -/
theorem multiPuts_eq {k : Console} {p : Cursor numCols numRows} (hx : k.nowTerm.cursorX = p.x)
    (hy : k.nowTerm.cursorY = p.y) (s : List UInt8) :
    k.multiPuts s = k.atBack (multiMemAll k.ink k.screen.mem p s) (p.run (s.map isGlyph)) := by
  induction s generalizing k p with
  | nil =>
    have hself : k.atBack k.screen.mem p = k := by
      simp only [Console.atBack, ← hx, ← hy]
      exact congrArg (fun f => { k with term := f }) (Function.update_eq_self ..)
    exact hself.symm
  | cons c s ih =>
    have hterm : ∀ m q, (k.atBack m q).nowTerm = { k.nowTerm with
        cursorX := q.x
        cursorY := q.y } := fun m q => Function.update_self ..
    have hink : ∀ m q, (k.atBack m q).ink = k.ink := by
      intro m q
      simp only [Console.ink, hterm]
      rfl
    have htail := ih (k := k.atBack (multiMem k.ink k.screen.mem p c) (p.next (isGlyph c)))
      (p := p.next (isGlyph c)) (by rw [hterm]) (by rw [hterm])
    rw [hink, atBack_atBack] at htail
    show (k.multiPutc c).multiPuts s = _
    rw [multiPutc_eq hx hy]
    exact htail

/-! ### What is on the pages -/

/-- The page of the running terminal after a character. -/
theorem gridAt_multiMem_page (k : Ink) (m : Mem) (p : Cursor numCols numRows) (c : UInt8) :
    gridAt (multiMem k m p c) k.page = Grid.follow (32, k.attrib)
      (gridAt (if isGlyph c then
        store (store m (charAddr k.page (cellIndex p)) c) k.stray.1 k.stray.2 else m) k.page)
      p (isGlyph c) := by
  rw [multiMem, Grid.follow]
  split
  · exact gridAt_scrollPage ..
  · rfl

/-- The stray attributes go to the cell at `q` of the page at `v`. -/
def Ink.StraysTo (k : Ink) (v : Nat) (q : Cursor numCols numRows) : Prop :=
  k.stray.1 = attribAddr v (cellIndex q)

variable {k : Ink} {v base : Nat} {q : Cursor numCols numRows}

/-- Characters do not change with a stray attribute. -/
theorem chars_stray (hs : k.StraysTo v q) (hv : v = base ∨ Apart v base) (m : Mem) :
    (gridAt (store m k.stray.1 k.stray.2) base).map Prod.fst = (gridAt m base).map Prod.fst := by
  rw [hs]
  obtain rfl | ha := hv
  · rw [gridAt_store_attrib, Grid.map_write]
    exact Grid.write_self ((gridAt m v).map Prod.fst) q
  · rw [gridAt_store_attrib_of_apart ha]

theorem chars_multiMem (hs : k.StraysTo v q) (hv : v = k.page ∨ Apart v k.page) (m : Mem)
    (p : Cursor numCols numRows) (c : UInt8) :
    (⟨(gridAt (multiMem k m p c) k.page).map Prod.fst, p.next (isGlyph c)⟩ : Sheet _ _ _) =
      Sheet.print 32 ⟨(gridAt m k.page).map Prod.fst, p⟩ (item c) := by
  rw [gridAt_multiMem_page, Grid.map_follow]
  cases hitem : item c with
  | none =>
    simp only [isGlyph, hitem]
    rfl
  | some c' =>
    obtain rfl : c = c' := by
      simp only [item] at hitem
      split at hitem
      · cases hitem
      · exact Option.some.inj hitem
    simp only [isGlyph, hitem, Option.isSome_some, if_true, Sheet.print]
    rw [chars_stray hs hv, gridAt_store_char, Grid.map_write]

/-- **Characters.** On the page of the running terminal they are those of the sheet. -/
theorem chars_multiMemAll (hs : k.StraysTo v q) (hv : v = k.page ∨ Apart v k.page) (m : Mem)
    (p : Cursor numCols numRows) (s : List UInt8) :
    (gridAt (multiMemAll k m p s) k.page).map Prod.fst =
      (Sheet.printAll 32 ⟨(gridAt m k.page).map Prod.fst, p⟩ (s.map item)).cells := by
  induction s generalizing m p with
  | nil => rfl
  | cons c s ih =>
    refine (ih (multiMem k m p c) (p.next (isGlyph c))).trans ?_
    rw [chars_multiMem hs hv]
    rfl

/-- Attributes do not change with a character. -/
theorem attribs_char (m : Mem) (p : Cursor numCols numRows) (c : UInt8) :
    (gridAt (store m (charAddr base (cellIndex p)) c) base).map Prod.snd =
      (gridAt m base).map Prod.snd := by
  rw [gridAt_store_char, Grid.map_write]
  exact Grid.write_self ((gridAt m base).map Prod.snd) p

/-- **Attributes**, when they go to the page of the running terminal: each character marks one
cell there. -/
theorem attribs_multiMemAll (hs : k.StraysTo k.page q) (m : Mem) (p : Cursor numCols numRows)
    (s : List UInt8) : (gridAt (multiMemAll k m p s) k.page).map Prod.snd =
      marked k.attrib k.stray.2 q p ((gridAt m k.page).map Prod.snd) (s.map isGlyph) := by
  induction s generalizing m p with
  | nil => rfl
  | cons c s ih =>
    refine (ih (multiMem k m p c) (p.next (isGlyph c))).trans ?_
    rw [List.map_cons, marked, gridAt_multiMem_page, Grid.map_follow]
    congr 2
    cases isGlyph c with
    | false => rfl
    | true =>
      simp only [if_true]
      rw [hs, gridAt_store_attrib, Grid.map_write, attribs_char]

/-- **Attributes**, when they go elsewhere: those of the page stay what they all are. -/
theorem attribs_multiMemAll_of_apart (hs : k.StraysTo v q) (hv : Apart v k.page) {m : Mem}
    (hm : (gridAt m k.page).map Prod.snd = fun _ _ => k.attrib) (p : Cursor numCols numRows)
    (s : List UInt8) :
    (gridAt (multiMemAll k m p s) k.page).map Prod.snd = fun _ _ => k.attrib := by
  induction s generalizing m p with
  | nil => exact hm
  | cons c s ih =>
    refine ih ?_ (p.next (isGlyph c))
    rw [gridAt_multiMem_page, Grid.map_follow]
    have hstored : (gridAt (if isGlyph c = true then
        store (store m (charAddr k.page (cellIndex p)) c) k.stray.1 k.stray.2
        else m) k.page).map Prod.snd = fun _ _ => k.attrib := by
      split
      · rw [hs, gridAt_store_attrib_of_apart hv, attribs_char, hm]
      · exact hm
    rw [hstored]
    exact Grid.follow_blank ..

/-- Another page after a character. -/
theorem gridAt_multiMem (hs : k.StraysTo v q) (hbase : Apart k.page base)
    (hv : v = base ∨ Apart v base) (m : Mem) (p : Cursor numCols numRows) (c : UInt8) :
    gridAt (multiMem k m p c) base =
      if v = base ∧ isGlyph c = true then
        (gridAt m base).write q ((gridAt m base q.y q.x).1, k.stray.2)
      else gridAt m base := by
  have hscroll : gridAt (multiMem k m p c) base = gridAt (if isGlyph c then
      store (store m (charAddr k.page (cellIndex p)) c) k.stray.1 k.stray.2 else m) base := by
    rw [multiMem]
    split
    · exact gridAt_scrollPage_of_apart hbase
    · rfl
  rw [hscroll]
  cases isGlyph c with
  | false => simp
  | true =>
    have hchar : gridAt (store m (charAddr k.page (cellIndex p)) c) base = gridAt m base :=
      gridAt_store_char_of_apart hbase
    simp only [if_true, and_true]
    rw [hs]
    by_cases hvb : v = base
    · subst hvb
      rw [if_pos rfl, gridAt_store_attrib, hchar]
    · rw [if_neg hvb, gridAt_store_attrib_of_apart (hv.resolve_left hvb), hchar]

/-- **Other pages** get the stray attribute, if it goes there and there is one. -/
theorem gridAt_multiMemAll (hs : k.StraysTo v q) (hbase : Apart k.page base)
    (hv : v = base ∨ Apart v base) (m : Mem) (p : Cursor numCols numRows) (s : List UInt8) :
    gridAt (multiMemAll k m p s) base =
      if v = base ∧ ∃ c ∈ s, isGlyph c = true then
        (gridAt m base).write q ((gridAt m base q.y q.x).1, k.stray.2)
      else gridAt m base := by
  have hwrite : ∀ (g : Grid numCols numRows (UInt8 × UInt8)) a,
      (g.write q ((g q.y q.x).1, a)).write q (((g.write q ((g q.y q.x).1, a)) q.y q.x).1, a) =
        g.write q ((g q.y q.x).1, a) := by
    intro g a
    funext r x
    simp only [Grid.write]
    split
    · simp
    · rfl
  induction s generalizing m p with
  | nil =>
    rw [if_neg (by simp)]
    rfl
  | cons c s ih =>
    refine (ih (multiMem k m p c) (p.next (isGlyph c))).trans ?_
    rw [gridAt_multiMem hs hbase hv]
    by_cases hvb : v = base
    · cases hc : isGlyph c with
      | true =>
        simp only [hvb, hc, true_and, List.mem_cons, exists_eq_or_imp, true_or, if_true]
        split
        · exact hwrite ..
        · rfl
      | false =>
        simp only [hvb, hc, true_and, List.mem_cons, exists_eq_or_imp, Bool.false_eq_true, false_or,
          if_false]
    · simp only [hvb, false_and, if_false]

end LinuxLikeKernel
