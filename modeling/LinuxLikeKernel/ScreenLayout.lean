import LinuxLikeKernel.Library.TextLayout
import LinuxLikeKernel.Printing

/-!
# The layout of a text

A text that is printed from an empty screen on could be laid out on a page without end. What the
screen shows of it are the last lines that it has room for.

## Main definitions

- `Screen.Cleared` — an empty screen, with the cursor in its corner
- `layout` — the text on a page without end
- `Screen.ShowsLayout` — the screen shows the lines of a page from a given one on

## Main results

- `puts_layout` — after `puts` the screen shows the last lines of the layout
-/

namespace LinuxLikeKernel
open ByteMemory TextSheet

/-- All characters are blanks, and the cursor, in memory and on the device, is at (0, 0). -/
structure Screen.Cleared (sc : Screen) : Prop where
  blank : ∀ r x, (gridAt sc.mem video r x).1 = 32
  x : sc.screenX = 0
  y : sc.screenY = 0
  pos : sc.cursorPos = 0

/-- The characters of a text, laid out from left to right in lines of `NUM_COLS` cells. -/
def layout (s : List UInt8) : Layout UInt8 := (Layout.empty 32).printAll numCols (s.map item)

/-- The screen shows the characters of the page from line `n` on, and the cursor, in memory and on
the device, is at the position that follows them. -/
structure Screen.ShowsLayout (sc : Screen) (n : Nat) (l : Layout UInt8) : Prop where
  cells : ∀ (r : Fin numRows) (x : Fin numCols),
    (gridAt sc.mem video r x).1 = l.cells ((r.val + n) * numCols + x.val)
  x : sc.screenX < numCols
  y : sc.screenY < numRows
  cursor : (sc.screenY + n) * numCols + sc.screenX = l.pos
  pos : sc.cursorPos = sc.screenY * numCols + sc.screenX

/-- The corner of the screen. -/
def topLeft : Cursor numCols numRows := ⟨⟨0, by decide⟩, ⟨0, by decide⟩⟩

variable {sc : Screen}

theorem cleared_clear (cur : Option TermId) (sc : Screen) :
    (setScreenCursor cur (clear cur sc) 0 0).Cleared := by
  have hshows := shows_clear cur sc ⟨gridAt sc.mem video, topLeft⟩
  refine ⟨fun r x => ?_, hshows.x, hshows.y, hshows.pos⟩
  rw [hshows.grid]
  rfl

theorem Screen.Cleared.shows (h : sc.Cleared) : sc.Shows ⟨gridAt sc.mem video, topLeft⟩ :=
  ⟨rfl, h.x, h.y, h.pos⟩

theorem map_fst_itemWith (at' c : UInt8) : (itemWith at' c).map Prod.fst = item c := by
  rw [itemWith, Option.map_map]
  exact Option.map_id' ..

/-- The characters of a text that has been printed are those of its layout. -/
theorem Screen.Cleared.window (h : sc.Cleared) (cur : Option TermId) (s : List UInt8) :
    Window 32 (topLeft.scrollCount (s.map isGlyph)) (layout s)
      ((Sheet.printAll (32, attrib cur) ⟨gridAt sc.mem video, topLeft⟩
        (s.map (itemWith (attrib cur)))).map Prod.fst) := by
  have hblank : Sheet.map Prod.fst ⟨gridAt sc.mem video, topLeft⟩ =
      (⟨fun _ _ => 32, topLeft⟩ : Sheet numCols numRows UInt8) :=
    Sheet.ext (funext fun r => funext fun x => h.blank r x) rfl
  have hitems : (s.map (itemWith (attrib cur))).map (Option.map Prod.fst) = s.map item := by
    rw [List.map_map]
    exact List.map_congr_left fun c _ => map_fst_itemWith (attrib cur) c
  have hwindow := (window_empty (32 : UInt8) topLeft.x topLeft.y rfl rfl).printAll
    (s.map item)
  rw [Sheet.printAll_map, hblank, hitems]
  rw [Nat.zero_add, List.map_map] at hwindow
  exact hwindow

/-- The attributes stay those of the displayed terminal. -/
theorem Screen.Cleared.attribs (h : sc.Cleared) (cur : Option TermId) (s : List UInt8)
    (hattrib : ∀ r x, (gridAt sc.mem video r x).2 = attrib cur) (r : Fin numRows)
    (x : Fin numCols) : (gridAt (puts cur s sc).mem video r x).2 = attrib cur := by
  have hgrid : Sheet.map Prod.snd ⟨gridAt sc.mem video, topLeft⟩ =
      (⟨fun _ _ => attrib cur, topLeft⟩ : Sheet numCols numRows UInt8) :=
    Sheet.ext (funext fun r => funext fun x => hattrib r x) rfl
  have hcells := congrArg Sheet.cells (Sheet.printAll_map Prod.snd (32, attrib cur)
    ⟨gridAt sc.mem video, topLeft⟩ (s.map (itemWith (attrib cur))))
  rw [hgrid, Sheet.cells_printAll_blank] at hcells
  · rw [(h.shows.puts cur s).grid]
    exact congrFun (congrFun hcells r) x
  · intro i hi
    obtain ⟨i', hi', rfl⟩ := List.mem_map.mp hi
    obtain ⟨c, -, rfl⟩ := List.mem_map.mp hi'
    rw [itemWith, Option.map_map]
    cases item c with
    | none => exact .inl rfl
    | some c => exact .inr rfl

/-- On an empty screen `puts`, and `putc` of each character, show the last `NUM_ROWS` lines of the
layout of the text, which is as many lines down as the screen has scrolled. The attributes are all
those of the displayed terminal if they have been so before. -/
theorem puts_layout (h : sc.Cleared) (cur : Option TermId) (s : List UInt8) :
    (puts cur s sc).ShowsLayout (topLeft.scrollCount (s.map isGlyph)) (layout s) ∧
      topLeft.scrollCount (s.map isGlyph) = (layout s).pos / numCols + 1 - numRows ∧
      ((∀ r x, (gridAt sc.mem video r x).2 = attrib cur) →
        ∀ r x, (gridAt (puts cur s sc).mem video r x).2 = attrib cur) := by
  have hshows := h.shows.puts cur s
  have hwindow := h.window cur s
  refine ⟨⟨fun r x => ?_, ?_, ?_, ?_, ?_⟩, ?_, h.attribs cur s⟩
  · rw [hshows.grid]
    exact hwindow.cells r x
  · rw [hshows.x]
    exact Fin.isLt _
  · rw [hshows.y]
    exact Fin.isLt _
  · rw [hshows.x, hshows.y]
    exact hwindow.pos.symm
  · rw [hshows.pos, hshows.x, hshows.y, cellIndex, Nat.mul_comm]
  · have hcount := (window_empty (32 : UInt8) topLeft.x topLeft.y rfl rfl).scrollCount_eq
      (.inl rfl) (s.map item)
    rw [Nat.zero_add, List.map_map] at hcount
    exact hcount

/-- 81 times `a`, which is a line and one more, then `b` and empty lines until it is on top. -/
def wrappedText : List UInt8 := List.replicate 81 97 ++ [10, 98] ++ List.replicate 24 10

theorem puts_layout_sample :
    let sc := puts (some 0) wrappedText (setScreenCursor (some 0) (clear (some 0)
      ⟨fun _ => 0, 7, 8, video, 0⟩) 0 0)
    sc.ShowsLayout 2 (layout wrappedText) ∧ (gridAt sc.mem video 0 0).1 = 98 := by
  obtain ⟨hshown, -⟩ := puts_layout (cleared_clear (some 0) ⟨fun _ => 0, 7, 8, video, 0⟩) (some 0)
    wrappedText
  have hcount : topLeft.scrollCount (wrappedText.map isGlyph) = 2 := by decide +kernel
  have hcell : (layout wrappedText).cells 160 = 98 := by decide +kernel
  rw [hcount] at hshown
  exact ⟨hshown, (hshown.cells 0 0).trans hcell⟩

end LinuxLikeKernel
