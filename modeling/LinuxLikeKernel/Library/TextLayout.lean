import LinuxLikeKernel.Library.TextSheet
import Mathlib.Algebra.Order.Ring.Nat

/-!
# Unbounded pages of text

A page that never scrolls: its cells are numbered line by line, and there is no last line. A sheet
of text is a window on such a page, which moves down by a line when the sheet scrolls.

## Main definitions

- `Layout`, `Layout.print`, `Layout.erase` — a page with a position, and what is done at it
- `Window` — the sheet shows the lines of the page from a given one on

## Main results

- `Window.print`, `Window.printAll` — printing keeps the window, moved by the lines scrolled
- `Window.erase` — so does erasing, which moves nothing
- `Window.offset_eq` — the window of a sheet that has been filled from the top ends with the line of
  the cursor
-/

namespace TextSheet

variable {cols rows : Nat} {α β : Type*}

/-- The cells of a page, and the next one to be filled. -/
@[ext] structure Layout (α : Type*) where
  cells : Nat → α
  pos : Nat

namespace Layout

/-- An item is put at the position; a new line begins at the next multiple of `cols`. -/
def print (cols : Nat) (l : Layout α) : Option α → Layout α
  | none => { l with pos := (l.pos / cols + 1) * cols }
  | some a => ⟨Function.update l.cells l.pos a, l.pos + 1⟩

def printAll (cols : Nat) (l : Layout α) (items : List (Option α)) : Layout α :=
  items.foldl (print cols) l

/-- The cell before the position is emptied. -/
def erase (blank : α) (l : Layout α) : Layout α :=
  ⟨Function.update l.cells (l.pos - 1) blank, l.pos - 1⟩

/-- An empty page. -/
def empty (blank : α) : Layout α := ⟨fun _ => blank, 0⟩

end Layout

/-- The sheet shows the lines of the page from line `s` on, and its cursor the position. Below the
sheet the page is blank. -/
structure Window (blank : α) (s : Nat) (l : Layout α) (sh : Sheet cols rows α) : Prop where
  cells : ∀ r x, sh.cells r x = l.cells ((r.val + s) * cols + x.val)
  pos : l.pos = (sh.cursor.y.val + s) * cols + sh.cursor.x.val
  below : ∀ i, (rows + s) * cols ≤ i → l.cells i = blank

variable {blank : α} {s : Nat} {l : Layout α} {sh : Sheet cols rows α}

/-! ### Cells -/

theorem cell_eq_iff {r r' : Nat} {x x' : Fin cols} :
    r * cols + x.val = r' * cols + x'.val ↔ r = r' ∧ x = x' := by
  constructor
  · intro h
    have hline : r = r' := by
      have hdiv := congrArg (· / cols) h
      simpa [Nat.mul_add_div x.pos, Nat.mul_comm _ cols, Nat.div_eq_of_lt x.isLt,
        Nat.div_eq_of_lt x'.isLt] using hdiv
    subst hline
    exact ⟨rfl, Fin.ext (Nat.add_left_cancel h)⟩
  · rintro ⟨rfl, rfl⟩
    rfl

theorem line_of_cell (r : Nat) (x : Fin cols) : (r * cols + x.val) / cols = r := by
  rw [Nat.mul_comm, Nat.mul_add_div x.pos, Nat.div_eq_of_lt x.isLt, Nat.add_zero]

/-- A cell of line `r` comes before line `r + 1`. -/
theorem cell_lt {r n : Nat} (x : Fin cols) (h : r < n) : r * cols + x.val < n * cols := by
  have hline : (r + 1) * cols ≤ n * cols := Nat.mul_le_mul_right cols h
  have := x.isLt
  rw [Nat.add_mul] at hline
  omega

/-! ### Printing -/

/-- Filling the cell at the cursor. -/
theorem Window.write (h : Window blank s l sh) (a : α) :
    (∀ r x, sh.cells.write sh.cursor a r x =
        Function.update l.cells l.pos a ((r.val + s) * cols + x.val)) ∧
      ∀ i, (rows + s) * cols ≤ i → Function.update l.cells l.pos a i = blank := by
  constructor
  · intro r x
    simp only [Grid.write, Function.update_apply, h.pos, cell_eq_iff, h.cells]
    refine if_congr ?_ rfl rfl
    rw [Nat.add_right_cancel_iff, Fin.ext_iff]
  · intro i hi
    have hlt : l.pos < (rows + s) * cols := by
      rw [h.pos]
      exact cell_lt _ (Nat.add_lt_add_right sh.cursor.y.isLt s)
    rw [Function.update_of_ne (by omega)]
    exact h.below i hi

/-- The sheet scrolls if the item makes it. -/
theorem window_follow {cells : Nat → α} {g : Grid cols rows α}
    (hcells : ∀ r x, g r x = cells ((r.val + s) * cols + x.val))
    (hbelow : ∀ i, (rows + s) * cols ≤ i → cells i = blank) (c : Cursor cols rows) (cell : Bool) :
    ∀ r x, g.follow blank c cell r x = cells ((r.val + (s + c.shift cell)) * cols + x.val) := by
  intro r x
  rw [Grid.follow_apply, ← Nat.add_assoc, Nat.add_right_comm]
  split
  · exact hcells _ _
  · rename_i hout
    refine (hbelow _ ?_).symm
    have hline : (rows + s) * cols ≤ (r.val + c.shift cell + s) * cols :=
      Nat.mul_le_mul_right cols (by omega)
    omega

/-- The cursor after an item. -/
theorem Cursor.next_pos (c : Cursor cols rows) (cell : Bool) (s : Nat) :
    ((c.next cell).y.val + (s + c.shift cell)) * cols + (c.next cell).x.val =
      if cell then (c.y.val + s) * cols + c.x.val + 1 else (c.y.val + s + 1) * cols := by
  by_cases hw : c.wraps cell
  · have hline : (c.next cell).y.val + (s + c.shift cell) = c.y.val + s + 1 := by
      by_cases hlast : c.y.val + 1 < rows
      · obtain ⟨hno, hnext⟩ := Cursor.next_of_wraps hw hlast
        rw [hnext, Cursor.shift, if_neg hno]
        simp only
        omega
      · have hscrolls : c.scrolls cell := ⟨hw, by have := c.y.isLt; omega⟩
        rw [Cursor.next_of_scrolls hscrolls, Cursor.shift, if_pos hscrolls, Nat.add_assoc]
    have hx : (c.next cell).x.val = 0 := by simp only [Cursor.next, dif_pos hw]
    rw [hline, hx]
    cases cell with
    | false => rfl
    | true =>
      have hlast := hw rfl
      rw [if_pos rfl, Nat.add_mul _ 1]
      omega
  · have hcell : cell = true := by
      simp only [Cursor.wraps, Classical.not_imp] at hw
      exact hw.1
    subst hcell
    have hin : c.x.val + 1 < cols := by
      have hne : c.x.val + 1 ≠ cols := fun h => hw fun _ => h
      have := c.x.isLt
      omega
    obtain ⟨hno, hnext⟩ := Cursor.next_of_lt (c := c) hin
    rw [hnext, Cursor.shift, if_neg hno, if_pos rfl]
    rfl

/-- **Printing** an item on the sheet is printing it on the page, with the window moved down if the
sheet has scrolled. -/
theorem Window.print (h : Window blank s l sh) (i : Option α) :
    Window blank (s + sh.cursor.shift i.isSome) (l.print cols i) (sh.print blank i) := by
  have hlines : (rows + s) * cols ≤ (rows + (s + sh.cursor.shift i.isSome)) * cols :=
    Nat.mul_le_mul_right cols (by omega)
  cases i with
  | none =>
    refine ⟨window_follow h.cells h.below _ _, ?_, fun i hi => h.below i (hlines.trans hi)⟩
    refine Eq.trans ?_ (Cursor.next_pos sh.cursor false s).symm
    rw [if_neg (by simp), Layout.print, h.pos, line_of_cell]
  | some a =>
    obtain ⟨hcells, hbelow⟩ := h.write a
    refine ⟨window_follow hcells hbelow _ _, ?_, fun i hi => hbelow i (hlines.trans hi)⟩
    refine Eq.trans ?_ (Cursor.next_pos sh.cursor true s).symm
    rw [if_pos rfl, Layout.print, h.pos]

theorem Window.printAll (h : Window blank s l sh) (items : List (Option α)) :
    Window blank (s + sh.cursor.scrollCount (items.map Option.isSome)) (l.printAll cols items)
      (sh.printAll blank items) := by
  induction items generalizing s l sh with
  | nil => exact h
  | cons i items ih =>
    have hrest := ih (h.print i)
    have hnext : (sh.print blank i).cursor = sh.cursor.next i.isSome := by cases i <;> rfl
    rw [hnext, Nat.add_assoc, Nat.add_comm (sh.cursor.shift _)] at hrest
    exact hrest

theorem cursor_print (blank : α) (sh : Sheet cols rows α) (i : Option α) :
    (sh.print blank i).cursor = sh.cursor.next i.isSome := by
  cases i <;> rfl

/-- A sheet scrolls in its last line only, and stays there then. -/
theorem Cursor.next_settled {c : Cursor cols rows} {s : Nat} (cell : Bool)
    (h : s = 0 ∨ c.y.val + 1 = rows) :
    s + c.shift cell = 0 ∨ (c.next cell).y.val + 1 = rows := by
  by_cases hlast : c.y.val + 1 = rows
  · right
    have hstays : ¬(c.wraps cell ∧ c.y.val + 1 < rows) := fun hw => Nat.ne_of_lt hw.2 hlast
    rw [Cursor.next, dif_neg hstays]
    exact hlast
  · have hno : ¬ c.scrolls cell := fun hs => hlast hs.2
    left
    rw [h.resolve_right hlast, Cursor.shift, if_neg hno]

/-- The last line of the window is that of the position, unless the page has fewer lines. -/
theorem Window.offset_eq (h : Window blank s l sh) (hs : s = 0 ∨ sh.cursor.y.val + 1 = rows) :
    s = l.pos / cols + 1 - rows := by
  rw [h.pos, line_of_cell]
  have := sh.cursor.y.isLt
  omega

/-- How far a sheet that has not scrolled yet, or is in its last line, scrolls for some items. -/
theorem Window.scrollCount_eq (h : Window blank s l sh) (hs : s = 0 ∨ sh.cursor.y.val + 1 = rows)
    (items : List (Option α)) : s + sh.cursor.scrollCount (items.map Option.isSome) =
      (l.printAll cols items).pos / cols + 1 - rows := by
  induction items generalizing s l sh with
  | nil => exact h.offset_eq hs
  | cons i items ih =>
    have hrest := ih (h.print i) (by
      rw [cursor_print]
      exact Cursor.next_settled i.isSome hs)
    rw [cursor_print, Nat.add_assoc, Nat.add_comm (sh.cursor.shift _)] at hrest
    exact hrest

/-- An empty sheet with its cursor at the top shows an empty page. -/
theorem window_empty (blank : α) (x₀ : Fin cols) (y₀ : Fin rows) (hx : x₀.val = 0)
    (hy : y₀.val = 0) :
    Window blank 0 (.empty blank) (⟨fun _ _ => blank, ⟨x₀, y₀⟩⟩ : Sheet cols rows α) where
  cells _ _ := rfl
  pos := by simp [Layout.empty, hx, hy]
  below _ _ := rfl

/-- The page that a sheet is the top of: below it there is nothing. -/
def Layout.ofSheet (blank : α) (sh : Sheet cols rows α) : Layout α where
  cells i := if h : i / cols < rows then
      sh.cells ⟨i / cols, h⟩ ⟨i % cols, Nat.mod_lt _ sh.cursor.x.pos⟩
    else blank
  pos := sh.cursor.y.val * cols + sh.cursor.x.val

theorem Layout.cells_ofSheet (blank : α) (sh : Sheet cols rows α) (r : Nat) (x : Fin cols) :
    (Layout.ofSheet blank sh).cells (r * cols + x.val) =
      if h : r < rows then sh.cells ⟨r, h⟩ x else blank := by
  have hcol : (r * cols + x.val) % cols = x.val := by
    rw [Nat.mul_comm, Nat.mul_add_mod, Nat.mod_eq_of_lt x.isLt]
  simp only [Layout.ofSheet, line_of_cell, hcol]

theorem window_ofSheet (blank : α) (sh : Sheet cols rows α) :
    Window blank 0 (Layout.ofSheet blank sh) sh where
  cells r x := by
    rw [Nat.add_zero, Layout.cells_ofSheet, dif_pos r.isLt]
  pos := rfl
  below i hi := by
    refine dif_neg (Nat.not_lt.mpr ?_)
    rw [Nat.add_zero] at hi
    exact (Nat.le_div_iff_mul_le sh.cursor.x.pos).mpr hi

/-! ### Erasing -/

/-- **Erasing** on the sheet is erasing on the page, as long as the cell is in the window. -/
theorem Window.erase (h : Window blank s l sh) (hpos : s * cols < l.pos) :
    Window blank s (l.erase blank) (sh.erase blank) := by
  have hx := sh.cursor.x.isLt
  have hne : ¬(sh.cursor.x.val = 0 ∧ sh.cursor.y.val = 0) := by
    rintro ⟨hx0, hy0⟩
    rw [h.pos, hx0, hy0, Nat.zero_add] at hpos
    exact Nat.lt_irrefl _ hpos
  have hprev : l.pos - 1 = (sh.cursor.prev.y.val + s) * cols + sh.cursor.prev.x.val := by
    rw [h.pos, Cursor.prev]
    by_cases hx0 : 0 < sh.cursor.x.val
    · rw [if_pos hx0]
      simp only
      omega
    · have hy0 : 0 < sh.cursor.y.val := by omega
      rw [if_neg hx0, if_pos hy0]
      obtain ⟨y, hy⟩ : ∃ y, sh.cursor.y.val = y + 1 := ⟨sh.cursor.y.val - 1, by omega⟩
      have hline : (y + 1 + s) * cols = (y + s) * cols + cols := by
        rw [Nat.add_right_comm, Nat.add_mul, Nat.one_mul]
      simp only [hy, Nat.add_sub_cancel, hline]
      omega
  have hmoved : Window blank s ⟨l.cells, l.pos - 1⟩ ⟨sh.cells, sh.cursor.prev⟩ :=
    ⟨h.cells, hprev, h.below⟩
  obtain ⟨hcells, hbelow⟩ := hmoved.write blank
  rw [Sheet.erase, if_neg hne]
  exact ⟨hcells, hprev, hbelow⟩

/-- Cells that have been filled in a row are erased again. -/
theorem Layout.erase_iterate (blank : α) (l : Layout α) {n : Nat} (hn : n ≤ l.pos) :
    (Layout.erase blank)^[n] l =
      ⟨fun i => if l.pos - n ≤ i ∧ i < l.pos then blank else l.cells i, l.pos - n⟩ := by
  induction n with
  | zero =>
    refine Layout.ext (funext fun i => Eq.symm (if_neg ?_)) rfl
    omega
  | succ n ih =>
    rw [Function.iterate_succ_apply', ih (by omega)]
    refine Layout.ext (funext fun i => ?_) (by simp only [Layout.erase]; omega)
    simp only [Layout.erase, Function.update_apply]
    by_cases hi : i = l.pos - n - 1
    · rw [if_pos hi, if_pos (by omega)]
    · rw [if_neg hi]
      refine if_congr ?_ rfl rfl
      omega

theorem Layout.printAll_append (l : Layout α) (is js : List (Option α)) :
    l.printAll cols (is ++ js) = (l.printAll cols is).printAll cols js := List.foldl_append

/-- Filling cells in a row. -/
theorem Layout.printAll_some (cols : Nat) (l : Layout α) (as : List α) :
    (l.printAll cols (as.map some)).pos = l.pos + as.length ∧
      ∀ i, i < l.pos ∨ l.pos + as.length ≤ i →
        (l.printAll cols (as.map some)).cells i = l.cells i := by
  induction as generalizing l with
  | nil => exact ⟨rfl, fun _ _ => rfl⟩
  | cons a as ih =>
    obtain ⟨hpos, hcells⟩ := ih (l.print cols (some a))
    simp only [Layout.print] at hpos hcells
    refine ⟨?_, fun i hi => ?_⟩
    · refine hpos.trans ?_
      rw [List.length_cons]
      omega
    · rw [List.length_cons] at hi
      refine (hcells i (by omega)).trans (Function.update_of_ne (by omega) ..)

end TextSheet
