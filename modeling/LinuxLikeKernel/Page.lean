import LinuxLikeKernel.Lib
import LinuxLikeKernel.Library.TextSheet

/-!
# Pages of text in memory

A page of video memory as a grid of cells, and what the stores of `lib.c` and the block copies
of `terminal.c` do to the grid of the page they go to and to other pages.
-/

namespace LinuxLikeKernel
open ByteMemory TextSheet

/-- The size of a page of text in bytes. -/
abbrev pageBytes : Nat := 2 * numCols * numRows

/-- The page at `base`: character and attribute of each cell. -/
def gridAt (m : Mem) (base : Nat) : Grid numCols numRows (UInt8 × UInt8) := fun r c =>
  (m (charAddr base (numCols * r + c)), m (attribAddr base (numCols * r + c)))

/-- The number of the cell at a position. -/
def cellIndex (p : Cursor numCols numRows) : Nat := numCols * p.y + p.x

variable {m m' : Mem} {base : Nat}

theorem cellIndex_lt (p : Cursor numCols numRows) : cellIndex p < numRows * numCols := by
  have hx := p.x.isLt
  have hy := p.y.isLt
  simp only [cellIndex, numCols, numRows] at *
  omega

/-- A grid depends on its page only. -/
theorem gridAt_congr (h : ∀ a, base ≤ a → a < base + pageBytes → m' a = m a) :
    gridAt m' base = gridAt m base := by
  funext r c
  have hr := r.isLt
  have hc := c.isLt
  simp only [numCols, numRows] at hr hc
  simp only [gridAt, charAddr, attribAddr, numCols, Prod.mk.injEq]
  constructor
  · refine h _ (by omega) ?_
    simp only [pageBytes, numCols, numRows]
    omega
  · refine h _ (by omega) ?_
    simp only [pageBytes, numCols, numRows]
    omega

/-- The bytes of a page are those of its grid. -/
theorem gridAt_eq_iff : gridAt m' base = gridAt m base ↔
    ∀ j < pageBytes, m' (base + j) = m (base + j) := by
  constructor
  · intro h j hj
    simp only [pageBytes, numCols, numRows] at hj
    have hcell := congrFun (congrFun h ⟨j / 160, by simp only [numRows]; omega⟩)
      ⟨j / 2 % 80, Nat.mod_lt _ (by decide)⟩
    simp only [gridAt, charAddr, attribAddr, numCols, Prod.mk.injEq] at hcell
    obtain ⟨hchar, hattrib⟩ := hcell
    obtain heven | hodd := Nat.mod_two_eq_zero_or_one j
    · rwa [show base + 2 * (80 * (j / 160) + j / 2 % 80) = base + j by omega] at hchar
    · rwa [show base + 2 * (80 * (j / 160) + j / 2 % 80) + 1 = base + j by omega] at hattrib
  · intro h
    refine gridAt_congr fun a ha ha' => ?_
    have hbyte := h (a - base) (by omega)
    rwa [show base + (a - base) = a by omega] at hbyte

/-! ### Stores -/

theorem store_charAddr_of_not_mem {p : Cursor numCols numRows} {c : UInt8} {a : Nat}
    (h : a < base ∨ base + pageBytes ≤ a) : store m (charAddr base (cellIndex p)) c a = m a := by
  have hp := cellIndex_lt p
  refine store_of_ne _ _ ?_
  simp only [charAddr, pageBytes, numCols, numRows] at *
  omega

theorem store_attribAddr_of_not_mem {p : Cursor numCols numRows} {c : UInt8} {a : Nat}
    (h : a < base ∨ base + pageBytes ≤ a) :
    store m (attribAddr base (cellIndex p)) c a = m a := by
  have hp := cellIndex_lt p
  refine store_of_ne _ _ ?_
  simp only [attribAddr, pageBytes, numCols, numRows] at *
  omega

/-- Two cells differ in their places if they differ in their lines or columns. -/
theorem cellPlace_ne {p : Cursor numCols numRows} {r : Fin numRows} {c : Fin numCols}
    (hcell : ¬(r = p.y ∧ c = p.x)) : 80 * r.val + c.val ≠ 80 * p.y.val + p.x.val := by
  have hc := c.isLt
  have hx := p.x.isLt
  simp only [numCols] at *
  rintro h
  exact hcell ⟨Fin.ext (by omega), Fin.ext (by omega)⟩

theorem gridAt_store_char (m : Mem) (base : Nat) (p : Cursor numCols numRows) (ch : UInt8) :
    gridAt (store m (charAddr base (cellIndex p)) ch) base =
      (gridAt m base).write p (ch, (gridAt m base p.y p.x).2) := by
  funext r c
  simp only [gridAt, Grid.write, store_apply, charAddr, attribAddr, cellIndex, numCols]
  by_cases hcell : r = p.y ∧ c = p.x
  · obtain ⟨rfl, rfl⟩ := hcell
    simp
  · have hne := cellPlace_ne hcell
    rw [if_neg hcell, if_neg (by omega), if_neg (by omega)]

theorem gridAt_store_attrib (m : Mem) (base : Nat) (p : Cursor numCols numRows) (at' : UInt8) :
    gridAt (store m (attribAddr base (cellIndex p)) at') base =
      (gridAt m base).write p ((gridAt m base p.y p.x).1, at') := by
  funext r c
  simp only [gridAt, Grid.write, store_apply, charAddr, attribAddr, cellIndex, numCols]
  by_cases hcell : r = p.y ∧ c = p.x
  · obtain ⟨rfl, rfl⟩ := hcell
    simp
  · have hne := cellPlace_ne hcell
    rw [if_neg hcell, if_neg (by omega), if_neg (by omega)]

theorem gridAt_putCell (m : Mem) (base : Nat) (p : Cursor numCols numRows) (ch at' : UInt8) :
    gridAt (putCell m base (cellIndex p) ch at') base = (gridAt m base).write p (ch, at') := by
  rw [putCell, gridAt_store_attrib, gridAt_store_char]
  funext r c
  simp only [Grid.write]
  split <;> simp

/-! ### Scrolling -/

/-- The first loop of `scroll_up`, byte by byte: what is a line further on moves back. -/
theorem moveRows_apply (m : Mem) (base k a : Nat) :
    forRange k (fun i m =>
      let m := store m (charAddr base i) (m (charAddr base (i + numCols)))
      store m (attribAddr base i) (m (attribAddr base (i + numCols)))) m a =
      if base ≤ a ∧ a < base + 2 * k then m (a + 160) else m a := by
  refine forRange_induction (fun k (y : Mem) => ∀ a, y a =
    if base ≤ a ∧ a < base + 2 * k then m (a + 160) else m a) k (fun a => ?_)
    (fun i y _ ih a => ?_) a
  · rw [if_neg (by omega)]
  · simp only [store_apply, ih, charAddr, attribAddr, numCols]
    by_cases hodd : a = base + 2 * i + 1
    · subst hodd
      rw [if_pos rfl, if_neg (by omega), if_neg (by omega), if_pos (by omega)]
      congr 1
    · rw [if_neg hodd]
      by_cases heven : a = base + 2 * i
      · subst heven
        rw [if_pos rfl, if_neg (by omega), if_pos (by omega)]
        congr 1
      · rw [if_neg heven]
        by_cases hbefore : base ≤ a ∧ a < base + 2 * i
        · rw [if_pos hbefore, if_pos (by omega)]
        · rw [if_neg hbefore, if_neg (by omega)]

/-- The second loop of `scroll_up`, byte by byte: `k` blank cells from cell `n` on. -/
theorem blankCells_apply (m : Mem) (base n k : Nat) (at' : UInt8) (a : Nat) :
    forRange k (fun j m => putCell m base (n + j) 32 at') m a =
      if base + 2 * n ≤ a ∧ a < base + 2 * n + 2 * k then
        (if (a - base) % 2 = 0 then 32 else at')
      else m a := by
  refine forRange_induction (fun k (y : Mem) => ∀ a, y a =
    if base + 2 * n ≤ a ∧ a < base + 2 * n + 2 * k then (if (a - base) % 2 = 0 then 32 else at')
    else m a) k (fun a => ?_) (fun i y _ ih a => ?_) a
  · rw [if_neg (by omega)]
  · simp only [putCell, store_apply, ih, charAddr, attribAddr]
    by_cases hodd : a = base + 2 * (n + i) + 1
    · subst hodd
      rw [if_pos rfl, if_pos (by omega), if_neg (by omega)]
    · rw [if_neg hodd]
      by_cases heven : a = base + 2 * (n + i)
      · subst heven
        rw [if_pos rfl, if_pos (by omega), if_pos (by omega)]
      · rw [if_neg heven]
        by_cases hbefore : base + 2 * n ≤ a ∧ a < base + 2 * n + 2 * i
        · have hafter : base + 2 * n ≤ a ∧ a < base + 2 * n + 2 * (i + 1) := by omega
          rw [if_pos hbefore, if_pos hafter]
        · rw [if_neg hbefore, if_neg (by omega)]

theorem scrollPage_apply (m : Mem) (base : Nat) (at' : UInt8) (a : Nat) :
    scrollPage m base at' a =
      if base + 3840 ≤ a ∧ a < base + pageBytes then (if (a - base) % 2 = 0 then 32 else at')
      else if base ≤ a ∧ a < base + 3840 then m (a + 160) else m a := by
  have hmoved : base + 2 * ((numRows - 1) * numCols) = base + 3840 := rfl
  have hend : base + 3840 + 2 * numCols = base + pageBytes := rfl
  rw [scrollPage, blankCells_apply, moveRows_apply, hmoved, hend]

/-- Scrolling a page does not touch other bytes. -/
theorem scrollPage_of_not_mem {at' : UInt8} {a : Nat} (h : a < base ∨ base + pageBytes ≤ a) :
    scrollPage m base at' a = m a := by
  simp only [pageBytes, numCols, numRows] at h
  rw [scrollPage_apply, if_neg (by simp only [pageBytes, numCols, numRows]; omega),
    if_neg (by omega)]

theorem gridAt_scrollPage (m : Mem) (base : Nat) (at' : UInt8) :
    gridAt (scrollPage m base at') base = (gridAt m base).scroll (32, at') := by
  funext r c
  have hr := r.isLt
  have hc := c.isLt
  simp only [numCols, numRows] at hr hc
  simp only [gridAt, Grid.scroll, scrollPage_apply, charAddr, attribAddr, pageBytes, numCols,
    numRows]
  by_cases hrow : r.val + 1 < 25
  · rw [dif_pos hrow, if_neg (by omega), if_pos (by omega), if_neg (by omega), if_pos (by omega),
      Prod.mk.injEq]
    constructor
    · congr 1
      omega
    · congr 1
      omega
  · rw [dif_neg hrow, if_pos (by omega), if_pos (by omega), if_pos (by omega), if_neg (by omega)]

/-! ### Block copies -/

theorem gridAt_copy (m : Mem) (dst src : Nat) :
    gridAt (copy m dst src pageBytes) dst = gridAt m src := by
  funext r c
  have hr := r.isLt
  have hc := c.isLt
  simp only [numCols, numRows] at hr hc
  have hlt : 2 * (80 * r.val + c.val) + 1 < pageBytes := by
    simp only [pageBytes, numCols, numRows]
    omega
  simp only [gridAt, charAddr, attribAddr, numCols, Prod.mk.injEq]
  constructor
  · exact copy_of_lt (by omega)
  · rw [Nat.add_assoc dst, Nat.add_assoc src]
    exact copy_of_lt hlt

/-- Pages that do not overlap. -/
def Apart (base base' : Nat) : Prop := base + pageBytes ≤ base' ∨ base' + pageBytes ≤ base

theorem gridAt_copy_of_apart {dst src : Nat} (h : Apart dst base) :
    gridAt (copy m dst src pageBytes) base = gridAt m base := by
  refine gridAt_congr fun a ha ha' => copy_of_not_mem ?_
  simp only [Apart] at h
  omega

theorem gridAt_scrollPage_of_apart {base' : Nat} {at' : UInt8} (h : Apart base' base) :
    gridAt (scrollPage m base' at') base = gridAt m base := by
  refine gridAt_congr fun a ha ha' => scrollPage_of_not_mem ?_
  simp only [Apart] at h
  omega

theorem gridAt_store_char_of_apart {base' : Nat} {p : Cursor numCols numRows} {c : UInt8}
    (h : Apart base' base) : gridAt (store m (charAddr base' (cellIndex p)) c) base =
      gridAt m base := by
  refine gridAt_congr fun a ha ha' => store_charAddr_of_not_mem ?_
  simp only [Apart] at h
  omega

theorem gridAt_store_attrib_of_apart {base' : Nat} {p : Cursor numCols numRows} {c : UInt8}
    (h : Apart base' base) : gridAt (store m (attribAddr base' (cellIndex p)) c) base =
      gridAt m base := by
  refine gridAt_congr fun a ha ha' => store_attribAddr_of_not_mem ?_
  simp only [Apart] at h
  omega

/-! ### The four pages -/

/-- The page that `term_init` gives a terminal. -/
def backingPage (t : TermId) : Nat := 0xB9000 + 0x1000 * t.val

theorem backingPage_aligned (t : TermId) : backingPage t % 0x1000 = 0 := by
  simp only [backingPage]
  omega

theorem backingPage_ne_video (t : TermId) : backingPage t ≠ video := by
  simp only [backingPage, video]
  omega

theorem apart_video (t : TermId) : Apart video (backingPage t) := by
  simp only [Apart, backingPage, pageBytes, video, numCols, numRows]
  omega

theorem apart_backingPage {t u : TermId} (h : t ≠ u) : Apart (backingPage t) (backingPage u) := by
  have hne : t.val ≠ u.val := fun he => h (Fin.ext he)
  simp only [Apart, backingPage, pageBytes, numCols, numRows]
  omega

theorem Apart.symm {base base' : Nat} (h : Apart base base') : Apart base' base := Or.symm h

end LinuxLikeKernel
