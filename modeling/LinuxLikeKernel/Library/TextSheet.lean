import Mathlib.Logic.Function.Basic

/-!
# Sheets of text

A grid of cells that is filled at a cursor, line by line, and scrolls when it is full. What is
printed is a list of items: a cell's contents, or `none` for a new line. Whether an item wraps
or scrolls depends on the cursor alone, so contents of different kinds can be followed apart.

## Main definitions

- `Cursor`, `Sheet` — positions inside the grid, and a grid with one
- `Sheet.print`, `Sheet.printAll` — printing
- `Sheet.erase`, `Sheet.wipe` — taking back the last cell, or all of them
- `Cursor.scrollCount` — how often the grid scrolls while a text is printed
- `marked` — the grid when every item marks one fixed cell

## Main results

- `printAll_map` — printing commutes with maps on cells
- `marked_blank_iff` — when no mark is left
-/

namespace TextSheet

variable {cols rows : Nat} {α β : Type*}

abbrev Grid (cols rows : Nat) (α : Type*) := Fin rows → Fin cols → α

/-- A position inside the grid. -/
@[ext] structure Cursor (cols rows : Nat) where
  x : Fin cols
  y : Fin rows
  deriving DecidableEq

@[ext] structure Sheet (cols rows : Nat) (α : Type*) where
  cells : Grid cols rows α
  cursor : Cursor cols rows

/-! ### The cursor -/

namespace Cursor

/-- A new line, or a cell in the last column, takes the cursor to the next line. -/
def wraps (c : Cursor cols rows) (cell : Bool) : Prop := cell = true → c.x.val + 1 = cols

instance (c : Cursor cols rows) (cell : Bool) : Decidable (c.wraps cell) :=
  inferInstanceAs (Decidable (_ → _))

/-- Going to the next line from the last one scrolls. -/
def scrolls (c : Cursor cols rows) (cell : Bool) : Prop := c.wraps cell ∧ c.y.val + 1 = rows

instance (c : Cursor cols rows) (cell : Bool) : Decidable (c.scrolls cell) :=
  inferInstanceAs (Decidable (_ ∧ _))

/-- The cursor after an item. -/
def next (c : Cursor cols rows) (cell : Bool) : Cursor cols rows where
  x := if h : c.wraps cell then ⟨0, c.x.pos⟩ else ⟨c.x + 1, by
    simp only [wraps, Classical.not_imp] at h
    omega⟩
  y := if h : c.wraps cell ∧ c.y.val + 1 < rows then ⟨c.y + 1, h.2⟩ else c.y

/-- Inside a line the cursor goes on. -/
theorem next_of_lt {c : Cursor cols rows} (hx : c.x.val + 1 < cols) :
    ¬ c.scrolls true ∧ c.next true = ⟨⟨c.x + 1, hx⟩, c.y⟩ := by
  have hno : ¬ c.wraps true := fun h => Nat.ne_of_lt hx (h rfl)
  refine ⟨fun h => hno h.1, ?_⟩
  simp only [next, dif_neg hno, dif_neg (fun h : _ ∧ _ => hno h.1)]

/-- A line above the last one is followed by the next. -/
theorem next_of_wraps {c : Cursor cols rows} {cell : Bool} (hw : c.wraps cell)
    (hy : c.y.val + 1 < rows) :
    ¬ c.scrolls cell ∧ c.next cell = ⟨⟨0, c.x.pos⟩, ⟨c.y + 1, hy⟩⟩ := by
  refine ⟨fun h => Nat.ne_of_lt hy h.2, ?_⟩
  simp only [next, dif_pos hw, dif_pos (And.intro hw hy)]

/-- The last line stays where it is. -/
theorem next_of_scrolls {c : Cursor cols rows} {cell : Bool} (h : c.scrolls cell) :
    c.next cell = ⟨⟨0, c.x.pos⟩, c.y⟩ := by
  have hlast : ¬ (c.wraps cell ∧ c.y.val + 1 < rows) := fun hy => Nat.ne_of_lt hy.2 h.2
  simp only [next, dif_pos h.1, dif_neg hlast]

/-- The cursor after a list of items. -/
def run (c : Cursor cols rows) (l : List Bool) : Cursor cols rows := l.foldl next c

/-- The cell before the cursor, if there is one. -/
def prev (c : Cursor cols rows) : Cursor cols rows :=
  if 0 < c.x.val then ⟨⟨c.x - 1, by omega⟩, c.y⟩
  else if 0 < c.y.val then ⟨⟨cols - 1, Nat.sub_lt c.x.pos Nat.one_pos⟩, ⟨c.y - 1, by omega⟩⟩
  else c

/-- By how many rows the grid scrolls for an item. -/
def shift (c : Cursor cols rows) (cell : Bool) : Nat := if c.scrolls cell then 1 else 0

/-- How often the grid scrolls for a list of items. -/
def scrollCount (c : Cursor cols rows) : List Bool → Nat
  | [] => 0
  | cell :: l => (c.next cell).scrollCount l + c.shift cell

end Cursor

/-! ### Printing -/

/-- The rows move up by one. -/
def Grid.scroll (blank : α) (g : Grid cols rows α) : Grid cols rows α := fun r c =>
  if h : r.val + 1 < rows then g ⟨r + 1, h⟩ c else blank

/-- A cell is filled. -/
def Grid.write (g : Grid cols rows α) (p : Cursor cols rows) (a : α) : Grid cols rows α :=
  fun r c => if r = p.y ∧ c = p.x then a else g r c

/-- The grid scrolls if the item makes it. -/
def Grid.follow (blank : α) (g : Grid cols rows α) (c : Cursor cols rows) (cell : Bool) :
    Grid cols rows α := if c.scrolls cell then g.scroll blank else g

theorem Grid.follow_apply (blank : α) (g : Grid cols rows α) (c : Cursor cols rows) (cell : Bool)
    (r : Fin rows) (x : Fin cols) : g.follow blank c cell r x =
      if h : r.val + c.shift cell < rows then g ⟨r + c.shift cell, h⟩ x else blank := by
  simp only [Grid.follow, Cursor.shift]
  split
  · rfl
  · simp

/-- Other contents in the same cells. -/
def Grid.map (f : α → β) (g : Grid cols rows α) : Grid cols rows β := fun r c => f (g r c)

theorem Grid.map_write (f : α → β) (g : Grid cols rows α) (p : Cursor cols rows) (a : α) :
    (g.write p a).map f = (g.map f).write p (f a) := by
  funext r c
  simp only [Grid.map, Grid.write]
  split <;> rfl

theorem Grid.map_follow (f : α → β) (blank : α) (g : Grid cols rows α) (c : Cursor cols rows)
    (cell : Bool) : (g.follow blank c cell).map f = (g.map f).follow (f blank) c cell := by
  funext r x
  simp only [Grid.map, Grid.follow_apply]
  split <;> rfl

/-- Writing what is there changes nothing. -/
theorem Grid.write_self (g : Grid cols rows α) (p : Cursor cols rows) :
    g.write p (g p.y p.x) = g := by
  funext r c
  simp only [Grid.write]
  split
  · rename_i h
    obtain ⟨rfl, rfl⟩ := h
    rfl
  · rfl

/-- A blank grid stays blank. -/
theorem Grid.follow_blank (blank : α) (c : Cursor cols rows) (cell : Bool) :
    Grid.follow blank (fun _ _ => blank) c cell = fun _ _ => blank := by
  funext r x
  rw [Grid.follow_apply]
  split <;> rfl

namespace Sheet

/-- An item is put at the cursor, and the grid scrolls if it has to. -/
def print (blank : α) (s : Sheet cols rows α) : Option α → Sheet cols rows α
  | none => ⟨s.cells.follow blank s.cursor false, s.cursor.next false⟩
  | some a => ⟨(s.cells.write s.cursor a).follow blank s.cursor true, s.cursor.next true⟩

def printAll (blank : α) (s : Sheet cols rows α) (l : List (Option α)) : Sheet cols rows α :=
  l.foldl (print blank) s

/-- The cell before the cursor is emptied. -/
def erase (blank : α) (s : Sheet cols rows α) : Sheet cols rows α :=
  if s.cursor.x.val = 0 ∧ s.cursor.y.val = 0 then s
  else ⟨s.cells.write s.cursor.prev blank, s.cursor.prev⟩

/-- All cells are emptied. -/
def wipe (blank : α) (s : Sheet cols rows α) : Sheet cols rows α :=
  ⟨fun _ _ => blank, ⟨⟨0, s.cursor.x.pos⟩, ⟨0, s.cursor.y.pos⟩⟩⟩

def map (f : α → β) (s : Sheet cols rows α) : Sheet cols rows β := ⟨s.cells.map f, s.cursor⟩

theorem cursor_printAll (blank : α) (s : Sheet cols rows α) (l : List (Option α)) :
    (s.printAll blank l).cursor = s.cursor.run (l.map Option.isSome) := by
  induction l generalizing s with
  | nil => rfl
  | cons i l ih =>
    refine (ih (s.print blank i)).trans ?_
    cases i <;> rfl

theorem print_map (f : α → β) (blank : α) (s : Sheet cols rows α) (i : Option α) :
    (s.print blank i).map f = (s.map f).print (f blank) (i.map f) := by
  cases i with
  | none => exact Sheet.ext (Grid.map_follow ..) rfl
  | some a =>
    refine Sheet.ext ((Grid.map_follow ..).trans ?_) rfl
    rw [Grid.map_write]
    rfl

/-- **Maps.** Printing commutes with a map on the contents of cells. -/
theorem printAll_map (f : α → β) (blank : α) (s : Sheet cols rows α) (l : List (Option α)) :
    (s.printAll blank l).map f = (s.map f).printAll (f blank) (l.map (Option.map f)) := by
  induction l generalizing s with
  | nil => rfl
  | cons i l ih =>
    rw [List.map_cons]
    exact (ih (s.print blank i)).trans (by rw [print_map]; rfl)

/-- Printing blanks on a blank sheet. -/
theorem cells_printAll_blank (blank : α) (c : Cursor cols rows) {l : List (Option α)}
    (hl : ∀ i ∈ l, i = none ∨ i = some blank) :
    (printAll blank ⟨fun _ _ => blank, c⟩ l).cells = fun _ _ => blank := by
  induction l generalizing c with
  | nil => rfl
  | cons i l ih =>
    have hprint : print blank ⟨fun _ _ => blank, c⟩ i = ⟨fun _ _ => blank, c.next i.isSome⟩ := by
      obtain rfl | rfl := hl i List.mem_cons_self
      · exact Sheet.ext (Grid.follow_blank ..) rfl
      · refine Sheet.ext ?_ rfl
        have hself : Grid.write (fun _ _ => blank) c blank = fun _ _ => blank :=
          Grid.write_self (fun _ _ => blank) c
        simp only [print, hself]
        exact Grid.follow_blank ..
    show (printAll blank (print blank _ i) l).cells = _
    rw [hprint]
    exact ih _ fun i' hi' => hl i' (List.mem_cons_of_mem _ hi')

end Sheet

/-! ### Marks on one cell -/

/-- The grid after a list of items, each of which but a new line marks the cell at `p`, wherever
the cursor is. -/
def marked (blank mark : α) (p : Cursor cols rows) :
    Cursor cols rows → Grid cols rows α → List Bool → Grid cols rows α
  | _, g, [] => g
  | c, g, cell :: l =>
    marked blank mark p (c.next cell)
      (Grid.follow blank (if cell then g.write p mark else g) c cell) l

/-- Row `r` has the mark of some item: the grid has scrolled between the two rows since. -/
def Marks (p c : Cursor cols rows) (l : List Bool) (r : Nat) : Prop :=
  ∃ l₁ l₂, l = l₁ ++ true :: l₂ ∧ r + (c.run l₁).scrollCount (true :: l₂) = p.y

theorem marks_cons {p c : Cursor cols rows} {cell : Bool} {l : List Bool} {r : Nat} :
    Marks p c (cell :: l) r ↔
      (cell = true ∧ r + c.scrollCount (cell :: l) = p.y) ∨ Marks p (c.next cell) l r := by
  constructor
  · rintro ⟨l₁, l₂, hl, hr⟩
    cases l₁ with
    | nil =>
      obtain ⟨rfl, rfl⟩ := List.cons.inj hl
      exact .inl ⟨rfl, hr⟩
    | cons b l₁ =>
      obtain ⟨rfl, rfl⟩ := List.cons.inj hl
      exact .inr ⟨l₁, l₂, rfl, hr⟩
  · rintro (⟨rfl, hr⟩ | ⟨l₁, l₂, rfl, hr⟩)
    · exact ⟨[], l, rfl, hr⟩
    · exact ⟨cell :: l₁, l₂, rfl, hr⟩

open Classical in
/-- What is in a cell in the end: a mark, or what the scrolling has brought there. -/
theorem marked_eq (blank mark : α) (p c : Cursor cols rows) (g : Grid cols rows α)
    (l : List Bool) (r : Fin rows) (x : Fin cols) :
    marked blank mark p c g l r x =
      if x = p.x ∧ Marks p c l r then mark
      else if h : r.val + c.scrollCount l < rows then g ⟨r + c.scrollCount l, h⟩ x else blank := by
  induction l generalizing c g with
  | nil =>
    have hno : ¬ Marks p c [] r := by
      rintro ⟨l₁, l₂, hl, -⟩
      cases l₁ <;> cases hl
    simp [marked, hno, Cursor.scrollCount]
  | cons cell l ih =>
    rw [marked, ih, marks_cons, Cursor.scrollCount]
    by_cases hlater : x = p.x ∧ Marks p (c.next cell) l r
    · rw [if_pos hlater, if_pos ⟨hlater.1, .inr hlater.2⟩]
    · rw [if_neg hlater]
      -- no later item has marked this cell, so it has what this item leaves there
      have hmarks : (x = p.x ∧ (cell = true ∧
          r.val + ((c.next cell).scrollCount l + c.shift cell) = p.y.val ∨
          Marks p (c.next cell) l r)) ↔
          cell = true ∧ r.val + (c.next cell).scrollCount l + c.shift cell = p.y.val ∧ x = p.x := by
        constructor
        · rintro ⟨hx, ⟨hcell, hr⟩ | hm⟩
          · exact ⟨hcell, by omega, hx⟩
          · exact absurd ⟨hx, hm⟩ hlater
        · rintro ⟨hcell, hr, hx⟩
          exact ⟨hx, .inl ⟨hcell, by omega⟩⟩
      simp only [Grid.follow_apply, hmarks]
      simp only [← Nat.add_assoc]
      by_cases hin : r.val + (c.next cell).scrollCount l + c.shift cell < rows
      · rw [dif_pos (by omega), dif_pos hin, dif_pos hin]
        cases cell with
        | false => simp
        | true => simp [Grid.write, Fin.ext_iff]
      · have hout : ¬(cell = true ∧ r.val + (c.next cell).scrollCount l + c.shift cell = p.y.val ∧
            x = p.x) := by
          rintro ⟨-, hr, -⟩
          have := p.y.isLt
          omega
        rw [if_neg hout, dif_neg hin]
        split
        · rfl
        · rfl

/-- **No mark is left** on a blank grid exactly when it has scrolled past the marked row after
every item that marked it. -/
theorem marked_blank_iff {blank mark : α} (hne : mark ≠ blank) (p c : Cursor cols rows)
    (l : List Bool) : marked blank mark p c (fun _ _ => blank) l = (fun _ _ => blank) ↔
      ∀ l₁ l₂, l = l₁ ++ true :: l₂ → p.y.val < (c.run l₁).scrollCount (true :: l₂) := by
  constructor
  · intro h l₁ l₂ hl
    by_contra hle
    have hrow : p.y.val - (c.run l₁).scrollCount (true :: l₂) < rows :=
      Nat.lt_of_le_of_lt (Nat.sub_le ..) p.y.isLt
    have hcell := congrFun (congrFun h ⟨_, hrow⟩) p.x
    rw [marked_eq, if_pos ⟨rfl, l₁, l₂, hl, by simp only; omega⟩] at hcell
    exact hne hcell
  · intro h
    funext r x
    have hno : ¬(x = p.x ∧ Marks p c l r) := by
      rintro ⟨-, l₁, l₂, hl, hr⟩
      have := h l₁ l₂ hl
      omega
    rw [marked_eq, if_neg hno]
    split <;> rfl

end TextSheet
