import LinuxLikeKernel.BlinkTimes
import LinuxLikeKernel.UserProgram

/-!
# The frames of the fish

`add_frames` of `fish.c` as a client of the file service. It reads two files side by side, a byte of
each at a time, and adds an element for every place where one of them has something to show: with
the character of the first file for on and the one of the second for off.

## Main definitions

- `addFrames` — the program
- `frameRows`, `frameCells` — the two texts side by side, and the elements for them

## Main results

- `addFrames_settles` — what `add_frames` does to its end
-/

namespace LinuxLikeKernel
open Kernel Transition Client

abbrev newline : UInt8 := 10

abbrev blank : UInt8 := 32

/-! ### The program -/

/-- The variables of `add_frames` that its loops change, and the memory of the program. -/
structure Frames where
  c0 : UInt8
  c1 : UInt8
  eof0 : Bool
  eof1 : Bool
  fish : Fish

/-- A byte of a file, unless its row has come to its end. -/
def nextByte (buf : Nat) (fd : Int) (c : UInt8) (eof : Bool) : UserProg (UInt8 × Bool) :=
  if c = newline then pure (c, eof)
  else do
    let numBytes ← .ask (.read fd buf 1)
    if numBytes.ret = 0 then pure (newline, true) else pure (numBytes.bytes.headD c, eof)

/-- `blink_struct` with the values that it is given for a place. -/
def cellStruct (blinkStruct : Mp1BlinkStruct) (row col : Nat) (c0 c1 : UInt8) : Mp1BlinkStruct :=
  { blinkStruct with
    onLength := 15
    offLength := 15
    onChar := if c0 = newline then blank else c0
    offChar := if c1 = newline then blank else c1
    location := UInt16.ofNat (row * 80 + col + 40) }

/-- The inner loop of `add_frames`, of at most `fuel` turns; `none` if they do not suffice. The
variables `c0` and `c1` are at `buf0` and `buf1`. -/
def addColumns (buf0 buf1 : Nat) (fd0 fd1 : Int) (blinkStruct : Mp1BlinkStruct) (row : Nat) :
    Nat → Nat → Frames → UserProg (Option Frames)
  | 0, _, _ => pure none
  | fuel + 1, col, x => do
    let b0 ← nextByte buf0 fd0 x.c0 x.eof0
    let b1 ← nextByte buf1 fd1 x.c1 x.eof1
    if b0.1 = newline ∧ b1.1 = newline then
      return some ⟨b0.1, b1.1, b0.2, b1.2, x.fish⟩
    let fish :=
      if (b0.1 ≠ blank ∧ b0.1 ≠ newline) ∨ (b1.1 ≠ blank ∧ b1.1 ≠ newline) then
        (x.fish.mp1IoctlAdd (cellStruct blinkStruct row col b0.1 b1.1)).1
      else x.fish
    addColumns buf0 buf1 fd0 fd1 blinkStruct row fuel (col + 1) ⟨b0.1, b1.1, b0.2, b1.2, fish⟩

/-- A file after a row: at its end it is closed, after every row that is left. -/
def afterRow (fd : Int) (eof : Bool) : UserProg UInt8 :=
  if eof = true then do
    let _ ← .ask (.close fd)
    pure newline
  else pure 48

/-- The outer loop of `add_frames`. -/
def addRows (buf0 buf1 : Nat) (fd0 fd1 : Int) (blinkStruct : Mp1BlinkStruct) (columns : Nat) :
    Nat → Nat → Frames → UserProg (Option Frames)
  | 0, _, _ => pure none
  | fuel + 1, row, x =>
    if x.eof0 = true ∧ x.eof1 = true then pure (some x)
    else do
      match ← addColumns buf0 buf1 fd0 fd1 blinkStruct row columns 0 x with
      | none => return none
      | some x =>
        let c0 ← afterRow fd0 x.eof0
        let c1 ← afterRow fd1 x.eof1
        addRows buf0 buf1 fd0 fd1 blinkStruct columns fuel (row + 1)
          { x with c0 := c0, c1 := c1 }

/-- `add_frames`, of at most `fuel` rows and columns. `halt` does not return. -/
def addFrames (buf0 buf1 : Nat) (blinkStruct : Mp1BlinkStruct) (fuel : Nat) (f0 f1 : List UInt8)
    (fish : Fish) : UserProg (Option Fish) := do
  let fd0 ← .ask (.open f0)
  if fd0.ret < 0 then
    let _ ← .ask (.halt 255 noStale)
    return none
  let fd1 ← .ask (.open f1)
  if fd1.ret < 0 then
    let _ ← .ask (.halt 255 noStale)
    return none
  let x ← addRows buf0 buf1 fd0.ret fd1.ret blinkStruct fuel fuel 0 ⟨48, 48, false, false, fish⟩
  return x.map Frames.fish

/-! ### The texts side by side -/

/-- Two rows side by side, the shorter one with blanks behind it. -/
def sideBySide (r0 r1 : List UInt8) : List (UInt8 × UInt8) :=
  List.zipWithAll (fun a b => (a.getD blank, b.getD blank)) r0 r1

/-- Two texts side by side, with empty rows behind the shorter one. -/
def frameRows (t0 t1 : List (List UInt8)) : List (List (UInt8 × UInt8)) :=
  List.zipWithAll (fun r0 r1 => sideBySide (r0.getD []) (r1.getD [])) t0 t1

/-- The elements for a row, from a column on. -/
def rowCells (blinkStruct : Mp1BlinkStruct) (row col : Nat) (cells : List (UInt8 × UInt8)) :
    List Mp1BlinkStruct :=
  (cells.zipIdx col).flatMap fun x =>
    if x.1 = (blank, blank) then [] else [cellStruct blinkStruct row x.2 x.1.1 x.1.2]

/-- The elements for two texts, from a row on. -/
def frameCells (blinkStruct : Mp1BlinkStruct) (row : Nat) (rows : List (List (UInt8 × UInt8))) :
    List Mp1BlinkStruct :=
  (rows.zipIdx row).flatMap fun x => rowCells blinkStruct x.2 0 x.1

/-- The program after elements have been added. -/
def Fish.addAll (f : Fish) (cells : List Mp1BlinkStruct) : Fish :=
  cells.foldl (fun f arg => (f.mp1IoctlAdd arg).1) f

/-! ### Readers -/

/-- A file as `add_frames` reads it: the byte that it has of it, whether it has met its end, and
the text that it has not read. -/
structure Reader where
  c : UInt8
  eof : Bool
  text : List UInt8

namespace Reader

/-- The rest of the row. -/
def row (x : Reader) : List UInt8 :=
  if x.c = newline then [] else x.text.takeWhile (· ≠ newline)

/-- After a read, if the row has not ended. -/
def next (x : Reader) : Reader :=
  if x.c = newline then x
  else match x.text with
    | [] => ⟨newline, true, []⟩
    | b :: text => ⟨b, x.eof, text⟩

/-- At the end of the row. -/
def rowEnd (x : Reader) : Reader :=
  if x.c = newline then x
  else match x.text.dropWhile (· ≠ newline) with
    | [] => ⟨newline, true, []⟩
    | _ :: text => ⟨newline, x.eof, text⟩

/-- At the start of the next row. -/
def nextRow (x : Reader) : Reader := { x with c := if x.eof = true then newline else 48 }

/-- The rows that are left, at the start of a row. -/
def rows (x : Reader) : List (List UInt8) := if x.eof = true then [] else x.text.splitOn newline

variable {x : Reader}

theorem row_nil (h : x.row = []) : x.next = x.rowEnd := by
  rw [row] at h
  rw [next, rowEnd]
  split
  · rfl
  · rename_i hc
    rw [if_neg hc] at h
    cases htext : x.text with
    | nil => rfl
    | cons b text =>
      rw [htext] at h
      have hb : b = newline := by
        by_contra hne
        rw [List.takeWhile_cons_of_pos (by simpa using hne)] at h
        cases h
      subst hb
      rfl

theorem row_cons {b : UInt8} {r : List UInt8} (h : x.row = b :: r) :
    x.next.c = b ∧ b ≠ newline ∧ x.next.row = r ∧ x.next.rowEnd = x.rowEnd := by
  rw [row] at h
  split at h
  · cases h
  · rename_i hc
    cases htext : x.text with
    | nil =>
      rw [htext] at h
      cases h
    | cons b' text =>
      rw [htext] at h
      by_cases hb' : b' = newline
      · subst hb'
        cases h
      · rw [List.takeWhile_cons_of_pos (by simpa using hb')] at h
        obtain ⟨rfl, rfl⟩ := List.cons.inj h
        have hnext : x.next = ⟨b', x.eof, text⟩ := by
          rw [next, if_neg hc, htext]
        have hdrop : (b' :: text).dropWhile (· ≠ newline) = text.dropWhile (· ≠ newline) :=
          List.dropWhile_cons_of_pos (by simpa using hb')
        rw [hnext]
        refine ⟨rfl, hb', if_neg hb', ?_⟩
        rw [rowEnd, rowEnd, if_neg hb', if_neg hc, htext, hdrop]

theorem rowEnd_c (x : Reader) : x.rowEnd.c = newline := by
  rw [rowEnd]
  split
  · assumption
  · split <;> rfl

/-- A read takes the first byte of the rest of the row. -/
theorem next_spec (x : Reader) : (x.next.c = newline ↔ x.row = []) ∧ x.next.row = x.row.tail ∧
    x.next.rowEnd = x.rowEnd ∧ (if x.next.c = newline then blank else x.next.c) =
      x.row.headD blank := by
  cases hrow : x.row with
  | nil =>
    have hc := x.rowEnd_c
    rw [row_nil hrow]
    exact ⟨iff_of_true hc rfl, if_pos hc, if_pos hc, if_pos hc⟩
  | cons b r =>
    obtain ⟨rfl, hne, hnext, hend⟩ := row_cons hrow
    exact ⟨iff_of_false hne (List.cons_ne_nil _ _), hnext, hend, if_neg hne⟩

/-- At the start of a row the byte is no newline, except behind the end. -/
def AtRow (x : Reader) : Prop := x.c = newline ↔ x.eof = true

theorem atRow_nextRow (x : Reader) : x.nextRow.AtRow := by
  show (if x.eof = true then newline else 48) = newline ↔ x.eof = true
  cases x.eof <;> decide

theorem row_of_eof (h : x.AtRow) (heof : x.eof = true) :
    x.row = [] ∧ x.rowEnd = x ∧ x.nextRow = x := by
  have hc := h.mpr heof
  refine ⟨if_pos hc, if_pos hc, ?_⟩
  rw [nextRow, if_pos heof, ← hc]

/-- The first of the rows that are left. -/
theorem rows_eq_cons (h : x.AtRow) (heof : x.eof = false) :
    x.rows = x.row :: x.rowEnd.nextRow.rows := by
  have hc : ¬x.c = newline := fun hc => by rw [h.mp hc] at heof; cases heof
  have hsplit := List.takeWhile_append_dropWhile (p := (· ≠ newline)) (l := x.text)
  have hfirst : newline ∉ x.text.takeWhile (· ≠ newline) := fun hmem => by
    simpa using List.mem_takeWhile_imp hmem
  rw [rows, row, rowEnd, if_neg hc, if_neg hc, heof, if_neg (by decide)]
  cases hdrop : x.text.dropWhile (· ≠ newline) with
  | nil =>
    rw [hdrop, List.append_nil] at hsplit
    rw [hsplit] at hfirst ⊢
    rw [List.splitOn_eq_singleton hfirst]
    rfl
  | cons b text =>
    have hb : b = newline := by
      have hhead := List.head?_dropWhile_not (fun c => decide (c ≠ newline)) x.text
      rw [hdrop] at hhead
      simpa using hhead
    subst hb
    rw [hdrop] at hsplit
    rw [← hsplit, List.splitOn_append_cons_self_of_not_mem hfirst, hsplit]
    rfl

end Reader

/-! ### Sessions -/

variable {vol : Volume} {σ τ υ : Session} {i j : Fin 8} {x y : Reader} {closed : Bool}

/-- The descriptor stands for what the reader has not read, or is closed. -/
def Reads (σ : Session) (i : Fin 8) (closed : Bool) (x : Reader) : Prop :=
  if closed = true then σ.handles i = none ∧ x.c = newline
  else ∃ contents position, σ.handles i = some (.file contents position) ∧
    contents.drop position = x.text

/-- The session is as it was but for some descriptors. -/
def SameBut (fds : List (Fin 8)) (σ τ : Session) : Prop :=
  τ.args = σ.args ∧ ∀ k ∉ fds, τ.handles k = σ.handles k

theorem SameBut.trans {fds : List (Fin 8)} (h : SameBut fds σ τ) (h' : SameBut fds τ υ) :
    SameBut fds σ υ := ⟨h'.1.trans h.1, fun k hk => (h'.2 k hk).trans (h.2 k hk)⟩

theorem SameBut.mono {fds fds' : List (Fin 8)} (h : SameBut fds σ τ) (hsub : fds ⊆ fds') :
    SameBut fds' σ τ := ⟨h.1, fun k hk => h.2 k fun hmem => hk (hsub hmem)⟩

theorem SameBut.reads {fds : List (Fin 8)} (h : SameBut fds σ τ) (hi : i ∉ fds)
    (hreads : Reads σ i closed x) : Reads τ i closed x := by
  rw [Reads, h.2 i hi]
  exact hreads

theorem sameBut_set (σ : Session) (i : Fin 8) (x : Option Handle) : SameBut [i] σ (σ.set i x) :=
  ⟨rfl, fun _ hk => set_handles_of_ne σ (List.ne_of_not_mem_cons hk) x⟩

/-- A byte is the next of the reader. -/
theorem nextByte_settles (vol : Volume) {buf : Nat} (hbuf : buf ≠ 0)
    (h : Reads σ i closed x) : ∃ log τ,
      Settles (FileService vol) σ (nextByte buf i.val x.c x.eof) log (x.next.c, x.next.eof) τ ∧
      Reads τ i closed x.next ∧ SameBut [i] σ τ ∧ log.length ≤ 1 := by
  rw [nextByte, Reader.next]
  split
  · exact ⟨[], σ, .done, h, ⟨rfl, fun _ _ => rfl⟩, Nat.zero_le _⟩
  · rename_i hc
    have hopen : ¬closed = true := by
      rintro rfl
      exact hc h.2
    rw [Reads, if_neg hopen] at h
    obtain ⟨contents, position, hfile, htext⟩ := h
    have hread := onlyReply_readFile vol 1 (find_of_handle hfile) hbuf
    have hchunk : chunkAt contents position 1 = x.text.take 1 := by
      rw [chunkAt, htext]
      rfl
    rw [hchunk] at hread
    cases hx : x.text with
    | nil =>
      rw [hx] at hread htext
      refine ⟨_, _, .ask_bind hread .done, ?_, sameBut_set .., Nat.le_refl _⟩
      rw [Reads, if_neg hopen]
      exact ⟨contents, _, set_handles_self .., htext⟩
    | cons b text =>
      rw [hx] at hread htext
      refine ⟨_, _, .ask_bind hread .done, ?_, sameBut_set .., Nat.le_refl _⟩
      rw [Reads, if_neg hopen]
      refine ⟨contents, _, set_handles_self .., ?_⟩
      rw [← List.drop_drop, htext]
      rfl

/-! ### A row -/

theorem sideBySide_eq_cons {r0 r1 : List UInt8} (h : ¬(r0 = [] ∧ r1 = [])) :
    sideBySide r0 r1 =
      (r0.headD blank, r1.headD blank) :: sideBySide r0.tail r1.tail := by
  cases r0 with
  | nil =>
    cases r1 with
    | nil => exact absurd ⟨rfl, rfl⟩ h
    | cons b r1 => rfl
  | cons a r0 =>
    cases r1 with
    | nil => simp [sideBySide]
    | cons b r1 => rfl

theorem rowCells_cons (blinkStruct : Mp1BlinkStruct) (row col : Nat) (cell : UInt8 × UInt8)
    (cells : List (UInt8 × UInt8)) : rowCells blinkStruct row col (cell :: cells) =
      (if cell = (blank, blank) then [] else [cellStruct blinkStruct row col cell.1 cell.2]) ++
        rowCells blinkStruct row (col + 1) cells := by
  rw [rowCells, List.zipIdx_cons, List.flatMap_cons]
  rfl

theorem Fish.addAll_append (f : Fish) (cells cells' : List Mp1BlinkStruct) :
    f.addAll (cells ++ cells') = (f.addAll cells).addAll cells' := List.foldl_append

/-- What the program adds for two bytes is what it adds for a place. -/
theorem addCell_eq (blinkStruct : Mp1BlinkStruct) (row col : Nat) (c0 c1 : UInt8) (f : Fish) :
    (if (c0 ≠ blank ∧ c0 ≠ newline) ∨ (c1 ≠ blank ∧ c1 ≠ newline) then
        (f.mp1IoctlAdd (cellStruct blinkStruct row col c0 c1)).1
      else f) =
    let cell := (if c0 = newline then blank else c0, if c1 = newline then blank else c1)
    f.addAll (if cell = (blank, blank) then []
      else [cellStruct blinkStruct row col cell.1 cell.2]) := by
  have hblank : ∀ c : UInt8, (c ≠ blank ∧ c ≠ newline) ↔
      (if c = newline then blank else c) ≠ blank := by
    intro c
    split <;> simp_all
  have hstruct : cellStruct blinkStruct row col (if c0 = newline then blank else c0)
      (if c1 = newline then blank else c1) = cellStruct blinkStruct row col c0 c1 := by
    have hidem : ∀ c : UInt8, (if (if c = newline then blank else c) = newline then blank
        else (if c = newline then blank else c)) = if c = newline then blank else c := by
      intro c
      by_cases hc : c = newline <;> simp [hc]
    rw [cellStruct, hidem, hidem, cellStruct]
  simp only [hblank, hstruct, Prod.mk.injEq]
  by_cases h : (if c0 = newline then blank else c0) = blank ∧
      (if c1 = newline then blank else c1) = blank
  · rw [if_pos h, if_neg (by simp [h])]
    rfl
  · rw [if_neg h, if_pos (not_and_or.mp h)]
    rfl

/-- The inner loop reads the rest of a row of both files, and adds the elements for it. -/
theorem columns_settles (vol : Volume) {buf0 buf1 : Nat} (hbuf0 : buf0 ≠ 0) (hbuf1 : buf1 ≠ 0)
    (hij : i ≠ j) (blinkStruct : Mp1BlinkStruct) (row fuel col : Nat) (x y : Reader)
    {closed0 closed1 : Bool} (f : Fish) (σ : Session) (hx : Reads σ i closed0 x)
    (hy : Reads σ j closed1 y) (hfuel : (sideBySide x.row y.row).length < fuel) :
    ∃ log τ, Settles (FileService vol) σ
        (addColumns buf0 buf1 i.val j.val blinkStruct row fuel col ⟨x.c, y.c, x.eof, y.eof, f⟩) log
        (some ⟨newline, newline, x.rowEnd.eof, y.rowEnd.eof,
          f.addAll (rowCells blinkStruct row col (sideBySide x.row y.row))⟩) τ ∧
      Reads τ i closed0 x.rowEnd ∧ Reads τ j closed1 y.rowEnd ∧ SameBut [i, j] σ τ ∧
      log.length ≤ 2 * ((sideBySide x.row y.row).length + 1) := by
  induction fuel generalizing col x y f σ with
  | zero => cases hfuel
  | succ fuel ih =>
    obtain ⟨log0, σ₁, hsettles0, hx', hsame0, hlen0⟩ := nextByte_settles vol hbuf0 hx
    obtain ⟨log1, σ₂, hsettles1, hy', hsame1, hlen1⟩ :=
      nextByte_settles vol hbuf1 (hsame0.reads (by simpa using hij.symm) hy)
    have hx'' := hsame1.reads (by simpa using hij) hx'
    have hsame : SameBut [i, j] σ σ₂ := (hsame0.mono (by simp)).trans (hsame1.mono (by simp))
    obtain ⟨hend0, hrow0, hrowEnd0, hchar0⟩ := x.next_spec
    obtain ⟨hend1, hrow1, hrowEnd1, hchar1⟩ := y.next_spec
    by_cases hboth : x.row = [] ∧ y.row = []
    · -- both rows have come to their ends
      have hnext0 := Reader.row_nil hboth.1
      have hnext1 := Reader.row_nil hboth.2
      have hlast : x.next.c = newline ∧ y.next.c = newline := ⟨hend0.mpr hboth.1, hend1.mpr hboth.2⟩
      have hall : Settles (FileService vol) σ
          (addColumns buf0 buf1 i.val j.val blinkStruct row (fuel + 1) col
            ⟨x.c, y.c, x.eof, y.eof, f⟩) (log0 ++ (log1 ++ []))
          (some ⟨x.next.c, y.next.c, x.next.eof, y.next.eof, f⟩) σ₂ := by
        refine hsettles0.bind (hsettles1.bind ?_)
        simp only [if_pos hlast]
        exact .done
      rw [hlast.1, hlast.2, hnext0, hnext1] at hall
      rw [hboth.1, hboth.2]
      rw [hnext0] at hx''
      rw [hnext1] at hy'
      refine ⟨_, σ₂, hall, hx'', hy', hsame, ?_⟩
      simp only [List.length_append, List.length_nil]
      omega
    · have hmore : ¬(x.next.c = newline ∧ y.next.c = newline) := fun h =>
        hboth ⟨hend0.mp h.1, hend1.mp h.2⟩
      have hsplit := sideBySide_eq_cons hboth
      rw [← hrow0, ← hrow1, ← hchar0, ← hchar1] at hsplit
      rw [hsplit, List.length_cons] at hfuel
      have hadd := addCell_eq blinkStruct row col x.next.c y.next.c f
      obtain ⟨log2, τ, hsettles2, hxτ, hyτ, hsame2, hlen2⟩ :=
        ih (col + 1) x.next y.next _ σ₂ hx'' hy' (Nat.lt_of_succ_lt_succ hfuel)
      refine ⟨log0 ++ (log1 ++ log2), τ, ?_, hrowEnd0 ▸ hxτ, hrowEnd1 ▸ hyτ, hsame.trans hsame2,
        ?_⟩
      · refine hsettles0.bind (hsettles1.bind ?_)
        simp only [if_neg hmore, hadd]
        rw [hsplit, rowCells_cons, Fish.addAll_append, ← hrowEnd0, ← hrowEnd1]
        exact hsettles2
      · rw [hsplit, List.length_cons, List.length_append, List.length_append]
        omega

/-! ### The rows -/

/-- A descriptor that is closed once more. -/
theorem onlyReply_closeAgain (vol : Volume) (hclosed : σ.handles i = none) :
    OnlyReply (FileService vol) σ (.close i.val) ⟨-1, []⟩ σ := by
  intro r τ
  have hi : (0 : Int) ≤ i.val ∧ (i.val : Int) < 8 := by omega
  have hfind : σ.find i.val = none := by
    simp only [Session.find, dif_pos hi, Int.toNat_natCast, Fin.eta, hclosed, Option.map_none]
  simp only [FileService, hfind]

/-- A file after a row is closed exactly if its end has been met. -/
theorem afterRow_settles (vol : Volume) (hi : 2 ≤ i.val) (h : Reads σ i closed x)
    (hclosed : closed = true → x.eof = true) :
    ∃ log τ, Settles (FileService vol) σ (afterRow i.val x.eof) log x.nextRow.c τ ∧
      Reads τ i x.nextRow.eof x.nextRow ∧ SameBut [i] σ τ ∧ log.length ≤ 1 := by
  rw [afterRow, Reader.nextRow]
  by_cases heof : x.eof = true
  · simp only [if_pos heof]
    by_cases hc : closed = true
    · rw [Reads, if_pos hc] at h
      refine ⟨_, σ, .ask_bind (onlyReply_closeAgain vol h.1) .done, ?_, ⟨rfl, fun _ _ => rfl⟩,
        Nat.le_refl _⟩
      rw [Reads, if_pos heof]
      exact ⟨h.1, rfl⟩
    · rw [Reads, if_neg hc] at h
      obtain ⟨contents, position, hfile, -⟩ := h
      have hclose := onlyReply_close vol (find_of_handle hfile) (Int.ofNat_le.mpr hi)
      refine ⟨_, _, .ask_bind hclose .done, ?_, sameBut_set .., Nat.le_refl _⟩
      rw [Reads, if_pos heof]
      exact ⟨set_handles_self .., rfl⟩
  · have hc : ¬closed = true := fun hc => heof (hclosed hc)
    simp only [if_neg heof]
    refine ⟨[], σ, .done, ?_, ⟨rfl, fun _ _ => rfl⟩, Nat.zero_le _⟩
    rw [Reads, if_neg heof]
    rw [Reads, if_neg hc] at h
    exact h

theorem Reader.eof_rowEnd (h : x.eof = true) : x.rowEnd.eof = true := by
  rw [rowEnd]
  split
  · exact h
  · split
    · rfl
    · exact h

/-- The first of the rows that are left of two texts. -/
theorem frameRows_eq_cons (hx : x.AtRow) (hy : y.AtRow) (hmore : ¬(x.eof = true ∧ y.eof = true)) :
    frameRows x.rows y.rows =
      sideBySide x.row y.row :: frameRows x.rowEnd.nextRow.rows y.rowEnd.nextRow.rows := by
  cases hx0 : x.eof with
  | false =>
    rw [Reader.rows_eq_cons hx hx0]
    cases hy0 : y.eof with
    | false =>
      rw [Reader.rows_eq_cons hy hy0]
      rfl
    | true =>
      obtain ⟨hrow, hend, hnext⟩ := Reader.row_of_eof hy hy0
      have hrows : y.rows = [] := if_pos hy0
      rw [hend, hnext, hrow, hrows, frameRows, List.zipWithAll_nil, List.map_cons, frameRows,
        List.zipWithAll_nil]
      rfl
  | true =>
    have hy0 : y.eof = false := Bool.eq_false_iff.mpr fun hy0 => hmore ⟨hx0, hy0⟩
    obtain ⟨hrow, hend, hnext⟩ := Reader.row_of_eof hx hx0
    have hrows : x.rows = [] := if_pos hx0
    rw [Reader.rows_eq_cons hy hy0, hend, hnext, hrow, hrows]
    rfl

theorem frameCells_cons (blinkStruct : Mp1BlinkStruct) (row : Nat) (cells : List (UInt8 × UInt8))
    (rows : List (List (UInt8 × UInt8))) : frameCells blinkStruct row (cells :: rows) =
      rowCells blinkStruct row 0 cells ++ frameCells blinkStruct (row + 1) rows := by
  rw [frameCells, List.zipIdx_cons, List.flatMap_cons]
  rfl

/-- The outer loop reads both files to their ends, and adds the elements for all rows. -/
theorem rows_settles (vol : Volume) {buf0 buf1 : Nat} (hbuf0 : buf0 ≠ 0) (hbuf1 : buf1 ≠ 0)
    (hij : i ≠ j) (hi : 2 ≤ i.val) (hj : 2 ≤ j.val) (blinkStruct : Mp1BlinkStruct)
    (columns fuel row : Nat) (x y : Reader) (f : Fish) (σ : Session) (hx : x.AtRow) (hy : y.AtRow)
    (hreads0 : Reads σ i x.eof x) (hreads1 : Reads σ j y.eof y)
    (hcolumns : ∀ r ∈ frameRows x.rows y.rows, r.length < columns)
    (hfuel : (frameRows x.rows y.rows).length < fuel) :
    ∃ log τ, Settles (FileService vol) σ
        (addRows buf0 buf1 i.val j.val blinkStruct columns fuel row
          ⟨x.c, y.c, x.eof, y.eof, f⟩) log
        (some ⟨newline, newline, true, true,
          f.addAll (frameCells blinkStruct row (frameRows x.rows y.rows))⟩) τ ∧
      τ.handles i = none ∧ τ.handles j = none ∧ SameBut [i, j] σ τ ∧
      log.length ≤ (frameRows x.rows y.rows).length * (2 * columns + 2) := by
  induction fuel generalizing row x y f σ with
  | zero => cases hfuel
  | succ fuel ih =>
    by_cases hmore : x.eof = true ∧ y.eof = true
    · obtain ⟨hx0, hy0⟩ := hmore
      have hrows0 : x.rows = [] := if_pos hx0
      have hrows1 : y.rows = [] := if_pos hy0
      rw [Reads, if_pos hx0] at hreads0
      rw [Reads, if_pos hy0] at hreads1
      refine ⟨[], σ, ?_, hreads0.1, hreads1.1, ⟨rfl, fun _ _ => rfl⟩, Nat.zero_le _⟩
      rw [addRows, if_pos ⟨hx0, hy0⟩, hx.mpr hx0, hy.mpr hy0, hx0, hy0, hrows0, hrows1]
      exact .done
    · have hsplit := frameRows_eq_cons hx hy hmore
      rw [hsplit] at hcolumns hfuel
      have hlt := hcolumns _ List.mem_cons_self
      obtain ⟨log, σ₁, hsettles, hread0, hread1, hsame, hlen⟩ := columns_settles vol hbuf0 hbuf1 hij
        blinkStruct row columns 0 x y f σ hreads0 hreads1 hlt
      obtain ⟨log0, σ₂, hsettles0, hnext0, hsame0, hlen0⟩ :=
        afterRow_settles vol hi hread0 Reader.eof_rowEnd
      obtain ⟨log1, σ₃, hsettles1, hnext1, hsame1, hlen1⟩ :=
        afterRow_settles vol hj (hsame0.reads (by simpa using hij.symm) hread1) Reader.eof_rowEnd
      have hnext0' := hsame1.reads (by simpa using hij) hnext0
      obtain ⟨log2, τ, hrest, hclosed0, hclosed1, hsame2, hlen2⟩ := ih (row + 1) x.rowEnd.nextRow
        y.rowEnd.nextRow _ σ₃ x.rowEnd.atRow_nextRow y.rowEnd.atRow_nextRow hnext0' hnext1
        (fun r hr => hcolumns r (List.mem_cons_of_mem _ hr)) (Nat.lt_of_succ_lt_succ hfuel)
      refine ⟨log ++ (log0 ++ (log1 ++ log2)), τ, ?_, hclosed0, hclosed1,
        ((hsame.trans (hsame0.mono (by simp))).trans (hsame1.mono (by simp))).trans hsame2, ?_⟩
      · rw [addRows, if_neg hmore]
        refine hsettles.bind (hsettles0.bind (hsettles1.bind ?_))
        rw [hsplit, frameCells_cons, Fish.addAll_append]
        exact hrest
      · rw [hsplit, List.length_cons, Nat.succ_mul]
        simp only [List.length_append]
        omega

theorem handles_of_free (h : σ.free = some i) : σ.handles i = none := by
  have hnone := List.find?_some h
  exact Option.isNone_iff_eq_none.mp hnone

theorem atRow_start (text : List UInt8) : (Reader.mk 48 false text).AtRow := by
  show (48 : UInt8) = newline ↔ false = true
  decide

/-- What `add_frames` does, with the names of two files: it adds the elements for their texts side
by side, and leaves its descriptors as it has found them. -/
theorem addFrames_settles (vol : Volume) (σ : Session) {buf0 buf1 : Nat} (hbuf0 : buf0 ≠ 0)
    (hbuf1 : buf1 ≠ 0) (blinkStruct : Mp1BlinkStruct) {fuel : Nat} {f0 f1 t0 t1 : List UInt8}
    (f : Fish) (hvol0 : vol f0 = some (.file t0 0)) (hvol1 : vol f1 = some (.file t1 0))
    (hfree0 : σ.free = some i) (hfree1 : (σ.set i (some (.file t0 0))).free = some j)
    (hi : 2 ≤ i.val) (hj : 2 ≤ j.val)
    (hrows : (frameRows (t0.splitOn newline) (t1.splitOn newline)).length < fuel)
    (hcolumns : ∀ r ∈ frameRows (t0.splitOn newline) (t1.splitOn newline), r.length < fuel) :
    ∃ log, Settles (FileService vol) σ (addFrames buf0 buf1 blinkStruct fuel f0 f1 f) log
      (some (f.addAll (frameCells blinkStruct 0
        (frameRows (t0.splitOn newline) (t1.splitOn newline))))) σ ∧
      log.length ≤ (frameRows (t0.splitOn newline) (t1.splitOn newline)).length *
        (2 * fuel + 2) + 2 := by
  have hij : i ≠ j := by
    rintro rfl
    have hnone := handles_of_free hfree1
    rw [set_handles_self] at hnone
    cases hnone
  have hopen0 := onlyReply_open hvol0 hfree0
  have hopen1 := onlyReply_open hvol1 hfree1
  set σ₁ := σ.set i (some (.file t0 0)) with hσ₁
  set σ₂ := σ₁.set j (some (.file t1 0)) with hσ₂
  have hread0 : Reads σ₂ i false ⟨48, false, t0⟩ := by
    refine ⟨t0, 0, ?_, rfl⟩
    rw [hσ₂, set_handles_of_ne _ hij, hσ₁, set_handles_self]
  have hread1 : Reads σ₂ j false ⟨48, false, t1⟩ := ⟨t1, 0, set_handles_self .., rfl⟩
  obtain ⟨log, τ, hsettles, hnone0, hnone1, ⟨hargs, hothers⟩, hlen⟩ := rows_settles vol hbuf0
    hbuf1 hij hi hj blinkStruct fuel fuel 0 ⟨48, false, t0⟩ ⟨48, false, t1⟩ f σ₂ (atRow_start t0)
    (atRow_start t1) hread0 hread1 hcolumns hrows
  have hsame : τ = σ := by
    apply Session.ext
    · funext k
      by_cases hki : k = i
      · rw [hki, hnone0, handles_of_free hfree0]
      · have hkσ₁ : σ₁.handles k = σ.handles k := set_handles_of_ne σ hki _
        by_cases hkj : k = j
        · rw [hkj, hnone1, ← handles_of_free hfree1, ← hkj, hkσ₁]
        · rw [hothers k (by simp [hki, hkj]), hσ₂, set_handles_of_ne σ₁ hkj, hkσ₁]
    · exact hargs
  subst hsame
  have hpos0 : ¬(i.val : Int) < 0 := by omega
  have hpos1 : ¬(j.val : Int) < 0 := by omega
  refine ⟨(.open f0, ⟨i.val, []⟩) :: (.open f1, ⟨j.val, []⟩) :: (log ++ []),
    .ask_bind hopen0 ?_, ?_⟩
  · simp only [if_neg hpos0]
    refine .ask_bind hopen1 ?_
    simp only [if_neg hpos1]
    exact hsettles.bind .done
  · rw [List.append_nil, List.length_cons, List.length_cons]
    exact Nat.add_le_add_right hlen 2

end LinuxLikeKernel
