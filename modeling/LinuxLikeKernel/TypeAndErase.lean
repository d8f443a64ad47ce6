import LinuxLikeKernel.Descriptors
import LinuxLikeKernel.KeyLegends
import LinuxLikeKernel.ScreenLayout
import LinuxLikeKernel.SoundConsole

/-!
# Typing and erasing

Some characters are typed and as many erased with Backspace. Then the line buffer and the cursor
should be as before and the screen too, but for what has scrolled. The line buffer is so only where
its free bytes have been zeros: Backspace fills them with zeros. They need not be, as a key that
comes while `term_read` clears the buffer leaves its character behind.

## Main definitions

- `press` — a key in a console
- `Printable`, `Quiet` — keys that add a character, and codes that add and take nothing
- `Restored` — what should hold after typing and erasing

## Main results

- `Typed.printable`, `Erased.backspace` — what one key does
- `restored_iff` — when all is restored
-/

namespace LinuxLikeKernel
open ByteMemory TextSheet Transition Kernel

/-- The keyboard interrupt handler. -/
def press (k : Console) (scancode : UInt8) : Option Console :=
  (k.keyboardInterruptHandler scancode).map Prod.fst

/-- The make code of a key with a legend. -/
def Printable (scancode : UInt8) : Prop :=
  decodeKey scancode = .other ∧ scancode.toNat < 59 ∧
    (scancodeMap.getD 0 []).getD scancode.toNat 0 ≠ 0

instance (scancode : UInt8) : Decidable (Printable scancode) :=
  inferInstanceAs (Decidable (_ ∧ _))

/-- While neither Ctrl nor Alt is held, a code that at most changes the state of Shift and Caps
Lock. -/
def Key.Quiet (scancode : UInt8) : Key → Prop
  | .capsLock | .shift _ | .fn _ => True
  | .ctrl held | .alt held => held = false
  | .other => ¬ Printable scancode
  | .enter | .backspace => False

instance (scancode : UInt8) : DecidablePred (Key.Quiet scancode)
  | .capsLock | .shift _ | .fn _ => isTrue trivial
  | .ctrl held | .alt held => inferInstanceAs (Decidable (held = false))
  | .other => inferInstanceAs (Decidable (¬ Printable scancode))
  | .enter | .backspace => isFalse id

abbrev Quiet (scancode : UInt8) : Prop := (decodeKey scancode).Quiet scancode

/-- The cursor, in memory and on the device, is in a cell of the screen. -/
structure Screen.CursorInside (sc : Screen) : Prop where
  x : sc.screenX < numCols
  y : sc.screenY < numRows
  pos : sc.cursorPos = numCols * sc.screenY + sc.screenX

/-- The cell of the cursor. -/
def Console.cell (k : Console) : Nat := k.screen.screenY * numCols + k.screen.screenX

/-- By how many rows `n` characters make the screen scroll. -/
def Console.rowsScrolled (k : Console) (n : Nat) : Nat := (k.cell + n) / numCols + 1 - numRows

/-- The screen of `k'` is that of `k` after `n` characters have been typed and erased: the cursor
and all cells are where the scrolling has moved them, and the cells of the characters are blank. -/
structure ScreenRestored (k : Console) (n : Nat) (k' : Console) : Prop where
  x : k'.screen.screenX = k.screen.screenX
  y : k'.screen.screenY + k.rowsScrolled n = k.screen.screenY
  pos : k'.screen.cursorPos = numCols * k'.screen.screenY + k'.screen.screenX
  cells : ∀ (r : Fin numRows) (x : Fin numCols), gridAt k'.screen.mem video r x =
    if k.cell ≤ (r.val + k.rowsScrolled n) * numCols + x.val ∧
      (r.val + k.rowsScrolled n) * numCols + x.val < k.cell + n then (32, attrib k.curTermId)
    else if h : r.val + k.rowsScrolled n < numRows then
      gridAt k.screen.mem video ⟨r.val + k.rowsScrolled n, h⟩ x
    else (32, attrib k.curTermId)

/-- And the line buffer is the same. -/
structure Restored (k : Console) (n : Nat) (k' : Console) : Prop
    extends ScreenRestored k n k' where
  keyBuf : ∀ j < keyBufMax, k'.keyBuf j = k.keyBuf j
  keyBufIdx : k'.keyBufIdx = k.keyBufIdx

/-! ### Keys -/

variable {k k' : Console} {scancode : UInt8}

/-- Neither Ctrl nor Alt is held, and the state of Shift and Caps Lock is one that there is a row in
the table for. -/
structure Console.Plain (k : Console) : Prop where
  ctrl : k.ctrlState = false
  alt : k.altState = false
  state : k.scancodeState.toNat < 4

/-- A key with a legend has one in each row of the table, and none of them is a new line. -/
theorem keyChar_printable (h : k.Plain) (hp : Printable scancode) :
    ∃ key, k.keyChar scancode = some key ∧ isGlyph key = true := by
  have hall : ∀ (row : Fin 4) (n : Fin 59), (scancodeMap.getD 0 []).getD n.val 0 ≠ 0 →
      (scancodeMap.getD row.val []).getD n.val 0 ≠ 0 ∧
        isGlyph ((scancodeMap.getD row.val []).getD n.val 0) = true := by
    decide +kernel
  obtain ⟨-, hlt, hne⟩ := hp
  obtain ⟨hkey, hglyph⟩ := hall ⟨k.scancodeState.toNat, h.state⟩ ⟨scancode.toNat, hlt⟩ hne
  refine ⟨_, ?_, hglyph⟩
  rw [Console.keyChar, if_neg (Nat.not_le.mpr hlt)]
  exact if_neg (by simpa [h.alt] using hkey)

/-- And one without a legend has none. -/
theorem keyChar_not_printable (h : k.Plain) (hkey : decodeKey scancode = .other)
    (hp : ¬ Printable scancode) : k.keyChar scancode = none := by
  have hall : ∀ (row : Fin 4) (n : Fin 59), (scancodeMap.getD 0 []).getD n.val 0 = 0 →
      (scancodeMap.getD row.val []).getD n.val 0 = 0 := by decide +kernel
  rw [Console.keyChar]
  split
  · rfl
  · rename_i hlt
    have hzero : (scancodeMap.getD 0 []).getD scancode.toNat 0 = 0 :=
      not_not.mp fun hne => hp ⟨hkey, Nat.lt_of_not_le hlt, hne⟩
    have hrow := hall ⟨k.scancodeState.toNat, h.state⟩ ⟨scancode.toNat, Nat.lt_of_not_le hlt⟩ hzero
    exact if_pos (.inl hrow)

/-- The console after a character has been typed. -/
def Console.typed (k : Console) (key : UInt8) : Console :=
  { k with
    keyBuf := Function.update k.keyBuf k.keyBufIdx key
    keyBufIdx := k.keyBufIdx + 1
    screen := putc k.curTermId key k.screen }

theorem press_printable (h : k.Plain) (hlt : k.keyBufIdx < keyBufMax - 1)
    (hp : Printable scancode) :
    ∃ key, isGlyph key = true ∧ press k scancode = some (k.typed key) := by
  obtain ⟨key, hchar, hglyph⟩ := keyChar_printable h hp
  refine ⟨key, hglyph, ?_⟩
  have hdefault : k.keyDefault key = (k.typed key, false) := by
    rw [Console.keyDefault, if_neg (by simp [h.ctrl]), if_pos hlt]
    rfl
  rw [press, handler_char hp.1 hchar, hdefault]
  rfl

theorem press_quiet (h : k.Plain) (hq : Quiet scancode) : ∃ scancodeState : UInt8,
    scancodeState.toNat < 4 ∧ press k scancode = some { k with scancodeState } := by
  have hbits : ∀ n : Fin 4, (UInt8.ofNat n.val ^^^ 2).toNat < 4 ∧
      (UInt8.ofNat n.val ||| 1).toNat < 4 ∧ (UInt8.ofNat n.val &&& 0xFE).toNat < 4 := by decide
  have hstate : k.scancodeState = UInt8.ofNat k.scancodeState.toNat := by simp
  obtain ⟨hxor, hor, hand⟩ := hbits ⟨k.scancodeState.toNat, h.state⟩
  simp only [← hstate] at hxor hor hand
  have hsame : press k scancode = some k → ∃ scancodeState : UInt8,
      scancodeState.toNat < 4 ∧ press k scancode = some { k with scancodeState } :=
    fun hk => ⟨k.scancodeState, h.state, hk⟩
  simp only [Quiet] at hq
  cases hkey : decodeKey scancode with
  | capsLock =>
    refine ⟨_, hxor, ?_⟩
    simp only [press, Console.keyboardInterruptHandler, hkey]
    rfl
  | shift held =>
    cases held with
    | true =>
      refine ⟨_, hor, ?_⟩
      simp only [press, Console.keyboardInterruptHandler, hkey]
      rfl
    | false =>
      refine ⟨_, hand, ?_⟩
      simp only [press, Console.keyboardInterruptHandler, hkey]
      rfl
  | ctrl held =>
    rw [hkey] at hq
    obtain rfl : held = false := hq
    refine hsame ?_
    simp only [press, Console.keyboardInterruptHandler, hkey, ← h.ctrl]
    rfl
  | alt held =>
    rw [hkey] at hq
    obtain rfl : held = false := hq
    refine hsame ?_
    simp only [press, Console.keyboardInterruptHandler, hkey, ← h.alt]
    rfl
  | enter =>
    rw [hkey] at hq
    exact hq.elim
  | backspace =>
    rw [hkey] at hq
    exact hq.elim
  | fn id =>
    refine hsame ?_
    simp only [press, Console.keyboardInterruptHandler, hkey, h.alt]
    rfl
  | other =>
    rw [hkey] at hq
    refine hsame ?_
    rw [press, handler_noChar hkey (keyChar_not_printable h hkey hq)]
    rfl

theorem press_backspace (hkey : decodeKey scancode = .backspace) :
    press k scancode = some k.keyBackspace := by
  simp only [press, Console.keyboardInterruptHandler, hkey]
  rfl

/-! ### Typing -/

/-- The page that the screen is the top of. -/
def Console.page (k : Console) : Layout (UInt8 × UInt8) :=
  Layout.ofSheet (32, attrib k.curTermId) k.screen.sheet

/-- The page after the characters have been typed. -/
def Console.pageAfter (k : Console) (chars : List UInt8) : Layout (UInt8 × UInt8) :=
  k.page.printAll numCols ((chars.map fun c => (c, attrib k.curTermId)).map some)

/-- `k'` is `k` after the characters have been typed. -/
structure Typed (k : Console) (chars : List UInt8) (k' : Console) : Prop where
  plain : k'.Plain
  cur : k'.curTermId = k.curTermId
  idx : k'.keyBufIdx = k.keyBufIdx + chars.length
  keyBuf : ∀ j, j < k.keyBufIdx ∨ k.keyBufIdx + chars.length ≤ j → k'.keyBuf j = k.keyBuf j
  screen : ∃ s sh', k'.screen.Shows sh' ∧ (s = 0 ∨ sh'.cursor.y.val + 1 = numRows) ∧
    Window (32, attrib k.curTermId) s (k.pageAfter chars) sh'

variable {chars : List UInt8} {n m : Nat}

/-- A screen with its cursor inside shows a sheet. -/
theorem Screen.CursorInside.shows {sc : Screen} (h : sc.CursorInside) : sc.Shows sc.sheet := by
  have hshows : sc.Shows ⟨gridAt sc.mem video, ⟨⟨sc.screenX, h.x⟩, ⟨sc.screenY, h.y⟩⟩⟩ :=
    ⟨rfl, rfl, rfl, h.pos⟩
  exact hshows.shows_sheet

theorem typed_nil (h : k.Plain) (hc : k.screen.CursorInside) : Typed k [] k where
  plain := h
  cur := rfl
  idx := rfl
  keyBuf _ _ := rfl
  screen := ⟨0, k.screen.sheet, hc.shows, Or.inl rfl, window_ofSheet _ _⟩

theorem itemWith_glyph {c : UInt8} (h : isGlyph c = true) (at' : UInt8) :
    itemWith at' c = some (c, at') := by
  rw [itemWith, item, if_neg (isGlyph_iff.mp h)]
  rfl

/-- One more character. -/
theorem Typed.printable (h : Typed k chars k') (hlt : k'.keyBufIdx < keyBufMax - 1)
    (hp : Printable scancode) : ∃ key k'', press k' scancode = some k'' ∧
      Typed k (chars ++ [key]) k'' := by
  obtain ⟨key, hglyph, hpress⟩ := press_printable h.plain hlt hp
  obtain ⟨s, sh', hshows, hlast, hwindow⟩ := h.screen
  refine ⟨key, _, hpress, ⟨h.plain.ctrl, h.plain.alt, h.plain.state⟩, h.cur, ?_, fun j hj => ?_, ?_⟩
  · rw [List.length_append, ← Nat.add_assoc, ← h.idx]
    rfl
  · rw [List.length_append, List.length_singleton] at hj
    have hne : j ≠ k'.keyBufIdx := by
      rw [h.idx]
      omega
    exact (Function.update_of_ne hne ..).trans (h.keyBuf j (by omega))
  · have hscreen : (k'.typed key).screen = putc k.curTermId key k'.screen := by
      rw [← h.cur]
      rfl
    have hnext := hshows.putc k.curTermId key
    rw [itemWith_glyph hglyph, ← hscreen] at hnext
    refine ⟨s + sh'.cursor.shift true, _, hnext, ?_, ?_⟩
    · rw [cursor_print]
      exact Cursor.next_settled true hlast
    · have hprint := hwindow.print (some (key, attrib k.curTermId))
      rwa [Console.pageAfter, List.map_append, List.map_append, Layout.printAll_append]

/-- What has been typed follows the cursor. -/
theorem Console.pageAfter_eq (k : Console) (hc : k.screen.CursorInside) (chars : List UInt8) :
    (k.pageAfter chars).pos = k.cell + chars.length ∧
      ∀ i, i < k.cell ∨ k.cell + chars.length ≤ i →
        (k.pageAfter chars).cells i = k.page.cells i := by
  have hcell : k.page.pos = k.cell := by
    rw [Console.cell, hc.shows.x, hc.shows.y]
    rfl
  have hall := Layout.printAll_some numCols k.page
    (chars.map fun c => (c, attrib k.curTermId))
  rwa [List.length_map, hcell] at hall

/-- A code that adds and takes nothing. -/
theorem Typed.quiet (h : Typed k chars k') (hq : Quiet scancode) :
    ∃ k'', press k' scancode = some k'' ∧ Typed k chars k'' := by
  obtain ⟨scancodeState, hstate, hpress⟩ := press_quiet h.plain hq
  exact ⟨_, hpress, ⟨h.plain.ctrl, h.plain.alt, hstate⟩, h.cur, h.idx, h.keyBuf, h.screen⟩

/-- **Run lemma.** Typing. -/
theorem Typed.run {codes : List UInt8} (h : Typed k chars k')
    (hcodes : ∀ c ∈ codes, Printable c ∨ Quiet c)
    (hroom : k'.keyBufIdx + codes.countP (fun c => Printable c) ≤ keyBufMax - 1) :
    ∃ more k'', Transition.run press k' codes = some k'' ∧
      more.length = codes.countP (fun c => Printable c) ∧ Typed k (chars ++ more) k'' := by
  induction codes generalizing k' chars with
  | nil => exact ⟨[], k', rfl, rfl, by rwa [List.append_nil]⟩
  | cons c codes ih =>
    have hrest : ∀ c ∈ codes, Printable c ∨ Quiet c :=
      fun c hc => hcodes c (List.mem_cons_of_mem _ hc)
    rw [List.countP_cons] at hroom ⊢
    by_cases hp : Printable c
    · rw [if_pos (decide_eq_true hp)] at hroom ⊢
      obtain ⟨key, k₁, hpress, htyped⟩ := h.printable (by omega) hp
      have hidx : k₁.keyBufIdx = k'.keyBufIdx + 1 := by
        rw [htyped.idx, h.idx, List.length_append, List.length_singleton, Nat.add_assoc]
      obtain ⟨more, k'', hrun, hlen, hend⟩ := ih htyped hrest (by omega)
      refine ⟨key :: more, k'', (run_cons hpress).trans hrun, by rw [List.length_cons, hlen], ?_⟩
      rwa [List.append_assoc] at hend
    · rw [if_neg (by simpa using hp)] at hroom ⊢
      have hq := (hcodes c List.mem_cons_self).resolve_left hp
      obtain ⟨k₁, hpress, htyped⟩ := h.quiet hq
      have hidx : k₁.keyBufIdx = k'.keyBufIdx := by rw [htyped.idx, h.idx]
      obtain ⟨more, k'', hrun, hlen, hend⟩ := ih htyped hrest (by omega)
      exact ⟨more, k'', (run_cons hpress).trans hrun, hlen, hend⟩

/-! ### Erasing -/

/-- `k'` is `k` after `n` characters have been typed and `m` of them erased; `l` is the page after
the typing, and the screen shows it from line `s` on. -/
structure Erased (k : Console) (s : Nat) (l : Layout (UInt8 × UInt8)) (n m : Nat) (k' : Console) :
    Prop where
  plain : k'.Plain
  cur : k'.curTermId = k.curTermId
  idx : k'.keyBufIdx + m = k.keyBufIdx + n
  keyBuf : ∀ j, j < k.keyBufIdx ∨ k.keyBufIdx + n ≤ j → k'.keyBuf j = k.keyBuf j
  zeros : ∀ j, k'.keyBufIdx ≤ j → j < k.keyBufIdx + n → k'.keyBuf j = 0
  screen : ∃ sh', k'.screen.Shows sh' ∧ Window (32, attrib k.curTermId) s
    ((Layout.erase (32, attrib k.curTermId))^[m] l) sh'

variable {s : Nat} {l : Layout (UInt8 × UInt8)}

/-- One more Backspace. -/
theorem Erased.backspace (h : Erased k s l n m k') (hm : m < n) (hn : n ≤ l.pos)
    (htop : s * numCols ≤ l.pos - n) (hkey : decodeKey scancode = .backspace) :
    ∃ k'', press k' scancode = some k'' ∧ Erased k s l n (m + 1) k'' := by
  obtain ⟨sh', hshows, hwindow⟩ := h.screen
  have hidx := h.idx
  have hpos : 0 < k'.keyBufIdx := by omega
  refine ⟨_, press_backspace hkey, ?_⟩
  rw [Console.keyBackspace, if_pos hpos]
  refine ⟨⟨h.plain.ctrl, h.plain.alt, h.plain.state⟩, h.cur, ?_, fun j hj => ?_,
    fun j hlo hhi => ?_, ?_⟩
  · show k'.keyBufIdx - 1 + (m + 1) = _
    omega
  · exact (Function.update_of_ne (by omega) ..).trans (h.keyBuf j hj)
  · change k'.keyBufIdx - 1 ≤ j at hlo
    show Function.update k'.keyBuf (k'.keyBufIdx - 1) 0 j = 0
    by_cases hj : j = k'.keyBufIdx - 1
    · rw [hj, Function.update_self]
    · rw [Function.update_of_ne hj]
      exact h.zeros j (by omega) hhi
  · have hback := hshows.backspace k'.curTermId
    rw [h.cur] at hback
    refine ⟨_, by rw [h.cur]; exact hback, ?_⟩
    rw [Function.iterate_succ_apply']
    refine hwindow.erase ?_
    rw [Layout.erase_iterate _ l (by omega)]
    show s * numCols < l.pos - m
    omega

theorem Erased.quiet (h : Erased k s l n m k') (hq : Quiet scancode) :
    ∃ k'', press k' scancode = some k'' ∧ Erased k s l n m k'' := by
  obtain ⟨scancodeState, hstate, hpress⟩ := press_quiet h.plain hq
  exact ⟨_, hpress, ⟨h.plain.ctrl, h.plain.alt, hstate⟩, h.cur, h.idx, h.keyBuf, h.zeros,
    h.screen⟩

/-- **Run lemma.** Erasing. -/
theorem Erased.run {codes : List UInt8} (h : Erased k s l n m k') (hn : n ≤ l.pos)
    (htop : s * numCols ≤ l.pos - n)
    (hcodes : ∀ c ∈ codes, decodeKey c = .backspace ∨ Quiet c)
    (hcount : m + codes.countP (fun c => decodeKey c = .backspace) ≤ n) :
    ∃ k'', Transition.run press k' codes = some k'' ∧
      Erased k s l n (m + codes.countP fun c => decodeKey c = .backspace) k'' := by
  induction codes generalizing k' m with
  | nil => exact ⟨k', rfl, h⟩
  | cons c codes ih =>
    have hrest : ∀ c ∈ codes, decodeKey c = .backspace ∨ Quiet c :=
      fun c hc => hcodes c (List.mem_cons_of_mem _ hc)
    rw [List.countP_cons] at hcount ⊢
    by_cases hb : decodeKey c = .backspace
    · rw [if_pos (decide_eq_true hb)] at hcount ⊢
      obtain ⟨k₁, hpress, herased⟩ := h.backspace (by omega) hn htop hb
      obtain ⟨k'', hrun, hend⟩ := ih herased hrest (by omega)
      refine ⟨k'', (run_cons hpress).trans hrun, ?_⟩
      rwa [Nat.add_right_comm, Nat.add_assoc] at hend
    · rw [if_neg (by simpa using hb)] at hcount ⊢
      obtain ⟨k₁, hpress, herased⟩ := h.quiet ((hcodes c List.mem_cons_self).resolve_left hb)
      obtain ⟨k'', hrun, hend⟩ := ih herased hrest hcount
      exact ⟨k'', (run_cons hpress).trans hrun, hend⟩

/-! ### Typing and erasing -/

/-- What is shown after all that has been typed has been erased. -/
theorem Erased.screenRestored (hc : k.screen.CursorInside)
    (h : Erased k (k.rowsScrolled chars.length) (k.pageAfter chars) chars.length chars.length k') :
    ScreenRestored k chars.length k' := by
  obtain ⟨sh', hshows, hwindow⟩ := h.screen
  obtain ⟨hpos, hcells⟩ := k.pageAfter_eq hc chars
  rw [Layout.erase_iterate _ _ (by omega), hpos, Nat.add_sub_cancel] at hwindow
  have hlast : k.screen.screenY * numCols + k.screen.sheet.cursor.x.val =
      (sh'.cursor.y.val + k.rowsScrolled chars.length) * numCols + sh'.cursor.x.val := by
    rw [← hc.shows.x]
    exact hwindow.pos
  obtain ⟨hy, hx⟩ := cell_eq_iff.mp hlast
  refine ⟨?_, ?_, ?_, fun r x => ?_⟩
  · rw [hshows.x, ← hx, hc.shows.x]
  · rw [hshows.y, hy]
  · rw [hshows.pos, hshows.x, hshows.y, cellIndex]
  · rw [hshows.grid, hwindow.cells]
    by_cases hin : k.cell ≤ (r.val + k.rowsScrolled chars.length) * numCols + x.val ∧
        (r.val + k.rowsScrolled chars.length) * numCols + x.val < k.cell + chars.length
    · exact (if_pos hin).trans (if_pos hin).symm
    · refine (if_neg hin).trans (Eq.trans ?_ (if_neg hin).symm)
      rw [hcells _ (by omega)]
      exact Layout.cells_ofSheet _ k.screen.sheet _ x

/-- **Typing and erasing.** What has become of the console. -/
theorem type_erase {typing erasing : List UInt8} (h : k.Plain) (hc : k.screen.CursorInside)
    (htyping : ∀ c ∈ typing, Printable c ∨ Quiet c)
    (herasing : ∀ c ∈ erasing, decodeKey c = .backspace ∨ Quiet c)
    (hn : typing.countP (fun c => Printable c) = n)
    (hm : erasing.countP (fun c => decodeKey c = .backspace) = n)
    (hroom : k.keyBufIdx + n ≤ keyBufMax - 1) :
    ∃ k', Transition.run press k (typing ++ erasing) = some k' ∧ ScreenRestored k n k' ∧
      k'.keyBufIdx = k.keyBufIdx ∧
      ∀ j, k'.keyBuf j = if k.keyBufIdx ≤ j ∧ j < k.keyBufIdx + n then 0 else k.keyBuf j := by
  obtain ⟨chars, k₁, hrun₁, hlen, htyped⟩ := (typed_nil h hc).run htyping (by rwa [hn])
  rw [hn] at hlen
  subst hlen
  rw [List.nil_append] at htyped
  obtain ⟨s, sh₁, hshows, hlast, hwindow⟩ := htyped.screen
  obtain ⟨hpos, -⟩ := k.pageAfter_eq hc chars
  have hs : s = k.rowsScrolled chars.length := by
    rw [hwindow.offset_eq hlast, hpos]
    rfl
  subst hs
  have hstart : Erased k (k.rowsScrolled chars.length) (k.pageAfter chars) chars.length 0 k₁ :=
    ⟨htyped.plain, htyped.cur, htyped.idx, htyped.keyBuf, fun j hlo hhi => by
      have := htyped.idx
      omega, sh₁, hshows, hwindow⟩
  -- fewer characters than the screen has cells cannot make it scroll past the first of them
  have htop : k.rowsScrolled chars.length * numCols ≤ (k.pageAfter chars).pos - chars.length := by
    rw [hpos, Nat.add_sub_cancel]
    simp only [Console.rowsScrolled, numCols, numRows, keyBufMax] at hroom ⊢
    omega
  obtain ⟨k₂, hrun₂, herased⟩ := hstart.run (by omega) htop herasing (by omega)
  rw [hm, Nat.zero_add] at herased
  have hidx : k₂.keyBufIdx = k.keyBufIdx := Nat.add_right_cancel herased.idx
  refine ⟨k₂, ?_, herased.screenRestored hc, hidx, fun j => ?_⟩
  · rw [run_append, hrun₁]
    exact hrun₂
  · by_cases hj : k.keyBufIdx ≤ j ∧ j < k.keyBufIdx + chars.length
    · rw [if_pos hj]
      exact herased.zeros j (hidx ▸ hj.1) hj.2
    · rw [if_neg hj]
      exact herased.keyBuf j (by omega)

/-- Typing characters and erasing them restores the line buffer and the screen exactly if the bytes
where they come to lie have been zeros. -/
theorem restored_iff {typing erasing : List UInt8} (h : k.Plain) (hc : k.screen.CursorInside)
    (htyping : ∀ c ∈ typing, Printable c ∨ Quiet c)
    (herasing : ∀ c ∈ erasing, decodeKey c = .backspace ∨ Quiet c)
    (hn : typing.countP (fun c => Printable c) = n)
    (hm : erasing.countP (fun c => decodeKey c = .backspace) = n)
    (hroom : k.keyBufIdx + n ≤ keyBufMax - 1) :
    ∃ k', Transition.run press k (typing ++ erasing) = some k' ∧
      (Restored k n k' ↔ ∀ j, k.keyBufIdx ≤ j → j < k.keyBufIdx + n → k.keyBuf j = 0) := by
  obtain ⟨k', hrun, hscreen, hidx, hbytes⟩ := type_erase h hc htyping herasing hn hm hroom
  refine ⟨k', hrun, fun hrestored j hlo hhi => ?_, fun hzeros => ⟨hscreen, fun j _ => ?_, hidx⟩⟩
  · have hlt : j < keyBufMax := by
      simp only [keyBufMax] at hroom ⊢
      omega
    rw [← hrestored.keyBuf j hlt, hbytes, if_pos ⟨hlo, hhi⟩]
  · rw [hbytes]
    split
    · rename_i hj
      exact (hzeros j hj.1 hj.2).symm
    · rfl

/-- A terminal is displayed, and nothing has been typed yet. -/
def quietConsole : Console where
  term := fun _ => ⟨0, 0, 0, fun _ => 0, 0, false, true, 0xB9000⟩
  curTermId := some 0
  nowTermId := 0
  keyBuf := fun _ => 0
  keyBufIdx := 0
  screen := ⟨fun _ => 0, 78, 24, video, 1998⟩
  scancodeState := 0
  ctrlState := false
  altState := false

/-- At the end of the last line, three keys are typed and erased. -/
theorem restored_iff_sample : ∃ k', Transition.run press quietConsole
    [0x1E, 0x9E, 0x30, 0xB0, 0x2E, 0xAE, 0x0E, 0x8E, 0x0E, 0x8E, 0x0E] = some k' ∧
      Restored quietConsole 3 k' := by
  have hc : quietConsole.screen.CursorInside := ⟨by decide, by decide, by decide⟩
  have htyping : ∀ c ∈ ([0x1E, 0x9E, 0x30, 0xB0, 0x2E, 0xAE] : List UInt8),
      Printable c ∨ Quiet c := by decide +kernel
  have herasing : ∀ c ∈ ([0x0E, 0x8E, 0x0E, 0x8E, 0x0E] : List UInt8),
      decodeKey c = .backspace ∨ Quiet c := by decide +kernel
  obtain ⟨k', hrun, hiff⟩ := restored_iff ⟨rfl, rfl, by decide⟩ hc htyping herasing
    (show _ = 3 by decide +kernel) (by decide +kernel) (by decide)
  exact ⟨k', hrun, hiff.mpr fun _ _ _ => rfl⟩

/-- The shell of terminal 0 reads a line. A key comes while the buffer is cleared, when the byte
where it comes to lie has been cleared already. -/
def staleEvents : List Event :=
  launchEvents ++ [.read 0 0x8000000 128, .key 0x1E noStale, .key 0x1C noStale] ++
    List.replicate 8 .run ++ [.key 0x30 noStale] ++ List.replicate 126 .run

/-- Its character stays behind in a buffer that is empty, until another one is erased there. -/
theorem not_restored : ¬ ∀ img, Bootable img → ∀ s₀ s es,
    run (step img) (boot s₀) es = some s → s.con.curTermId ≠ none → s.con.screen.CursorInside →
      s.con.ctrlState = false → s.con.altState = false → ∀ n, s.con.keyBufIdx + n ≤ 127 →
        ∀ typing erasing : List UInt8, (∀ c ∈ typing, Printable c) →
          (∀ c ∈ erasing, decodeKey c = .backspace) → typing.length = n → erasing.length = n →
            ∃ k', Transition.run press s.con (typing ++ erasing) = some k' ∧
              Restored s.con n k' := by
  intro hrestores
  have hobs : (run (step sampleImage) (boot powerOn) staleEvents).map (fun s =>
      (decide (s.con.curTermId ≠ none ∧ s.con.screen.screenX < numCols ∧
        s.con.screen.screenY < numRows ∧
        s.con.screen.cursorPos = numCols * s.con.screen.screenY + s.con.screen.screenX ∧
        s.con.ctrlState = false ∧ s.con.altState = false ∧ s.con.keyBufIdx = 0 ∧
        s.con.keyBuf 2 = 98),
        (Transition.run press s.con [0x1E, 0x1E, 0x1E, 0x0E, 0x0E, 0x0E]).map
          fun k => k.keyBuf 2)) = some (true, some 0) := by decide +kernel
  obtain ⟨s, hs, hobs⟩ := Option.map_eq_some_iff.mp hobs
  obtain ⟨hstart, hend⟩ := Prod.mk.inj hobs
  obtain ⟨hcur, hx, hy, hpos, hctrl, halt, hidx, hstale⟩ := of_decide_eq_true hstart
  obtain ⟨k', hk', hrestored⟩ := hrestores sampleImage sampleImage_bootable powerOn s staleEvents hs
    hcur ⟨hx, hy, hpos⟩ hctrl halt 3 (by omega) [0x1E, 0x1E, 0x1E] [0x0E, 0x0E, 0x0E]
    (by decide +kernel) (by decide +kernel) rfl rfl
  change Transition.run press s.con [0x1E, 0x1E, 0x1E, 0x0E, 0x0E, 0x0E] = some k' at hk'
  rw [hk'] at hend
  have hzero : k'.keyBuf 2 = 0 := Option.some.inj hend
  have hkept : k'.keyBuf 2 = 98 := (hrestored.keyBuf 2 (by decide)).trans hstale
  rw [hzero] at hkept
  exact absurd hkept (by decide)

end LinuxLikeKernel
