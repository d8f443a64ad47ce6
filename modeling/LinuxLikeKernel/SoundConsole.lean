import LinuxLikeKernel.BackgroundOutput
import LinuxLikeKernel.ConsoleSteps

/-!
# Sound consoles

In every reachable state the saved cursors are inside the screen, the line buffers have not
overflowed, each terminal has its page, and once a terminal is displayed the visible screen is a
sheet of text with its cursor.

## Main definitions

- `Console.Sound` — the invariant

## Main results

- `sound_of_run` — it holds in every reachable state
-/

namespace LinuxLikeKernel
open ByteMemory TextSheet Transition Kernel

/-! ### The invariant -/

/-- The visible page with the cursor of the screen. -/
def Screen.sheet (sc : Screen) : Sheet numCols numRows (UInt8 × UInt8) :=
  ⟨gridAt sc.mem video, cursorAt sc.screenX sc.screenY⟩

/-- The record of terminal `t` has the terminal's page, a cursor inside the screen and a line
that fits. -/
structure Term.Sound (tm : Term) (t : TermId) : Prop where
  page : tm.videoMem = backingPage t
  cursorX : tm.cursorX < numCols
  cursorY : tm.cursorY < numRows
  idx : tm.keyBufIdx ≤ keyBufMax

structure Console.Sound (k : Console) : Prop where
  terms : ∀ t, (k.term t).Sound t
  idx : k.keyBufIdx ≤ keyBufMax
  shows : k.curTermId ≠ none → k.screen.Shows k.screen.sheet

/-! ### Screens -/

variable {sc : Screen} {k k' : Console} {t : TermId}

theorem Screen.Shows.sheet_eq {sh : Sheet numCols numRows (UInt8 × UInt8)} (h : sc.Shows sh) :
    sc.sheet = sh := by
  refine Sheet.ext h.grid (Cursor.ext (Fin.ext ?_) (Fin.ext ?_))
  · have hx := h.x
    have hlt := sh.cursor.x.isLt
    exact (Nat.mod_eq_of_lt (hx ▸ hlt)).trans hx
  · have hy := h.y
    have hlt := sh.cursor.y.isLt
    exact (Nat.mod_eq_of_lt (hy ▸ hlt)).trans hy

theorem Screen.Shows.shows_sheet {sh : Sheet numCols numRows (UInt8 × UInt8)} (h : sc.Shows sh) :
    sc.Shows sc.sheet := by
  rwa [h.sheet_eq]

/-- A screen shows a sheet if the cursor is inside and in its place on the device. -/
theorem shows_sheet (hx : sc.screenX < numCols) (hy : sc.screenY < numRows)
    (hpos : sc.cursorPos = (sc.screenY * numCols + sc.screenX) % 2 ^ 16) :
    sc.Shows sc.sheet := by
  have hx' := cursorAt_x sc.screenY hx
  have hy' := cursorAt_y sc.screenX hy
  refine ⟨rfl, hx', hy', hpos.trans ?_⟩
  rw [← cellIndex_mod]
  exact congrArg₂ (fun y x => (y * numCols + x) % 2 ^ 16) hy' hx'

/-- Wherever `set_screen_cursor` is told to go, it stays inside. -/
theorem shows_setScreenCursor (cur : Option TermId) (sc : Screen) (x y : Nat) :
    (setScreenCursor cur sc x y).Shows (setScreenCursor cur sc x y).sheet := by
  have hplace : ∀ x y, x < numCols →
      (placeCursor cur sc x y).Shows (placeCursor cur sc x y).sheet := by
    intro x y hx
    simp only [placeCursor]
    split
    · rename_i hy
      exact shows_sheet hx hy rfl
    · exact shows_sheet hx (show numRows - 1 < numRows by decide) rfl
  simp only [setScreenCursor, enter]
  split
  · rename_i hx
    exact hplace x y hx
  · exact hplace 0 _ (by decide)

theorem shows_enter_sheet (cur : Option TermId) (sc : Screen) :
    (enter cur sc).Shows (enter cur sc).sheet := by
  rw [← enter_eq]
  exact shows_setScreenCursor ..

/-- Stores leave the cursor where it is. -/
theorem Screen.Shows.setMem {sh : Sheet numCols numRows (UInt8 × UInt8)} (h : sc.Shows sh)
    (page : Nat) (m : Mem) :
    ({ sc with videoMem := page, mem := m } : Screen).Shows ⟨gridAt m video, sh.cursor⟩ :=
  ⟨rfl, h.x, h.y, h.pos⟩

theorem shows_backspace (cur : Option TermId) (h : sc.Shows sc.sheet) :
    (backspace cur sc).Shows (backspace cur sc).sheet := by
  simp only [backspace]
  split
  · exact h
  · split
    · exact ((shows_setScreenCursor ..).setMem _ _).shows_sheet
    · exact ((shows_setScreenCursor ..).setMem _ _).shows_sheet

/-! ### Operations -/

namespace Console.Sound

theorem of_eq (h : k.Sound) (hterm : k'.term = k.term) (hidx : k'.keyBufIdx ≤ keyBufMax)
    (hscreen : k'.curTermId ≠ none → k'.screen.Shows k'.screen.sheet) : k'.Sound :=
  ⟨fun t => hterm ▸ h.terms t, hidx, hscreen⟩

theorem terms_update (h : k.Sound) {tm : Term} (htm : tm.Sound t) (u : TermId) :
    (Function.update k.term t tm u).Sound u := by
  by_cases hu : u = t
  · subst hu
    rwa [Function.update_self]
  · rw [Function.update_of_ne hu]
    exact h.terms u

theorem setTerm (h : k.Sound) {tm : Term} (htm : tm.Sound t) : (k.setTerm t tm).Sound :=
  ⟨h.terms_update htm, h.idx, h.shows⟩

theorem setScreen (h : k.Sound) {sc : Screen} (hsc : sc.Shows sc.sheet) :
    (k.setScreen sc).Sound := h.of_eq rfl h.idx fun _ => hsc

theorem puts (h : k.Sound) (str : List UInt8) : (k.puts str).Sound :=
  h.of_eq rfl h.idx fun hcur => ((h.shows hcur).puts k.curTermId str).shows_sheet

theorem multiPuts (h : k.Sound) (str : List UInt8) : (k.multiPuts str).Sound := by
  have hnow := h.terms k.nowTermId
  rw [multiPuts_eq (cursorAt_x _ hnow.cursorX) (cursorAt_y _ hnow.cursorY)]
  refine ⟨h.terms_update ?_, h.idx, fun hcur => ((h.shows hcur).setMem _ _).shows_sheet⟩
  exact ⟨hnow.page, Fin.isLt _, Fin.isLt _, hnow.idx⟩

theorem bufClear (h : k.Sound) : k.bufClear.Sound := h.of_eq rfl (Nat.zero_le _) h.shows

theorem termSave (h : k.Sound) (hcur : k.curTermId ≠ none) (t : TermId) :
    (k.termSave t).Sound := by
  have hshows := h.shows hcur
  have hx : k.screen.screenX < numCols := hshows.x ▸ Fin.isLt _
  have hy : k.screen.screenY < numRows := hshows.y ▸ Fin.isLt _
  refine (h.setTerm ?_).setScreen (hshows.setMem _ _).shows_sheet
  exact ⟨(h.terms t).page, hx, hy, h.idx⟩

theorem termRestore (h : k.Sound) (t : TermId) : (k.termRestore t).Sound :=
  h.of_eq rfl (h.terms t).idx fun _ => ((shows_setScreenCursor ..).setMem _ _).shows_sheet

theorem termSwitch (h : k.Sound) (hk : k.termSwitch k.curTermId t = some k') : k'.Sound := by
  obtain ⟨d, hd, rfl⟩ := Option.map_eq_some_iff.mp hk
  exact (h.termSave (by simp [hd]) d).termRestore t

theorem launchTerm (h : k.Sound) (t : TermId) : (k.launchTerm t).Sound := by
  have hrestored : ∀ {k : Console}, k.Sound →
      ((k.termRestore t).setTerm t { (k.termRestore t).term t with running := true }).Sound := by
    intro k h
    have ht := (h.termRestore t).terms t
    exact (h.termRestore t).setTerm ⟨ht.page, ht.cursorX, ht.cursorY, ht.idx⟩
  simp only [Console.launchTerm]
  cases hcur : k.curTermId with
  | none => exact hrestored h
  | some d => exact hrestored (h.termSave (by simp [hcur]) d)

theorem readTurn (h : k.Sound) (length : Int) (phase : ReadPhase) :
    (k.termReadTurn length phase).con.Sound := by
  cases phase with
  | wait => exact h
  | woken =>
    have hnow := h.terms k.nowTermId
    exact h.setTerm ⟨hnow.page, hnow.cursorX, hnow.cursorY, hnow.idx⟩
  | copy i =>
    simp only [termReadTurn]
    split
    · exact h
    · exact h
  | clear j count =>
    simp only [termReadTurn]
    split
    · exact h.of_eq rfl h.idx h.shows
    · exact h.of_eq rfl (Nat.zero_le _) h.shows

theorem keyEnter (h : k.Sound) (hk : k.keyEnter = some k') : k'.Sound := by
  rw [Console.keyEnter] at hk
  split at hk
  · rename_i hlt
    obtain ⟨d, hd, rfl⟩ := Option.map_eq_some_iff.mp hk
    have ht := h.terms d
    have hline : ({ k with
        keyBuf := Function.update k.keyBuf k.keyBufIdx 10
        keyBufIdx := k.keyBufIdx + 1 } : Console).Sound := h.of_eq rfl hlt h.shows
    refine (hline.setTerm ?_).setScreen (shows_enter_sheet ..)
    exact ⟨ht.page, ht.cursorX, ht.cursorY, ht.idx⟩
  · rwa [← Option.some.inj hk]

theorem keyBackspace (h : k.Sound) : k.keyBackspace.Sound := by
  rw [Console.keyBackspace]
  split
  · exact h.of_eq rfl ((Nat.sub_le ..).trans h.idx) fun hcur => shows_backspace _ (h.shows hcur)
  · exact h

theorem char {key : UInt8} {ctrlC : Bool} (h : k.Sound) (hk : CharStep k key k' ctrlC) :
    k'.Sound := by
  cases hk with
  | clear => exact h.setScreen (shows_setScreenCursor ..)
  | ctrlC => exact h.bufClear
  | shortcut => exact h
  | typed hctrl hlt =>
    exact h.of_eq rfl (show k.keyBufIdx + 1 ≤ keyBufMax by omega)
      fun hcur => ((h.shows hcur).putc k.curTermId key).shows_sheet
  | full => exact h

theorem key {scancode : UInt8} {ctrlC : Bool} (h : k.Sound)
    (hk : k.keyboardInterruptHandler scancode = some (k', ctrlC)) : k'.Sound := by
  cases keyStep hk with
  | modifier => exact h.of_eq rfl h.idx h.shows
  | enter hkey henter => exact h.keyEnter henter
  | backspace => exact h.keyBackspace
  | switch hkey halt hswitch => exact h.termSwitch hswitch
  | fn => exact h
  | noChar => exact h
  | char hkey hchar hstep => exact h.char hstep

end Console.Sound

/-! ### Reachable states -/

theorem kept_sound : Kept Console.Sound where
  now _ h := h.of_eq rfl h.idx h.shows
  vidmem page h := h.of_eq rfl h.idx fun hcur => ((h.shows hcur).setMem page _).shows_sheet
  mem m h := h.of_eq rfl h.idx fun hcur => ((h.shows hcur).setMem _ m).shows_sheet
  puts str h := h.puts str
  multiPuts str h := h.multiPuts str
  curPcbId t _ h :=
    have ht := h.terms t
    h.setTerm ⟨ht.page, ht.cursorX, ht.cursorY, ht.idx⟩
  bufClear h := h.bufClear
  launchTerm t h := h.launchTerm t
  termSwitch _ h hk := h.termSwitch hk
  readTurn length phase h := h.readTurn length phase
  key h hk := h.key hk

theorem sound_boot (s : Kernel) : (boot s).con.Sound where
  terms t := ⟨rfl, show 0 < numCols by decide, show 0 < numRows by decide, Nat.zero_le _⟩
  idx := Nat.zero_le _
  shows h := absurd rfl h

/-- The consoles of reachable states are sound. -/
theorem sound_of_run {img : Image} {s₀ s : Kernel} {es : List Event}
    (h : run (step img) (boot s₀) es = some s) : s.con.Sound :=
  kept_sound.run (sound_boot s₀) h

end LinuxLikeKernel
