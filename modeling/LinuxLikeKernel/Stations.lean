import LinuxLikeKernel.Library.Multiplexer
import LinuxLikeKernel.LineBuffer
import LinuxLikeKernel.SoundConsole

/-!
# Terminals as stations

To its user a terminal is a sheet of text and a line that is being edited. The kernel keeps one
keyboard, one screen and one line buffer, and copies them to and fro when another terminal is
displayed. Here it is shown that this is a bank of stations: a key goes to the terminal that is
displayed, and a switch changes nothing but which one that is.

## Main definitions

- `Station`, `Station.act` — a terminal, and what a key does to it
- `Modifiers.input` — what a scan code asks for
- `Console.bank` — the terminals of a console

## Main results

- `bank_key` — the keyboard interrupt handler refines the step of a bank
- `keys_of_displayed` — a terminal depends on the keys pressed while it is displayed
-/

namespace LinuxLikeKernel
open ByteMemory TextSheet Transition Kernel Multiplexer

/-! ### Stations -/

/-- A terminal as its user knows it: the text with the cursor, and the line. -/
@[ext] structure Station where
  sheet : Sheet numCols numRows (UInt8 × UInt8)
  line : Line

/-- What a key asks of a terminal. -/
inductive Command
  | char (c : UInt8)
  | enter
  | backspace
  | clear

/-- What a command does to terminal `t`. The last byte of a line is kept for Enter. -/
def Station.act (t : TermId) : Command → Station → Station
  | .char c, x =>
    if x.line.idx < keyBufMax - 1 then
      ⟨x.sheet.print (32, attrib (some t)) (itemWith (attrib (some t)) c), x.line.typed c⟩
    else x
  | .enter, x =>
    if x.line.idx < keyBufMax then
      ⟨x.sheet.print (32, attrib (some t)) none, { x.line.typed 10 with enter := true }⟩
    else x
  | .backspace, x =>
    if 0 < x.line.idx then ⟨x.sheet.erase (32, attrib (some t)), x.line.erased⟩ else x
  | .clear, x => { x with sheet := x.sheet.wipe (32, attrib (some t)) }

/-! ### The keyboard -/

/-- The keys that are held, and caps lock. -/
structure Modifiers where
  scancodeState : UInt8
  ctrlState : Bool
  altState : Bool
  deriving DecidableEq

namespace Modifiers

def after (m : Modifiers) (scancode : UInt8) : Modifiers :=
  match decodeKey scancode with
  | .capsLock => { m with scancodeState := m.scancodeState ^^^ 2 }
  | .shift true => { m with scancodeState := m.scancodeState ||| 1 }
  | .shift false => { m with scancodeState := m.scancodeState &&& 0xFE }
  | .ctrl held => { m with ctrlState := held }
  | .alt held => { m with altState := held }
  | _ => m

def keyChar (m : Modifiers) (scancode : UInt8) : Option UInt8 :=
  if 59 ≤ scancode.toNat then none
  else
    let key := (scancodeMap.getD m.scancodeState.toNat []).getD scancode.toNat 0
    if key = 0 ∨ m.altState then none else some key

/-- What a scan code asks for, if anything. -/
def input (m : Modifiers) (scancode : UInt8) : Option (Input TermId Command) :=
  match decodeKey scancode with
  | .enter => some (.command .enter)
  | .backspace => some (.command .backspace)
  | .fn id => if m.altState then some (.select id) else none
  | .other => (m.keyChar scancode).bind fun key =>
    if m.ctrlState then if key = 108 ∨ key = 76 then some (.command .clear) else none
    else some (.command (.char key))
  | _ => none

/-- The scan code is that of Ctrl+C. -/
def ctrlC (m : Modifiers) (scancode : UInt8) : Bool :=
  decide (decodeKey scancode = .other) && m.ctrlState &&
    (m.keyChar scancode).any fun key => key == 99 || key == 67

/-- Only keys that ask for nothing change the modifiers. -/
theorem after_of_input {m : Modifiers} {scancode : UInt8} {x : Input TermId Command}
    (h : m.input scancode = some x) : m.after scancode = m := by
  simp only [input] at h
  simp only [after]
  split at h <;> simp_all

end Modifiers

def Console.modifiers (k : Console) : Modifiers := ⟨k.scancodeState, k.ctrlState, k.altState⟩

/-- What a sequence of scan codes asks for. -/
def inputs : Modifiers → List UInt8 → List (Input TermId Command)
  | _, [] => []
  | m, c :: cs => (m.input c).toList ++ inputs (m.after c) cs

/-- The keys pressed while terminal `a` is displayed, from a state that displays `d`: left out are
the switches, and the commands that other terminals are given. -/
def pressedAt (a : TermId) : TermId → Modifiers → List UInt8 → List UInt8
  | _, _, [] => []
  | d, m, c :: cs =>
    match m.input c with
    | none => c :: pressedAt a d (m.after c) cs
    | some (.command _) =>
      if d = a then c :: pressedAt a d (m.after c) cs else pressedAt a d (m.after c) cs
    | some (.select i) => pressedAt a i (m.after c) cs

/-- They ask for the commands that come while `a` is in front. -/
theorem inputs_pressedAt (a d : TermId) (m : Modifiers) (cs : List UInt8) :
    inputs m (pressedAt a d m cs) = (commandsAt a d (inputs m cs)).map .command := by
  induction cs generalizing d m with
  | nil => rfl
  | cons c cs ih =>
    simp only [pressedAt, inputs]
    cases h : m.input c with
    | none =>
      simp only [inputs, h, Option.toList_none, List.nil_append]
      exact ih ..
    | some x =>
      have hafter := Modifiers.after_of_input h
      cases x with
      | command x =>
        simp only [Option.toList_some, List.singleton_append, commandsAt]
        split
        · simp only [inputs, h, Option.toList_some, List.singleton_append, List.map_cons, ih]
        · rw [hafter]
          exact ih ..
      | select i =>
        simp only [Option.toList_some, List.singleton_append, commandsAt, hafter]
        exact ih ..

/-! ### The terminals of a console -/

namespace Console

/-- What the record of a terminal keeps of its text. -/
def savedSheet (k : Console) (t : TermId) : Sheet numCols numRows (UInt8 × UInt8) :=
  ⟨gridAt k.screen.mem (k.term t).videoMem, k.backCursor t⟩

def sheet (k : Console) (t : TermId) : Sheet numCols numRows (UInt8 × UInt8) :=
  if k.curTermId = some t then k.screen.sheet else k.savedSheet t

def station (k : Console) (t : TermId) : Station := ⟨k.sheet t, { k.line t with shown := true }⟩

/-- The terminals, with `d` in front. -/
def bank (k : Console) (d : TermId) : Bank TermId Station := ⟨d, k.station⟩

variable {k k' : Console} {d t : TermId}

theorem station_of_shown (h : k.curTermId = some t) :
    k.station t = ⟨k.screen.sheet, k.line t⟩ := by
  refine Station.ext (if_pos h) ?_
  rw [station, line_of_shown h]

/-- A terminal that is not displayed is a matter of its record and its page. -/
theorem station_congr (ht : k.curTermId ≠ some t) (hcur : k'.curTermId = k.curTermId)
    (hterm : k'.term t = k.term t)
    (hgrid : gridAt k'.screen.mem (k.term t).videoMem = gridAt k.screen.mem (k.term t).videoMem) :
    k'.station t = k.station t := by
  have ht' : k'.curTermId ≠ some t := hcur ▸ ht
  refine Station.ext ?_ ?_
  · simp only [station, sheet, if_neg ht, if_neg ht', savedSheet, backCursor, hterm, hgrid]
  · simp only [station, line_congr hcur hterm fun h => absurd h ht]

/-- A command changes the terminal that is displayed. -/
theorem bank_command {c : Command} (hd : k.curTermId = some d) (hcur : k'.curTermId = k.curTermId)
    (hother : ∀ t, t ≠ d → k'.term t = k.term t ∧
      gridAt k'.screen.mem (k.term t).videoMem = gridAt k.screen.mem (k.term t).videoMem)
    (hself : k'.station d = Station.act d c (k.station d)) :
    k'.bank d = (k.bank d).step Station.act (.command c) := by
  refine Bank.ext rfl (funext fun t => ?_)
  simp only [bank, Bank.step]
  by_cases ht : t = d
  · subst ht
    rw [Function.update_self, hself]
  · obtain ⟨hterm, hgrid⟩ := hother t ht
    rw [Function.update_of_ne ht]
    refine station_congr (fun h => ht ?_) hcur hterm hgrid
    exact Option.some.inj (h.symm.trans hd)

/-! ### Switches -/

variable (h : k.Sound)
include h

/-- After `term_save` every record is up to date. -/
theorem savedSheet_termSave (hd : k.curTermId = some d) (t : TermId) :
    (k.termSave d).savedSheet t = k.sheet t := by
  have hpage := (h.terms d).page
  by_cases ht : t = d
  · subst ht
    have hterm : (k.termSave t).term t = { k.term t with
        keyBuf := copyKeyBuf k.keyBuf (k.term t).keyBuf
        keyBufIdx := k.keyBufIdx
        cursorX := k.screen.screenX
        cursorY := k.screen.screenY } := Function.update_self ..
    rw [sheet, if_pos hd, savedSheet, backCursor, hterm]
    exact Sheet.ext (gridAt_copy ..) rfl
  · have hterm : (k.termSave d).term t = k.term t := Function.update_of_ne ht ..
    have hne : k.curTermId ≠ some t := by
      rw [hd]
      exact fun he => ht (Option.some.inj he).symm
    rw [sheet, if_neg hne, savedSheet, savedSheet, backCursor, backCursor, hterm, (h.terms t).page]
    refine Sheet.ext ?_ rfl
    simp only [termSave, setScreen, hpage]
    exact gridAt_copy_of_apart (apart_backingPage (Ne.symm ht))

/-- `term_restore` displays what is in the record, and keeps the others. -/
theorem sheet_termRestore (d t : TermId) : (k.termRestore d).sheet t = k.savedSheet t := by
  have hterm := h.terms d
  by_cases ht : t = d
  · subst ht
    have hscreen : (k.termRestore t).screen.Shows (k.savedSheet t) := by
      have hx := cursorAt_x (k.term t).cursorY hterm.cursorX
      have hy := cursorAt_y (k.term t).cursorX hterm.cursorY
      have hset := setScreenCursor_eq k.curTermId k.screen (k.backCursor t)
      simp only [backCursor, ← hx, ← hy] at hset
      simp only [termRestore, hset]
      exact ⟨gridAt_copy .., hx, hy, rfl⟩
    exact (if_pos rfl).trans hscreen.sheet_eq
  · have hne : (k.termRestore d).curTermId ≠ some t := fun he => ht (Option.some.inj he).symm
    rw [sheet, if_neg hne, savedSheet, savedSheet]
    refine Sheet.ext ?_ rfl
    change gridAt (copy _ video _ pageBytes) (k.term t).videoMem = _
    rw [(h.terms t).page, gridAt_copy_of_apart (apart_video t)]
    exact gridAt_setScreenCursor _ _ _ _ (apart_video t)

/-- A switch changes nothing but which terminal is displayed. -/
theorem bank_termSwitch (hd : k.curTermId = some d)
    (hk : k.termSwitch k.curTermId t = some k') :
    k'.bank t = (k.bank d).step Station.act (.select t) := by
  refine Bank.ext rfl (funext fun u => ?_)
  have hline := line_termSwitch hk u
  have hsheet : k'.sheet u = k.sheet u := by
    rw [hd] at hk
    obtain rfl := Option.some.inj hk
    rw [sheet_termRestore (h.termSave (by simp [hd]) d), savedSheet_termSave h hd]
  simp only [bank, Bank.step, station, hline, hsheet]

/-! ### Keys -/

theorem bank_keyEnter (hd : k.curTermId = some d) (hk : k.keyEnter = some k') :
    k'.curTermId = k.curTermId ∧
      k'.bank d = (k.bank d).step Station.act (.command .enter) := by
  have hscreen := h.shows (by simp [hd])
  by_cases hlt : k.keyBufIdx < keyBufMax
  · have hline := line_keyEnter_of_shown hk hlt hd
    rw [keyEnter, if_pos hlt] at hk
    obtain ⟨cur, hcur, rfl⟩ := Option.map_eq_some_iff.mp hk
    obtain rfl : cur = d := Option.some.inj (hcur.symm.trans hd)
    refine ⟨rfl, bank_command hd rfl (fun t ht => ⟨Function.update_of_ne ht .., ?_⟩) ?_⟩
    · rw [(h.terms t).page]
      exact gridAt_enter _ _ (apart_video t)
    · rw [station_of_shown hd, station_of_shown (by exact hd), hline, Station.act]
      refine Eq.trans ?_ (if_pos (by rwa [line_of_shown hd])).symm
      exact Station.ext (hscreen.enter (some cur)).sheet_eq rfl
  · rw [keyEnter, if_neg hlt] at hk
    obtain rfl := Option.some.inj hk
    refine ⟨rfl, bank_command hd rfl (fun t _ => ⟨rfl, rfl⟩) ?_⟩
    rw [station_of_shown hd, Station.act]
    exact (if_neg (by rwa [line_of_shown hd])).symm

theorem bank_keyBackspace (hd : k.curTermId = some d) : k.keyBackspace.curTermId = k.curTermId ∧
    k.keyBackspace.bank d = (k.bank d).step Station.act (.command .backspace) := by
  have hscreen := h.shows (by simp [hd])
  by_cases hpos : 0 < k.keyBufIdx
  · have hline := line_keyBackspace_of_shown hpos h.idx hd
    have hcur : k.keyBackspace.curTermId = k.curTermId := by rw [keyBackspace, if_pos hpos]
    refine ⟨hcur, bank_command hd hcur (fun t _ => ?_) ?_⟩
    · rw [keyBackspace, if_pos hpos, (h.terms t).page]
      exact ⟨rfl, gridAt_backspace hscreen _ (apart_video t)⟩
    · rw [station_of_shown hd, station_of_shown (hcur.trans hd), hline, Station.act]
      refine Eq.trans ?_ (if_pos (by rwa [line_of_shown hd])).symm
      refine Station.ext ?_ rfl
      rw [keyBackspace, if_pos hpos, hd]
      exact (hscreen.backspace (some d)).sheet_eq
  · have hk : k.keyBackspace = k := by rw [keyBackspace, if_neg hpos]
    refine ⟨congrArg curTermId hk, bank_command hd (congrArg curTermId hk) (fun t _ => ?_) ?_⟩
    · rw [hk]
      exact ⟨rfl, rfl⟩
    · rw [hk, station_of_shown hd, Station.act]
      exact (if_neg (by rwa [line_of_shown hd])).symm

/-- A character, where the line has room for it. -/
theorem bank_typed (hd : k.curTermId = some d) (hlt : k.keyBufIdx < keyBufMax - 1) (key : UInt8) :
    ({ k with
        keyBuf := Function.update k.keyBuf k.keyBufIdx key
        keyBufIdx := k.keyBufIdx + 1
        screen := putc k.curTermId key k.screen } : Console).bank d =
      (k.bank d).step Station.act (.command (.char key)) := by
  have hscreen := h.shows (by simp [hd])
  refine bank_command hd rfl (fun t _ => ⟨rfl, ?_⟩) ?_
  · rw [(h.terms t).page]
    exact gridAt_putc hscreen _ key (apart_video t)
  · rw [station_of_shown hd, station_of_shown (by exact hd),
      line_typed_of_shown (show _ < keyBufMax by omega) hd, Station.act]
    refine Eq.trans ?_ (if_pos (by rwa [line_of_shown hd])).symm
    refine Station.ext ?_ rfl
    rw [← hd]
    exact (hscreen.putc k.curTermId key).sheet_eq

omit h in
/-- A character, where the line has no room for it. -/
theorem bank_full (hd : k.curTermId = some d) (hfull : ¬ k.keyBufIdx < keyBufMax - 1)
    (key : UInt8) : k.bank d = (k.bank d).step Station.act (.command (.char key)) := by
  refine bank_command hd rfl (fun t _ => ⟨rfl, rfl⟩) ?_
  rw [station_of_shown hd, Station.act]
  exact (if_neg (by rwa [line_of_shown hd])).symm

/-- Ctrl+L. -/
theorem bank_clear (hd : k.curTermId = some d) :
    (k.setScreen (setScreenCursor k.curTermId (clear k.curTermId k.screen) 0 0)).bank d =
      (k.bank d).step Station.act (.command .clear) := by
  refine bank_command hd rfl (fun t _ => ⟨rfl, ?_⟩) ?_
  · rw [(h.terms t).page]
    exact (gridAt_setScreenCursor _ _ _ _ (apart_video t)).trans (gridAt_clear _ _ (apart_video t))
  · have hline :
        (k.setScreen (setScreenCursor k.curTermId (clear k.curTermId k.screen) 0 0)).line d =
          k.line d := line_congr rfl rfl fun _ => ⟨rfl, rfl⟩
    rw [station_of_shown hd, station_of_shown (by exact hd), hline, Station.act]
    refine Station.ext ?_ rfl
    rw [← hd]
    exact (shows_clear k.curTermId k.screen k.screen.sheet).sheet_eq

omit h in
theorem modifiers_keyEnter (hk : k.keyEnter = some k') : k'.modifiers = k.modifiers := by
  rw [keyEnter] at hk
  split at hk
  · obtain ⟨d, -, rfl⟩ := Option.map_eq_some_iff.mp hk
    rfl
  · rw [Option.some.inj hk]

omit h in
theorem modifiers_keyBackspace (k : Console) : k.keyBackspace.modifiers = k.modifiers := by
  rw [keyBackspace]
  split <;> rfl

/-- What a key does to a console that displays `d`. -/
structure KeyDone (k : Console) (d : TermId) (scancode : UInt8) (k' : Console) : Prop where
  modifiers : k'.modifiers = k.modifiers.after scancode
  bank : ∃ d', k'.curTermId = some d' ∧
    k'.bank d' = (k.bank d).run Station.act (k.modifiers.input scancode).toList

omit h in
theorem KeyDone.nothing {scancode : UInt8} (hd : k.curTermId = some d)
    (hinput : k.modifiers.input scancode = none)
    (hmodifiers : k'.modifiers = k.modifiers.after scancode)
    (hcur : k'.curTermId = k.curTermId) (hbank : k'.bank d = k.bank d) :
    KeyDone k d scancode k' := by
  refine ⟨hmodifiers, d, hcur.trans hd, ?_⟩
  rw [hinput]
  exact hbank

omit h in
theorem KeyDone.command {scancode : UInt8} {c : Command} (hd : k.curTermId = some d)
    (hinput : k.modifiers.input scancode = some (.command c))
    (hmodifiers : k'.modifiers = k.modifiers)
    (hcur : k'.curTermId = k.curTermId)
    (hbank : k'.bank d = (k.bank d).step Station.act (.command c)) :
    KeyDone k d scancode k' := by
  refine ⟨?_, d, hcur.trans hd, ?_⟩
  · rw [Modifiers.after_of_input hinput, hmodifiers]
  · rw [hinput]
    exact hbank

/-- A character. -/
theorem char_done {scancode key : UInt8} {ctrlC : Bool} (hd : k.curTermId = some d)
    (hkey : decodeKey scancode = .other) (hchar : k.keyChar scancode = some key)
    (hk : CharStep k key k' ctrlC) :
    ctrlC = k.modifiers.ctrlC scancode ∧
      (k.modifiers.ctrlC scancode = false → KeyDone k d scancode k') := by
  have hchar' : k.modifiers.keyChar scancode = some key := hchar
  have hafter : k.modifiers.after scancode = k.modifiers := by
    simp only [Modifiers.after, hkey]
  have hinput : k.modifiers.input scancode = if k.ctrlState = true then
      if key = 108 ∨ key = 76 then some (.command .clear) else none
    else some (.command (.char key)) := by
    simp only [Modifiers.input, hkey, hchar', Option.bind_some]
    rfl
  have hctrlC : k.modifiers.ctrlC scancode = (k.ctrlState && (key == 99 || key == 67)) := by
    simp only [Modifiers.ctrlC, hkey, hchar', decide_true, Bool.true_and, Option.any_some]
    rfl
  cases hk with
  | clear hctrl hl =>
    rw [if_pos hctrl, if_pos hl] at hinput
    refine ⟨?_, fun _ => .command hd hinput rfl rfl (bank_clear h hd)⟩
    rw [hctrlC, hctrl]
    obtain rfl | rfl := hl
    · rfl
    · rfl
  | ctrlC hctrl hc =>
    have htrue : k.modifiers.ctrlC scancode = true := by
      rw [hctrlC, hctrl]
      simpa using hc
    refine ⟨htrue.symm, fun hfalse => ?_⟩
    rw [htrue] at hfalse
    cases hfalse
  | shortcut hctrl hl hc =>
    rw [if_pos hctrl, if_neg hl] at hinput
    refine ⟨?_, fun _ => .nothing hd hinput hafter.symm rfl rfl⟩
    rw [hctrlC, hctrl]
    simpa [not_or] using hc
  | typed hctrl hlt =>
    rw [if_neg (Bool.eq_false_iff.mp hctrl)] at hinput
    refine ⟨?_, fun _ => .command hd hinput rfl rfl (bank_typed h hd hlt key)⟩
    rw [hctrlC, hctrl, Bool.false_and]
  | full hctrl hfull =>
    rw [if_neg (Bool.eq_false_iff.mp hctrl)] at hinput
    refine ⟨?_, fun _ => .command hd hinput rfl rfl (bank_full hd hfull key)⟩
    rw [hctrlC, hctrl, Bool.false_and]

/-- **Refinement.** With a terminal displayed the handler always gets through, and unless it was
Ctrl+C the terminals take the step of a bank. -/
theorem bank_key (hd : k.curTermId = some d) (scancode : UInt8) : ∃ k',
    k.keyboardInterruptHandler scancode = some (k', k.modifiers.ctrlC scancode) ∧
      (k.modifiers.ctrlC scancode = false → KeyDone k d scancode k') := by
  have hctrlC : decodeKey scancode ≠ .other → k.modifiers.ctrlC scancode = false := by
    intro hkey
    simp only [Modifiers.ctrlC, hkey, decide_false, Bool.false_and]
  simp only [keyboardInterruptHandler]
  -- modifiers are nothing to the bank; any other key that does something is one command
  cases hkey : decodeKey scancode with
  | capsLock =>
    rw [hctrlC (by rw [hkey]; decide)]
    exact ⟨_, rfl, fun _ => .nothing hd (by simp only [Modifiers.input, hkey])
      (by simp only [Modifiers.after, hkey]; rfl) rfl rfl⟩
  | shift held =>
    rw [hctrlC (by rw [hkey]; simp)]
    cases held with
    | true =>
      exact ⟨_, rfl, fun _ => .nothing hd (by simp only [Modifiers.input, hkey])
        (by simp only [Modifiers.after, hkey]; rfl) rfl rfl⟩
    | false =>
      exact ⟨_, rfl, fun _ => .nothing hd (by simp only [Modifiers.input, hkey])
        (by simp only [Modifiers.after, hkey]; rfl) rfl rfl⟩
  | ctrl held =>
    rw [hctrlC (by rw [hkey]; simp)]
    exact ⟨_, rfl, fun _ => .nothing hd (by simp only [Modifiers.input, hkey])
      (by simp only [Modifiers.after, hkey]; rfl) rfl rfl⟩
  | alt held =>
    rw [hctrlC (by rw [hkey]; simp)]
    exact ⟨_, rfl, fun _ => .nothing hd (by simp only [Modifiers.input, hkey])
      (by simp only [Modifiers.after, hkey]; rfl) rfl rfl⟩
  | enter =>
    rw [hctrlC (by rw [hkey]; decide)]
    obtain ⟨k', hk⟩ : ∃ k', k.keyEnter = some k' := by
      rw [keyEnter, hd]
      split
      · exact ⟨_, rfl⟩
      · exact ⟨_, rfl⟩
    obtain ⟨hcur, hbank⟩ := bank_keyEnter h hd hk
    exact ⟨k', by simp only [hk, Option.map_some], fun _ => .command hd
      (by simp only [Modifiers.input, hkey]) (modifiers_keyEnter hk) hcur hbank⟩
  | backspace =>
    rw [hctrlC (by rw [hkey]; decide)]
    obtain ⟨hcur, hbank⟩ := bank_keyBackspace h hd
    exact ⟨_, rfl, fun _ => .command hd (by simp only [Modifiers.input, hkey])
      (modifiers_keyBackspace k) hcur hbank⟩
  | fn t =>
    rw [hctrlC (by rw [hkey]; simp)]
    have hafter : k.modifiers.after scancode = k.modifiers := by
      simp only [Modifiers.after, hkey]
    by_cases halt : k.altState = true
    · have hinput : k.modifiers.input scancode = some (.select t) := by
        simp only [Modifiers.input, hkey]
        exact if_pos halt
      have hk : k.termSwitch k.curTermId t = some ((k.termSave d).termRestore t) := by
        rw [hd]
        rfl
      refine ⟨(k.termSave d).termRestore t, (if_pos halt).trans (by rw [hk]; rfl),
        fun _ => ⟨hafter.symm, t, rfl, ?_⟩⟩
      rw [hinput]
      exact bank_termSwitch h hd hk
    · refine ⟨k, if_neg halt, fun _ => .nothing hd ?_ hafter.symm rfl rfl⟩
      simp only [Modifiers.input, hkey]
      exact if_neg halt
  | other =>
    cases hchar : k.keyChar scancode with
    | none =>
      have hchar' : k.modifiers.keyChar scancode = none := hchar
      have hfalse : k.modifiers.ctrlC scancode = false := by
        simp only [Modifiers.ctrlC, hchar', Option.any_none, Bool.and_false]
      rw [hfalse]
      exact ⟨k, rfl, fun _ => .nothing hd (by simp only [Modifiers.input, hkey, hchar']; rfl)
        (by simp only [Modifiers.after, hkey]) rfl rfl⟩
    | some key =>
      obtain ⟨hflag, hdone⟩ := char_done h hd hkey hchar (charStep k key)
      exact ⟨_, by rw [← hflag], hdone⟩

end Console

/-! ### Sequences of keys -/

/-- No key of the sequence is Ctrl+C, which ends a process. -/
def noCtrlC : Modifiers → List UInt8 → Bool
  | _, [] => true
  | m, c :: cs => !m.ctrlC c && noCtrlC (m.after c) cs

theorem noCtrlC_cons {m : Modifiers} {c : UInt8} {cs : List UInt8} :
    noCtrlC m (c :: cs) = true ↔ m.ctrlC c = false ∧ noCtrlC (m.after c) cs = true := by
  simp [noCtrlC]

theorem noCtrlC_pressedAt (a d : TermId) {m : Modifiers} {cs : List UInt8}
    (h : noCtrlC m cs = true) : noCtrlC m (pressedAt a d m cs) = true := by
  induction cs generalizing d m with
  | nil => rfl
  | cons c cs ih =>
    obtain ⟨hc, hcs⟩ := noCtrlC_cons.mp h
    simp only [pressedAt]
    cases hinput : m.input c with
    | none => exact noCtrlC_cons.mpr ⟨hc, ih d hcs⟩
    | some x =>
      -- a key that is left out has not changed the modifiers
      have hafter := Modifiers.after_of_input hinput
      cases x with
      | command x =>
        dsimp only
        split
        · exact noCtrlC_cons.mpr ⟨hc, ih d hcs⟩
        · have hrest := ih d hcs
          rwa [hafter] at hrest ⊢
      | select i =>
        have hrest := ih i hcs
        rwa [hafter] at hrest ⊢

def keyEvents (stale : Stale) (cs : List UInt8) : List Event := cs.map fun c => .key c stale

variable {img : Image} {s s' : Kernel} {stale : Stale} {cs : List UInt8} {a d : TermId}

/-- **Run lemma.** The terminals go through the run of a bank. -/
theorem bank_run (h : s.con.Sound) (hd : s.con.curTermId = some d) (hi : s.Interruptible)
    (hkeys : noCtrlC s.con.modifiers cs = true) : ∃ m d',
      run (step img) s (keyEvents stale cs) = some m ∧ m.con.Sound ∧
      m.con.curTermId = some d' ∧
      m.con.bank d' = (s.con.bank d).run Station.act (inputs s.con.modifiers cs) := by
  induction cs generalizing s d with
  | nil => exact ⟨s, d, rfl, h, hd, rfl⟩
  | cons c cs ih =>
    obtain ⟨hc, hcs⟩ := noCtrlC_cons.mp hkeys
    obtain ⟨k, hk, hdone⟩ := Console.bank_key h hd c
    obtain ⟨hmodifiers, d₁, hd₁, hbank⟩ := hdone hc
    have hstep : step img s (.key c stale) = some (s.setCon k) := by
      have hint : s.keyboardInterrupt img c stale = some (s.setCon k) := by
        simp only [keyboardInterrupt, hk, hc, Option.bind_some, Bool.false_eq_true, if_false]
      cases hcpu : s.cpu with
      | user => simpa only [step, hcpu] using hint
      | kernel sp => simpa only [step, hcpu] using hint
      | fault sp => exact absurd hcpu (hi sp)
    have hsound : (s.setCon k).con.Sound := h.key hk
    rw [← hmodifiers] at hcs
    obtain ⟨m, d', hrun, hm, hd', hend⟩ := ih (s := s.setCon k) hsound hd₁ hi hcs
    refine ⟨m, d', (run_cons hstep).trans hrun, hm, hd', hend.trans ?_⟩
    change (k.bank d₁).run Station.act (inputs k.modifiers cs) = _
    rw [hbank, hmodifiers]
    simp only [inputs, Bank.run, List.foldl_append]

/-- The two consoles show the user of terminal `a` the same screen and cursor, and have the same
line for it. -/
structure SameAt (k k' : Console) (a : TermId) : Prop where
  screen : ∀ j < pageBytes, k.screen.mem (video + j) = k'.screen.mem (video + j)
  x : k.screen.screenX = k'.screen.screenX
  y : k.screen.screenY = k'.screen.screenY
  pos : k.screen.cursorPos = k'.screen.cursorPos
  keyBuf : ∀ j < keyBufMax, k.keyBuf j = k'.keyBuf j
  keyBufIdx : k.keyBufIdx = k'.keyBufIdx
  enterState : (k.term a).enterState = (k'.term a).enterState

theorem sameAt_of_station {k k' : Console} (h : k.Sound) (h' : k'.Sound)
    (ha : k.curTermId = some a) (ha' : k'.curTermId = some a) (heq : k.station a = k'.station a) :
    SameAt k k' a := by
  rw [Console.station_of_shown ha, Console.station_of_shown ha', Console.line_of_shown ha,
    Console.line_of_shown ha'] at heq
  obtain ⟨hsheet, hline⟩ := Station.mk.inj heq
  obtain ⟨-, hbuf, hidx, henter⟩ := Line.mk.inj hline
  have hshows := h.shows (by simp [ha])
  have hshows' := h'.shows (by simp [ha'])
  rw [← hsheet] at hshows'
  refine ⟨gridAt_eq_iff.mp (hshows.grid.trans hshows'.grid.symm), hshows.x.trans hshows'.x.symm,
    hshows.y.trans hshows'.y.symm, hshows.pos.trans hshows'.pos.symm, fun j hj => ?_, hidx, henter⟩
  have hbyte := congrFun hbuf j
  rwa [lineBytes_of_lt hj, lineBytes_of_lt hj] at hbyte

/-- What the user of terminal `a` finds after any sequence of keys and switches that starts and
ends with `a` displayed is what the keys pressed while `a` was displayed lead to. Where these ask
for nothing it is what was there before. -/
theorem keys_of_displayed {s₀ : Kernel} {es : List Event}
    (hreach : run (step img) (boot s₀) es = some s) (ha : s.con.curTermId = some a)
    (hkeys : noCtrlC s.con.modifiers cs = true)
    (hrun : run (step img) s (keyEvents stale cs) = some s') (ha' : s'.con.curTermId = some a) :
    (∃ s₂, run (step img) s (keyEvents stale (pressedAt a a s.con.modifiers cs)) = some s₂ ∧
      s₂.con.curTermId = some a ∧ SameAt s'.con s₂.con a) ∧
    (commandsAt a a (inputs s.con.modifiers cs) = [] → SameAt s'.con s.con a) := by
  have hsound := sound_of_run hreach
  cases cs with
  | nil =>
    obtain rfl := Option.some.inj hrun
    have hself : SameAt s.con s.con a := sameAt_of_station hsound hsound ha ha rfl
    exact ⟨⟨s, rfl, ha, hself⟩, fun _ => hself⟩
  | cons c cs =>
    have hi : s.Interruptible := by
      intro sp hcpu
      obtain ⟨m, hm, -⟩ := run_cons_eq_some.mp hrun
      simp [step, hcpu] at hm
    obtain ⟨m, d', hm, hsound', hd', hbank⟩ := bank_run hsound ha hi hkeys
    obtain rfl := Option.some.inj (hm.symm.trans hrun)
    obtain rfl := Option.some.inj (hd'.symm.trans ha')
    have hstation := (congrArg (fun b : Bank TermId Station => b.station d') hbank).trans
      (station_run ..)
    constructor
    · obtain ⟨s₂, d₂, hs₂, hsound₂, hd₂, hbank₂⟩ :=
        bank_run hsound ha hi (noCtrlC_pressedAt d' d' hkeys)
      rw [inputs_pressedAt] at hbank₂
      obtain rfl : d₂ = d' :=
        (congrArg Bank.front hbank₂).trans (front_run_commands ..)
      have hstation₂ := (congrArg (fun b : Bank TermId Station => b.station d₂) hbank₂).trans
        (station_run ..)
      refine ⟨s₂, hs₂, hd₂, sameAt_of_station hsound' hsound₂ ha' hd₂ (hstation.trans ?_)⟩
      refine Eq.trans ?_ hstation₂.symm
      exact congrArg (List.foldl _ _) (commandsAt_commands ..).symm
    · intro hnone
      refine sameAt_of_station hsound' hsound ha' ha (hstation.trans ?_)
      change List.foldl _ _ (commandsAt d' d' (inputs s.con.modifiers (c :: cs))) = _
      rw [hnone]
      rfl

/-- `h` at terminal 0, `x` at terminal 1, and Enter at terminal 0 again. -/
def visitKeys : List UInt8 := [0x23, 0x38, 0x3C, 0xB8, 0x2D, 0x38, 0x3B, 0xB8, 0x1C]

theorem keys_of_displayed_sample : ∃ s s' s₂,
    run (step sampleImage) (boot powerOn) [.tick noStale, .tick noStale, .tick noStale] = some s ∧
    run (step sampleImage) s (keyEvents noStale visitKeys) = some s' ∧
    run (step sampleImage) s (keyEvents noStale (pressedAt 0 0 s.con.modifiers visitKeys)) =
      some s₂ ∧ SameAt s'.con s₂.con 0 := by
  have hobs : (run (step sampleImage) (boot powerOn)
      [.tick noStale, .tick noStale, .tick noStale]).map (fun s =>
      (s.con.curTermId, noCtrlC s.con.modifiers visitKeys,
        (run (step sampleImage) s (keyEvents noStale visitKeys)).map (·.con.curTermId))) =
      some (some 0, true, some (some 0)) := by decide +kernel
  obtain ⟨s, hs, hval⟩ := Option.map_eq_some_iff.mp hobs
  obtain ⟨ha, hrest⟩ := Prod.mk.inj hval
  obtain ⟨hkeys, hend⟩ := Prod.mk.inj hrest
  obtain ⟨s', hs', ha'⟩ := Option.map_eq_some_iff.mp hend
  obtain ⟨s₂, hs₂, -, hsame⟩ := (keys_of_displayed hs ha hkeys hs' ha').1
  exact ⟨s, s', s₂, hs, hs', hs₂, hsame⟩

end LinuxLikeKernel
