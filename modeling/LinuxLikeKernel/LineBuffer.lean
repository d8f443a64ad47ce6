import LinuxLikeKernel.Library.PaddedBuffer
import LinuxLikeKernel.Library.Run
import LinuxLikeKernel.Scheduling
import LinuxLikeKernel.Keyboard

/-!
# Line buffers

The terminals as a system of their own: the keyboard, the three terminals, and in each of them
one process that can run and may be in a `term_read`. This is the kernel as its lines see it,
while every process runs in its own terminal. A terminal's line is in the global `key_buf` while
the terminal is displayed and in its record otherwise; its view puts the two together.

## Main definitions

- `Terminals`, `Terminals.step` — the system
- `Console.line` — the line of one terminal

## Main results

- `line_bufClear`, `line_termSwitch`, `line_keyEnter` and the like — what the operations do to
  each line
-/

namespace LinuxLikeKernel
open PaddedBuffer Transition

/-! ### The system -/

/-- A `term_read` in progress, with the bytes in its buffer. -/
structure Reading where
  length : Int
  phase : ReadPhase
  got : List UInt8

/-- The read after a turn. -/
def Reading.after (r : Reading) (turn : Console.ReadTurn) : Option Reading :=
  turn.next.map fun phase => ⟨r.length, phase, r.got ++ turn.stored.toList.map Prod.snd⟩

/-- The terminals, and the `term_read` that the process of each is in. -/
@[ext] structure Terminals where
  con : Console
  reading : TermId → Option Reading

/-- What happens: an interrupt, a call of the process that is running, or a turn of the loops
of `term_read`. -/
inductive TermEvent
  | key (scancode : UInt8)
  /-- A tick that goes to the next terminal's process. -/
  | tick
  /-- A tick that starts a shell in the next terminal. -/
  | launch
  | read (length : Int)
  | turn
  | halt

/-- What `pit_interrupt_handler` does to the console when the next terminal has a process. -/
def Console.schedule (k : Console) : Console :=
  let k := { k with nowTermId := nextTermId k.nowTermId }
  k.setScreen (setVidmem k.screen
    (if k.curTermId = some k.nowTermId then video else k.nowTerm.videoMem))

/-- What it does when that terminal has none, up to `execute`. -/
def Console.launchNext (k : Console) : Console :=
  ({ k with nowTermId := nextTermId k.nowTermId } : Console).launchTerm (nextTermId k.nowTermId)

namespace Terminals

def setReading (s : Terminals) (t : TermId) (r : Option Reading) : Terminals :=
  { s with reading := Function.update s.reading t r }

/-- The read of the process that is running. -/
def nowReading (s : Terminals) : Option Reading := s.reading s.con.nowTermId

/-- What `halt` does to the terminals: it clears the line buffer, and the process is gone. The
one that runs next in its place, its parent or a new shell, is in no read. -/
def halt (s : Terminals) : Terminals :=
  ({ s with con := s.con.bufClear } : Terminals).setReading s.con.nowTermId none

/-- The effect of an event. A process that is in `term_read` calls nothing else. -/
def step (s : Terminals) : TermEvent → Option Terminals
  | .key scancode => (s.con.keyboardInterruptHandler scancode).map fun (k, ctrlC) =>
    if ctrlC then ({ s with con := k } : Terminals).halt else { s with con := k }
  | .tick => some { s with con := s.con.schedule }
  | .launch => some { s with con := s.con.launchNext }
  | .read length =>
    if s.nowReading.isSome then none
    else some (s.setReading s.con.nowTermId (some ⟨length, .wait, []⟩))
  | .turn => s.nowReading.map fun r =>
    let turn := s.con.termReadTurn r.length r.phase
    ({ s with con := turn.con } : Terminals).setReading s.con.nowTermId (r.after turn)
  | .halt => if s.nowReading.isSome then none else some s.halt

end Terminals

theorem step_turn {s : Terminals} {r : Reading} (hr : s.nowReading = some r) : s.step .turn =
    some (({ s with con := (s.con.termReadTurn r.length r.phase).con } : Terminals).setReading
      s.con.nowTermId (r.after (s.con.termReadTurn r.length r.phase))) := by
  simp only [Terminals.step, hr, Option.map_some]

/-! ### The line of a terminal -/

/-- What belongs to one terminal: whether it is displayed, its line, and `enter_state`. -/
@[ext] structure Line where
  shown : Bool
  buf : Nat → UInt8
  idx : Nat
  enter : Bool

/-- The bytes of a line buffer. -/
def lineBytes (buf : Nat → UInt8) : Nat → UInt8 := fun j => if j < keyBufMax then buf j else 0

/-- The line of a terminal: the global one while it is displayed, else that of its record. -/
def Console.line (k : Console) (t : TermId) : Line where
  shown := decide (k.curTermId = some t)
  buf := lineBytes (if k.curTermId = some t then k.keyBuf else (k.term t).keyBuf)
  idx := if k.curTermId = some t then k.keyBufIdx else (k.term t).keyBufIdx
  enter := (k.term t).enterState

/-- A character is put at the end of a line. -/
def Line.typed (l : Line) (b : UInt8) : Line :=
  { l with buf := Function.update l.buf l.idx b, idx := l.idx + 1 }

/-- The last character of a line is taken away. -/
def Line.erased (l : Line) : Line :=
  { l with buf := Function.update l.buf (l.idx - 1) 0, idx := l.idx - 1 }

theorem lineBytes_of_lt {buf : Nat → UInt8} {j : Nat} (h : j < keyBufMax) :
    lineBytes buf j = buf j := if_pos h

theorem lineBytes_copyKeyBuf (src dst : Nat → UInt8) :
    lineBytes (copyKeyBuf src dst) = lineBytes src := by
  funext j
  simp only [lineBytes, copyKeyBuf]
  split <;> rfl

theorem lineBytes_update {buf : Nat → UInt8} {i : Nat} (hi : i < keyBufMax) (b : UInt8) :
    lineBytes (Function.update buf i b) = Function.update (lineBytes buf) i b := by
  funext j
  by_cases hj : j = i
  · subst hj
    simp [lineBytes, hi]
  · simp only [lineBytes, Function.update_of_ne hj]

namespace Console

variable {k k' : Console} {t : TermId}

theorem line_of_shown (h : k.curTermId = some t) :
    k.line t = ⟨true, lineBytes k.keyBuf, k.keyBufIdx, (k.term t).enterState⟩ := by
  simp [line, h]

theorem line_of_not_shown (h : k.curTermId ≠ some t) :
    k.line t = ⟨false, lineBytes (k.term t).keyBuf, (k.term t).keyBufIdx,
      (k.term t).enterState⟩ := by
  simp [line, h]

/-- A line is a matter of the displayed terminal, of the line buffer and its index, and of its
own record. -/
theorem line_congr (hcur : k'.curTermId = k.curTermId) (hterm : k'.term t = k.term t)
    (hbuf : k.curTermId = some t → k'.keyBuf = k.keyBuf ∧ k'.keyBufIdx = k.keyBufIdx) :
    k'.line t = k.line t := by
  by_cases h : k.curTermId = some t
  · obtain ⟨hkeys, hidx⟩ := hbuf h
    rw [line_of_shown h, line_of_shown (hcur.trans h), hkeys, hidx, hterm]
  · rw [line_of_not_shown h, line_of_not_shown (hcur ▸ h), hterm]

theorem line_schedule (k : Console) (t : TermId) : k.schedule.line t = k.line t :=
  line_congr rfl rfl fun _ => ⟨rfl, rfl⟩

theorem line_bufClear_of_shown (h : k.curTermId = some t) :
    k.bufClear.line t = { k.line t with buf := fun _ => 0, idx := 0 } := by
  have hzero : lineBytes k.bufClear.keyBuf = fun _ => 0 := by
    funext j
    simp only [lineBytes, bufClear]
    split <;> rfl
  rw [line_of_shown h, line_of_shown (show k.bufClear.curTermId = some t from h), hzero]
  rfl

theorem line_bufClear_of_not_shown (h : k.curTermId ≠ some t) :
    k.bufClear.line t = k.line t :=
  line_congr rfl rfl fun h' => absurd h' h

/-- A switch takes no line away and mixes none up. -/
theorem line_termSwitch {id : TermId} (h : k.termSwitch k.curTermId id = some k') (t : TermId) :
    k'.line t = { k.line t with shown := decide (t = id) } := by
  obtain ⟨d, hd, rfl⟩ := Option.map_eq_some_iff.mp h
  have hcur : ((k.termSave d).termRestore id).curTermId = some id := rfl
  -- the lines after `term_save`, which still displays `d`
  have hsaved : (k.termSave d).term d = { k.term d with
      keyBuf := copyKeyBuf k.keyBuf (k.term d).keyBuf
      keyBufIdx := k.keyBufIdx
      cursorX := k.screen.screenX
      cursorY := k.screen.screenY } := Function.update_self ..
  have hother : ∀ u, u ≠ d → (k.termSave d).term u = k.term u :=
    fun u hu => Function.update_of_ne hu ..
  have hline : ∀ u, lineBytes ((k.termSave d).term u).keyBuf = (k.line u).buf ∧
      ((k.termSave d).term u).keyBufIdx = (k.line u).idx ∧
      ((k.termSave d).term u).enterState = (k.line u).enter := by
    intro u
    by_cases hu : u = d
    · subst hu
      rw [hsaved, line_of_shown hd]
      exact ⟨lineBytes_copyKeyBuf .., rfl, rfl⟩
    · have hne : k.curTermId ≠ some u := by
        rw [hd]
        exact fun he => hu (Option.some.inj he).symm
      rw [hother u hu, line_of_not_shown hne]
      exact ⟨rfl, rfl, rfl⟩
  obtain ⟨hbuf, hidx, henter⟩ := hline t
  by_cases ht : t = id
  · subst ht
    rw [line_of_shown hcur]
    refine Line.ext (by simp) ?_ hidx henter
    exact (lineBytes_copyKeyBuf ..).trans hbuf
  · rw [line_of_not_shown (fun he => ht (Option.some.inj he).symm)]
    exact Line.ext (by simp [ht]) hbuf hidx henter

/-- A launch displays its terminal. Before the first one, none is. -/
theorem line_launchTerm (k : Console) (id t : TermId) :
    (k.launchTerm id).line t = { k.line t with shown := decide (t = id) } := by
  -- the flag `running` is no part of a line
  have hflag : ∀ m : Console, (m.setTerm id { m.term id with running := true }).line t =
      m.line t := by
    intro m
    by_cases ht : t = id
    · subst ht
      exact Line.ext rfl (by simp [line, setTerm]) (by simp [line, setTerm])
        (by simp [line, setTerm])
    · exact line_congr rfl (Function.update_of_ne ht ..) fun _ => ⟨rfl, rfl⟩
  rw [launchTerm, hflag]
  cases hcur : k.curTermId with
  | some d =>
    have hswitch : k.termSwitch k.curTermId id = some ((k.termSave d).termRestore id) := by
      rw [hcur]
      rfl
    exact line_termSwitch hswitch t
  | none =>
    have hne : ∀ u, k.curTermId ≠ some u := fun u hu => by
      rw [hcur] at hu
      cases hu
    rw [line_of_not_shown (hne t)]
    by_cases ht : t = id
    · subst ht
      rw [line_of_shown rfl]
      exact Line.ext (by simp) (lineBytes_copyKeyBuf ..) rfl rfl
    · rw [line_of_not_shown (fun he => ht (Option.some.inj he).symm)]
      exact Line.ext (by simp [ht]) rfl rfl rfl

theorem line_launchNext (k : Console) (t : TermId) : k.launchNext.line t =
    { k.line t with shown := decide (t = nextTermId k.nowTermId) } := by
  refine (line_launchTerm ..).trans ?_
  rw [show Console.line { k with nowTermId := nextTermId k.nowTermId } t = k.line t from
    line_congr rfl rfl fun _ => ⟨rfl, rfl⟩]

theorem line_keyEnter_of_shown (h : k.keyEnter = some k') (hlt : k.keyBufIdx < keyBufMax)
    (ht : k.curTermId = some t) :
    k'.line t = { (k.line t).typed 10 with enter := true } := by
  rw [keyEnter, if_pos hlt] at h
  obtain ⟨d, hd, rfl⟩ := Option.map_eq_some_iff.mp h
  obtain rfl : d = t := Option.some.inj (hd.symm.trans ht)
  refine (line_of_shown (by exact hd)).trans ?_
  rw [line_of_shown hd]
  refine Line.ext rfl ?_ rfl ?_
  · exact lineBytes_update hlt 10
  · simp [setTerm, setScreen]

theorem line_keyEnter_of_not_shown (h : k.keyEnter = some k') (ht : k.curTermId ≠ some t) :
    k'.line t = k.line t := by
  rw [keyEnter] at h
  split at h
  · obtain ⟨d, hd, rfl⟩ := Option.map_eq_some_iff.mp h
    have hne : t ≠ d := fun he => ht (he ▸ hd)
    refine line_congr rfl ?_ fun h' => absurd h' ht
    exact Function.update_of_ne hne ..
  · rw [Option.some.inj h]

theorem line_keyBackspace_of_shown (hpos : 0 < k.keyBufIdx) (hle : k.keyBufIdx ≤ keyBufMax)
    (ht : k.curTermId = some t) : k.keyBackspace.line t = (k.line t).erased := by
  rw [keyBackspace, if_pos hpos]
  refine (line_of_shown (by exact ht)).trans ?_
  rw [line_of_shown ht]
  exact Line.ext rfl (lineBytes_update (by omega) 0) rfl rfl

theorem line_keyBackspace_of_not_shown (ht : k.curTermId ≠ some t) :
    k.keyBackspace.line t = k.line t := by
  rw [keyBackspace]
  split
  · exact line_congr rfl rfl fun h' => absurd h' ht
  · rfl

/-- A character that has been added to the line buffer. -/
theorem line_typed_of_shown {key : UInt8} {sc : Screen} (hlt : k.keyBufIdx < keyBufMax)
    (ht : k.curTermId = some t) :
    ({ k with
        keyBuf := Function.update k.keyBuf k.keyBufIdx key
        keyBufIdx := k.keyBufIdx + 1
        screen := sc } : Console).line t = (k.line t).typed key := by
  refine (line_of_shown (by exact ht)).trans ?_
  rw [line_of_shown ht]
  exact Line.ext rfl (lineBytes_update hlt key) rfl rfl

/-! ### Turns of `term_read` -/

/-- Leaving the wait loop resets the flag. -/
theorem line_resetEnter (k : Console) (t : TermId) :
    (k.setTerm k.nowTermId { k.nowTerm with enterState := false }).line t =
      if t = k.nowTermId then { k.line t with enter := false } else k.line t := by
  by_cases ht : t = k.nowTermId
  · subst ht
    rw [if_pos rfl]
    by_cases h : k.curTermId = some k.nowTermId
    · refine (line_of_shown (by exact h)).trans ?_
      rw [line_of_shown h]
      simp [setTerm]
    · refine (line_of_not_shown (by exact h)).trans ?_
      rw [line_of_not_shown h]
      simp [setTerm, nowTerm]
  · rw [if_neg ht]
    exact line_congr rfl (Function.update_of_ne ht ..) fun _ => ⟨rfl, rfl⟩

theorem line_clearByte {j : Nat} (hj : j < keyBufMax) (ht : k.curTermId = some t) :
    ({ k with keyBuf := Function.update k.keyBuf j 0 } : Console).line t =
      { k.line t with buf := Function.update (k.line t).buf j 0 } := by
  refine (line_of_shown (by exact ht)).trans ?_
  rw [line_of_shown ht]
  exact Line.ext rfl (lineBytes_update hj 0) rfl rfl

theorem line_clearIdx (ht : k.curTermId = some t) :
    ({ k with keyBufIdx := 0 } : Console).line t = { k.line t with idx := 0 } := by
  refine (line_of_shown (by exact ht)).trans ?_
  rw [line_of_shown ht]

theorem line_setLine_of_not_shown (ht : k.curTermId ≠ some t) (buf : Nat → UInt8) (idx : Nat) :
    ({ k with keyBuf := buf, keyBufIdx := idx } : Console).line t = k.line t :=
  line_congr rfl rfl fun h' => absurd h' ht

end Console

end LinuxLikeKernel
