import LinuxLikeKernel.Library.EndedLines
import LinuxLikeKernel.TypedLines

/-!
# Reads of lines

One terminal is displayed, and its process reads. The user types lines and corrects the one he is
typing, ahead of the reads or while one waits, and every `term_read` should return the next line.
`term_read` waits for a flag, though, and then returns all that is in the line buffer, and Backspace
takes away whatever is at the end of it.

## Main definitions

- `TermLog.edit` — what has been typed, whatever the line buffer does
- `ReadsLines` — the reads return the lines one by one, and nothing is lost
- `OneLineAtATime` — a read finds one line in the buffer, and keys find the room they need

## Main results

- `keyEffect`, `Holding.turn` — what the line buffer and the read hold after a step
- `readsLines_iff` — reads return lines exactly along runs that meet `OneLineAtATime`
-/

namespace LinuxLikeKernel
open PaddedBuffer EndedLines Transition

/-! ### What is typed -/

/-- Enter ends a line, and Backspace takes away the last character of the line that is being typed.
A line has at most 127 characters and its end. -/
def TermLog.edit (k : Console) (scancode : UInt8) (l : TermLog) : TermLog :=
  match decodeKey scancode with
  | .enter => { l with lines := l.lines ++ [l.rest ++ [10]], rest := [] }
  | .backspace => { l with rest := l.rest.dropLast }
  | .other =>
    match k.keyChar scancode with
    | none => l
    | some key => if l.rest.length < keyBufMax - 1 then { l with rest := l.rest ++ [key] } else l
  | _ => l

/-- The log of the one terminal. -/
def editLine (s : Terminals) (e : TermEvent) (_ : Terminals) (l : TermLog) : TermLog :=
  match e with
  | .key scancode => l.edit s.con scancode
  | .turn =>
    match s.nowReading with
    | some r =>
      if (s.con.termReadTurn r.length r.phase).next.isNone then
        { l with delivered := l.delivered ++ [r.got] }
      else l
    | none => l
  | _ => l

def editStep : Terminals × TermLog → TermEvent → Option (Terminals × TermLog) :=
  logged Terminals.step editLine

/-! ### What should be returned -/

namespace Terminals

/-- The read of the running process has left its wait loop. -/
def Takes (s : Terminals) : Prop := ∃ r ∈ s.nowReading, r.phase ≠ .wait

instance (s : Terminals) : Decidable s.Takes := inferInstanceAs (Decidable (∃ r ∈ s.nowReading, _))

/-- What such a read is about to return. -/
def taking (s : Terminals) : List (List UInt8) :=
  if s.Takes then [s.waiting s.con.nowTermId] else []

/-- What is kept for later reads. A read that has left its wait loop leaves nothing. -/
def kept (s : Terminals) : List UInt8 := if s.Takes then [] else s.waiting s.con.nowTermId

end Terminals

/-- The lines have been returned one by one, the next one is being returned, and the others and the
rest are kept. With a line to return the flag is up. -/
def InOrder (l : TermLog) (taking : List (List UInt8)) (kept : List UInt8) (flag : Bool) : Prop :=
  ∃ todo, l.lines = l.delivered ++ taking ++ todo ∧ kept = todo.flatten ++ l.rest ∧
    (todo ≠ [] → flag = true)

/-- Each read has returned one line, and a read that finds the flag up, or has found it up, returns
in a few turns. -/
structure ReadsLines (x : Terminals × TermLog) : Prop where
  inOrder : InOrder x.2 x.1.taking x.1.kept x.1.con.nowTerm.enterState
  returns : ∀ r, x.1.nowReading = some r →
    (r.phase = .wait → x.1.con.nowTerm.enterState = true) →
    ∃ n x', run editStep x (List.replicate n .turn) = some x' ∧ x'.1.nowReading = none ∧
      x'.2.delivered.length = x.2.delivered.length + 1

/-! ### The condition -/

/-- A key that types, ends or corrects a line, or a modifier; no shortcut. -/
def Console.EditKey (k : Console) (scancode : UInt8) : Prop :=
  match decodeKey scancode with
  | .fn _ => k.altState = false
  | .other => (k.keyChar scancode).isSome → k.ctrlState = false
  | _ => True

instance (k : Console) (scancode : UInt8) : Decidable (k.EditKey scancode) :=
  match hkey : decodeKey scancode with
  | .fn _ => decidable_of_iff (k.altState = false) (by simp only [Console.EditKey, hkey])
  | .other =>
    decidable_of_iff ((k.keyChar scancode).isSome → k.ctrlState = false)
      (by simp only [Console.EditKey, hkey])
  | .capsLock | .shift _ | .ctrl _ | .alt _ | .enter | .backspace =>
    isTrue (by simp only [Console.EditKey, hkey])

/-- One terminal and its reader: keys come before a read or while it waits. -/
def OneReader (s : Terminals) : TermEvent → Prop
  | .key scancode => s.con.EditKey scancode ∧ ¬ s.Takes
  | .read length => (keyBufMax : Int) ≤ length
  | .turn => True
  | .tick => False
  | .launch => False
  | .halt => False

instance (s : Terminals) : ∀ e, Decidable (OneReader s e)
  | .key scancode => inferInstanceAs (Decidable (s.con.EditKey scancode ∧ ¬ s.Takes))
  | .read length => inferInstanceAs (Decidable ((keyBufMax : Int) ≤ length))
  | .turn => isTrue trivial
  | .tick => isFalse id
  | .launch => isFalse id
  | .halt => isFalse id

/-- A read leaves its wait loop when the line buffer holds one line and nothing else, Backspace is
not pressed on the end of a line, Enter not with a full buffer, and a character with a full one only
while there is no ended line in it. -/
def OneLineAtATime (s : Terminals) : TermEvent → Prop
  | .key scancode =>
    match decodeKey scancode with
    | .enter => s.con.keyBufIdx < keyBufMax
    | .backspace => ¬ s.EndsLine
    | .other => (s.con.keyChar scancode).isSome → keyBufMax - 1 ≤ s.con.keyBufIdx →
        ∀ j < s.con.keyBufIdx, s.con.keyBuf j ≠ 10
    | _ => True
  | .turn => s.Wakes → s.EndsLine ∧ ∀ j < s.con.keyBufIdx - 1, s.con.keyBuf j ≠ 10
  | _ => True

instance (s : Terminals) : ∀ e, Decidable (OneLineAtATime s e)
  | .key scancode =>
    match hkey : decodeKey scancode with
    | .enter =>
      decidable_of_iff (s.con.keyBufIdx < keyBufMax) (by simp only [OneLineAtATime, hkey])
    | .backspace => decidable_of_iff (¬ s.EndsLine) (by simp only [OneLineAtATime, hkey])
    | .other =>
      decidable_of_iff ((s.con.keyChar scancode).isSome → keyBufMax - 1 ≤ s.con.keyBufIdx →
        ∀ j < s.con.keyBufIdx, s.con.keyBuf j ≠ 10) (by simp only [OneLineAtATime, hkey])
    | .capsLock | .shift _ | .ctrl _ | .alt _ | .fn _ =>
      isTrue (by simp only [OneLineAtATime, hkey])
  | .turn => inferInstanceAs (Decidable (_ → _ ∧ _))
  | .tick => isTrue trivial
  | .launch => isTrue trivial
  | .read _ => isTrue trivial
  | .halt => isTrue trivial

/-! ### What is in the buffer -/

/-- The one terminal and its reader hold the bytes. -/
structure Holding (s : Terminals) (content : List UInt8) : Prop where
  home : s.con.curTermId = some s.con.nowTermId
  full : content.length = keyBufMax → ∃ cs, content = cs ++ [10]
  held : match s.nowReading with
    | none => (s.con.line s.con.nowTermId).Has content
    | some r => (s.con.line s.con.nowTermId).Carries r content

variable {s s' : Terminals} {l : TermLog} {e : TermEvent} {content : List UInt8}

theorem takes_iff {r : Reading} (hr : s.nowReading = some r) : s.Takes ↔ r.phase ≠ .wait := by
  simp [Terminals.Takes, hr]

theorem not_takes_of_none (hr : s.nowReading = none) : ¬ s.Takes := by
  simp [Terminals.Takes, hr]

theorem phase_of_not_takes (hidle : ¬ s.Takes) {r : Reading} (hr : s.nowReading = some r) :
    r.phase = .wait := by
  by_contra hne
  exact hidle ((takes_iff hr).mpr hne)

theorem Holding.has (h : Holding s content) (hidle : ¬ s.Takes) :
    (s.con.line s.con.nowTermId).Has content := by
  have hheld := h.held
  cases hr : s.nowReading with
  | none =>
    rw [hr] at hheld
    exact hheld
  | some r =>
    rw [hr] at hheld
    obtain ⟨length, phase, got⟩ := r
    obtain rfl : phase = .wait := phase_of_not_takes hidle hr
    exact hheld.2.1

theorem Holding.waiting (h : Holding s content) : s.waiting s.con.nowTermId = content := by
  have hheld := h.held
  cases hr : s.nowReading with
  | none =>
    have hread : s.reading s.con.nowTermId = none := hr
    rw [hr] at hheld
    simp only [Terminals.waiting, hread]
    exact hheld.waiting
  | some r =>
    obtain ⟨length, phase, got⟩ := r
    have hread : s.reading s.con.nowTermId = some ⟨length, phase, got⟩ := hr
    rw [hr] at hheld
    obtain ⟨-, hheld⟩ := hheld
    simp only [Terminals.waiting, hread]
    cases phase with
    | wait => exact hheld.1.waiting
    | woken => exact hheld.1.waiting
    | copy i => exact hheld.1.waiting
    | clear j count => exact hheld.1

/-- A change of the line, with no read on its way. -/
theorem Holding.edited (h : Holding s content) (hidle : ¬ s.Takes) {k : Console}
    (hcur : k.curTermId = s.con.curTermId) (hnow : k.nowTermId = s.con.nowTermId)
    {content' : List UInt8} (hfull : content'.length = keyBufMax → ∃ cs, content' = cs ++ [10])
    (hhas : (k.line s.con.nowTermId).Has content') :
    Holding { s with con := k } content' := by
  have hread : ({ s with con := k } : Terminals).nowReading = s.nowReading :=
    congrArg s.reading hnow
  refine ⟨by rw [hcur, hnow]; exact h.home, hfull, ?_⟩
  rw [hread, hnow]
  have hheld := h.held
  cases hr : s.nowReading with
  | none => exact hhas
  | some r =>
    rw [hr] at hheld
    obtain ⟨length, phase, got⟩ := r
    obtain rfl : phase = .wait := phase_of_not_takes hidle hr
    exact ⟨hheld.1, hhas, hheld.2.2⟩

/-- The index of the line buffer. -/
theorem Holding.keyBufIdx (h : Holding s content) (hidle : ¬ s.Takes) :
    s.con.keyBufIdx = content.length := by
  have hidx := (h.has hidle).idx
  rwa [Console.line_of_shown h.home] at hidx

/-! ### Keys -/

/-- What a key does to the line and the log. -/
inductive KeyEffect (s : Terminals) (scancode : UInt8) (content : List UInt8) (s' : Terminals) :
    Prop
  | enter (hkey : decodeKey scancode = .enter) (hlt : content.length < keyBufMax)
      (h : Holding s' (content ++ [10])) (hflag : s'.con.nowTerm.enterState = true)
  | enterFull (hkey : decodeKey scancode = .enter) (hfull : ¬ content.length < keyBufMax)
      (hs : s' = s)
  | backspace (hkey : decodeKey scancode = .backspace) (h : Holding s' content.dropLast)
      (hflag : s'.con.nowTerm.enterState = s.con.nowTerm.enterState)
  | typed {key : UInt8} (hkey : decodeKey scancode = .other)
      (hchar : s.con.keyChar scancode = some key) (hlt : content.length < keyBufMax - 1)
      (h : Holding s' (content ++ [key]))
      (hflag : s'.con.nowTerm.enterState = s.con.nowTerm.enterState)
  | full {key : UInt8} (hkey : decodeKey scancode = .other)
      (hchar : s.con.keyChar scancode = some key) (hfull : ¬ content.length < keyBufMax - 1)
      (hs : s' = s)
  | unrecorded (hedit : ∀ l : TermLog, l.edit s.con scancode = l)
      (hg : OneLineAtATime s (.key scancode)) (h : Holding s' content)
      (hflag : s'.con.nowTerm.enterState = s.con.nowTerm.enterState)

/-- The cases of a key that edits the line, while no read is on its way. -/
theorem keyEffect {scancode : UInt8} (h : Holding s content) (hidle : ¬ s.Takes)
    (hedit : s.con.EditKey scancode) (hs : s.step (.key scancode) = some s') :
    KeyEffect s scancode content s' ∧ s'.nowReading = s.nowReading := by
  obtain ⟨⟨k, ctrlC⟩, hk, rfl⟩ := Option.map_eq_some_iff.mp hs
  have hhas := h.has hidle
  have hidx := h.keyBufIdx hidle
  have hmax : content.length ≤ keyBufMax := hhas.holds.length_le
  cases keyStep hk with
  | modifier _ _ _ hkey =>
    change KeyEffect s scancode content { s with con := _ } ∧ _
    refine ⟨.unrecorded (fun l => ?_) ?_ (h.edited hidle (by rfl) (by rfl) h.full hhas) rfl, rfl⟩
    · cases hdecode : decodeKey scancode with
      | enter => simp [hdecode, Key.isModifier] at hkey
      | backspace => simp [hdecode, Key.isModifier] at hkey
      | other => simp [hdecode, Key.isModifier] at hkey
      | _ => simp only [TermLog.edit, hdecode]
    · cases hdecode : decodeKey scancode with
      | enter => simp [hdecode, Key.isModifier] at hkey
      | backspace => simp [hdecode, Key.isModifier] at hkey
      | other => simp [hdecode, Key.isModifier] at hkey
      | _ => simp only [OneLineAtATime, hdecode]
  | enter hkey henter =>
    change KeyEffect s scancode content { s with con := k } ∧ _
    by_cases hlt : s.con.keyBufIdx < keyBufMax
    · have hline := Console.line_keyEnter_of_shown henter hlt h.home
      rw [Console.keyEnter, if_pos hlt] at henter
      obtain ⟨hcur, hnow⟩ : k.curTermId = s.con.curTermId ∧ k.nowTermId = s.con.nowTermId := by
        obtain ⟨d, -, rfl⟩ := Option.map_eq_some_iff.mp henter
        exact ⟨rfl, rfl⟩
      have htyped := hhas.typed (hhas.idx ▸ hidx ▸ hlt) (b := 10) (by decide)
      refine ⟨.enter hkey (hidx ▸ hlt) (h.edited hidle hcur hnow (fun _ => ⟨_, rfl⟩) ?_) ?_,
        congrArg s.reading hnow⟩
      · rw [hline]
        exact ⟨htyped.holds, htyped.idx⟩
      · have henter := congrArg Line.enter hline
        rwa [← hnow] at henter
    · rw [Console.keyEnter, if_neg hlt] at henter
      obtain rfl := Option.some.inj henter
      exact ⟨.enterFull hkey (hidx ▸ hlt) rfl, rfl⟩
  | backspace hkey =>
    change KeyEffect s scancode content { s with con := s.con.keyBackspace } ∧ _
    have hshort : content.dropLast.length = keyBufMax → ∃ cs, content.dropLast = cs ++ [10] := by
      rw [List.length_dropLast]
      intro hlen
      have hpos : 0 < keyBufMax := by decide
      omega
    by_cases hpos : 0 < s.con.keyBufIdx
    · have hline := Console.line_keyBackspace_of_shown hpos (hidx ▸ hmax) h.home
      rw [Console.keyBackspace, if_pos hpos] at hline ⊢
      refine ⟨.backspace hkey (h.edited hidle (by rfl) (by rfl) hshort ?_) rfl, rfl⟩
      rw [hline]
      exact hhas.erased
    · obtain rfl : content = [] := List.length_eq_zero_iff.mp (by omega)
      rw [Console.keyBackspace, if_neg hpos]
      exact ⟨.backspace hkey h rfl, rfl⟩
  | switch hkey halt _ =>
    simp only [Console.EditKey, hkey] at hedit
    exact absurd (hedit.symm.trans halt) (by simp)
  | fn hkey _ =>
    refine ⟨.unrecorded (fun l => ?_) ?_ h rfl, rfl⟩
    · simp only [TermLog.edit, hkey]
    · simp only [OneLineAtATime, hkey]
  | noChar hkey hchar =>
    refine ⟨.unrecorded (fun l => ?_) ?_ h rfl, rfl⟩
    · simp only [TermLog.edit, hkey, hchar]
    · simp only [OneLineAtATime, hkey, hchar, Option.isSome_none, Bool.false_eq_true, false_imp_iff]
  | @char key _ _ hkey hchar hstep =>
    simp only [Console.EditKey, hkey, hchar, Option.isSome_some, true_imp_iff] at hedit
    obtain ⟨hzero, -⟩ := keyChar_ne hchar
    cases hstep with
    | clear hctrl => exact absurd (hedit.symm.trans hctrl) (by simp)
    | ctrlC hctrl => exact absurd (hedit.symm.trans hctrl) (by simp)
    | shortcut hctrl => exact absurd (hedit.symm.trans hctrl) (by simp)
    | typed _ hlt =>
      change KeyEffect s scancode content { s with con := _ } ∧ _
      have hroom : s.con.keyBufIdx < keyBufMax := Nat.lt_of_lt_of_le hlt (Nat.sub_le ..)
      have hline := @Console.line_typed_of_shown s.con s.con.nowTermId key
        (putc s.con.curTermId key s.con.screen) hroom h.home
      have hlen : content.length < keyBufMax - 1 := hidx ▸ hlt
      have hshort : (content ++ [key]).length = keyBufMax →
          ∃ cs, content ++ [key] = cs ++ [10] := by
        rw [List.length_append, List.length_singleton]
        omega
      refine ⟨.typed hkey hchar hlen (h.edited hidle (by rfl) (by rfl) hshort ?_) rfl, rfl⟩
      rw [hline]
      exact hhas.typed (hhas.idx ▸ hidx ▸ hroom) hzero
    | full _ hfull => exact ⟨.full hkey hchar (hidx ▸ hfull) rfl, rfl⟩

/-! ### Turns -/

/-- What a turn does to the read and the log. -/
inductive TurnEffect (s : Terminals) (content : List UInt8) (s' : Terminals) : Prop
  | waits (hwakes : ¬ s.Wakes) (htakes : ¬ s.Takes) (h : Holding s' content) (htakes' : ¬ s'.Takes)
      (hflag : s'.con.nowTerm.enterState = s.con.nowTerm.enterState)
      (hlog : ∀ l, editLine s .turn s' l = l)
  | wakes (hwakes : s.Wakes) (htakes : ¬ s.Takes) (h : Holding s' content) (htakes' : s'.Takes)
      (hlog : ∀ l, editLine s .turn s' l = l)
  | goes (hwakes : ¬ s.Wakes) (htakes : s.Takes) (h : Holding s' content) (htakes' : s'.Takes)
      (hlog : ∀ l, editLine s .turn s' l = l)
  | returns (hwakes : ¬ s.Wakes) (htakes : s.Takes) (h : Holding s' []) (htakes' : ¬ s'.Takes)
      (hlog : ∀ l, editLine s .turn s' l = { l with delivered := l.delivered ++ [content] })

/-- The console and the read after a turn. -/
theorem after_turn {r : Reading} (hr : s.nowReading = some r) (hs : s.step .turn = some s') :
    s'.con = (s.con.termReadTurn r.length r.phase).con ∧ s'.con.nowTermId = s.con.nowTermId ∧
      s'.nowReading = r.after (s.con.termReadTurn r.length r.phase) := by
  obtain rfl := Option.some.inj ((step_turn hr).symm.trans hs)
  have hnow := (ids_termReadTurn s.con r.length r.phase).1
  refine ⟨rfl, hnow, ?_⟩
  change Function.update s.reading s.con.nowTermId _ (s.con.termReadTurn _ _).con.nowTermId = _
  rw [hnow]
  exact Function.update_self ..

theorem turnEffect (h : Holding s content) (hs : s.step .turn = some s') :
    TurnEffect s content s' := by
  obtain ⟨r, hr, -⟩ := Option.map_eq_some_iff.mp hs
  obtain ⟨hcon, hnow, hread⟩ := after_turn hr hs
  have hhome : s'.con.curTermId = some s'.con.nowTermId := by
    rw [hnow, hcon, (ids_termReadTurn ..).2]
    exact h.home
  have hline : s'.con.line s'.con.nowTermId =
      (s.con.termReadTurn r.length r.phase).con.line s.con.nowTermId := by rw [hnow, hcon]
  have hheld := h.held
  rw [hr] at hheld
  by_cases hwait : r.phase = .wait
  · obtain ⟨length, phase, got⟩ := r
    obtain rfl : phase = .wait := hwait
    have htakes : ¬ s.Takes := by simp [takes_iff hr]
    have hlog : ∀ l, editLine s .turn s' l = l := by
      intro l
      simp only [editLine, hr, Console.termReadTurn, Option.isNone_some, Bool.false_eq_true,
        if_false]
    obtain ⟨hlen, hhas, rfl⟩ := hheld
    by_cases hflag : s.con.nowTerm.enterState = true
    · have hturn : s.con.termReadTurn length .wait = ⟨s.con, none, some .woken⟩ := by
        simp only [Console.termReadTurn, hflag, if_true]
      rw [hturn] at hread hline
      refine .wakes ⟨hflag, _, hr, rfl⟩ htakes ⟨hhome, h.full, ?_⟩ ?_ hlog
      · rw [hread, hline]
        exact ⟨hlen, hhas, rfl⟩
      · rw [takes_iff hread]
        simp
    · have hturn : s.con.termReadTurn length .wait = ⟨s.con, none, some .wait⟩ := by
        simp only [Console.termReadTurn, if_neg hflag]
      rw [hturn] at hread hline hcon
      refine .waits (fun hw => hflag hw.1) htakes ⟨hhome, h.full, ?_⟩ ?_ ?_ hlog
      · rw [hread, hline]
        exact ⟨hlen, hhas, rfl⟩
      · rw [takes_iff hread]
        simp
      · rw [hcon]
  · have htakes : s.Takes := (takes_iff hr).mpr hwait
    have hwakes : ¬ s.Wakes := by
      rintro ⟨-, x, hx, hx'⟩
      obtain rfl := Option.some.inj (hr.symm.trans hx)
      exact hwait hx'
    cases hnext : (s.con.termReadTurn r.length r.phase).next with
    | some next =>
      rw [Reading.after, hnext, Option.map_some] at hread
      refine .goes hwakes htakes ⟨hhome, h.full, ?_⟩ ?_ fun l => ?_
      · rw [hread, hline]
        exact Line.Carries.after hheld h.home hwait hnext
      · exact (takes_iff hread).mpr (next_ne_wait hwait hnext)
      · simp only [editLine, hr, hnext, Option.isNone_some, Bool.false_eq_true, if_false]
    | none =>
      rw [Reading.after, hnext, Option.map_none] at hread
      obtain ⟨hgot, hempty⟩ := Line.Carries.ends hheld h.home hwait hnext
      refine .returns hwakes htakes ⟨hhome, (fun hlen => by cases hlen), ?_⟩ ?_ fun l => ?_
      · rw [hread, hline]
        exact hempty
      · exact not_takes_of_none hread
      · simp only [editLine, hr, hnext, Option.isNone_none, if_true, hgot]

/-- A read that has left its wait loop returns. -/
theorem returns_of_takes (htakes : s.Takes) (l : TermLog) :
    ∃ n x, run editStep (s, l) (List.replicate n .turn) = some x ∧ x.1.nowReading = none ∧
      x.2.delivered.length = l.delivered.length + 1 := by
  obtain ⟨r, hr, hb⟩ := htakes
  have hquiet : ∀ {s s' : Terminals} {r : Reading} {next : ReadPhase}, True →
      s.nowReading = some r → r.phase ≠ .wait →
      (s.con.termReadTurn r.length r.phase).next = some next → s.step .turn = some s' →
      editLine s .turn s' l = l ∧ True := by
    intro s s' r next _ hr _ hnext _
    refine ⟨?_, trivial⟩
    simp only [editLine, hr, hnext, Option.isNone_some, Bool.false_eq_true, if_false]
  obtain ⟨n, s₁, r₁, s₂, -, -, hr₁, -, hnone, hs₂, hrun⟩ :=
    turns_to_end (I := fun _ => True) hquiet trivial hr hb
  refine ⟨n, _, hrun, ?_, ?_⟩
  · rw [(after_turn hr₁ hs₂).2.2, Reading.after, hnone, Option.map_none]
  · simp only [editLine, hr₁, hnone, Option.isNone_none, if_true, List.length_append,
      List.length_singleton]

/-- So does a read that finds the flag up. -/
theorem returns_of_wakes (h : Holding s content) (hwakes : s.Wakes) (l : TermLog) :
    ∃ n x, run editStep (s, l) (List.replicate n .turn) = some x ∧ x.1.nowReading = none ∧
      x.2.delivered.length = l.delivered.length + 1 := by
  obtain ⟨-, r, hr, -⟩ := id hwakes
  cases turnEffect h (step_turn hr) with
  | wakes _ _ _ htakes' hlog =>
    obtain ⟨n, x, hrun, hx⟩ := returns_of_takes htakes' l
    refine ⟨n + 1, x, ?_, hx⟩
    rw [List.replicate_succ]
    exact run_cons_eq_some.mpr ⟨_, logged_eq_some.mpr ⟨step_turn hr, (hlog l).symm⟩, hrun⟩
  | waits hw => exact absurd hwakes hw
  | goes hw => exact absurd hwakes hw
  | returns hw => exact absurd hwakes hw

/-! ### The order of the lines -/

/-- What the user types is made of ended lines. -/
structure TermLog.Typed (l : TermLog) : Prop where
  lines : ∀ line ∈ l.lines, Ended 10 line
  rest : 10 ∉ l.rest

variable {kept : List UInt8} {flag : Bool}

theorem TermLog.Typed.edit (h : l.Typed) (k : Console) (scancode : UInt8) :
    (l.edit k scancode).Typed := by
  simp only [TermLog.edit]
  cases decodeKey scancode with
  | enter =>
    refine ⟨fun line hline => ?_, List.not_mem_nil⟩
    obtain hline | hline := List.mem_append.mp hline
    · exact h.lines line hline
    · rw [List.mem_singleton.mp hline]
      exact ended_concat h.rest
  | backspace => exact ⟨h.lines, fun hmem => h.rest (List.dropLast_subset _ hmem)⟩
  | other =>
    cases hchar : k.keyChar scancode with
    | none => exact h
    | some key =>
      dsimp only
      split
      · refine ⟨h.lines, fun hmem => ?_⟩
        obtain hmem | hmem := List.mem_append.mp hmem
        · exact h.rest hmem
        · exact (keyChar_ne hchar).2 (List.mem_singleton.mp hmem).symm
      · exact h
  | _ => exact h

theorem TermLog.Typed.editLine (h : l.Typed) (s : Terminals) (e : TermEvent) (s' : Terminals) :
    (LinuxLikeKernel.editLine s e s' l).Typed := by
  cases e with
  | key scancode => exact h.edit s.con scancode
  | turn =>
    simp only [LinuxLikeKernel.editLine]
    split
    · split
      · exact ⟨h.lines, h.rest⟩
      · exact h
    · exact h
  | _ => exact h

/-- The lines to return are those that have not been returned. -/
theorem inOrder_iff {taking : List (List UInt8)} (todo : List (List UInt8))
    (h : l.lines = l.delivered ++ taking ++ todo) :
    InOrder l taking kept flag ↔ kept = todo.flatten ++ l.rest ∧ (todo ≠ [] → flag = true) := by
  constructor
  · rintro ⟨todo', hlines, hkept⟩
    obtain rfl := List.append_cancel_left (h.symm.trans hlines)
    exact hkept
  · exact fun hkept => ⟨todo, h, hkept⟩

/-- With no line taken, some are to be returned. -/
theorem InOrder.todo (h : InOrder l [] content flag) (hl : l.Typed) :
    ∃ todo, l.lines = l.delivered ++ todo ∧ content = todo.flatten ++ l.rest ∧
      (todo ≠ [] → flag = true) ∧ ∀ line ∈ todo, Ended 10 line := by
  obtain ⟨todo, hlines, hcontent, hflag⟩ := h
  rw [List.append_nil] at hlines
  refine ⟨todo, hlines, hcontent, hflag, fun line hline => hl.lines line ?_⟩
  rw [hlines]
  exact List.mem_append_right _ hline

/-- A line that is taken is the last one, with nothing typed behind it. -/
theorem inOrder_taking_iff (hl : l.Typed) : InOrder l [content] [] flag ↔
    l.lines = l.delivered ++ [content] ∧ l.rest = [] := by
  constructor
  · rintro ⟨todo, hlines, hnil, -⟩
    obtain ⟨hflat, hrest⟩ := List.append_eq_nil_iff.mp hnil.symm
    have hended : ∀ line ∈ todo, Ended 10 line := by
      intro line hline
      refine hl.lines line ?_
      rw [hlines]
      exact List.mem_append_right _ hline
    obtain rfl := (flatten_eq_nil_iff hended).mp hflat
    exact ⟨hlines.trans (List.append_nil _), hrest⟩
  · rintro ⟨hlines, hrest⟩
    refine ⟨[], hlines.trans (List.append_nil _).symm, ?_, fun hne => absurd rfl hne⟩
    rw [hrest]
    rfl

/-- A read may take the text when it is one line. -/
theorem InOrder.taking_iff (h : InOrder l [] content flag) (hl : l.Typed) {flag' : Bool} :
    InOrder l [content] [] flag' ↔ Ended 10 content := by
  obtain ⟨todo, hlines, rfl, -, hended⟩ := h.todo hl
  rw [inOrder_taking_iff hl, ended_iff hended hl.rest, hlines, List.append_cancel_left_eq]

/-- What has been taken is returned. -/
theorem InOrder.returned (h : InOrder l [content] [] flag) (hl : l.Typed) {flag' : Bool} :
    InOrder { l with delivered := l.delivered ++ [content] } [] [] flag' := by
  obtain ⟨hlines, hrest⟩ := (inOrder_taking_iff hl).mp h
  refine ⟨[], ?_, ?_, fun hne => absurd rfl hne⟩
  · rw [hlines, List.append_nil, List.append_nil]
  · change [] = [] ++ l.rest
    rw [hrest]
    rfl

/-- Enter. -/
theorem InOrder.enter (h : InOrder l [] content flag) :
    InOrder { l with lines := l.lines ++ [l.rest ++ [10]], rest := [] } [] (content ++ [10])
      true := by
  obtain ⟨todo, hlines, rfl, -⟩ := h
  refine ⟨todo ++ [l.rest ++ [10]], ?_, by simp, fun _ => rfl⟩
  rw [hlines, List.append_assoc]

/-- An Enter that does not get into the line buffer is a line that is lost. -/
theorem InOrder.not_enter (h : InOrder l [] content flag) {flag' : Bool} :
    ¬ InOrder { l with lines := l.lines ++ [l.rest ++ [10]], rest := [] } [] content flag' := by
  obtain ⟨todo, hlines, rfl, -⟩ := h
  rw [inOrder_iff (todo ++ [l.rest ++ [10]]) (by rw [hlines, List.append_assoc])]
  rintro ⟨hkept, -⟩
  have hlen := congrArg List.length hkept
  simp only [List.length_append, List.flatten_append, List.flatten_singleton, List.length_nil,
    List.length_singleton] at hlen
  omega

/-- Backspace takes away what has been typed since the last Enter, if that is not all. -/
theorem InOrder.backspace_iff (h : InOrder l [] content flag) (hl : l.Typed) :
    InOrder { l with rest := l.rest.dropLast } [] content.dropLast flag ↔
      ¬ ∃ cs, content = cs ++ [10] := by
  obtain ⟨todo, hlines, rfl, hflag, hended⟩ := h.todo hl
  rw [inOrder_iff todo (by rw [hlines, List.append_nil]),
    exists_concat_iff hended hl.rest]
  by_cases hrest : l.rest = []
  · simp only [hrest, List.append_nil, List.dropLast_nil, and_true, ne_eq, not_not]
    constructor
    · -- otherwise the end of a line is gone
      rintro ⟨hdrop, -⟩
      by_contra hne
      have hpos : 0 < todo.flatten.length :=
        List.length_pos_iff.mpr fun hnil => hne ((flatten_eq_nil_iff hended).mp hnil)
      have hlen := congrArg List.length hdrop
      rw [List.length_dropLast] at hlen
      omega
    · rintro rfl
      exact ⟨rfl, fun hne => absurd rfl hne⟩
  · refine iff_of_true ⟨List.dropLast_append_of_ne_nil hrest, hflag⟩ fun hends => hrest hends.2

/-- A character. -/
theorem InOrder.typed (h : InOrder l [] content flag) (key : UInt8) :
    InOrder { l with rest := l.rest ++ [key] } [] (content ++ [key]) flag := by
  obtain ⟨todo, hlines, rfl, hflag⟩ := h
  exact ⟨todo, hlines, List.append_assoc .., hflag⟩

theorem InOrder.rest_length_le (h : InOrder l [] content flag) :
    l.rest.length ≤ content.length := by
  obtain ⟨todo, -, rfl, -⟩ := h
  rw [List.length_append]
  omega

/-- A character that does not get into the line buffer is lost, unless its line is too long. -/
theorem InOrder.full_iff (h : InOrder l [] content flag) (hl : l.Typed)
    (hfull : ¬ content.length < keyBufMax - 1) (hmax : content.length ≤ keyBufMax)
    (hlast : content.length = keyBufMax → ∃ cs, content = cs ++ [10]) (key : UInt8) :
    InOrder (if l.rest.length < keyBufMax - 1 then { l with rest := l.rest ++ [key] } else l) []
      content flag ↔ 10 ∉ content := by
  obtain ⟨todo, hlines, rfl, hflag, hended⟩ := h.todo hl
  rw [mem_iff_ne_nil hended hl.rest]
  by_cases htodo : todo = []
  · subst htodo
    refine iff_of_true ?_ fun hne => hne rfl
    have hlong : ¬ l.rest.length < keyBufMax - 1 := hfull
    rw [if_neg hlong]
    exact h
  · have hpos : 0 < todo.flatten.length :=
      List.length_pos_iff.mpr fun hnil => htodo ((flatten_eq_nil_iff hended).mp hnil)
    have hroom : l.rest.length < keyBufMax - 1 := by
      rw [List.length_append] at hmax hlast
      by_contra hlong
      have hends := (exists_concat_iff hended hl.rest).mp (hlast (by omega))
      rw [hends.2] at hlong
      exact hlong (by decide)
    refine iff_of_false ?_ fun hnone => hnone htodo
    rw [if_pos hroom, inOrder_iff todo (by rw [hlines, List.append_nil])]
    rintro ⟨hkept, -⟩
    have hlen := congrArg List.length hkept
    simp only [List.length_append, List.length_singleton] at hlen
    omega

/-! ### The condition, by the content -/

theorem Holding.keyBuf (h : Holding s content) (hidle : ¬ s.Takes) {j : Nat}
    (hj : j < content.length) : s.con.keyBuf j = content[j] := by
  have hholds := (h.has hidle).holds
  have hcell := hholds.getElem hj
  rw [Console.line_of_shown h.home] at hcell
  rw [← hcell]
  exact (lineBytes_of_lt (Nat.lt_of_lt_of_le hj hholds.length_le)).symm

theorem Holding.forall_ne_iff (h : Holding s content) (hidle : ¬ s.Takes) {m : Nat}
    (hm : m ≤ content.length) :
    (∀ j < m, s.con.keyBuf j ≠ 10) ↔ 10 ∉ content.take m := by
  constructor
  · intro hne hmem
    obtain ⟨j, hj, hget⟩ := List.getElem_of_mem hmem
    rw [List.length_take] at hj
    rw [List.getElem_take] at hget
    exact hne j (by omega) ((h.keyBuf hidle (by omega)).trans hget)
  · intro hmem j hj hten
    refine hmem (List.mem_take_iff_getElem.mpr ⟨j, by omega, ?_⟩)
    rw [← h.keyBuf hidle (by omega)]
    exact hten

theorem Holding.endsLine_iff (h : Holding s content) (hidle : ¬ s.Takes) :
    s.EndsLine ↔ ∃ cs, content = cs ++ [10] := by
  rw [Terminals.EndsLine, h.keyBufIdx hidle]
  constructor
  · rintro ⟨hpos, hten⟩
    rw [h.keyBuf hidle (by omega)] at hten
    refine ⟨content.dropLast, ?_⟩
    have hne := List.ne_nil_of_length_pos hpos
    rw [← hten, ← List.getLast_eq_getElem hne, List.dropLast_append_getLast]
  · rintro ⟨cs, rfl⟩
    refine ⟨by simp, ?_⟩
    rw [h.keyBuf hidle (by simp)]
    simp

/-- One line is in the line buffer. -/
theorem Holding.oneLine_iff (h : Holding s content) (hidle : ¬ s.Takes) :
    (s.EndsLine ∧ ∀ j < s.con.keyBufIdx - 1, s.con.keyBuf j ≠ 10) ↔ Ended 10 content := by
  rw [h.endsLine_iff hidle, h.keyBufIdx hidle, h.forall_ne_iff hidle (Nat.sub_le ..)]
  constructor
  · rintro ⟨⟨cs, rfl⟩, hfirst⟩
    refine ⟨cs, rfl, ?_⟩
    rwa [List.length_append, List.length_singleton, Nat.add_sub_cancel, List.take_left] at hfirst
  · rintro ⟨cs, rfl, hfirst⟩
    refine ⟨⟨cs, rfl⟩, ?_⟩
    rwa [List.length_append, List.length_singleton, Nat.add_sub_cancel, List.take_left]

/-! ### Runs -/

theorem Holding.inOrder_idle (h : Holding s content) (hidle : ¬ s.Takes) :
    InOrder l s.taking s.kept flag ↔ InOrder l [] content flag := by
  rw [Terminals.taking, Terminals.kept, if_neg hidle, if_neg hidle, h.waiting]

theorem Holding.inOrder_takes (h : Holding s content) (htakes : s.Takes) :
    InOrder l s.taking s.kept flag ↔ InOrder l [content] [] flag := by
  rw [Terminals.taking, Terminals.kept, if_pos htakes, if_pos htakes, h.waiting]

/-- The lines are in order exactly if the reads are right, since reads that can go on return. -/
theorem Holding.readsLines_iff_inOrder (h : Holding s content) :
    ReadsLines (s, l) ↔ InOrder l s.taking s.kept s.con.nowTerm.enterState := by
  refine ⟨fun hreads => hreads.inOrder, fun horder => ⟨horder, fun r hr hflag => ?_⟩⟩
  by_cases hwait : r.phase = .wait
  · exact returns_of_wakes h ⟨hflag hwait, r, hr, hwait⟩ l
  · exact returns_of_takes ⟨r, hr, hwait⟩ l

/-- A key keeps the lines in order exactly if it finds the room it needs. -/
theorem readsLines_key_iff {scancode : UInt8} (h : Holding s content) (hl : l.Typed)
    (hreads : ReadsLines (s, l)) (hidle : ¬ s.Takes) (hedit : s.con.EditKey scancode)
    (hs : s.step (.key scancode) = some s') :
    ReadsLines (s', l.edit s.con scancode) ↔ OneLineAtATime s (.key scancode) := by
  have horder := (h.inOrder_idle hidle).mp hreads.inOrder
  obtain ⟨heffect, hread⟩ := keyEffect h hidle hedit hs
  have hidle' : ¬ s'.Takes := by rwa [Terminals.Takes, hread]
  have hidx := h.keyBufIdx hidle
  -- the guard and the record of each kind of key
  cases heffect with
  | enter hkey hlt h' hflag =>
    rw [h'.readsLines_iff_inOrder, h'.inOrder_idle hidle', hflag]
    simp only [OneLineAtATime, TermLog.edit, hkey, hidx]
    exact iff_of_true horder.enter hlt
  | enterFull hkey hfull hs' =>
    subst hs'
    rw [h.readsLines_iff_inOrder, h.inOrder_idle hidle]
    simp only [OneLineAtATime, TermLog.edit, hkey, hidx]
    exact iff_of_false horder.not_enter hfull
  | backspace hkey h' hflag =>
    rw [h'.readsLines_iff_inOrder, h'.inOrder_idle hidle', hflag]
    simp only [OneLineAtATime, TermLog.edit, hkey, h.endsLine_iff hidle]
    exact horder.backspace_iff hl
  | typed hkey hchar hlt h' hflag =>
    rw [h'.readsLines_iff_inOrder, h'.inOrder_idle hidle', hflag]
    have hroom := Nat.lt_of_le_of_lt horder.rest_length_le hlt
    simp only [OneLineAtATime, TermLog.edit, hkey, hchar, hidx, if_pos hroom]
    exact iff_of_true (horder.typed _) fun _ hfull => by omega
  | full hkey hchar hfull hs' =>
    subst hs'
    rw [h.readsLines_iff_inOrder, h.inOrder_idle hidle]
    have hlast := h.forall_ne_iff hidle le_rfl
    rw [List.take_length] at hlast
    simp only [OneLineAtATime, TermLog.edit, hkey, hchar, hidx, Option.isSome_some, true_imp_iff,
      Nat.le_of_not_lt hfull, hlast]
    exact horder.full_iff hl hfull (h.has hidle).holds.length_le h.full _
  | unrecorded hsame hg h' hflag =>
    rw [h'.readsLines_iff_inOrder, h'.inOrder_idle hidle', hflag, hsame]
    exact iff_of_true horder hg

/-- A turn keeps the lines in order exactly if a read that leaves its wait loop finds one line. -/
theorem readsLines_turn_iff (h : Holding s content) (hl : l.Typed) (hreads : ReadsLines (s, l))
    (hs : s.step .turn = some s') :
    ReadsLines (s', editLine s .turn s' l) ↔ OneLineAtATime s .turn := by
  cases turnEffect h hs with
  | waits hwakes htakes h' htakes' hflag hlog =>
    rw [h'.readsLines_iff_inOrder, h'.inOrder_idle htakes', hflag, hlog]
    exact iff_of_true ((h.inOrder_idle htakes).mp hreads.inOrder) fun hw => absurd hw hwakes
  | wakes hwakes htakes h' htakes' hlog =>
    rw [h'.readsLines_iff_inOrder, h'.inOrder_takes htakes', hlog,
      ((h.inOrder_idle htakes).mp hreads.inOrder).taking_iff hl, ← h.oneLine_iff htakes]
    exact ⟨fun hone _ => hone, fun hone => hone hwakes⟩
  | goes hwakes htakes h' htakes' hlog =>
    rw [h'.readsLines_iff_inOrder, h'.inOrder_takes htakes', hlog, inOrder_taking_iff hl]
    exact iff_of_true
      ((inOrder_taking_iff hl).mp ((h.inOrder_takes htakes).mp hreads.inOrder))
      fun hw => absurd hw hwakes
  | returns hwakes htakes h' htakes' hlog =>
    rw [h'.readsLines_iff_inOrder, h'.inOrder_idle htakes', hlog]
    exact iff_of_true (((h.inOrder_takes htakes).mp hreads.inOrder).returned hl)
      fun hw => absurd hw hwakes

/-- A call of `term_read`. -/
theorem holding_read {length : Int} (h : Holding s content) (hlen : (keyBufMax : Int) ≤ length)
    (hs : s.step (.read length) = some s') :
    Holding s' content ∧ s'.con = s.con ∧ ¬ s.Takes ∧ ¬ s'.Takes := by
  simp only [Terminals.step] at hs
  split at hs
  · cases hs
  · rename_i hnone
    obtain rfl := Option.some.inj hs
    have hnone : s.nowReading = none := Option.not_isSome_iff_eq_none.mp hnone
    have hidle : ¬ s.Takes := not_takes_of_none hnone
    have hread : (s.setReading s.con.nowTermId (some ⟨length, .wait, []⟩)).nowReading =
        some ⟨length, .wait, []⟩ := Function.update_self ..
    refine ⟨⟨h.home, h.full, ?_⟩, rfl, hidle, ?_⟩
    · rw [hread]
      exact ⟨hlen, h.has hidle, rfl⟩
    · rw [takes_iff hread]
      simp

theorem holding_step (h : Holding s content) (hdom : OneReader s e) (hs : s.step e = some s') :
    ∃ content', Holding s' content' := by
  cases e with
  | key scancode =>
    obtain ⟨heffect, -⟩ := keyEffect h hdom.2 hdom.1 hs
    cases heffect with
    | enter _ _ h' => exact ⟨_, h'⟩
    | enterFull _ _ hs' => exact ⟨_, hs' ▸ h⟩
    | backspace _ h' => exact ⟨_, h'⟩
    | typed _ _ _ h' => exact ⟨_, h'⟩
    | full _ _ _ hs' => exact ⟨_, hs' ▸ h⟩
    | unrecorded _ _ h' => exact ⟨_, h'⟩
  | read length => exact ⟨_, (holding_read h hdom hs).1⟩
  | turn =>
    cases turnEffect h hs with
    | waits _ _ h' => exact ⟨_, h'⟩
    | wakes _ _ h' => exact ⟨_, h'⟩
    | goes _ _ h' => exact ⟨_, h'⟩
    | returns _ _ h' => exact ⟨_, h'⟩
  | tick => exact hdom.elim
  | launch => exact hdom.elim
  | halt => exact hdom.elim

/-- **One step** keeps the lines in order exactly under the guard. -/
theorem readsLines_step_iff (h : Holding s content) (hl : l.Typed) (hreads : ReadsLines (s, l))
    (hdom : OneReader s e) (hs : s.step e = some s') :
    ReadsLines (s', editLine s e s' l) ↔ OneLineAtATime s e := by
  cases e with
  | key scancode => exact readsLines_key_iff h hl hreads hdom.2 hdom.1 hs
  | read length =>
    obtain ⟨h', hcon, hidle, hidle'⟩ := holding_read h hdom hs
    refine iff_of_true ?_ trivial
    rw [h'.readsLines_iff_inOrder, h'.inOrder_idle hidle', hcon]
    exact (h.inOrder_idle hidle).mp hreads.inOrder
  | turn => exact readsLines_turn_iff h hl hreads hs
  | tick => exact hdom.elim
  | launch => exact hdom.elim
  | halt => exact hdom.elim

/-- The displayed terminal is the running one, its process is not in a read, and the line buffer is
empty. -/
structure NothingTyped (s : Terminals) : Prop where
  home : s.con.curTermId = some s.con.nowTermId
  reading : s.nowReading = none
  buf : ∀ j < keyBufMax, s.con.keyBuf j = 0
  idx : s.con.keyBufIdx = 0

theorem NothingTyped.holding (h : NothingTyped s) : Holding s [] := by
  refine ⟨h.home, (fun hlen => by cases hlen), ?_⟩
  rw [h.reading]
  change Line.Has _ _
  rw [Console.line_of_shown h.home]
  exact Line.has_nil (fun j hj => (lineBytes_of_lt hj).trans (h.buf j hj)) h.idx

/-- **Reads of lines.** For one terminal and its reader: each read returns one line as it was when
Enter was pressed, in order, and what was typed behind it is kept, exactly along the runs in which
reads find one line in the buffer, Backspace does not take away the end of a line, and what is typed
ahead finds room. -/
theorem readsLines_iff (h₀ : NothingTyped s) {es : List TermEvent}
    (hdom : Guarded editStep (fun x => OneReader x.1) (s, ⟨[], [], []⟩) es)
    (hrun : (run editStep (s, ⟨[], [], []⟩) es).isSome) :
    Along editStep ReadsLines (s, ⟨[], [], []⟩) es ↔
      Guarded editStep (fun x => OneLineAtATime x.1) (s, ⟨[], [], []⟩) es := by
  have hidle : ¬ s.Takes := not_takes_of_none h₀.reading
  refine along_iff_guarded (I := fun x => (∃ content, Holding x.1 content) ∧ x.2.Typed) ?_ ?_
    ⟨⟨[], h₀.holding⟩, nofun, nofun⟩ ?_ hdom hrun
  · rintro ⟨s, l⟩ e ⟨s', l'⟩ ⟨⟨content, h⟩, hl⟩ hdom hs
    obtain ⟨hstep, hlog⟩ := logged_eq_some.mp hs
    obtain rfl : l' = editLine s e s' l := hlog
    exact ⟨holding_step h hdom hstep, hl.editLine s e s'⟩
  · rintro ⟨s, l⟩ e ⟨s', l'⟩ ⟨⟨content, h⟩, hl⟩ hreads hdom hs
    obtain ⟨hstep, hlog⟩ := logged_eq_some.mp hs
    obtain rfl : l' = editLine s e s' l := hlog
    exact readsLines_step_iff h hl hreads hdom hstep
  · rw [h₀.holding.readsLines_iff_inOrder, h₀.holding.inOrder_idle hidle]
    exact ⟨[], rfl, rfl, fun hne => absurd rfl hne⟩

/-- Terminal 0 is displayed, its process is running, and nothing has been typed. -/
def quietTerminals : Terminals where
  con := {
    term := fun _ => ⟨0, 0, 0, fun _ => 0, 0, false, true, 0xB9000⟩
    curTermId := some 0
    nowTermId := 0
    keyBuf := fun _ => 0
    keyBufIdx := 0
    screen := ⟨fun _ => 0, 0, 0, video, 0⟩
    scancodeState := 0
    ctrlState := false
    altState := false }
  reading := fun _ => none

theorem quietTerminals_nothingTyped : NothingTyped quietTerminals :=
  ⟨rfl, rfl, fun _ _ => rfl, rfl⟩

/-- A line is corrected while a read waits, and the next one is begun before the next read. -/
def correctedEvents : List TermEvent :=
  [.read 128, .key 0x1E, .key 0x0E, .key 0x30, .key 0x1C] ++ List.replicate 134 .turn ++
    [.key 0x2E, .read 128]

theorem readsLines_iff_sample :
    Along editStep ReadsLines (quietTerminals, ⟨[], [], []⟩) correctedEvents := by
  have hguards : Guarded editStep (fun (x : Terminals × TermLog) => OneReader x.1)
        (quietTerminals, ⟨[], [], []⟩) correctedEvents ∧
      Guarded editStep (fun (x : Terminals × TermLog) => OneLineAtATime x.1)
        (quietTerminals, ⟨[], [], []⟩) correctedEvents ∧
      (run editStep (quietTerminals, ⟨[], [], []⟩) correctedEvents).isSome = true := by
    decide +kernel
  obtain ⟨hdom, hguard, hrun⟩ := hguards
  exact (readsLines_iff quietTerminals_nothingTyped hdom hrun).mpr hguard

/-- Two lines are typed ahead of the read. -/
def aheadEvents : List TermEvent :=
  [.key 0x1E, .key 0x1C, .key 0x30, .key 0x1C, .read 128] ++ List.replicate 136 .turn

/-- The read returns both. -/
theorem not_readsLines : ¬ ∀ s, NothingTyped s → ∀ es,
    Guarded editStep (fun (x : Terminals × TermLog) => OneReader x.1) (s, ⟨[], [], []⟩) es →
      ∀ x, run editStep (s, ⟨[], [], []⟩) es = some x → ReadsLines x := by
  intro hreads
  have hdom : Guarded editStep (fun (x : Terminals × TermLog) => OneReader x.1)
      (quietTerminals, ⟨[], [], []⟩) aheadEvents := by decide +kernel
  have hobs : (run editStep (quietTerminals, ⟨[], [], []⟩) aheadEvents).map (fun x =>
      (x.2.lines, x.2.delivered)) = some ([[97, 10], [98, 10]], [[97, 10, 98, 10]]) := by
    decide +kernel
  obtain ⟨x, hrun, hobs⟩ := Option.map_eq_some_iff.mp hobs
  obtain ⟨hlines, hdelivered⟩ := Prod.mk.inj hobs
  obtain ⟨todo, hsplit, -⟩ :=
    (hreads quietTerminals quietTerminals_nothingTyped aheadEvents hdom x hrun).inOrder
  rw [hlines, hdelivered] at hsplit
  -- the first line is not what has been returned first
  cases (List.cons.inj hsplit).1

end LinuxLikeKernel
