import LinuxLikeKernel.LineBuffer

/-!
# Typed lines

A log records what is typed at each terminal, and what the reads of its processes return. Every
line should come back whole, once, and where it was typed. The line buffer is shared, though:
a read that goes on while its terminal is not displayed takes the line of another one. All here is
about the system of terminals; `DeliveredLines` carries it over to the machine.

## Main definitions

- `lineStep` — a step, with a record of what is typed and what is returned
- `Delivers` — what has been typed at a terminal has been returned there, or waits there
- `LineGuard` — the line buffer is left alone while it belongs to someone else

## Main results

- `lineInv_step` — the step lemma
- `delivers_of_lineInv` — with the invariant all lines are delivered
- `busy_delivers`, `waiting_delivers` — a read that finds lines returns them
-/

namespace LinuxLikeKernel
open PaddedBuffer Transition

/-! ### The log -/

/-- What has been typed at a terminal, as the lines that were ended with Enter and the rest, and
what the reads of its processes have returned. -/
structure TermLog where
  lines : List (List UInt8)
  rest : List UInt8
  delivered : List (List UInt8)
  deriving DecidableEq

abbrev LineLog : Type := TermId → TermLog

/-- A key that is accepted, as its echo shows. Ctrl+C gives up the line that is being typed. -/
def TermLog.key (k : Console) (scancode : UInt8) (l : TermLog) : TermLog :=
  match decodeKey scancode with
  | .enter =>
    if k.keyBufIdx < keyBufMax then { l with lines := l.lines ++ [l.rest ++ [10]], rest := [] }
    else l
  | .backspace => if 0 < k.keyBufIdx then { l with rest := l.rest.dropLast } else l
  | .other =>
    match k.keyChar scancode with
    | none => l
    | some key =>
      if k.ctrlState then if key = 99 ∨ key = 67 then { l with rest := [] } else l
      else if k.keyBufIdx < keyBufMax - 1 then { l with rest := l.rest ++ [key] }
      else l
  | _ => l

/-- Keys go to the log of the displayed terminal, what a read returns to that of the running
one. -/
def logLine (s : Terminals) (e : TermEvent) (_ : Terminals) (log : LineLog) : LineLog :=
  match e with
  | .key scancode =>
    match s.con.curTermId with
    | some t => Function.update log t ((log t).key s.con scancode)
    | none => log
  | .turn =>
    match s.nowReading with
    | some r =>
      if (s.con.termReadTurn r.length r.phase).next.isNone then
        let l := log s.con.nowTermId
        Function.update log s.con.nowTermId { l with delivered := l.delivered ++ [r.got] }
      else log
    | none => log
  | _ => log

/-- A step that records what is typed and what is returned. -/
def lineStep : Terminals × LineLog → TermEvent → Option (Terminals × LineLog) :=
  logged Terminals.step logLine

/-! ### What should be delivered -/

namespace Terminals

/-- What has been typed at a terminal and not been returned: it is in the buffer of a read that
has done with the line buffer, or still in the line buffer. -/
def waiting (s : Terminals) (t : TermId) : List UInt8 :=
  match s.reading t with
  | some ⟨_, .clear _ _, got⟩ => got
  | _ => (List.range (s.con.line t).idx).map (s.con.line t).buf

/-- The next read of the terminal, or the one that is on its way, takes what is waiting. -/
def Awaited (s : Terminals) (t : TermId) : Prop :=
  (s.con.term t).enterState = true ∨ ∃ r, s.reading t = some r ∧ r.phase ≠ .wait

end Terminals

/-- Each read at the terminal has returned one or more whole lines, the lines that were typed
there are those, in order, and the ones that are still to be returned; nothing else is waiting,
but for the rest that was typed. -/
def Delivers (s : Terminals) (t : TermId) (l : TermLog) : Prop :=
  ∃ (groups : List (List (List UInt8))) (todo : List (List UInt8)),
    l.delivered = groups.map List.flatten ∧ (∀ g ∈ groups, g ≠ []) ∧
      l.lines = groups.flatten ++ todo ∧ s.waiting t = todo.flatten ++ l.rest ∧
        (todo ≠ [] → s.Awaited t)

/-! ### The condition -/

namespace Terminals

/-- Some read has left its wait loop and not returned. -/
def Busy (s : Terminals) : Prop := ∃ t, ∃ r ∈ s.reading t, r.phase ≠ .wait

instance (s : Terminals) : Decidable s.Busy :=
  inferInstanceAs (Decidable (∃ t : TermId, ∃ r ∈ s.reading t, _))

/-- The line buffer ends with the end of a line. -/
def EndsLine (s : Terminals) : Prop :=
  0 < s.con.keyBufIdx ∧ s.con.keyBuf (s.con.keyBufIdx - 1) = 10

instance (s : Terminals) : Decidable s.EndsLine := inferInstanceAs (Decidable (_ ∧ _))

/-- The next turn leaves the wait loop. -/
def Wakes (s : Terminals) : Prop :=
  s.con.nowTerm.enterState = true ∧ ∃ r ∈ s.nowReading, r.phase = .wait

instance (s : Terminals) : Decidable s.Wakes := inferInstanceAs (Decidable (_ ∧ _))

end Terminals

/-- A key that changes the line buffer is pressed when no read is busy with it, Backspace not
on an end of line, Ctrl+C not when there is one, Alt and a function key only to stay. -/
def KeyGuard (s : Terminals) (scancode : UInt8) : Prop :=
  match decodeKey scancode with
  | .enter => s.con.keyBufIdx < keyBufMax → ¬ s.Busy
  | .backspace => 0 < s.con.keyBufIdx → ¬ s.Busy ∧ ¬ s.EndsLine
  | .fn id => s.con.altState = true → s.con.curTermId ≠ some id → ¬ s.Busy
  | .other => ∀ key ∈ s.con.keyChar scancode,
    if s.con.ctrlState then
      (key = 99 ∨ key = 67) → ¬ s.Busy ∧ ∀ j < s.con.keyBufIdx, s.con.keyBuf j ≠ 10
    else s.con.keyBufIdx < keyBufMax - 1 → ¬ s.Busy
  | _ => True

instance (s : Terminals) (scancode : UInt8) : Decidable (KeyGuard s scancode) := by
  delta KeyGuard
  cases decodeKey scancode with
  | other => exact Option.decidableForallMem _
  | _ => infer_instance

/-- A read asks for 128 bytes or more, it leaves its wait loop while its terminal is displayed
with a line that is ended, and until it has returned it is alone with the line buffer, and no other
terminal is displayed; a process that halts finds the line buffer empty. -/
def LineGuard (s : Terminals) : TermEvent → Prop
  | .key scancode => KeyGuard s scancode
  | .tick => True
  | .launch => ¬ s.Busy
  | .read length => (keyBufMax : Int) ≤ length
  | .turn => s.Wakes → s.con.curTermId = some s.con.nowTermId ∧ s.EndsLine
  | .halt => ¬ s.Busy ∧ s.con.keyBufIdx = 0

instance (s : Terminals) (e : TermEvent) : Decidable (LineGuard s e) := by
  delta LineGuard
  cases e <;> infer_instance

/-! ### The invariant -/

/-- The line holds the bytes. -/
structure Line.Has (v : Line) (content : List UInt8) : Prop where
  holds : Holds keyBufMax 0 v.buf content
  idx : v.idx = content.length

/-- No read is busy with the line. -/
structure Line.Idle (v : Line) (todo : List (List UInt8)) (rest : List UInt8) : Prop where
  has : v.Has (todo.flatten ++ rest)
  enter : todo ≠ [] → v.enter = true

/-- A read is. -/
structure Line.Taken (v : Line) (todo : List (List UInt8)) (rest : List UInt8) : Prop where
  shown : v.shown = true
  ne_nil : todo ≠ []
  rest : rest = []

/-- The state of a line and of the read in its terminal, while the lines `todo` and the rest have
not been returned. -/
def Fits (v : Line) (r : Option Reading) (todo : List (List UInt8)) (rest : List UInt8) : Prop :=
  match r with
  | none => v.Idle todo rest
  | some r => (keyBufMax : Int) ≤ r.length ∧
    match r.phase with
    | .wait => v.Idle todo rest ∧ r.got = []
    | .woken => v.Taken todo rest ∧ v.Has todo.flatten ∧ r.got = []
    | .copy i => v.Taken todo rest ∧ v.Has todo.flatten ∧ i ≤ todo.flatten.length ∧
      r.got = todo.flatten.take i
    | .clear j _ => v.Taken todo rest ∧ r.got = todo.flatten ∧
      ∀ i < keyBufMax, i < j ∨ todo.flatten.length ≤ i → v.buf i = 0

/-- What the line and a read of its terminal hold between them, from the moment the read leaves its
wait loop. -/
def Line.Carries (v : Line) (r : Reading) (content : List UInt8) : Prop :=
  (keyBufMax : Int) ≤ r.length ∧
    match r.phase with
    | .wait => v.Has content ∧ r.got = []
    | .woken => v.Has content ∧ r.got = []
    | .copy i => v.Has content ∧ i ≤ content.length ∧ r.got = content.take i
    | .clear j _ => r.got = content ∧
      ∀ i < keyBufMax, i < j ∨ content.length ≤ i → v.buf i = 0

/-- The log of a terminal, against the lines that have been returned together. -/
structure Accounts (l : TermLog) (groups : List (List (List UInt8)))
    (todo : List (List UInt8)) : Prop where
  delivered : l.delivered = groups.map List.flatten
  ne_nil : ∀ g ∈ groups, g ≠ []
  lines : l.lines = groups.flatten ++ todo
  ended : ∀ line ∈ l.lines, ∃ cs, line = cs ++ [10]
  rest : ∀ b ∈ l.rest, b ≠ 10

/-- What holds of every terminal. -/
def LineInv (x : Terminals × LineLog) : Prop := ∀ t, ∃ groups todo,
  Accounts (x.2 t) groups todo ∧ Fits (x.1.con.line t) (x.1.reading t) todo (x.2 t).rest

variable {v v' : Line} {r : Option Reading} {todo : List (List UInt8)} {rest : List UInt8}

/-- With no read busy a line is idle, and a read that waits has nothing yet. -/
theorem fits_iff_idle (hq : ∀ x ∈ r, x.phase = .wait) :
    Fits v r todo rest ↔
      v.Idle todo rest ∧ ∀ x ∈ r, (keyBufMax : Int) ≤ x.length ∧ x.got = [] := by
  cases r with
  | none => simp [Fits]
  | some x =>
    obtain ⟨length, phase, got⟩ := x
    obtain rfl : phase = .wait := hq _ rfl
    simp only [Fits, Option.mem_some_iff, forall_eq']
    exact ⟨fun h => ⟨h.2.1, h.1, h.2.2⟩, fun h => ⟨h.2.1, h.1, h.2.2⟩⟩

/-- What happens to a line that no read is busy with. -/
theorem Fits.idle_of_idle {todo' : List (List UInt8)} {rest' : List UInt8}
    (h : Fits v r todo rest) (hq : ∀ x ∈ r, x.phase = .wait)
    (hidle : v.Idle todo rest → v'.Idle todo' rest') : Fits v' r todo' rest' :=
  (fits_iff_idle hq).mpr (((fits_iff_idle hq).mp h).imp_left hidle)

/-- With a read busy the line and the read carry the lines to return. -/
theorem fits_iff_carries {x : Reading} (hb : x.phase ≠ .wait) :
    Fits v (some x) todo rest ↔ v.Taken todo rest ∧ v.Carries x todo.flatten := by
  obtain ⟨length, phase, got⟩ := x
  cases phase with
  | wait => exact absurd rfl hb
  | _ => exact and_left_comm

/-- A terminal whose read is busy is displayed. -/
theorem Fits.shown (h : Fits v r todo rest) {x : Reading} (hx : x ∈ r) (hb : x.phase ≠ .wait) :
    v.shown = true := by
  obtain rfl := Option.mem_def.mp hx
  exact ((fits_iff_carries hb).mp h).1.shown

theorem not_busy_iff {s : Terminals} :
    ¬ s.Busy ↔ ∀ t, ∀ x ∈ s.reading t, x.phase = .wait := by
  simp only [Terminals.Busy, not_exists, not_and, ne_eq, not_not]

/-! ### Contents -/

variable {content : List UInt8}

theorem Line.Has.typed (h : v.Has content) {b : UInt8} (hlt : v.idx < keyBufMax) (hb : b ≠ 0) :
    (v.typed b).Has (content ++ [b]) := by
  obtain ⟨hholds, hidx⟩ := h
  refine ⟨?_, by simp [Line.typed, hidx]⟩
  rw [Line.typed, hidx]
  exact hholds.concat (hidx ▸ hlt) hb

theorem Line.Has.erased (h : v.Has content) : v.erased.Has content.dropLast := by
  obtain ⟨hholds, hidx⟩ := h
  refine ⟨?_, by simp [Line.erased, hidx]⟩
  rw [Line.erased, hidx]
  exact hholds.dropLast

theorem Line.has_nil {v : Line} (hbuf : ∀ j < keyBufMax, v.buf j = 0) (hidx : v.idx = 0) :
    v.Has [] := ⟨holds_nil hbuf, hidx⟩

theorem Line.Has.waiting (h : v.Has content) : (List.range v.idx).map v.buf = content := by
  rw [h.idx]
  exact h.holds.map_range

/-- The last byte of a line that is not empty. -/
theorem Line.Has.getLast (h : v.Has content) (hpos : 0 < v.idx) :
    ∃ hne : content ≠ [], v.buf (v.idx - 1) = content.getLast hne := by
  have hne : content ≠ [] := by
    rintro rfl
    rw [h.idx] at hpos
    exact Nat.lt_irrefl _ hpos
  refine ⟨hne, ?_⟩
  rw [h.idx]
  exact h.holds.getLast hne

section ended

variable {l : TermLog} {groups : List (List (List UInt8))}

theorem Accounts.ended_todo (ha : Accounts l groups todo) {line : List UInt8} (h : line ∈ todo) :
    ∃ cs, line = cs ++ [10] := ha.ended line (ha.lines ▸ List.mem_append_right _ h)

theorem Accounts.flatten_ne_nil (ha : Accounts l groups todo) (h : todo ≠ []) :
    todo.flatten ≠ [] := by
  obtain ⟨line, hline⟩ := List.exists_mem_of_ne_nil _ h
  obtain ⟨cs, rfl⟩ := ha.ended_todo hline
  intro hnil
  have := List.flatten_eq_nil_iff.mp hnil _ hline
  simp at this

/-- The last byte ends a line exactly if nothing has been typed since. -/
theorem Accounts.getLast_iff (ha : Accounts l groups todo) (hne : todo.flatten ++ l.rest ≠ []) :
    (todo.flatten ++ l.rest).getLast hne = 10 ↔ l.rest = [] := by
  by_cases hrest : l.rest = []
  · have htodo : todo ≠ [] := by
      rintro rfl
      exact hne (by simpa using hrest)
    refine iff_of_true ?_ hrest
    obtain ⟨cs, hcs⟩ := ha.ended_todo (List.getLast_mem htodo)
    have hsplit : todo.flatten ++ l.rest = (todo.dropLast.flatten ++ cs) ++ [10] := by
      rw [hrest, List.append_nil, List.append_assoc, ← hcs]
      conv_lhs => rw [← List.dropLast_append_getLast htodo]
      simp
    simp only [hsplit, List.getLast_append_singleton]
  · refine iff_of_false ?_ hrest
    rw [List.getLast_append_of_ne_nil hne hrest]
    exact ha.rest _ (List.getLast_mem hrest)

end ended

/-! ### Keys -/

variable {s s' : Terminals} {log : LineLog}

/-- The line buffer ends with the end of a line exactly if there are lines to return and nothing
has been typed since. -/
theorem Accounts.endsLine_iff {t : TermId} {l : TermLog} {groups : List (List (List UInt8))}
    (ha : Accounts l groups todo) (hidle : (s.con.line t).Idle todo l.rest)
    (hcur : s.con.curTermId = some t) : s.EndsLine ↔ todo ≠ [] ∧ l.rest = [] := by
  have hline := Console.line_of_shown hcur
  have hidx : (s.con.line t).idx = s.con.keyBufIdx := by rw [hline]
  have hlen : s.con.keyBufIdx = (todo.flatten ++ l.rest).length := hidx ▸ hidle.has.idx
  have hle : s.con.keyBufIdx ≤ keyBufMax := hlen ▸ hidle.has.holds.length_le
  by_cases hpos : 0 < s.con.keyBufIdx
  · obtain ⟨hne, hlast⟩ := hidle.has.getLast (hidx ▸ hpos)
    rw [hline] at hlast
    change lineBytes s.con.keyBuf (s.con.keyBufIdx - 1) = _ at hlast
    rw [lineBytes_of_lt (by omega)] at hlast
    constructor
    · rintro ⟨-, hten⟩
      have hrest := (ha.getLast_iff hne).mp (hlast.symm.trans hten)
      refine ⟨?_, hrest⟩
      rintro rfl
      exact hne (by simpa using hrest)
    · rintro ⟨-, hrest⟩
      exact ⟨hpos, hlast.trans ((ha.getLast_iff hne).mpr hrest)⟩
  · refine iff_of_false (fun h => hpos h.1) ?_
    rintro ⟨htodo, -⟩
    have hne := ha.flatten_ne_nil htodo
    rw [List.length_append] at hlen
    have := List.length_pos_of_ne_nil hne
    omega

theorem logLine_key (s s' : Terminals) (scancode : UInt8) (log : LineLog) (t : TermId) :
    logLine s (.key scancode) s' log t =
      if s.con.curTermId = some t then (log t).key s.con scancode else log t := by
  simp only [logLine]
  cases hcur : s.con.curTermId with
  | none => simp
  | some d =>
    by_cases ht : t = d
    · subst ht
      simp
    · have hne : d ≠ t := Ne.symm ht
      simp [Function.update_of_ne ht, hne]

/-- An event that changes neither the lines nor the reads. -/
theorem LineInv.of_eq (h : LineInv (s, log)) (hline : ∀ t, s'.con.line t = s.con.line t)
    (hread : s'.reading = s.reading) : LineInv (s', log) := by
  intro t
  obtain ⟨groups, todo, ha, hf⟩ := h t
  refine ⟨groups, todo, ha, ?_⟩
  show Fits (s'.con.line t) (s'.reading t) todo (log t).rest
  rw [hline, hread]
  exact hf

theorem LineInv.of_log {log' : LineLog} (h : LineInv (s, log)) (hlog : ∀ t, log' t = log t) :
    LineInv (s, log') := (funext hlog : log' = log) ▸ h

/-- Enter, where the line has room for it. -/
theorem lineInv_keyEnter (h : LineInv (s, log)) {k : Console} (hk : s.con.keyEnter = some k)
    (hlt : s.con.keyBufIdx < keyBufMax) (hfree : ¬ s.Busy) :
    LineInv ({ s with con := k }, fun t => if s.con.curTermId = some t then
      { log t with lines := (log t).lines ++ [(log t).rest ++ [10]], rest := [] } else log t) := by
  intro t
  obtain ⟨groups, todo, ha, hf⟩ := h t
  have hq := not_busy_iff.mp hfree t
  by_cases ht : s.con.curTermId = some t
  · refine ⟨groups, todo ++ [(log t).rest ++ [10]], ?_, ?_⟩
    · simp only [if_pos ht]
      refine ⟨ha.delivered, ha.ne_nil, ?_, ?_, fun b hb => by cases hb⟩
      · rw [ha.lines, List.append_assoc]
      · intro line hline
        obtain hline | hline := List.mem_append.mp hline
        · exact ha.ended line hline
        · exact ⟨_, List.mem_singleton.mp hline⟩
    · simp only [if_pos ht, Console.line_keyEnter_of_shown hk hlt ht]
      refine hf.idle_of_idle hq fun hidle => ⟨?_, fun _ => rfl⟩
      have hidx : (s.con.line t).idx < keyBufMax := by
        rwa [Console.line_of_shown ht]
      have htyped := hidle.has.typed hidx (b := 10) (by decide)
      have hcontent : (todo ++ [(log t).rest ++ [10]]).flatten ++ [] =
          todo.flatten ++ (log t).rest ++ [10] := by simp
      rw [hcontent]
      exact ⟨htyped.holds, htyped.idx⟩
  · refine ⟨groups, todo, ?_, ?_⟩
    · simpa only [if_neg ht] using ha
    · simpa only [if_neg ht, Console.line_keyEnter_of_not_shown hk ht] using hf

/-- Backspace, on a character of the line that is being typed. -/
theorem lineInv_keyBackspace (h : LineInv (s, log)) (hpos : 0 < s.con.keyBufIdx)
    (hfree : ¬ s.Busy) (hend : ¬ s.EndsLine) :
    LineInv ({ s with con := s.con.keyBackspace }, fun t => if s.con.curTermId = some t then
      { log t with rest := (log t).rest.dropLast } else log t) := by
  intro t
  obtain ⟨groups, todo, ha, hf⟩ := h t
  have hq := not_busy_iff.mp hfree t
  by_cases ht : s.con.curTermId = some t
  · refine ⟨groups, todo, ?_, ?_⟩
    · simp only [if_pos ht]
      exact ⟨ha.delivered, ha.ne_nil, ha.lines, ha.ended,
        fun b hb => ha.rest b (List.dropLast_subset _ hb)⟩
    · have hidle := ((fits_iff_idle hq).mp hf).1
      have hline := Console.line_of_shown ht
      have hidx : (s.con.line t).idx = s.con.keyBufIdx := by rw [hline]
      have hlen : s.con.keyBufIdx = (todo.flatten ++ (log t).rest).length :=
        hidx ▸ hidle.has.idx
      have hle : s.con.keyBufIdx ≤ keyBufMax := hlen ▸ hidle.has.holds.length_le
      -- the last byte does not end a line, so it has been typed since
      have hrest : (log t).rest ≠ [] := by
        intro hnil
        refine hend ((ha.endsLine_iff hidle ht).mpr ⟨?_, hnil⟩)
        rintro rfl
        simp only [hnil, List.flatten_nil, List.append_nil, List.length_nil] at hlen
        omega
      simp only [if_pos ht, Console.line_keyBackspace_of_shown hpos hle ht]
      refine hf.idle_of_idle hq fun hidle => ⟨?_, hidle.enter⟩
      rw [← List.dropLast_append_of_ne_nil hrest]
      exact hidle.has.erased
  · refine ⟨groups, todo, ?_, ?_⟩
    · simpa only [if_neg ht] using ha
    · simpa only [if_neg ht, Console.line_keyBackspace_of_not_shown ht] using hf

/-- A character, where the line has room for it. -/
theorem lineInv_typed (h : LineInv (s, log)) {key : UInt8} {sc : Screen}
    (hlt : s.con.keyBufIdx < keyBufMax - 1) (hfree : ¬ s.Busy) (hzero : key ≠ 0)
    (hten : key ≠ 10) :
    LineInv ({ s with con := { s.con with
        keyBuf := Function.update s.con.keyBuf s.con.keyBufIdx key
        keyBufIdx := s.con.keyBufIdx + 1
        screen := sc } }, fun t => if s.con.curTermId = some t then
      { log t with rest := (log t).rest ++ [key] } else log t) := by
  intro t
  obtain ⟨groups, todo, ha, hf⟩ := h t
  have hq := not_busy_iff.mp hfree t
  by_cases ht : s.con.curTermId = some t
  · refine ⟨groups, todo, ?_, ?_⟩
    · simp only [if_pos ht]
      refine ⟨ha.delivered, ha.ne_nil, ha.lines, ha.ended, fun b hb => ?_⟩
      obtain hb | hb := List.mem_append.mp hb
      · exact ha.rest b hb
      · rwa [List.mem_singleton.mp hb]
    · simp only [if_pos ht, Console.line_typed_of_shown (show _ < keyBufMax by omega) ht]
      refine hf.idle_of_idle hq fun hidle => ⟨?_, hidle.enter⟩
      have hidx : (s.con.line t).idx < keyBufMax := by
        rw [Console.line_of_shown ht]
        simp only
        omega
      rw [← List.append_assoc]
      exact hidle.has.typed hidx hzero
  · refine ⟨groups, todo, ?_, ?_⟩
    · simpa only [if_neg ht] using ha
    · simp only [if_neg ht]
      have hline : Console.line { s.con with
          keyBuf := Function.update s.con.keyBuf s.con.keyBufIdx key
          keyBufIdx := s.con.keyBufIdx + 1
          screen := sc } t = s.con.line t :=
        Console.line_congr rfl rfl fun h' => absurd h' ht
      rw [hline]
      exact hf

/-- A switch. -/
theorem lineInv_termSwitch (h : LineInv (s, log)) {id : TermId} {k : Console}
    (hk : s.con.termSwitch s.con.curTermId id = some k)
    (hfree : s.con.curTermId ≠ some id → ¬ s.Busy) : LineInv ({ s with con := k }, log) := by
  by_cases hcur : s.con.curTermId = some id
  · refine h.of_eq (fun t => ?_) rfl
    rw [Console.line_termSwitch hk]
    refine Line.ext ?_ rfl rfl rfl
    simp only [Console.line, hcur, Option.some.injEq]
    exact decide_eq_decide.mpr eq_comm
  · intro t
    obtain ⟨groups, todo, ha, hf⟩ := h t
    refine ⟨groups, todo, ha, ?_⟩
    simp only [Console.line_termSwitch hk]
    exact hf.idle_of_idle (not_busy_iff.mp (hfree hcur) t)
      fun hidle => ⟨⟨hidle.has.holds, hidle.has.idx⟩, hidle.enter⟩

/-- A launch, which displays another terminal. -/
theorem lineInv_launch (h : LineInv (s, log)) (hfree : ¬ s.Busy) :
    LineInv ({ s with con := s.con.launchNext }, log) := by
  intro t
  obtain ⟨groups, todo, ha, hf⟩ := h t
  refine ⟨groups, todo, ha, ?_⟩
  simp only [Console.line_launchNext]
  exact hf.idle_of_idle (not_busy_iff.mp hfree t)
    fun hidle => ⟨⟨hidle.has.holds, hidle.has.idx⟩, hidle.enter⟩

/-- `halt`, when the line buffer is empty. -/
theorem lineInv_halt (h : LineInv (s, log)) (hfree : ¬ s.Busy) (hidx : s.con.keyBufIdx = 0) :
    LineInv (s.halt, log) := by
  intro t
  obtain ⟨groups, todo, ha, hf⟩ := h t
  have hq := not_busy_iff.mp hfree t
  have hidle : (s.con.bufClear.line t).Idle todo (log t).rest := by
    have hidle := ((fits_iff_idle hq).mp hf).1
    by_cases ht : s.con.curTermId = some t
    · have hnil : todo.flatten ++ (log t).rest = [] := by
        have hlen := hidle.has.idx
        rw [Console.line_of_shown ht] at hlen
        exact List.length_eq_zero_iff.mp (hlen.symm.trans hidx)
      rw [Console.line_bufClear_of_shown ht]
      refine ⟨?_, hidle.enter⟩
      rw [hnil]
      exact Line.has_nil (fun _ _ => rfl) rfl
    · rw [Console.line_bufClear_of_not_shown ht]
      exact hidle
  refine ⟨groups, todo, ha, ?_⟩
  show Fits (s.con.bufClear.line t) (s.halt.reading t) todo (log t).rest
  by_cases ht : t = s.con.nowTermId
  · subst ht
    simpa [Terminals.halt, Terminals.setReading, Fits] using hidle
  · have hread : s.halt.reading t = s.reading t := Function.update_of_ne ht ..
    rw [hread]
    exact hf.idle_of_idle hq fun _ => hidle

/-- Ctrl+C, on a line that has not been ended. -/
theorem lineInv_giveUp (h : LineInv (s, log)) (hfree : ¬ s.Busy)
    (hno : ∀ j < s.con.keyBufIdx, s.con.keyBuf j ≠ 10) :
    LineInv ({ s with con := s.con.bufClear }, fun t => if s.con.curTermId = some t then
      { log t with rest := [] } else log t) := by
  intro t
  obtain ⟨groups, todo, ha, hf⟩ := h t
  have hq := not_busy_iff.mp hfree t
  by_cases ht : s.con.curTermId = some t
  · have hidle := ((fits_iff_idle hq).mp hf).1
    have hline := Console.line_of_shown ht
    -- a line that has been ended would have its end in the line buffer
    have htodo : todo = [] := by
      by_contra hne
      obtain ⟨cs, hcs⟩ := ha.ended_todo (List.getLast_mem hne)
      have hten : (10 : UInt8) ∈ todo.flatten ++ (log t).rest := by
        refine List.mem_append_left _ (List.mem_flatten.mpr ⟨_, List.getLast_mem hne, ?_⟩)
        rw [hcs]
        exact List.mem_append_right _ List.mem_cons_self
      obtain ⟨j, hj, hget⟩ := List.getElem_of_mem hten
      have hidx : s.con.keyBufIdx = (todo.flatten ++ (log t).rest).length := by
        have := hidle.has.idx
        rwa [hline] at this
      have hcell := hidle.has.holds.getElem hj
      rw [hline] at hcell
      change lineBytes s.con.keyBuf j = _ at hcell
      have hlt : j < keyBufMax := Nat.lt_of_lt_of_le hj hidle.has.holds.length_le
      rw [lineBytes_of_lt hlt, hget] at hcell
      exact hno j (hidx ▸ hj) hcell
    subst htodo
    refine ⟨groups, [], ?_, ?_⟩
    · simp only [if_pos ht]
      exact ⟨ha.delivered, ha.ne_nil, ha.lines, ha.ended, fun b hb => by cases hb⟩
    · simp only [if_pos ht, Console.line_bufClear_of_shown ht]
      exact hf.idle_of_idle hq fun _ =>
        ⟨Line.has_nil (fun _ _ => rfl) rfl, fun hne => absurd rfl hne⟩
  · refine ⟨groups, todo, ?_, ?_⟩
    · simpa only [if_neg ht] using ha
    · simpa only [if_neg ht, Console.line_bufClear_of_not_shown ht] using hf

/-- The characters of the scan code table. -/
theorem keyChar_ne {k : Console} {scancode key : UInt8} (h : k.keyChar scancode = some key) :
    key ≠ 0 ∧ key ≠ 10 := by
  have htable : ∀ row ∈ scancodeMap, 10 ∉ row := by decide
  simp only [Console.keyChar] at h
  split at h
  · cases h
  · split at h
    · cases h
    · rename_i hzero
      obtain rfl := Option.some.inj h
      refine ⟨fun hz => hzero (.inl hz), fun hten => ?_⟩
      -- an entry of the table is 0 or in one of its rows
      by_cases hrow : k.scancodeState.toNat < scancodeMap.length
      · by_cases hcol : scancode.toNat < scancodeMap[k.scancodeState.toNat].length
        · rw [List.getD_eq_getElem _ _ hrow, List.getD_eq_getElem _ _ hcol] at hten
          exact htable _ (List.getElem_mem hrow) (hten ▸ List.getElem_mem hcol)
        · rw [List.getD_eq_getElem _ _ hrow,
            List.getD_eq_default _ _ (Nat.le_of_not_lt hcol)] at hten
          cases hten
      · rw [List.getD_eq_default _ _ (Nat.le_of_not_lt hrow)] at hten
        cases hten

/-- What the log records of a character. -/
theorem TermLog.key_char {k : Console} {scancode key : UInt8} (hkey : decodeKey scancode = .other)
    (hchar : k.keyChar scancode = some key) (l : TermLog) : l.key k scancode =
      if k.ctrlState then if key = 99 ∨ key = 67 then { l with rest := [] } else l
      else if k.keyBufIdx < keyBufMax - 1 then { l with rest := l.rest ++ [key] }
      else l := by
  simp only [TermLog.key, hkey, hchar]

/-- A key that the log does not record. -/
theorem LineInv.unrecorded {scancode : UInt8} (h : LineInv (s', log))
    (hkey : ∀ l : TermLog, l.key s.con scancode = l) :
    LineInv (s', logLine s (.key scancode) s' log) := by
  refine h.of_log fun t => ?_
  rw [logLine_key, hkey, ite_self]

/-- A character that is allowed. -/
theorem lineInv_char {scancode key : UInt8} (h : LineInv (s, log)) (hg : KeyGuard s scancode)
    (hkey : decodeKey scancode = .other) (hchar : s.con.keyChar scancode = some key)
    {k : Console} {ctrlC : Bool} (hk : CharStep s.con key k ctrlC)
    (hs' : s' = if ctrlC then ({ s with con := k } : Terminals).halt else { s with con := k }) :
    LineInv (s', logLine s (.key scancode) s' log) := by
  have hrecord := TermLog.key_char hkey hchar
  obtain ⟨hzero, hten⟩ := keyChar_ne hchar
  simp only [KeyGuard, hkey] at hg
  have hallowed := hg key hchar
  subst hs'
  cases hk with
  | clear hctrl hl =>
    -- Ctrl+L leaves the line, and it is not Ctrl+C
    have hc : ¬(key = 99 ∨ key = 67) := by
      obtain rfl | rfl := hl
      · decide
      · decide
    apply LineInv.unrecorded
    · exact h.of_eq (fun t => Console.line_congr rfl rfl fun _ => ⟨rfl, rfl⟩) rfl
    · intro l
      rw [hrecord, if_pos hctrl, if_neg hc]
  | ctrlC hctrl hc =>
    -- the line that is given up has not been ended
    rw [if_pos hctrl] at hallowed
    obtain ⟨hfree, hno⟩ := hallowed hc
    refine LineInv.of_log (lineInv_halt (lineInv_giveUp h hfree hno) ?_ rfl) fun t => ?_
    · exact not_busy_iff.mpr (not_busy_iff.mp hfree)
    · rw [logLine_key, hrecord, if_pos hctrl, if_pos hc]
  | shortcut hctrl hl hc =>
    apply LineInv.unrecorded
    · exact h
    · intro l
      rw [hrecord, if_pos hctrl, if_neg hc]
  | typed hctrl hlt =>
    have hctrl : ¬ s.con.ctrlState = true := Bool.eq_false_iff.mp hctrl
    rw [if_neg hctrl] at hallowed
    refine (lineInv_typed h hlt (hallowed hlt) hzero hten).of_log fun t => ?_
    rw [logLine_key, hrecord, if_neg hctrl, if_pos hlt]
  | full hctrl hfull =>
    have hctrl : ¬ s.con.ctrlState = true := Bool.eq_false_iff.mp hctrl
    apply LineInv.unrecorded
    · exact h
    · intro l
      rw [hrecord, if_neg hctrl, if_neg hfull]

/-- A key that is allowed. -/
theorem lineInv_key {scancode : UInt8} (h : LineInv (s, log)) (hg : KeyGuard s scancode)
    (hs : s.step (.key scancode) = some s') :
    LineInv (s', logLine s (.key scancode) s' log) := by
  obtain ⟨⟨k, ctrlC⟩, hk, rfl⟩ := Option.map_eq_some_iff.mp hs
  cases keyStep hk with
  | modifier _ _ _ hkey =>
    apply LineInv.unrecorded
    · exact h.of_eq (fun t => Console.line_congr rfl rfl fun _ => ⟨rfl, rfl⟩) rfl
    · intro l
      cases hdecode : decodeKey scancode with
      | enter => simp [hdecode, Key.isModifier] at hkey
      | backspace => simp [hdecode, Key.isModifier] at hkey
      | other => simp [hdecode, Key.isModifier] at hkey
      | _ => simp only [TermLog.key, hdecode]
  | enter hkey henter =>
    simp only [KeyGuard, hkey] at hg
    by_cases hlt : s.con.keyBufIdx < keyBufMax
    · refine (lineInv_keyEnter h henter hlt (hg hlt)).of_log fun t => ?_
      simp only [logLine_key, TermLog.key, hkey, if_pos hlt]
    · -- a full buffer takes no newline, and the flag is not set
      rw [Console.keyEnter, if_neg hlt] at henter
      obtain rfl := Option.some.inj henter
      apply LineInv.unrecorded
      · exact h
      · intro l
        simp only [TermLog.key, hkey, if_neg hlt]
  | backspace hkey =>
    simp only [KeyGuard, hkey] at hg
    by_cases hpos : 0 < s.con.keyBufIdx
    · refine (lineInv_keyBackspace h hpos (hg hpos).1 (hg hpos).2).of_log fun t => ?_
      simp only [logLine_key, TermLog.key, hkey, if_pos hpos]
    · apply LineInv.unrecorded
      · rw [Console.keyBackspace, if_neg hpos]
        exact h
      · intro l
        simp only [TermLog.key, hkey, if_neg hpos]
  | switch hkey halt hswitch =>
    simp only [KeyGuard, hkey] at hg
    apply LineInv.unrecorded
    · exact lineInv_termSwitch h hswitch (hg halt)
    · intro l
      simp only [TermLog.key, hkey]
  | fn hkey _ =>
    apply LineInv.unrecorded
    · exact h
    · intro l
      simp only [TermLog.key, hkey]
  | noChar hkey hchar =>
    apply LineInv.unrecorded
    · exact h
    · intro l
      simp only [TermLog.key, hkey, hchar]
  | char hkey hchar hstep => exact lineInv_char h hg hkey hchar hstep rfl

/-! ### Turns -/

/-- A turn of `term_read` shows no other terminal, and the process that reads is on its own. -/
theorem ids_termReadTurn (k : Console) (length : Int) (phase : ReadPhase) :
    (k.termReadTurn length phase).con.nowTermId = k.nowTermId ∧
      (k.termReadTurn length phase).con.curTermId = k.curTermId := by
  cases phase with
  | wait => exact ⟨rfl, rfl⟩
  | woken => exact ⟨rfl, rfl⟩
  | copy i =>
    simp only [Console.termReadTurn]
    split <;> exact ⟨rfl, rfl⟩
  | clear j count =>
    simp only [Console.termReadTurn]
    split <;> exact ⟨rfl, rfl⟩

/-- A read that has left its wait loop does not go back. -/
theorem next_ne_wait {k : Console} {length : Int} {phase next : ReadPhase} (hb : phase ≠ .wait)
    (hnext : (k.termReadTurn length phase).next = some next) : next ≠ .wait := by
  rintro rfl
  cases phase with
  | wait => exact hb rfl
  | woken => cases hnext
  | copy i =>
    simp only [Console.termReadTurn] at hnext
    split at hnext <;> cases hnext
  | clear j count =>
    simp only [Console.termReadTurn] at hnext
    split at hnext <;> cases hnext

section turns

variable {k : Console} {length : Int} {phase next : ReadPhase} {got : List UInt8}

/-- A turn of the read of the displayed terminal leaves the other lines. -/
theorem Console.line_turn_of_ne {t : TermId} (hcur : k.curTermId = some k.nowTermId)
    (ht : t ≠ k.nowTermId) : (k.termReadTurn length phase).con.line t = k.line t := by
  have hne : k.curTermId ≠ some t := fun he => ht (Option.some.inj (hcur.symm.trans he)).symm
  cases phase with
  | wait => rfl
  | woken => exact (line_resetEnter _ _).trans (if_neg ht)
  | copy i =>
    simp only [termReadTurn]
    split <;> rfl
  | clear j count =>
    simp only [termReadTurn]
    split
    · exact line_setLine_of_not_shown hne ..
    · exact line_setLine_of_not_shown hne ..

/-- A turn of a busy read, before its last one. The copy loop ends where the content does. -/
theorem Line.Carries.after (h : (k.line k.nowTermId).Carries ⟨length, phase, got⟩ content)
    (hcur : k.curTermId = some k.nowTermId) (hb : phase ≠ .wait)
    (hnext : (k.termReadTurn length phase).next = some next) :
    ((k.termReadTurn length phase).con.line k.nowTermId).Carries
      ⟨length, next, got ++ (k.termReadTurn length phase).stored.toList.map Prod.snd⟩ content := by
  obtain ⟨hlen, h⟩ := h
  cases phase with
  | wait => exact absurd rfl hb
  | woken =>
    obtain rfl := Option.some.inj hnext
    obtain ⟨hhas, rfl⟩ := h
    change Line.Carries ((k.setTerm k.nowTermId _).line k.nowTermId) _ _
    rw [Console.line_resetEnter, if_pos rfl]
    exact ⟨hlen, ⟨hhas.holds, hhas.idx⟩, Nat.zero_le _, rfl⟩
  | copy i =>
    obtain ⟨hhas, hle, rfl⟩ := h
    have hbuf : ∀ j < keyBufMax, (k.line k.nowTermId).buf j = k.keyBuf j := by
      intro j hj
      rw [Console.line_of_shown hcur]
      exact lineBytes_of_lt hj
    by_cases hcopy : i < keyBufMax ∧ (i : Int) < length ∧ k.keyBuf i ≠ 0
    · simp only [Console.termReadTurn, if_pos hcopy] at hnext ⊢
      obtain rfl := Option.some.inj hnext
      have hlt : i < content.length := by
        by_contra hge
        refine hcopy.2.2 ((hbuf i hcopy.1).symm.trans ?_)
        exact (hhas.holds.eq_pad_iff hcopy.1).mpr (Nat.le_of_not_lt hge)
      refine ⟨hlen, hhas, hlt, ?_⟩
      change content.take i ++ [k.keyBuf i] = _
      rw [← hbuf i hcopy.1, hhas.holds.getElem hlt, List.take_append_getElem hlt]
    · simp only [Console.termReadTurn, if_neg hcopy] at hnext ⊢
      obtain rfl := Option.some.inj hnext
      have hmax := hhas.holds.length_le
      -- all of the content has been copied
      have hall : i = content.length := by
        by_contra hne
        have hi : i < keyBufMax := by omega
        refine hcopy ⟨hi, by simp only at hlen; omega, fun hz => ?_⟩
        have := (hhas.holds.eq_pad_iff hi).mp ((hbuf i hi).trans hz)
        omega
      refine ⟨hlen, ?_, fun j hj hout => ?_⟩
      · change content.take i ++ [] = _
        rw [hall, List.take_length, List.append_nil]
      · exact (hhas.holds.eq_pad_iff hj).mpr (hout.resolve_left (Nat.not_lt_zero j))
  | clear j count =>
    obtain ⟨rfl, hzero⟩ := h
    simp only [Console.termReadTurn] at hnext ⊢
    split at hnext
    · rename_i hj
      obtain rfl := Option.some.inj hnext
      rw [if_pos hj]
      change Line.Carries (Console.line { k with keyBuf := Function.update k.keyBuf j 0 } _) _ _
      rw [Console.line_clearByte hj hcur]
      refine ⟨hlen, List.append_nil _, fun i hi hout => ?_⟩
      by_cases hij : i = j
      · subst hij
        exact Function.update_self ..
      · exact (Function.update_of_ne hij ..).trans
          (hzero i hi (hout.imp_left fun h => by omega))
    · cases hnext

/-- A read that returns gives what was carried, and leaves an empty line. -/
theorem Line.Carries.ends (h : (k.line k.nowTermId).Carries ⟨length, phase, got⟩ content)
    (hcur : k.curTermId = some k.nowTermId) (hb : phase ≠ .wait)
    (hnext : (k.termReadTurn length phase).next = none) :
    got = content ∧ ((k.termReadTurn length phase).con.line k.nowTermId).Has [] := by
  obtain ⟨hlen, h⟩ := h
  cases phase with
  | wait => exact absurd rfl hb
  | woken => cases hnext
  | copy i =>
    simp only [Console.termReadTurn] at hnext
    split at hnext <;> cases hnext
  | clear j count =>
    obtain ⟨rfl, hzero⟩ := h
    by_cases hj : j < keyBufMax
    · simp only [Console.termReadTurn, if_pos hj] at hnext
      cases hnext
    · have hturn : k.termReadTurn length (.clear j count) =
          ⟨{ k with keyBufIdx := 0 }, none, none⟩ := if_neg hj
      rw [hturn]
      refine ⟨rfl, ?_⟩
      change Line.Has (Console.line { k with keyBufIdx := 0 } _) _
      rw [Console.line_clearIdx hcur]
      exact Line.has_nil (fun i hi => hzero i hi (.inl (by omega))) rfl

end turns

/-- The terminal of a read that is busy is displayed. -/
theorem curTermId_of_busy (h : LineInv (s, log)) {r : Reading} (hr : s.nowReading = some r)
    (hb : r.phase ≠ .wait) : s.con.curTermId = some s.con.nowTermId := by
  obtain ⟨groups, todo, -, hf⟩ := h s.con.nowTermId
  exact of_decide_eq_true (hf.shown hr hb)

/-- A turn concerns the terminal of its read only. -/
theorem lineInv_of_turn (h : LineInv (s, log)) {r : Reading} (hr : s.nowReading = some r)
    (turn : Console.ReadTurn) {l : TermLog}
    (hother : ∀ t, t ≠ s.con.nowTermId → turn.con.line t = s.con.line t)
    (hown : ∀ groups todo, Accounts (log s.con.nowTermId) groups todo →
      Fits (s.con.line s.con.nowTermId) (some r) todo (log s.con.nowTermId).rest →
      ∃ groups' todo', Accounts l groups' todo' ∧
        Fits (turn.con.line s.con.nowTermId) (r.after turn) todo' l.rest) :
    LineInv (({ s with con := turn.con } : Terminals).setReading s.con.nowTermId (r.after turn),
      Function.update log s.con.nowTermId l) := by
  intro t
  obtain ⟨groups, todo, ha, hf⟩ := h t
  by_cases ht : t = s.con.nowTermId
  · subst ht
    have hread : s.reading s.con.nowTermId = some r := hr
    obtain ⟨groups', todo', ha', hf'⟩ := hown groups todo ha (hread ▸ hf)
    refine ⟨groups', todo', ?_, ?_⟩
    · simpa using ha'
    · simpa [Terminals.setReading] using hf'
  · refine ⟨groups, todo, ?_, ?_⟩
    · simpa [Function.update_of_ne ht] using ha
    · simpa [Terminals.setReading, Function.update_of_ne ht, hother t ht] using hf

/-- A turn that returns nothing. -/
theorem lineInv_of_turn_next (h : LineInv (s, log)) {r : Reading} (hr : s.nowReading = some r)
    {turn : Console.ReadTurn} {next : ReadPhase}
    (hturn : s.con.termReadTurn r.length r.phase = turn) (hnext : turn.next = some next)
    (hother : ∀ t, t ≠ s.con.nowTermId → turn.con.line t = s.con.line t)
    (hown : ∀ groups todo, Accounts (log s.con.nowTermId) groups todo →
      Fits (s.con.line s.con.nowTermId) (some r) todo (log s.con.nowTermId).rest →
      Fits (turn.con.line s.con.nowTermId) (r.after turn) todo (log s.con.nowTermId).rest)
    (hs : s.step .turn = some s') : LineInv (s', logLine s .turn s' log) := by
  obtain ⟨r', hr', rfl⟩ := Option.map_eq_some_iff.mp hs
  obtain rfl : r' = r := Option.some.inj (hr'.symm.trans hr)
  have hinv := lineInv_of_turn h hr turn (l := log s.con.nowTermId) hother
    fun groups todo ha hf => ⟨groups, todo, ha, hown groups todo ha hf⟩
  rw [Function.update_eq_self] at hinv
  simp only [hturn]
  refine hinv.of_log fun t => ?_
  simp only [logLine, hr, hturn, hnext, Option.isNone_some, Bool.false_eq_true, if_false]

/-- A turn of the wait loop. The loop is left with a line that is ended. -/
theorem lineInv_turn_wait (h : LineInv (s, log)) (hg : LineGuard s .turn) {length : Int}
    {got : List UInt8} (hr : s.nowReading = some ⟨length, .wait, got⟩)
    (hs : s.step .turn = some s') : LineInv (s', logLine s .turn s' log) := by
  by_cases henter : s.con.nowTerm.enterState = true
  · obtain ⟨hcur, hend⟩ := hg ⟨henter, _, hr, rfl⟩
    have hturn : s.con.termReadTurn length .wait = ⟨s.con, none, some .woken⟩ := by
      simp only [Console.termReadTurn, henter, if_true]
    refine lineInv_of_turn_next h hr hturn rfl (fun t _ => rfl) ?_ hs
    rintro groups todo ha ⟨hlen, hidle, rfl⟩
    obtain ⟨htodo, hrest⟩ := (ha.endsLine_iff hidle hcur).mp hend
    have hhas := hidle.has
    rw [hrest, List.append_nil] at hhas
    exact ⟨hlen, ⟨decide_eq_true hcur, htodo, hrest⟩, hhas, rfl⟩
  · have hturn : s.con.termReadTurn length .wait = ⟨s.con, none, some .wait⟩ := by
      simp only [Console.termReadTurn, if_neg henter]
    refine lineInv_of_turn_next h hr hturn rfl (fun t _ => rfl) ?_ hs
    rintro groups todo - hf
    simpa [Reading.after] using hf

/-- A turn of a busy read, before its last one. -/
theorem lineInv_turn_busy (h : LineInv (s, log)) {r : Reading} (hr : s.nowReading = some r)
    (hb : r.phase ≠ .wait) {next : ReadPhase}
    (hnext : (s.con.termReadTurn r.length r.phase).next = some next)
    (hs : s.step .turn = some s') : LineInv (s', logLine s .turn s' log) := by
  have hcur := curTermId_of_busy h hr hb
  refine lineInv_of_turn_next h hr rfl hnext (fun t ht => Console.line_turn_of_ne hcur ht) ?_ hs
  rintro groups todo - hf
  obtain ⟨htaken, hcarries⟩ := (fits_iff_carries hb).mp hf
  rw [Reading.after, hnext, Option.map_some]
  refine (fits_iff_carries (next_ne_wait hb hnext)).mpr ⟨⟨?_, htaken.ne_nil, htaken.rest⟩, ?_⟩
  · exact decide_eq_true ((ids_termReadTurn ..).2.trans hcur)
  · exact hcarries.after hcur hb hnext

/-- The return of a read. -/
theorem lineInv_turn_end (h : LineInv (s, log)) {r : Reading} (hr : s.nowReading = some r)
    (hb : r.phase ≠ .wait) (hnext : (s.con.termReadTurn r.length r.phase).next = none)
    (hs : s.step .turn = some s') : LineInv (s', logLine s .turn s' log) := by
  have hcur := curTermId_of_busy h hr hb
  have hinv := lineInv_of_turn h hr (s.con.termReadTurn r.length r.phase)
    (l := { log s.con.nowTermId with
      delivered := (log s.con.nowTermId).delivered ++ [r.got] })
    (fun t ht => Console.line_turn_of_ne hcur ht) ?_
  · obtain ⟨r', hr', rfl⟩ := Option.map_eq_some_iff.mp hs
    obtain rfl := Option.some.inj (hr'.symm.trans hr)
    refine hinv.of_log fun t => ?_
    simp only [logLine, hr, hnext, Option.isNone_none, if_true]
  · intro groups todo ha hf
    obtain ⟨htaken, hcarries⟩ := (fits_iff_carries hb).mp hf
    obtain ⟨hgot, hempty⟩ := hcarries.ends hcur hb hnext
    refine ⟨groups ++ [todo], [], ⟨?_, ?_, ?_, ha.ended, ha.rest⟩, ?_⟩
    · simp only [ha.delivered, hgot, List.map_append, List.map_cons, List.map_nil]
    · intro g hg
      obtain hg | hg := List.mem_append.mp hg
      · exact ha.ne_nil g hg
      · rw [List.mem_singleton.mp hg]
        exact htaken.ne_nil
    · simp only [ha.lines, List.flatten_append, List.flatten_singleton, List.append_nil]
    · rw [Reading.after, hnext, Option.map_none]
      refine ⟨?_, fun hne => absurd rfl hne⟩
      simp only [htaken.rest]
      exact hempty

/-- A turn that is allowed. -/
theorem lineInv_turn (h : LineInv (s, log)) (hg : LineGuard s .turn)
    (hs : s.step .turn = some s') : LineInv (s', logLine s .turn s' log) := by
  obtain ⟨r, hr, -⟩ := Option.map_eq_some_iff.mp hs
  by_cases hb : r.phase = .wait
  · obtain ⟨length, phase, got⟩ := r
    obtain rfl : phase = .wait := hb
    exact lineInv_turn_wait h hg hr hs
  · cases hnext : (s.con.termReadTurn r.length r.phase).next with
    | some next => exact lineInv_turn_busy h hr hb hnext hs
    | none => exact lineInv_turn_end h hr hb hnext hs

/-! ### Runs -/

/-- An event that is allowed. -/
theorem lineInv_step {x x' : Terminals × LineLog} {e : TermEvent} (h : LineInv x)
    (hg : LineGuard x.1 e) (hs : lineStep x e = some x') : LineInv x' := by
  obtain ⟨s, log⟩ := x
  obtain ⟨s', log'⟩ := x'
  obtain ⟨hstep, hlog⟩ := logged_eq_some.mp hs
  change s.step e = some s' at hstep
  obtain rfl : log' = logLine s e s' log := hlog
  cases e with
  | key scancode => exact lineInv_key h hg hstep
  | tick =>
    obtain rfl := Option.some.inj hstep
    exact h.of_eq (fun t => Console.line_schedule ..) rfl
  | launch =>
    obtain rfl := Option.some.inj hstep
    exact lineInv_launch h hg
  | read length =>
    simp only [Terminals.step] at hstep
    split at hstep
    · cases hstep
    · rename_i hnone
      obtain rfl := Option.some.inj hstep
      have hnone : s.reading s.con.nowTermId = none := Option.not_isSome_iff_eq_none.mp hnone
      change LineInv (_, log)
      intro t
      obtain ⟨groups, todo, ha, hf⟩ := h t
      refine ⟨groups, todo, ha, ?_⟩
      by_cases ht : t = s.con.nowTermId
      · subst ht
        have hidle : (s.con.line s.con.nowTermId).Idle todo (log s.con.nowTermId).rest := by
          change Fits _ (s.reading s.con.nowTermId) _ _ at hf
          rw [hnone] at hf
          exact hf
        simpa [Terminals.setReading, Fits] using ⟨hg, hidle⟩
      · simpa [Terminals.setReading, Function.update_of_ne ht] using hf
  | turn => exact lineInv_turn h hg hstep
  | halt =>
    simp only [Terminals.step] at hstep
    split at hstep
    · cases hstep
    · obtain rfl := Option.some.inj hstep
      exact lineInv_halt h hg.1 hg.2

/-- What is waiting, by the state of the line. -/
theorem Fits.waiting {t : TermId} (h : Fits (s.con.line t) (s.reading t) todo rest) :
    s.waiting t = todo.flatten ++ rest := by
  cases hr : s.reading t with
  | none =>
    rw [hr] at h
    simp only [Terminals.waiting, hr]
    exact h.has.waiting
  | some r =>
    obtain ⟨length, phase, got⟩ := r
    rw [hr] at h
    obtain ⟨-, h⟩ := h
    simp only [Terminals.waiting, hr]
    cases phase with
    | wait => exact h.1.has.waiting
    | woken =>
      obtain ⟨htaken, hhas, -⟩ := h
      rw [htaken.rest, List.append_nil]
      exact hhas.waiting
    | copy i =>
      obtain ⟨htaken, hhas, -⟩ := h
      rw [htaken.rest, List.append_nil]
      exact hhas.waiting
    | clear j count =>
      obtain ⟨htaken, hgot, -⟩ := h
      rw [htaken.rest, List.append_nil]
      exact hgot

theorem delivers_of_lineInv (h : LineInv (s, log)) (t : TermId) : Delivers s t (log t) := by
  obtain ⟨groups, todo, ha, hf⟩ := h t
  refine ⟨groups, todo, ha.delivered, ha.ne_nil, ha.lines, hf.waiting, fun hne => ?_⟩
  change Fits (s.con.line t) (s.reading t) todo (log t).rest at hf
  cases hr : s.reading t with
  | none =>
    rw [hr] at hf
    exact .inl (hf.enter hne)
  | some r =>
    by_cases hwait : r.phase = .wait
    · rw [hr] at hf
      have hidle := ((fits_iff_idle (fun x hx => by
        obtain rfl := Option.some.inj hx
        exact hwait)).mp hf).1
      exact .inl (hidle.enter hne)
    · exact .inr ⟨r, hr, hwait⟩

/-- The log says what is waiting. -/
theorem waiting_of_lineInv (h : LineInv (s, log)) (t : TermId) :
    s.waiting t = (log t).lines.flatten.drop (log t).delivered.flatten.length ++ (log t).rest := by
  obtain ⟨groups, todo, ha, hf⟩ := h t
  have hflat : (groups.map List.flatten).flatten = groups.flatten.flatten := by
    rw [List.flatten_flatten]
  have hdrop : (log t).lines.flatten.drop (log t).delivered.flatten.length = todo.flatten := by
    rw [ha.lines, ha.delivered, hflat, List.flatten_append, List.drop_left]
  rw [hdrop]
  exact hf.waiting

/-- How many turns a read that has left its wait loop still takes, at most. -/
def turnsLeft : ReadPhase → Nat
  | .wait => 0
  | .woken => 2 * keyBufMax + 3
  | .copy i => keyBufMax + 2 + (keyBufMax - i)
  | .clear j _ => keyBufMax + 1 - j

/-- A turn of a busy read is the last one, or brings it nearer to its end. -/
theorem turnsLeft_lt {k : Console} {length : Int} {phase next : ReadPhase}
    (hb : phase ≠ .wait) (hnext : (k.termReadTurn length phase).next = some next) :
    turnsLeft next < turnsLeft phase := by
  cases phase with
  | wait => exact absurd rfl hb
  | woken =>
    obtain rfl := Option.some.inj hnext
    simp only [turnsLeft]
    omega
  | copy i =>
    simp only [Console.termReadTurn] at hnext
    split at hnext
    · rename_i hcopy
      obtain rfl := Option.some.inj hnext
      simp only [turnsLeft]
      omega
    · obtain rfl := Option.some.inj hnext
      simp only [turnsLeft]
      omega
  | clear j count =>
    simp only [Console.termReadTurn] at hnext
    split at hnext
    · obtain rfl := Option.some.inj hnext
      simp only [turnsLeft]
      omega
    · cases hnext

/-- A busy read comes to its last turn, if the turns before preserve what allows them and are not
recorded. -/
theorem turns_to_end {τ : Type*} {record : Terminals → TermEvent → Terminals → τ → τ}
    {I : Terminals → Prop} {l : τ}
    (hturn : ∀ {s s' : Terminals} {r : Reading} {next : ReadPhase}, I s →
      s.nowReading = some r → r.phase ≠ .wait →
      (s.con.termReadTurn r.length r.phase).next = some next → s.step .turn = some s' →
      record s .turn s' l = l ∧ I s')
    (h : I s) {r : Reading} (hr : s.nowReading = some r) (hb : r.phase ≠ .wait) :
    ∃ n s₁ r₁ s₂, I s₁ ∧ s₁.con.nowTermId = s.con.nowTermId ∧ s₁.nowReading = some r₁ ∧
      r₁.phase ≠ .wait ∧ (s₁.con.termReadTurn r₁.length r₁.phase).next = none ∧
      s₁.step .turn = some s₂ ∧
      run (logged Terminals.step record) (s, l) (List.replicate n .turn) =
        some (s₂, record s₁ .turn s₂ l) := by
  induction hm : turnsLeft r.phase using Nat.strongRecOn generalizing s r with
  | ind m ih =>
    subst hm
    cases hnext : (s.con.termReadTurn r.length r.phase).next with
    | none =>
      have hs₂ := step_turn hr
      refine ⟨1, s, r, _, h, rfl, hr, hb, hnext, hs₂, ?_⟩
      exact run_cons_eq_some.mpr ⟨_, logged_eq_some.mpr ⟨hs₂, rfl⟩, rfl⟩
    | some next =>
      -- the state after the turn that comes next
      let turn := s.con.termReadTurn r.length r.phase
      let s' := ({ s with con := turn.con } : Terminals).setReading s.con.nowTermId (r.after turn)
      have hs' : s.step .turn = some s' := step_turn hr
      have hnow : s'.con.nowTermId = s.con.nowTermId := (ids_termReadTurn ..).1
      have hr' : s'.nowReading =
          some ⟨r.length, next, r.got ++ turn.stored.toList.map Prod.snd⟩ := by
        change Function.update s.reading s.con.nowTermId _ s'.con.nowTermId = _
        rw [hnow, Function.update_self, Reading.after, hnext]
        rfl
      obtain ⟨hrecord, hI⟩ := hturn h hr hb hnext hs'
      obtain ⟨n, s₁, r₁, s₂, hI₁, hnow₁, hr₁, hb₁, hnone, hs₂, hrun⟩ :=
        ih _ (turnsLeft_lt hb hnext) hI hr' (next_ne_wait hb hnext) rfl
      refine ⟨n + 1, s₁, r₁, s₂, hI₁, hnow₁.trans hnow, hr₁, hb₁, hnone, hs₂, ?_⟩
      rw [List.replicate_succ]
      exact run_cons_eq_some.mpr ⟨_, logged_eq_some.mpr ⟨hs', hrecord.symm⟩, hrun⟩

/-- A read that has left its wait loop returns what is waiting when it has made its turns. -/
theorem busy_delivers (h : LineInv (s, log)) {r : Reading} (hr : s.nowReading = some r)
    (hb : r.phase ≠ .wait) : ∃ n x, run lineStep (s, log) (List.replicate n .turn) = some x ∧
      (x.2 s.con.nowTermId).delivered =
        (log s.con.nowTermId).delivered ++ [s.waiting s.con.nowTermId] := by
  have hquiet : ∀ {s s' : Terminals} {r : Reading} {next : ReadPhase}, LineInv (s, log) →
      s.nowReading = some r → r.phase ≠ .wait →
      (s.con.termReadTurn r.length r.phase).next = some next → s.step .turn = some s' →
      logLine s .turn s' log = log ∧ LineInv (s', log) := by
    intro s s' r next hinv hr hb hnext hs
    have hlog : logLine s .turn s' log = log := by
      simp only [logLine, hr, hnext, Option.isNone_some, Bool.false_eq_true, if_false]
    exact ⟨hlog, hlog ▸ lineInv_turn_busy hinv hr hb hnext hs⟩
  obtain ⟨n, s₁, r₁, s₂, hinv, hnow, hr₁, hb₁, hnone, -, hrun⟩ :=
    turns_to_end (I := fun s => LineInv (s, log)) hquiet h hr hb
  obtain ⟨groups, todo, -, hf⟩ := hinv s₁.con.nowTermId
  have hread : s₁.reading s₁.con.nowTermId = some r₁ := hr₁
  obtain ⟨htaken, hcarries⟩ := (fits_iff_carries hb₁).mp (hread ▸ hf)
  obtain ⟨hgot, -⟩ := hcarries.ends (curTermId_of_busy hinv hr₁ hb₁) hb₁ hnone
  -- what is waiting has not changed on the way
  have hwaiting : s.waiting s.con.nowTermId = r₁.got := by
    rw [waiting_of_lineInv h, ← hnow, ← waiting_of_lineInv hinv, hf.waiting, hgot, htaken.rest,
      List.append_nil]
  refine ⟨n, _, hrun, ?_⟩
  simp only [logLine, hr₁, hnone, Option.isNone_none, if_true, hnow, Function.update_self,
    hwaiting]

/-- A line that is ended and displayed has its flag up. -/
theorem enter_of_endsLine (h : LineInv (s, log)) {r : Reading} (hr : s.nowReading = some r)
    (hwait : r.phase = .wait) (hcur : s.con.curTermId = some s.con.nowTermId)
    (hend : s.EndsLine) : s.con.nowTerm.enterState = true := by
  obtain ⟨groups, todo, ha, hf⟩ := h s.con.nowTermId
  have hread : s.reading s.con.nowTermId = some r := hr
  have hidle := ((fits_iff_idle fun x hx => by
    obtain rfl := Option.some.inj (hread.symm.trans hx)
    exact hwait).mp hf).1
  have henter := hidle.enter ((ha.endsLine_iff hidle hcur).mp hend).1
  rwa [Console.line_of_shown hcur] at henter

/-- A read that waits, with lines to return and its terminal displayed, returns them. -/
theorem waiting_delivers (h : LineInv (s, log)) {r : Reading} (hr : s.nowReading = some r)
    (hwait : r.phase = .wait) (hcur : s.con.curTermId = some s.con.nowTermId)
    (hend : s.EndsLine) : ∃ n x, run lineStep (s, log) (List.replicate n .turn) = some x ∧
      (x.2 s.con.nowTermId).delivered =
        (log s.con.nowTermId).delivered ++ [s.waiting s.con.nowTermId] := by
  obtain ⟨length, phase, got⟩ := r
  obtain rfl : phase = .wait := hwait
  have henter : s.con.nowTerm.enterState = true := enter_of_endsLine h hr rfl hcur hend
  have hturn : s.con.termReadTurn length .wait = ⟨s.con, none, some .woken⟩ := by
    simp only [Console.termReadTurn, henter, if_true]
  -- the turn that leaves the wait loop
  let s' := s.setReading s.con.nowTermId (some ⟨length, .woken, got ++ []⟩)
  have hs' : s.step .turn = some s' := by
    rw [step_turn hr, hturn]
    rfl
  have hlogged : lineStep (s, log) .turn = some (s', logLine s .turn s' log) :=
    logged_eq_some.mpr ⟨hs', rfl⟩
  have hlog : logLine s .turn s' log = log := by
    simp only [logLine, hr, hturn, Option.isNone_some, Bool.false_eq_true, if_false]
  have hinv : LineInv (s', logLine s .turn s' log) :=
    lineInv_step (e := .turn) h (fun _ => ⟨hcur, hend⟩) hlogged
  rw [hlog] at hinv hlogged
  have hr' : s'.nowReading = some ⟨length, .woken, got ++ []⟩ := Function.update_self ..
  obtain ⟨n, x, hx, hdelivered⟩ := busy_delivers hinv hr' (by simp)
  refine ⟨n + 1, x, ?_, ?_⟩
  · rw [List.replicate_succ]
    exact run_cons_eq_some.mpr ⟨_, hlogged, hx⟩
  · rw [waiting_of_lineInv hinv] at hdelivered
    rw [waiting_of_lineInv h]
    exact hdelivered

end LinuxLikeKernel
