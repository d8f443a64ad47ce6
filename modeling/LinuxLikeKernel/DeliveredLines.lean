import LinuxLikeKernel.TerminalSystem
import LinuxLikeKernel.TypedLines

/-!
# Delivered lines

A log of the machine's runs: what is typed at each terminal, and what each `term_read` returns, put
down to the terminal of the process that has called it. While every process runs in its own
terminal, the terminals simulate the machine, and what `TypedLines` proves about them holds of it.

## Main definitions

- `typingStep` — a step of the machine, with a record of what is typed and what is returned
- `LinesApart` — processes run in their own terminals, and leave the line buffer to its owner

## Main results

- `lines_step` — the invariant of typed lines is carried along the simulation
- `delivers_of_guarded_run` — along guarded runs all lines are delivered
-/

namespace LinuxLikeKernel
open Transition Kernel

/-! ### The log -/

/-- What has been typed and returned, and what the reads that go on have stored. -/
structure TypingLog where
  lines : LineLog
  got : TermId → List UInt8

def emptyLog : TypingLog := ⟨fun _ => ⟨[], [], []⟩, fun _ => []⟩

/-- Keys go to the log of the displayed terminal, what a read returns to that of the process that
reads. -/
def logTyping (s : Kernel) (e : Event) (_ : Kernel) (log : TypingLog) : TypingLog where
  lines :=
    match e with
    | .key scancode _ =>
      match s.con.curTermId with
      | some t => Function.update log.lines t ((log.lines t).key s.con scancode)
      | none => log.lines
    | .run =>
      match s.core.nowRead with
      | some r =>
        if (s.con.termReadTurn r.length r.phase).next.isNone then
          let l := log.lines s.home
          Function.update log.lines s.home { l with delivered := l.delivered ++ [log.got s.home] }
        else log.lines
      | none => log.lines
    | _ => log.lines
  got := s.gotAfter e log.got

def typingStep (img : Image) : Kernel × TypingLog → Event → Option (Kernel × TypingLog) :=
  logged (step img) logTyping

/-! ### The condition -/

/-- Processes start and end in their own terminals, and what the event is to the terminals leaves
the line buffer to the terminal that it belongs to. -/
def LinesApart (img : Image) (x : Kernel × TypingLog) (e : Event) : Prop :=
  OwnTerminal img x.1 e ∧ ∀ te ∈ x.1.termEvent e, LineGuard (x.1.terminals x.2.got) te

instance (img : Image) (x : Kernel × TypingLog) (e : Event) : Decidable (LinesApart img x e) :=
  inferInstanceAs (Decidable (_ ∧ ∀ te ∈ x.1.termEvent e, _))

variable {img : Image} {s s' : Kernel} {log : TypingLog} {n : TermId → Nat} {e : Event}

/-! ### One step -/

/-- The log of the machine is that of its terminals. -/
theorem lines_of_event (hh : Healthy s.core n) {te : TermEvent} (he : s.termEvent e = some te)
    (u : Terminals) :
    (logTyping s e s' log).lines = logLine (s.terminals log.got) te u log.lines := by
  cases e with
  | tick stale =>
    simp only [termEvent] at he
    split at he
    · obtain rfl := Option.some.inj he
      rfl
    · obtain rfl := Option.some.inj he
      rfl
  | key scancode stale =>
    obtain rfl := Option.some.inj he
    rfl
  | run =>
    obtain ⟨r, hread, rfl⟩ := Option.map_eq_some_iff.mp he
    obtain ⟨hpos, -⟩ := hh.pos_of_nowRead hread
    have hnowReading : (s.terminals log.got).nowReading =
        some ⟨r.length, r.phase, log.got s.con.nowTermId⟩ := by
      rw [hh.nowReading, hread]
      rfl
    simp only [logTyping, logLine, hread, hnowReading, hh.home_eq hpos]
    rfl
  | read fd buf nbytes =>
    simp only [termEvent] at he
    split at he
    · obtain rfl := Option.some.inj he
      rfl
    · cases he
  | halt status stale =>
    obtain rfl := Option.some.inj he
    rfl
  | exception message stale =>
    obtain rfl := Option.some.inj he
    rfl
  | _ => cases he

theorem lines_of_none (he : s.termEvent e = none) : (logTyping s e s' log).lines = log.lines := by
  cases e with
  | key scancode stale => cases he
  | run =>
    have hread : s.core.nowRead = none := Option.map_eq_none_iff.mp he
    simp only [logTyping, hread]
  | _ => rfl

theorem LineInv.of_agrees {u v : Terminals} {l : LineLog} (h : LineInv (u, l))
    (ha : u.Agrees v) : LineInv (v, l) := h.of_eq ha.line ha.reading

/-- **Step lemma.** The invariant of the terminals is one of the machine. -/
theorem lines_step (hb : Bootable img) {x x' : Kernel × TypingLog}
    (hh : Healthy x.1.core n) (h : LineInv (x.1.terminals x.2.got, x.2.lines))
    (hg : LinesApart img x e) (hs : typingStep img x e = some x') :
    LineInv (x'.1.terminals x'.2.got, x'.2.lines) := by
  obtain ⟨s, log⟩ := x
  obtain ⟨s', log'⟩ := x'
  obtain ⟨hstep, hlog⟩ := logged_eq_some.mp hs
  obtain rfl : log' = logTyping s e s' log := hlog
  have hdoes := terminals_step log.got hb hh hg.1 hstep
  cases he : s.termEvent e with
  | none =>
    rw [he] at hdoes
    show LineInv (_, (logTyping s e s' log).lines)
    rw [lines_of_none he]
    exact h.of_agrees hdoes
  | some te =>
    rw [he] at hdoes
    obtain ⟨u, hu, hagrees⟩ := hdoes
    show LineInv (_, (logTyping s e s' log).lines)
    rw [lines_of_event hh he u]
    have hinv : LineInv (u, logLine (s.terminals log.got) te u log.lines) :=
      lineInv_step h (hg.2 te he) (logged_eq_some.mpr ⟨hu, rfl⟩)
    exact hinv.of_agrees hagrees

/-- After boot no line has been begun. -/
theorem lineInv_boot (s : Kernel) : LineInv ((boot s).terminals emptyLog.got, emptyLog.lines) := by
  intro t
  have hbuf : ∀ j < keyBufMax, ((boot s).con.line t).buf j = 0 := by
    intro j hj
    rw [Console.line_of_not_shown (by rw [show (boot s).con.curTermId = none from rfl]; nofun)]
    exact (lineBytes_of_lt hj).trans (if_pos hj)
  have hidle : ((boot s).con.line t).Idle [] [] :=
    ⟨Line.has_nil hbuf rfl, fun hne => absurd rfl hne⟩
  refine ⟨[], [], ⟨rfl, nofun, rfl, nofun, nofun⟩, ?_⟩
  exact hidle

/-! ### Whole runs -/

/-- What holds in guarded runs. -/
structure LinesKept (x : Kernel × TypingLog) : Prop where
  healthy : ∃ n, Healthy x.1.core n
  lines : LineInv (x.1.terminals x.2.got, x.2.lines)

theorem linesKept_of_guarded_run (hb : Bootable img) {s₀ : Kernel} {es : List Event}
    (hg : Guarded (typingStep img) (LinesApart img) (boot s₀, emptyLog) es)
    {x : Kernel × TypingLog} (hrun : run (typingStep img) (boot s₀, emptyLog) es = some x) :
    LinesKept x := by
  have hstep : ∀ x e x', LinesKept x → LinesApart img x e → typingStep img x e = some x' →
      LinesKept x' := by
    rintro x e x' ⟨⟨n, hh⟩, hlines⟩ hg hs
    obtain ⟨n', hh', -⟩ := healthy_step hb hh hg.1 (logged_eq_some.mp hs).1
    exact ⟨⟨n', hh'⟩, lines_step hb hh hlines hg hs⟩
  exact Guarded.invariant hstep ⟨⟨_, healthy_boot s₀⟩, lineInv_boot s₀⟩ hg hrun

/-- The buffer of a read is in the user page. -/
def ReadCall.InPage (r : ReadCall) : Prop := userStart ≤ r.buf ∧ r.buf + keyBufMax ≤ userEnd

theorem ReadCall.InPage.stores {r : ReadCall} (h : r.InPage) (k : Console) :
    InUserPage ((k.termReadTurn r.length r.phase).stores r.buf) := by
  have hnone : ∀ w ∈ ((none : Option (Nat × UInt8)).toList.map fun w =>
      ((r.buf + w.1) % 2 ^ 32, w.2)), userStart ≤ w.1 ∧ w.1 < userEnd := nofun
  cases hphase : r.phase with
  | wait => exact hnone
  | woken => exact hnone
  | copy i =>
    simp only [Console.termReadTurn]
    split
    · rename_i hcopy
      intro w hw
      obtain rfl := List.mem_singleton.mp hw
      obtain ⟨hlo, hhi⟩ := h
      have hend : userEnd = 0x8400000 := rfl
      simp only [userStart, userEnd] at hlo hhi ⊢
      omega
    · exact hnone
  | clear j count =>
    simp only [Console.termReadTurn]
    split
    · exact hnone
    · exact hnone

/-- A turn of a read with such a buffer goes through. -/
theorem exists_step_run (img : Image) (hh : Healthy s.core n) {r : ReadCall}
    (hread : s.core.nowRead = some r) (hpage : r.InPage) : ∃ s', step img s .run = some s' := by
  obtain ⟨-, hcpu, hframe⟩ := hh.pos_of_nowRead hread
  have hstep : step img s .run = s.runLoop ⟨top n s.con.nowTermId, 1⟩ := by
    unfold step
    rw [show s.cpu = .kernel ⟨top n s.con.nowTermId, 1⟩ from hcpu]
  have hframe' : s.frameAt ⟨top n s.con.nowTermId, 1⟩ =
      some (.termRead r.buf r.length r.phase) := hframe
  have hstores := not_not.mpr (hpage.stores s.con)
  unfold Console.ReadTurn.stores at hstores
  rw [hstep, runLoop, hframe']
  dsimp only
  rw [if_neg hstores]
  split
  · exact ⟨_, rfl⟩
  · exact ⟨_, rfl⟩
  · -- only the loop that clears the line buffer returns
    rename_i hnext hno
    cases hphase : r.phase with
    | clear j count => exact absurd hphase (hno j count)
    | wait => cases (hphase ▸ hnext :)
    | woken => cases (hphase ▸ hnext :)
    | copy i =>
      rw [hphase, Console.termReadTurn] at hnext
      split at hnext
      · cases hnext
      · cases hnext

/-- Turns of the terminals are turns of the machine. -/
theorem runs_of_turns (hb : Bootable img) (hh : Healthy s.core n)
    (hpage : ∀ r, s.core.nowRead = some r → r.InPage) {k : Nat} {y : Terminals × LineLog}
    (hy : run lineStep (s.terminals log.got, log.lines) (List.replicate k .turn) = some y) :
    ∃ x, run (typingStep img) (s, log) (List.replicate k .run) = some x ∧ x.2.lines = y.2 := by
  induction k generalizing s log n with
  | zero =>
    obtain rfl := Option.some.inj hy
    exact ⟨_, rfl, rfl⟩
  | succ k ih =>
    rw [List.replicate_succ] at hy
    obtain ⟨⟨u, l⟩, hturn, hrest⟩ := run_cons_eq_some.mp hy
    obtain ⟨hu, hl⟩ := logged_eq_some.mp hturn
    change (s.terminals log.got).step .turn = some u at hu
    cases hread : s.core.nowRead with
    | none =>
      simp only [Terminals.step, hh.nowReading, hread, Option.map_none] at hu
      cases hu
    | some r =>
      obtain ⟨s', hs'⟩ := exists_step_run img hh hread (hpage r hread)
      have hg : OwnTerminal img s .run := by
        refine ⟨fun h => ?_, fun h => ?_, fun h => ?_, trivial⟩ <;> cases h
      obtain ⟨n', hh', -⟩ := healthy_step hb hh hg hs'
      obtain ⟨hcon, hread'⟩ := run_read hh hs' hread
      have hevent : s.termEvent .run = some .turn := by
        simp only [termEvent, hread, Option.map_some]
      -- the machine does what its terminals do
      have hdoes := terminals_step log.got hb hh hg hs'
      rw [hevent] at hdoes
      obtain ⟨u', hu', hagrees⟩ := hdoes
      obtain rfl := Option.some.inj (hu.symm.trans hu')
      have hterminals : s'.terminals (logTyping s .run s' log).got = u := by
        have hnow : (s.terminals log.got).nowReading = _ := hh.nowReading log.got
        rw [hread, Option.map_some] at hnow
        have hcon' := congrArg Terminals.con (Option.some.inj ((step_turn hnow).symm.trans hu))
        exact Terminals.ext (hcon.trans hcon') hagrees.reading
      have hlines : (logTyping s .run s' log).lines = l :=
        (lines_of_event hh hevent u).trans hl.symm
      rw [← hterminals, ← hlines] at hrest
      obtain ⟨x, hx, hxy⟩ := ih hh' (fun r' hr' => by
        rw [hread'] at hr'
        obtain ⟨phase, -, rfl⟩ := Option.map_eq_some_iff.mp hr'
        exact hpage r hread) hrest
      refine ⟨x, ?_, hxy⟩
      rw [List.replicate_succ]
      exact run_cons_eq_some.mpr ⟨_, logged_eq_some.mpr ⟨hs', rfl⟩, hx⟩

/-- **Typed lines.** Along guarded runs all lines are delivered: what reads return are the lines
typed at their own terminals, and a read that finds lines, or has started with them, returns in a
few turns what is waiting. -/
theorem delivers_of_guarded_run (hb : Bootable img) {s₀ : Kernel} {es : List Event}
    (hg : Guarded (typingStep img) (LinesApart img) (boot s₀, emptyLog) es)
    (hrun : run (typingStep img) (boot s₀, emptyLog) es = some (s, log)) :
    (∀ t, Delivers (s.terminals log.got) t (log.lines t)) ∧
      ∀ r, s.core.nowRead = some r → r.InPage →
        (r.phase = .wait →
          s.con.curTermId = some s.con.nowTermId ∧ (s.terminals log.got).EndsLine) →
        ∃ k x, run (typingStep img) (s, log) (List.replicate k .run) = some x ∧
          (x.2.lines s.con.nowTermId).delivered = (log.lines s.con.nowTermId).delivered ++
            [(s.terminals log.got).waiting s.con.nowTermId] := by
  obtain ⟨⟨n, hh⟩, hinv⟩ := linesKept_of_guarded_run hb hg hrun
  refine ⟨delivers_of_lineInv hinv, fun r hr hpage hready => ?_⟩
  have hreading : (s.terminals log.got).nowReading =
      some ⟨r.length, r.phase, log.got s.con.nowTermId⟩ := by
    rw [hh.nowReading, hr]
    rfl
  have hturns : ∃ k y, run lineStep (s.terminals log.got, log.lines) (List.replicate k .turn) =
      some y ∧ (y.2 s.con.nowTermId).delivered = (log.lines s.con.nowTermId).delivered ++
        [(s.terminals log.got).waiting s.con.nowTermId] := by
    by_cases hwait : r.phase = .wait
    · exact waiting_delivers hinv hreading hwait (hready hwait).1 (hready hwait).2
    · exact busy_delivers hinv hreading hwait
  obtain ⟨k, y, hy, hdelivered⟩ := hturns
  obtain ⟨x, hx, hlines⟩ := runs_of_turns hb hh (fun r' hr' => by
    obtain rfl := Option.some.inj (hr.symm.trans hr')
    exact hpage) hy
  exact ⟨k, x, hx, by rw [hlines, hdelivered]⟩

/-- The shell of terminal 0 reads. Its line is ended while the process of another terminal runs,
and the user looks at terminal 1 before the shell goes on. -/
def deliveredEvents : List Event :=
  [.tick noStale, .tick noStale, .tick noStale, .read 0 userStart 128, .key 0x1E noStale,
    .tick noStale, .key 0x1C noStale, .key 0x38 noStale, .key 0x3C noStale, .key 0xB8 noStale,
    .key 0x38 noStale, .key 0x3B noStale, .key 0xB8 noStale, .tick noStale, .tick noStale]

theorem delivers_of_guarded_run_sample : ∃ s log k x,
    run (typingStep sampleImage) (boot powerOn, emptyLog) deliveredEvents = some (s, log) ∧
      run (typingStep sampleImage) (s, log) (List.replicate k .run) = some x ∧
      (x.2.lines 0).delivered = [[97, 10]] := by
  have hobs : (run (typingStep sampleImage) (boot powerOn, emptyLog) deliveredEvents).map
      (fun x => ((x.1.con.nowTermId, x.1.con.curTermId, decide (x.1.terminals x.2.got).EndsLine),
        x.1.core.nowRead.map ReadCall.buf, (x.2.lines 0).delivered,
        (x.1.terminals x.2.got).waiting 0)) =
      some ((0, some 0, true), some userStart, [], [97, 10]) := by decide +kernel
  obtain ⟨⟨s, log⟩, hrun, hobs⟩ := Option.map_eq_some_iff.mp hobs
  simp only [Prod.mk.injEq] at hobs
  obtain ⟨⟨hnow, hcur, hend⟩, hread, hdelivered, hwaiting⟩ := hobs
  obtain ⟨r, hr, hbuf⟩ := Option.map_eq_some_iff.mp hread
  obtain ⟨-, hreturns⟩ := delivers_of_guarded_run sampleImage_bootable
    (show Guarded (typingStep sampleImage) (LinesApart sampleImage) _ _ by decide +kernel) hrun
  obtain ⟨k, x, hx, hlines⟩ := hreturns r hr (by rw [ReadCall.InPage, hbuf]; decide)
    fun _ => ⟨hcur.trans (by rw [hnow]), of_decide_eq_true hend⟩
  rw [hnow, hdelivered, hwaiting] at hlines
  exact ⟨s, log, k, x, hrun, hx, hlines⟩

/-- The shell of terminal 0 waits while the user ends a line, switches to terminal 1 and types
there; then it goes on. -/
def switchedReadEvents : List Event :=
  [.tick noStale, .tick noStale, .tick noStale, .read 0 userStart 128, .key 0x1E noStale,
    .key 0x1C noStale, .key 0x38 noStale, .key 0x3C noStale, .key 0xB8 noStale,
    .key 0x30 noStale] ++ List.replicate 133 .run

/-- It gets what was typed at terminal 1. -/
theorem not_delivers_of_run : ¬ ∀ (img : Image), Bootable img →
    ∀ (s₀ s : Kernel) (log : TypingLog) (es : List Event),
      (∀ fd buf nbytes, Event.read fd buf nbytes ∈ es → 128 ≤ nbytes) →
      run (typingStep img) (boot s₀, emptyLog) es = some (s, log) →
        ∀ t, Delivers (s.terminals log.got) t (log.lines t) := by
  intro hdelivers
  have hobs : (run (typingStep sampleImage) (boot powerOn, emptyLog) switchedReadEvents).map
      (fun x => ((x.2.lines 0).lines, (x.2.lines 0).delivered)) =
      some ([[97, 10]], [[98]]) := by decide +kernel
  obtain ⟨⟨s, log⟩, hrun, hobs⟩ := Option.map_eq_some_iff.mp hobs
  obtain ⟨hlines, hdelivered⟩ := Prod.mk.inj hobs
  obtain ⟨groups, todo, hgroups, hne, hsplit, -⟩ :=
    hdelivers sampleImage sampleImage_bootable powerOn s log switchedReadEvents (by
      intro fd buf nbytes hmem
      simp [switchedReadEvents] at hmem
      omega) hrun 0
  rw [hdelivered] at hgroups
  rw [hlines] at hsplit
  -- what has been returned would be the one line that was typed
  obtain ⟨g, rfl⟩ := List.length_eq_one_iff.mp (by simpa using (congrArg List.length hgroups).symm)
  have hflat : g.flatten = [98] := by simpa using hgroups.symm
  simp only [List.flatten_singleton] at hsplit
  cases g with
  | nil => exact hne [] (by simp) rfl
  | cons line rest =>
    obtain ⟨rfl, -⟩ := List.cons.inj hsplit
    cases hflat

end LinuxLikeKernel
