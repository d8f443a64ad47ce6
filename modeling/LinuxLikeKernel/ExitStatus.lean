import LinuxLikeKernel.CallReturn
import LinuxLikeKernel.Halting

/-!
# What a process ends with

The value that `execute` returns to the parent. The cause of a death goes to the end of `halt`
through the global `interrupt_halt_flag`, and `halt` ends the process that the terminal table
names, which has to be the one that runs.

## Main definitions

- `FlagClear` — the flag is set only between a fault of the kernel and its exception
- `ReportsEnd` — what a process ends with reaches its caller

## Main results

- `flagClear_step` — the flag stays clear
- `exit_status` — along guarded runs every end is reported to the caller of the process
-/

namespace LinuxLikeKernel
open Kernel Transition

variable {img : Image} {s s' : Kernel}

/-! ### The flag -/

/-- The flag is set only while a kernel access that has just faulted waits for its exception. -/
def FlagClear (s : Kernel) : Prop := s.interruptHaltFlag = true → ∃ sp, s.cpu = .fault sp

theorem FlagClear.of_false (h : s.interruptHaltFlag = false) : FlagClear s := by
  intro htrue
  rw [h] at htrue
  cases htrue

theorem flag_close (s : Kernel) (fd : Int) :
    (s.close fd).interruptHaltFlag = s.interruptHaltFlag := by
  obtain ⟨-, heq⟩ | ⟨i, -, -, -, heq⟩ := close_cases s fd
  · rw [heq]
    rfl
  · rw [heq]
    rfl

theorem flag_haltFds (s : Kernel) (id : Nat) :
    (s.haltFds id).interruptHaltFlag = s.interruptHaltFlag :=
  haltFds_eq Kernel.interruptHaltFlag (fun _ _ _ => rfl) flag_close s

theorem flag_unlink {id : Nat} (h : s.unlink id = some s') :
    s'.interruptHaltFlag = s.interruptHaltFlag := by
  obtain ⟨row, slot, -, rfl⟩ := unlink_eq h
  rfl

theorem flag_resume {sp : StackPtr} {kind : Frame} (h : s.resume sp kind = some s') :
    s'.interruptHaltFlag = s.interruptHaltFlag := by
  obtain ⟨cpu, rfl⟩ := resume_eq h
  rfl

theorem flag_printf (s : Kernel) (str : List UInt8) :
    (s.printf str).interruptHaltFlag = s.interruptHaltFlag := rfl

/-- `execute` clears the flag for the program it starts, and leaves it if it starts none. -/
theorem flag_execute {sp : StackPtr} {command : List UInt8} {stale : Stale} {o : Outcome}
    (h : s.execute img sp command stale = some o) :
    o.state.interruptHaltFlag = s.interruptHaltFlag ∨ o.state.interruptHaltFlag = false := by
  cases execute_exit h with
  | refused => exact .inl rfl
  | full => exact .inl (flag_printf ..)
  | failed => exact .inl rfl
  | faulted => exact .inl rfl
  | started => exact .inr rfl

/-- So where it is clear before a call it is clear after it. -/
theorem flag_execute_eq_false {sp : StackPtr} {command : List UInt8} {stale : Stale}
    {o : Outcome} (hflag : s.interruptHaltFlag = false)
    (h : s.execute img sp command stale = some o) : o.state.interruptHaltFlag = false := by
  obtain heq | hclear := flag_execute h
  · exact heq.trans hflag
  · exact hclear

/-- The end of `halt` clears it, or faults. -/
theorem flagClear_returnToParent {id : Nat} {sp : StackPtr} {status : UInt8}
    (h : s.returnToParent id sp status = some s') : FlagClear s' := by
  cases returnToParent_exit h with
  | fault => exact fun _ => ⟨sp, rfl⟩
  | parent _ h => exact .of_false ((flag_resume h).trans rfl)

/-- However `halt` ends, the flag is clear for the code that runs then: where the last shell is
restarted `execute` clears it. -/
theorem flagClear_halt {sp : StackPtr} {status : UInt8} {stale : Stale}
    (h : s.halt img sp status stale = some s') : FlagClear s' := by
  cases halt_exit h with
  | parent _ _ h => exact flagClear_returnToParent h
  | shell _ _ ho hs =>
    cases execute_exit ho with
    | started =>
      rw [hs]
      exact .of_false rfl
  | faulted _ _ ho =>
    cases execute_exit ho with
    | faulted => exact fun _ => ⟨sp, rfl⟩
  | noShell _ _ _ h => exact flagClear_returnToParent h

theorem flag_open (img : Image) (s : Kernel) (filename : List UInt8) :
    (s.open img filename).interruptHaltFlag = s.interruptHaltFlag := by
  simp only [Kernel.open]
  split
  · rfl
  · split
    · rfl
    · simp only [bindFd]
      split <;> rfl

theorem flag_read {fd nbytes : Int} {buf : Nat} (h : s.read img fd buf nbytes = some s') :
    s'.interruptHaltFlag = s.interruptHaltFlag := by
  cases read_exit h <;> rfl

theorem flag_runLoop {sp : StackPtr} (h : s.runLoop sp = some s') :
    s'.interruptHaltFlag = s.interruptHaltFlag := by
  cases runLoop_exit h <;> rfl

theorem flag_rtcInterruptHandler (s : Kernel) :
    s.rtcInterruptHandler.interruptHaltFlag = s.interruptHaltFlag := by
  have htick : ∀ (s : Kernel) t, (s.rtcTick t).interruptHaltFlag = s.interruptHaltFlag := by
    intro s t
    simp only [rtcTick]
    split <;> rfl
  rw [rtcInterruptHandler, htick, htick, htick]

/-- A tick that launches a shell clears the flag, any other leaves it. -/
theorem flag_pitInterruptHandler {stale : Stale} (hflag : s.interruptHaltFlag = false)
    (h : s.pitInterruptHandler img stale = some s') : s'.interruptHaltFlag = false := by
  cases pitInterruptHandler_exit h with
  | displayed => exact hflag
  | shows => exact hflag
  | launches _ _ _ ho =>
    have hlaunch : s.launchState.interruptHaltFlag = false := hflag
    exact flag_execute_eq_false hlaunch ho
  | switches _ _ h => exact (flag_resume h).trans hflag

/-- A step that is not an exception is taken with the flag clear. -/
theorem flag_eq_false_of_step {e : Event} (hclear : FlagClear s) (he : e.isException = false)
    (h : step img s e = some s') : s.interruptHaltFlag = false := by
  by_contra hflag
  obtain ⟨sp, hcpu⟩ := hclear (by simpa using hflag)
  cases e with
  | exception message stale => cases he
  | _ => simp [step, hcpu] at h

/-- **Step lemma.** The flag stays clear. -/
theorem flagClear_step {e : Event} (hclear : FlagClear s) (h : step img s e = some s') :
    FlagClear s' := by
  by_cases hcall : s.callsHalt e = true
  · obtain ⟨m, sp, stale, hhalt, -⟩ := step_halt hcall h
    exact flagClear_halt hhalt
  · have hex : e.isException = false := by
      cases e with
      | exception message stale => exact absurd rfl hcall
      | _ => rfl
    -- no exception, so the flag is 0, and only `execute` writes it, with a 0
    have hflag := flag_eq_false_of_step hclear hex h
    refine .of_false ?_
    cases e with
    | tick stale => exact flag_pitInterruptHandler hflag (step_tick h)
    | exception message stale => cases hex
    | halt status stale => exact absurd rfl hcall
    | key scancode stale =>
      obtain ⟨⟨k, ctrlC⟩, hk, h⟩ := Option.bind_eq_some_iff.mp (step_key h)
      have hc : ctrlC = false := by simpa [callsHalt, hk] using hcall
      subst hc
      rw [← Option.some.inj h]
      exact hflag
    | rtc => rw [step_rtc h, flag_rtcInterruptHandler, hflag]
    | run =>
      obtain ⟨sp, -, h⟩ := step_run h
      exact (flag_runLoop h).trans hflag
    | execute command stale =>
      obtain ⟨o, ho, rfl⟩ := Option.map_eq_some_iff.mp (step_call h rfl).2
      have hstate := flag_execute_eq_false hflag ho
      cases o with
      | started r => exact hstate
      | faulted r => exact hstate
      | returned eax r => exact hstate
    | «open» filename =>
      rw [← Option.some.inj (step_call h rfl).2]
      exact (flag_open ..).trans hflag
    | close fd =>
      rw [← Option.some.inj (step_call h rfl).2]
      exact (flag_close ..).trans hflag
    | read fd buf nbytes => exact (flag_read (step_call h rfl).2).trans hflag
    | write fd buf content nbytes =>
      obtain ⟨eax, rfl⟩ | ⟨out, eax, rfl⟩ | ⟨i, -, -, rfl⟩ := write_cases (step_call h rfl).2
      · exact hflag
      · exact hflag
      · exact hflag
    | getargs buf nbytes =>
      rw [syscall_getargs (step_call h rfl).2]
      exact hflag
    | vidmap screenStart =>
      rw [syscall_vidmap (step_call h rfl).2]
      exact hflag

/-! ### The value -/

/-- The value that `halt` returns to a parent. -/
theorem eax_returnToParent {id : Nat} {sp : StackPtr} {status : UInt8}
    (hparent : 0 ≤ (s.pcb id).parentProcessNumber)
    (h : s.returnToParent id sp status = some s') :
    s'.eax = if s.interruptHaltFlag then (status.toNat : Int) + 0x100 else status.toNat := by
  cases returnToParent_exit h with
  | fault hneg => omega
  | parent _ h =>
    obtain ⟨cpu, rfl⟩ := resume_eq h
    rfl

/-- An exception handler calls `halt(0)`. -/
theorem Event.exitStatus_of_isException {e : Event} (h : e.isException = true) :
    e.exitStatus = 0 := by
  cases e with
  | exception message stale => rfl
  | _ => cases h

/-- **Step lemma.** What is returned is the argument of `halt`, or 256 for an exception. -/
theorem eax_of_halt {e : Event} (hclear : FlagClear s) (hcall : s.callsHalt e = true)
    (hparent : 0 ≤ (s.pcb s.nowPcbId).parentProcessNumber) (h : step img s e = some s') :
    s'.eax = if e.isException then 256 else (e.exitStatus.toNat : Int) := by
  obtain ⟨m, sp, stale, hhalt, hpcb, hid, -, -, hflag⟩ := step_halt hcall h
  rw [← hid, ← hpcb] at hparent
  obtain ⟨u, hu, hret, hident⟩ := halt_of_parent hparent hhalt
  have hnumber := congrArg Ident.parentProcessNumber hident
  simp only [Pcb.ident] at hnumber
  have hflag' : (u.haltFds m.nowPcbId).interruptHaltFlag = e.isException := by
    rw [flag_haltFds, flag_unlink hu, hflag]
    cases hex : e.isException with
    | true => exact Bool.or_true _
    | false => rw [flag_eq_false_of_step hclear hex h, Bool.or_self]
  rw [eax_returnToParent (by omega) hret, hflag']
  cases hex : e.isException with
  | true =>
    rw [e.exitStatus_of_isException hex]
    rfl
  | false => rfl

/-- The end of the running process, by the event `e`, returns from the `execute` of the caller on
record, with what the process has ended with. -/
structure DeliversStatus (r : CallRecord) (s : Kernel) (e : Event) (s' : Kernel) : Prop where
  returnsTo : s.frameAt r.sp = some .execute
  caller : s'.getCurPcb = r.caller
  cpu : s'.cpu = .user
  status : e.isException = false → s'.eax = e.exitStatus.toNat
  killed : s'.eax = 256 ↔ e.isException = true

/-- The end of a process goes to its caller. For a root shell there is none, and a new shell takes
its place. -/
def ReportsEnd (log : CallLog) (s : Kernel) (e : Event) (s' : Kernel) : Prop :=
  match log s.getCurPcb with
  | some r => DeliversStatus r s e s'
  | none => ShellStarted s' s.con.nowTermId

/-- A process with a caller on record has a parent. -/
theorem parent_of_log {n : TermId → Nat} {log : CallLog} {r : CallRecord}
    (hh : Healthy s.core n) (hl : LogFits n log) (hpos : 0 < n s.con.nowTermId)
    (hr : log s.getCurPcb = some r) : 0 ≤ (s.pcb s.nowPcbId).parentProcessNumber := by
  have hcur : s.getCurPcb = top n s.con.nowTermId := (hh.running hpos).entry (hh.top_lt hpos)
  have h1 : n s.con.nowTermId ≠ 1 := by
    intro h1
    rw [hcur, top, h1, hl.root] at hr
    cases hr
  have hparent := hh.rows.parent s.con.nowTermId (n s.con.nowTermId - 1) (by
    show n s.con.nowTermId - 1 < n s.con.nowTermId
    omega)
  rw [if_neg (by omega)] at hparent
  have hnumber : (s.pcb (top n s.con.nowTermId)).parentProcessNumber =
      slotId s.con.nowTermId (n s.con.nowTermId - 1) - 1 := hparent
  have hid : s.nowPcbId = top n s.con.nowTermId := hh.rows.nowPcbId_eq hpos
  rw [hid, hnumber]
  simp only [slotId]
  omega

/-- **Exit status.** After every guarded run the flag is clear if user code runs, and a step that
the guard allows and that ends a process makes the `execute` of its caller, and of no other
process, return the argument of `halt`, or 256 exactly for an exception. -/
theorem exit_status (hb : Bootable img) {s₀ : Kernel} {es : List Event} {log : CallLog}
    (hg : Guarded (logStep img) (LoggedGuard img) (boot s₀, fun _ => none) es)
    (hrun : run (logStep img) (boot s₀, fun _ => none) es = some (s, log)) :
    (s.cpu = .user → s.interruptHaltFlag = false) ∧
      ∀ e s', OwnTerminal img s e → s.callsHalt e = true → step img s e = some s' →
        ReportsEnd log s e s' := by
  have hrun' : run (step img) (boot s₀) es = some s := by
    rw [← fst_run_logStep img (boot s₀, fun _ => none) es, hrun]
    rfl
  have hclear : FlagClear s :=
    run_invariant (fun _ _ _ hs h => flagClear_step hs h) (.of_false rfl) hrun'
  refine ⟨fun hcpu => ?_, fun e s' hown hcall h => ?_⟩
  · by_contra hflag
    obtain ⟨sp, hfault⟩ := hclear (by simpa using hflag)
    rw [hcpu] at hfault
    cases hfault
  · obtain ⟨n, hh, hl⟩ := logFits_of_guarded_run hb hg hrun
    have hpos := Rows.pos_of_live hh.rows (hown.2.2.1 hcall).1
    have hreturns := haltReturns_step hb hh hl hown hcall h
    rw [HaltReturns] at hreturns
    rw [ReportsEnd]
    cases hr : log s.getCurPcb with
    | none =>
      rw [hr] at hreturns
      exact hreturns.shell
    | some r =>
      rw [hr] at hreturns
      have heax := eax_of_halt hclear hcall (parent_of_log hh hl hpos hr) h
      have hlt := e.exitStatus.toNat_lt
      refine ⟨hreturns.returnsTo, hreturns.caller, hreturns.cpu, fun hex => ?_, ?_⟩
      · rw [heax, hex]
        rfl
      · rw [heax]
        cases e.isException with
        | true => exact iff_of_true rfl rfl
        | false =>
          simp only [Bool.false_eq_true, if_false, iff_false]
          omega

/-- The second shell is killed by an exception. -/
theorem exit_status_sample : ∃ s log s',
    run (logStep sampleImage) (boot powerOn, fun _ => none) childEvents = some (s, log) ∧
    step sampleImage s (.exception [] noStale) = some s' ∧
      ReportsEnd log s (.exception [] noStale) s' := by
  have hobs : (run (logStep sampleImage) (boot powerOn, fun _ => none) childEvents).map (fun x =>
      (decide (OwnTerminal sampleImage x.1 (.exception [] noStale)),
        (step sampleImage x.1 (.exception [] noStale)).isSome)) = some (true, true) := by
    decide +kernel
  obtain ⟨⟨s, log⟩, hs, hobs⟩ := Option.map_eq_some_iff.mp hobs
  obtain ⟨hown, hstep⟩ := Prod.mk.inj hobs
  obtain ⟨s', hs'⟩ := Option.isSome_iff_exists.mp hstep
  exact ⟨s, log, s', hs, hs', (exit_status sampleImage_bootable
    (show Guarded _ (LoggedGuard sampleImage) _ _ by decide +kernel) hs).2 _ s'
      (of_decide_eq_true hown) rfl hs'⟩

/-- The shell of terminal 0 executes another one, process 1, which executes process 5 after a
switch to terminal 1. -/
def strayChildEvents : List Event :=
  [.tick noStale, .tick noStale, .tick noStale, .execute shellCommand noStale,
    .key 0x38 noStale, .key 0x3C noStale, .execute shellCommand noStale]

/-- An exception of process 5 ends process 1: its parent, process 0, is told that its child was
killed, and the caller of process 5 never hears of it. -/
theorem not_exit_status : ¬ ∀ (img : Image), Bootable img →
    ∀ (s₀ s : Kernel) (es : List Event) (log : CallLog),
      run (logStep img) (boot s₀, fun _ => none) es = some (s, log) →
      (s.cpu = .user → s.interruptHaltFlag = false) ∧
        ∀ e s', s.callsHalt e = true → step img s e = some s' → ReportsEnd log s e s' := by
  intro hreports
  have hobs : (run (logStep sampleImage) (boot powerOn, fun _ => none) strayChildEvents).map
      (fun x => ((x.2 x.1.getCurPcb).map CallRecord.caller,
        (step sampleImage x.1 (.exception [] noStale)).map fun s' => (s'.getCurPcb, s'.eax))) =
      some (some 1, some (0, 256)) := by decide +kernel
  obtain ⟨⟨s, log⟩, hs, hobs⟩ := Option.map_eq_some_iff.mp hobs
  obtain ⟨hcaller, hobs⟩ := Prod.mk.inj hobs
  obtain ⟨r, hr, hcaller⟩ := Option.map_eq_some_iff.mp hcaller
  dsimp only at hr
  obtain ⟨s', hs', hobs⟩ := Option.map_eq_some_iff.mp hobs
  have hreport := (hreports sampleImage sampleImage_bootable powerOn s _ log hs).2 _ s' rfl hs'
  rw [ReportsEnd, hr] at hreport
  have h01 := (Prod.mk.inj hobs).1.symm.trans (hreport.caller.trans hcaller)
  cases h01

end LinuxLikeKernel
