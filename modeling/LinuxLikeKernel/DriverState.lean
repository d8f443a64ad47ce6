import LinuxLikeKernel.Core

/-!
# The state of the drivers

What the drivers keep outside of descriptors: the count of `dir_read`, and in every PCB a clock
for the process, with the frequency it has chosen and the interrupts left of a period. Processes
start, end and are switched without a change to it.

## Main definitions

- `RtcClock` — the clock of a process, with its operations
- `DriverState` — the count and the clocks
- `driversAfter` — what an event makes of them

## Main results

- `drivers_step` — the kernel does just that
-/

namespace LinuxLikeKernel
open ByteMemory Transition Kernel

/-! ### Clocks -/

/-- The clock of a process: its frequency, and how many interrupts are left of a period. -/
structure RtcClock where
  freq : Nat
  counter : Nat
  deriving DecidableEq, Repr

namespace RtcClock

/-- After `rtc_open`. -/
def opened : RtcClock := ⟨2, 1024 / 2⟩

/-- An interrupt. -/
def tick (c : RtcClock) : RtcClock := { c with counter := c.counter - 1 }

/-- A new period. With the frequency 0 the division faults. -/
def start (c : RtcClock) : RtcClock :=
  if c.freq = 0 then c else { c with counter := 1024 / c.freq }

def setFreq (c : RtcClock) (freq : Nat) : RtcClock := { c with freq := freq }

end RtcClock

def Pcb.clock (p : Pcb) : RtcClock := ⟨p.rtcFreq, p.rtcCounter⟩

/-- What the drivers keep outside of descriptors. -/
structure DriverState where
  numFileRead : Nat
  clock : Nat → RtcClock

namespace DriverState

def setClock (d : DriverState) (id : Nat) (c : RtcClock) : DriverState :=
  { d with clock := Function.update d.clock id c }

def tick (d : DriverState) (id : Nat) : DriverState := d.setClock id (d.clock id).tick

end DriverState

namespace Kernel

variable {img : Image} {s s' : Kernel}

def drivers (s : Kernel) : DriverState := ⟨s.numFileRead, fun id => (s.pcb id).clock⟩

/-- The clock of the running process. -/
def nowClock (s : Kernel) : RtcClock := (s.pcb s.nowPcbId).clock

/-- The call of `open` reaches `rtc_open`. -/
def opensRtc (img : Image) (s : Kernel) (filename : List UInt8) : Bool :=
  (readDentryByName img filename).any (fun dentry => dentry.filetype == 0) &&
    (freeFd (s.pcb s.nowPcbId)).isSome

/-- The call of `read` or `write` goes to the RTC driver. -/
def usesRtc (s : Kernel) (fd : Int) (buf : Nat) : Bool :=
  (s.readDriver fd buf).any fun x => x.2 == .rtc

/-- What an event makes of the state of the drivers. -/
def driversAfter (img : Image) (s : Kernel) : Event → DriverState
  | .rtc => ((s.drivers.tick (s.pcbId 0)).tick (s.pcbId 1)).tick (s.pcbId 2)
  | .open filename =>
    if s.opensRtc img filename then s.drivers.setClock s.nowPcbId .opened else s.drivers
  | .read fd buf _ =>
    match s.readDriver fd buf with
    | some (_, .dir) => { s.drivers with numFileRead := (dirRead img s.numFileRead buf).2 }
    | some (_, .rtc) => s.drivers.setClock s.nowPcbId s.nowClock.start
    | _ => s.drivers
  | .write fd buf content nbytes =>
    if s.usesRtc fd buf ∧ RtcFreqValid (freqBits content) nbytes then
      s.drivers.setClock s.nowPcbId (s.nowClock.setFreq (freqBits content))
    else s.drivers
  | _ => s.drivers

/-! ### Changes of a PCB -/

theorem drivers_setClock {id : Nat} {p : Pcb} :
    (s.setPcb id p).drivers = s.drivers.setClock id p.clock := by
  simp only [drivers, DriverState.setClock, setPcb, DriverState.mk.injEq, true_and]
  funext q
  by_cases hq : q = id
  · subst hq
    simp
  · simp [Function.update_of_ne hq]

theorem drivers_setPcb {id : Nat} {p : Pcb} (h : p.clock = (s.pcb id).clock) :
    (s.setPcb id p).drivers = s.drivers := by
  rw [drivers_setClock, h]
  simp only [DriverState.setClock, drivers, Function.update_eq_self]

@[simp] theorem drivers_setFd (s : Kernel) (id : Nat) (fd : Fin 8) (d : FileDesc) :
    (s.setFd id fd d).drivers = s.drivers := drivers_setPcb rfl

@[simp] theorem drivers_setCon (s : Kernel) (k : Console) : (s.setCon k).drivers = s.drivers := rfl

@[simp] theorem drivers_ret (s : Kernel) (eax : Int) : (s.ret eax).drivers = s.drivers := rfl

@[simp] theorem drivers_block (s : Kernel) (f : Frame) : (s.block f).drivers = s.drivers := rfl

@[simp] theorem drivers_printf (s : Kernel) (str : List UInt8) :
    (s.printf str).drivers = s.drivers := rfl

/-! ### Calls on descriptors -/

theorem drivers_bindFd (s : Kernel) (fd : Fin 8) (dentry : Dentry) :
    (s.bindFd s.nowPcbId fd dentry).drivers =
      if dentry.filetype = 0 then s.drivers.setClock s.nowPcbId .opened else s.drivers := by
  simp only [bindFd]
  split
  · rename_i htype
    rw [if_pos htype]
    exact (drivers_setFd ..).trans drivers_setClock
  · rename_i htype
    rw [htype]
    exact drivers_setFd ..
  · rename_i htype
    rw [htype]
    exact drivers_setFd ..
  · rename_i htype _ _
    rw [if_neg htype]

theorem drivers_open (img : Image) (s : Kernel) (filename : List UInt8) :
    (s.open img filename).drivers = s.driversAfter img (.open filename) := by
  have hopens : s.opensRtc img filename = ((readDentryByName img filename).any
      (fun dentry => dentry.filetype == 0) && (freeFd (s.pcb s.nowPcbId)).isSome) := rfl
  simp only [«open», driversAfter]
  split
  · rename_i hd
    rw [hopens, hd]
    rfl
  · rename_i dentry hd
    split
    · rename_i hfree
      rw [hopens, hd, hfree]
      simp
    · rename_i fd hfree
      rw [hopens, hd, hfree]
      refine (drivers_bindFd (s.setFd s.nowPcbId fd _) fd dentry).trans ?_
      rw [drivers_setFd]
      simp only [Option.any_some, Option.isSome_some, Bool.and_true, beq_iff_eq]
      rfl

theorem drivers_close (s : Kernel) (fd : Int) : (s.close fd).drivers = s.drivers := by
  simp only [close]
  split
  · split
    · rfl
    · exact (drivers_ret ..).trans (drivers_setFd ..)
  · rfl

theorem drivers_read {fd nbytes : Int} {buf : Nat} (h : s.read img fd buf nbytes = some s') :
    s'.drivers = s.driversAfter img (.read fd buf nbytes) := by
  simp only [driversAfter]
  cases read_exit h with
  | refused hdriver =>
    rw [hdriver]
    rfl
  | term hdriver =>
    rw [hdriver]
    rfl
  | rtcFault hdriver hfreq =>
    rw [hdriver]
    dsimp only
    rw [show s.nowClock.start = s.nowClock from if_pos hfreq]
    exact (drivers_setPcb rfl).symm.trans drivers_setClock
  | rtc hdriver hfreq =>
    rw [hdriver]
    dsimp only
    rw [show s.nowClock.start = _ from if_neg hfreq]
    exact (drivers_block ..).trans drivers_setClock
  | dir hdriver =>
    rw [hdriver]
    rfl
  | file hdriver =>
    rw [hdriver]
    exact (drivers_ret ..).trans (drivers_setFd ..)
  | error hdriver hno =>
    rw [hdriver]
    obtain rfl | rfl := hno
    · rfl
    · rfl

theorem drivers_write {fd nbytes : Int} {buf : Nat} {content : Nat → UInt8}
    (h : s.write fd buf content nbytes = some s') :
    s'.drivers = s.driversAfter img (.write fd buf content nbytes) := by
  have huses : s.usesRtc fd buf = (s.readDriver fd buf).any fun x => x.2 == .rtc := rfl
  simp only [write] at h
  simp only [driversAfter]
  split at h
  · rename_i hdriver
    rw [← Option.some.inj h, huses, hdriver]
    rfl
  · rename_i i hdriver
    simp only [termWrite] at h
    split at h
    · cases h
    · obtain ⟨out, -, rfl⟩ := Option.map_eq_some_iff.mp h
      rw [huses, hdriver]
      rfl
  · rename_i i hdriver
    rw [← Option.some.inj h, huses, hdriver]
    simp only [rtcWrite]
    by_cases hvalid : RtcFreqValid (freqBits content) nbytes
    · rw [if_pos hvalid, if_pos ⟨rfl, hvalid⟩]
      exact (drivers_ret ..).trans drivers_setClock
    · rw [if_neg hvalid, if_neg fun h => hvalid h.2]
      rfl
  · rename_i i driver _ hrtc hdriver
    rw [← Option.some.inj h, huses, hdriver, if_neg fun h => ?_]
    · rfl
    · exact hrtc (by simpa using h.1)

/-! ### Processes -/

theorem drivers_resume {sp : StackPtr} {kind : Frame} (h : s.resume sp kind = some s') :
    s'.drivers = s.drivers := by
  obtain ⟨cpu, rfl⟩ := resume_eq h
  rfl

theorem drivers_started (s : Kernel) (sp : StackPtr) (cur : TermId) (n : Nat)
    (args : List UInt8) : (s.startProcess sp cur n args).drivers = s.drivers :=
  drivers_setPcb (s := s) (p := newPcb (s.pcb n) sp.up cur n args) rfl

/-- The state in which `execute` ends, with or without a new process. -/
theorem drivers_execute {sp : StackPtr} {command : List UInt8} {stale : Stale} {o : Outcome}
    (h : s.execute img sp command stale = some o) : o.state.drivers = s.drivers := by
  cases execute_exit h with
  | refused => rfl
  | full => exact drivers_printf ..
  | failed => rfl
  | faulted => rfl
  | started => exact (drivers_started ..).trans rfl

theorem drivers_haltFds (s : Kernel) (id : Nat) : (s.haltFds id).drivers = s.drivers :=
  haltFds_eq Kernel.drivers (fun s i d => drivers_setFd s id i d) drivers_close s

theorem drivers_returnToParent {id : Nat} {sp : StackPtr} {status : UInt8}
    (h : s.returnToParent id sp status = some s') : s'.drivers = s.drivers := by
  cases returnToParent_exit h with
  | fault => rfl
  | parent _ h => exact (drivers_resume h).trans rfl

theorem drivers_halt {sp : StackPtr} {status : UInt8} {stale : Stale}
    (h : s.halt img sp status stale = some s') : s'.drivers = s.drivers := by
  have hfds : ∀ {u : Kernel}, s.unlink s.nowPcbId = some u →
      (u.haltFds s.nowPcbId).drivers = s.drivers := by
    intro u hu
    obtain ⟨row, slot, -, rfl⟩ := unlink_eq hu
    exact (drivers_haltFds ..).trans rfl
  cases halt_exit h with
  | parent hu _ h => exact (drivers_returnToParent h).trans (hfds hu)
  | shell hu _ ho hs =>
    rw [hs]
    exact (drivers_execute ho).trans ((drivers_printf ..).trans (hfds hu))
  | faulted hu _ ho => exact (drivers_execute ho).trans ((drivers_printf ..).trans (hfds hu))
  | noShell hu _ ho h =>
    exact (drivers_returnToParent h).trans
      ((drivers_execute ho).trans ((drivers_printf ..).trans (hfds hu)))

/-! ### Interrupts -/

theorem drivers_saveContext (s : Kernel) : s.saveContext.drivers = s.drivers :=
  show ((s.push s.entry .pit).setPcb s.nowPcbId _).drivers = _ from drivers_setPcb rfl

theorem drivers_pitInterruptHandler {stale : Stale}
    (h : s.pitInterruptHandler img stale = some s') : s'.drivers = s.drivers := by
  refine Eq.trans ?_ (drivers_saveContext s)
  cases pitInterruptHandler_exit h with
  | displayed => rfl
  | shows => rfl
  | launches _ _ _ ho => exact (drivers_execute ho).trans rfl
  | switches _ _ h => exact (drivers_resume h).trans rfl

theorem drivers_keyboardInterrupt {scancode : UInt8} {stale : Stale}
    (h : s.keyboardInterrupt img scancode stale = some s') : s'.drivers = s.drivers := by
  simp only [keyboardInterrupt] at h
  obtain ⟨⟨k, ctrlC⟩, -, h⟩ := Option.bind_eq_some_iff.mp h
  dsimp only at h
  split at h
  · exact drivers_halt (s := s.setCon k) h
  · rw [← Option.some.inj h]
    rfl

theorem drivers_rtcTick (s : Kernel) (t : TermId) :
    (s.rtcTick t).drivers = s.drivers.tick (s.pcbId t) := by
  simp only [rtcTick]
  split
  · exact drivers_setClock
  · rename_i hzero
    have htick : (s.pcb (s.pcbId t)).clock.tick = (s.pcb (s.pcbId t)).clock := by
      simp only [Pcb.clock, RtcClock.tick, RtcClock.mk.injEq, true_and]
      omega
    simp only [DriverState.tick, DriverState.setClock, drivers, htick, Function.update_eq_self]

theorem drivers_rtcInterruptHandler (s : Kernel) :
    s.rtcInterruptHandler.drivers = s.driversAfter img .rtc := by
  have hid : ∀ (s : Kernel) t u, (s.rtcTick t).pcbId u = s.pcbId u := by
    intro s t u
    simp only [rtcTick]
    split <;> rfl
  simp only [rtcInterruptHandler, drivers_rtcTick, hid, driversAfter]

theorem drivers_runLoop {sp : StackPtr} (h : s.runLoop sp = some s') :
    s'.drivers = s.drivers := by
  cases runLoop_exit h <;> rfl

/-! ### Steps -/

/-- **Step lemma.** What an event makes of the state of the drivers. -/
theorem drivers_step {e : Event} (h : step img s e = some s') :
    s'.drivers = s.driversAfter img e := by
  cases e with
  | tick stale => exact drivers_pitInterruptHandler (step_tick h)
  | key scancode stale => exact drivers_keyboardInterrupt (step_key h)
  | rtc =>
    rw [step_rtc h]
    exact drivers_rtcInterruptHandler s
  | run =>
    obtain ⟨sp, -, h⟩ := step_run h
    exact drivers_runLoop h
  | exception message stale =>
    exact (drivers_halt (step_exception h)).trans (drivers_printf ..)
  | execute command stale =>
    obtain ⟨o, ho, rfl⟩ := Option.map_eq_some_iff.mp (step_call h rfl).2
    have hstate := drivers_execute ho
    cases o with
    | started r => exact hstate
    | faulted r => exact hstate
    | returned eax r => exact hstate
  | halt status stale => exact drivers_halt (step_call h rfl).2
  | «open» filename =>
    rw [← Option.some.inj (step_call h rfl).2]
    exact drivers_open ..
  | close fd =>
    rw [← Option.some.inj (step_call h rfl).2]
    exact drivers_close ..
  | read fd buf nbytes => exact drivers_read (step_call h rfl).2
  | write fd buf content nbytes => exact drivers_write (step_call h rfl).2
  | getargs buf nbytes =>
    rw [syscall_getargs (step_call h rfl).2]
    rfl
  | vidmap screenStart =>
    rw [syscall_vidmap (step_call h rfl).2]
    rfl

end Kernel

end LinuxLikeKernel
