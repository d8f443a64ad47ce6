import LinuxLikeKernel.FailedStart
import LinuxLikeKernel.Halting

/-!
# Changes of a PCB

What a step can do to the files and the arguments of a PCB, whichever process runs. A call works
on the PCB of its caller, `file_read` on the one it finds through the stack pointer, `halt` on
descriptors of two processes, and a start writes a PCB that no process in the table has.

## Main definitions

- `PcbChange` — the PCB after a step

## Main results

- `execute_started_cases` — the state in which a program starts
- `pcbChange` — every step is one of `PcbChange`
-/

namespace LinuxLikeKernel
open ByteMemory Kernel Transition

variable {img : Image} {s s' : Kernel}

/-! ### Starts -/

/-- The new program runs. -/
def Kernel.Outcome.isStarted : Outcome → Bool
  | .started _ => true
  | _ => false

/-- `execute` starts a program when the command names one, the displayed terminal has a slot, and
the program is loaded to its end without a fault. -/
theorem execute_started_cases {sp : StackPtr} {command : List UInt8} {stale : Stale}
    (h : execute img s sp command stale = some (.started s')) :
    ∃ prog cur i mem, lookup img command stale = .found prog ∧ s.con.curTermId = some cur ∧
      pcbProcessNumber s.pcbMask cur = some i ∧
      s.paging.Reaches (loadStores img prog.inode) ∧
      (readData img prog.inode 0 startVirtualAddr (img.inodeSize prog.inode)).ret ≠ -1 ∧
      s' = (s.withMem mem).started sp cur i prog.args := by
  cases execute_exit h with
  | started hl hcur hslot hreach hret => exact ⟨_, _, _, _, hl, hcur, hslot, hreach, hret, rfl⟩

/-- The PCB of a process that starts. -/
theorem pcb_started (s : Kernel) (sp : StackPtr) (cur : TermId) (i : Fin 4) (args : List UInt8) :
    (s.started sp cur i args).pcb = Function.update s.pcb (slotId cur i)
      (newPcb (s.pcb (slotId cur i)) sp.up cur (slotId cur i) args) := rfl

theorem pcb_withMem (s : Kernel) (mem : Mem) : (s.withMem mem).pcb = s.pcb := rfl

theorem pcb_printf (s : Kernel) (str : List UInt8) : (s.printf str).pcb = s.pcb := rfl

/-- Any call of `execute` leaves the PCBs alone, or it starts a process in a free slot. -/
theorem pcb_execute {sp : StackPtr} {command : List UInt8} {stale : Stale} {o : Outcome}
    (h : execute img s sp command stale = some o) :
    (o.isStarted = false ∧ o.state.pcb = s.pcb) ∨
      ∃ cur i mem args, s.pcbMask cur i = false ∧
        o = .started ((s.withMem mem).started sp cur i args) := by
  cases execute_exit h with
  | refused => exact .inl ⟨rfl, rfl⟩
  | full => exact .inl ⟨rfl, pcb_printf ..⟩
  | failed => exact .inl ⟨rfl, rfl⟩
  | faulted => exact .inl ⟨rfl, rfl⟩
  | started _ _ hslot => exact .inr ⟨_, _, _, _, mask_pcbProcessNumber hslot, rfl⟩

/-! ### What a step does to a PCB -/

/-- The descriptors and the arguments. -/
def Pcb.files (p : Pcb) : (Fin 8 → FileDesc) × (Nat → UInt8) := (p.fds, p.argbuf)

theorem Pcb.files_clock (p : Pcb) (counter freq : Nat) :
    ({ p with rtcCounter := counter, rtcFreq := freq } : Pcb).files = p.files := rfl

/-- What a step from `s` can do to the files and the arguments of the PCB `id`. -/
inductive PcbChange (img : Image) (s : Kernel) (e : Event) (id : Nat) : Pcb → Prop
  | keeps {q : Pcb} (h : q.files = (s.pcb id).files) : PcbChange img s e id q
  | opens {filename : List UInt8} {dentry : Dentry} {fd : Fin 8} {q : Pcb}
      (he : e = .open filename) (hid : id = s.nowPcbId) (hfree : freeFd (s.pcb id) = some fd)
      (hfds : q.fds = Function.update (s.pcb id).fds fd (((s.pcb id).fds fd).bind dentry))
      (hargs : q.argbuf = (s.pcb id).argbuf) : PcbChange img s e id q
  | closes {fd : Int} {i : Fin 8} (he : e = .close fd) (hid : id = s.nowPcbId)
      (hi : (i.val : Int) = fd) :
      PcbChange img s e id ((s.pcb id).setFd i { (s.pcb id).fds i with flags := 0 })
  | reads {fd nbytes : Int} {buf : Nat} {i : Fin 8} (he : e = .read fd buf nbytes)
      (hid : id = s.getCurPcb) (hdriver : s.readDriver fd buf = some (i, .file))
      (hpage : InUserPage ((fileRead img ((s.pcb id).fds i) i buf nbytes).1.stores buf)) :
      PcbChange img s e id
        ((s.pcb id).setFd i (fileRead img ((s.pcb id).fds i) i buf nbytes).2)
  /-- The descriptors may be closed. -/
  | halts {q : Pcb} (hcall : s.callsHalt e = true)
      (hposition : ∀ fd, (q.fds fd).filePosition = ((s.pcb id).fds fd).filePosition)
      (hargs : q.argbuf = (s.pcb id).argbuf) : PcbChange img s e id q
  /-- The slot was free, or it is that of the process that ends. -/
  | starts {q : Pcb} {cur : TermId} {i : Fin 4} (hid : id = slotId cur i)
      (hfree : s.pcbMask cur i = false ∨
        s.callsHalt e = true ∧ uint8 (s.pcb s.nowPcbId).processNumber = id)
      (hfds : q.fds = freshFds) : PcbChange img s e id q

variable {e : Event} {id : Nat}

/-- The PCB `id` after a change of the PCB `p`. -/
theorem PcbChange.update {p : Nat} {q : Pcb} (h : PcbChange img s e p q) :
    PcbChange img s e id (Function.update s.pcb p q id) := by
  by_cases hid : id = p
  · subst hid
    rwa [Function.update_self]
  · rw [Function.update_of_ne hid]
    exact .keeps rfl

theorem files_setPcb {p : Nat} {q : Pcb} (h : q.files = (s.pcb p).files) (id : Nat) :
    ((s.setPcb p q).pcb id).files = (s.pcb id).files := congrFun (pcb_update_eq Pcb.files h) id

theorem argbuf_setFd (s : Kernel) (p : Nat) (fd : Fin 8) (d : FileDesc) (id : Nat) :
    ((s.setFd p fd d).pcb id).argbuf = (s.pcb id).argbuf :=
  have hkeep : ((s.pcb p).setFd fd d).argbuf = (s.pcb p).argbuf := rfl
  congrFun (pcb_update_eq Pcb.argbuf hkeep) id

theorem argbuf_close (s : Kernel) (fd : Int) (p : Nat) :
    ((s.close fd).pcb p).argbuf = (s.pcb p).argbuf := by
  obtain ⟨-, heq⟩ | ⟨i, -, -, -, heq⟩ := close_cases s fd
  · rw [heq]
    rfl
  · rw [heq]
    exact argbuf_setFd ..

theorem argbuf_haltFds (s : Kernel) (id p : Nat) :
    ((s.haltFds id).pcb p).argbuf = (s.pcb p).argbuf :=
  haltFds_eq (fun s => (s.pcb p).argbuf) (fun s i d => argbuf_setFd s id i d p)
    (fun s fd => argbuf_close s fd p) s

/-- The loop of `halt` moves no file position. -/
theorem filePosition_haltFds (s : Kernel) (id p : Nat) (fd : Fin 8) :
    (((s.haltFds id).pcb p).fds fd).filePosition = ((s.pcb p).fds fd).filePosition := by
  rw [fds_haltFds]
  simp only [haltedFd]
  split
  · rfl
  · split
    · rfl
    · rfl

theorem markSlot_of_ne {mask : TermId → Fin 4 → Bool} {row cur : TermId} {slot i : Fin 4}
    {used : Bool} (h : ¬(row = cur ∧ slot = i)) :
    markSlot mask row slot used cur i = mask cur i := by
  simp only [markSlot]
  by_cases hrow : cur = row
  · subst hrow
    rw [Function.update_self, Function.update_of_ne fun hi => h ⟨rfl, hi.symm⟩]
  · rw [Function.update_of_ne hrow]

/-- A call of `halt`, for a process that may start a shell in its own slot. -/
theorem pcbChange_halt {m : Kernel} {sp : StackPtr} {status : UInt8} {stale : Stale}
    (hcall : s.callsHalt e = true) (hpcb : m.pcb = s.pcb) (hnow : m.nowPcbId = s.nowPcbId)
    (hmask : m.pcbMask = s.pcbMask) (h : m.halt img sp status stale = some s') :
    PcbChange img s e id (s'.pcb id) := by
  have hhalted : ∀ {u : Kernel}, m.unlink m.nowPcbId = some u →
      PcbChange img s e id ((u.haltFds m.nowPcbId).pcb id) := by
    intro u hu
    refine .halts hcall (fun fd => ?_) ?_
    · rw [filePosition_haltFds, pcb_unlink hu, hpcb]
    · rw [argbuf_haltFds, pcb_unlink hu, hpcb]
  -- the call of `execute` for the new shell
  have hcalled : ∀ {u : Kernel} {o : Outcome}, m.unlink m.nowPcbId = some u →
      execute img ((u.haltFds m.nowPcbId).printf lastShellText) sp shellCommand stale = some o →
      PcbChange img s e id (o.state.pcb id) := by
    intro u o hu ho
    obtain ⟨-, hpcb'⟩ | ⟨cur, i, mem, args, hfree, rfl⟩ := pcb_execute ho
    · rw [hpcb', pcb_printf]
      exact hhalted hu
    · simp only [Outcome.state]
      by_cases hid : id = slotId cur i
      · refine .starts hid ?_ ?_
        · -- the slot was free before `unlink`, or `unlink` has freed it
          obtain ⟨row, slot, hslot, hcore, -⟩ := unlink_cases hu
          have hfree' : (u.haltFds m.nowPcbId).pcbMask cur i = false := hfree
          have hmask' : (u.haltFds m.nowPcbId).pcbMask = markSlot s.pcbMask row slot false :=
            (congrArg (fun c : Core => c.mask) (core_haltFds ..)).trans
              ((congrArg (fun c : Core => c.mask) hcore).trans (by rw [← hmask]; rfl))
          rw [hmask'] at hfree'
          rw [hpcb, hnow] at hslot
          by_cases hsame : row = cur ∧ slot = i
          · obtain ⟨rfl, rfl⟩ := hsame
            exact .inr ⟨hcall, hslot.trans hid.symm⟩
          · refine .inl ?_
            rwa [markSlot_of_ne hsame] at hfree'
        · rw [pcb_started, hid, Function.update_self]
          rfl
      · rw [pcb_started, Function.update_of_ne hid, pcb_withMem, pcb_printf]
        exact hhalted hu
  cases halt_exit h with
  | parent hu _ h =>
    rw [pcb_returnToParent h]
    exact hhalted hu
  | shell hu _ ho hs =>
    rw [hs]
    exact hcalled hu ho
  | faulted hu _ ho => exact hcalled hu ho
  | noShell hu _ ho h =>
    rw [pcb_returnToParent h]
    exact hcalled hu ho

/-- A tick saves the context in the PCB of the running terminal, and may launch a shell. -/
theorem pcbChange_pitInterruptHandler {stale : Stale}
    (h : s.pitInterruptHandler img stale = some s') : PcbChange img s e id (s'.pcb id) := by
  have hsaved : PcbChange img s e id (s.saveContext.pcb id) :=
    .update (.keeps rfl)
  cases pitInterruptHandler_exit h with
  | displayed => exact hsaved
  | shows => exact hsaved
  | launches _ _ _ ho =>
    obtain ⟨-, hpcb⟩ | ⟨cur, i, mem, args, hfree, rfl⟩ := pcb_execute ho
    · rw [hpcb]
      exact hsaved
    · simp only [Outcome.state]
      by_cases hid : id = slotId cur i
      · refine .starts hid (.inl hfree) ?_
        rw [pcb_started, hid, Function.update_self]
        rfl
      · rw [pcb_started, Function.update_of_ne hid]
        exact hsaved
  | switches _ _ h =>
    obtain ⟨cpu, rfl⟩ := resume_eq h
    exact hsaved

theorem pcbChange_execute {command : List UInt8} {stale : Stale}
    (h : step img s (.execute command stale) = some s') :
    PcbChange img s (.execute command stale) id (s'.pcb id) := by
  obtain ⟨o, ho, rfl⟩ := Option.map_eq_some_iff.mp (step_call h rfl).2
  obtain ⟨-, hpcb⟩ | ⟨cur, i, mem, args, hfree, rfl⟩ := pcb_execute ho
  · have hkeep := congrArg Pcb.files (congrFun hpcb id)
    cases o with
    | started r => exact .keeps hkeep
    | faulted r => exact .keeps hkeep
    | returned eax r => exact .keeps hkeep
  · by_cases hid : id = slotId cur i
    · refine .starts hid (.inl hfree) ?_
      dsimp only
      rw [pcb_started, hid, Function.update_self]
      rfl
    · dsimp only
      rw [pcb_started, Function.update_of_ne hid]
      exact .keeps rfl

theorem files_rtcInterruptHandler (s : Kernel) (id : Nat) :
    (s.rtcInterruptHandler.pcb id).files = (s.pcb id).files := by
  have htick : ∀ (s : Kernel) (t : TermId), ((s.rtcTick t).pcb id).files = (s.pcb id).files := by
    intro s t
    simp only [rtcTick]
    split
    · refine files_setPcb ?_ id
      rfl
    · rfl
  exact (htick _ 2).trans ((htick _ 1).trans (htick s 0))

/-- `file_read` works on the PCB that the stack pointer leads to, the other drivers on clocks. -/
theorem pcbChange_read {fd nbytes : Int} {buf : Nat}
    (h : s.read img fd buf nbytes = some s') :
    PcbChange img s (.read fd buf nbytes) id (s'.pcb id) := by
  cases read_exit h with
  | refused => exact .keeps rfl
  | term => exact .keeps rfl
  | rtcFault => exact .keeps rfl
  | rtc => exact .update (.keeps rfl)
  | dir => exact .keeps rfl
  | file hdriver hpage => exact .update (.reads rfl rfl hdriver hpage)
  | error => exact .keeps rfl

/-- The other steps of one process. -/
theorem PcbStep.change {pcb' : Nat → Pcb} (h : PcbStep img s e pcb')
    (hread : ∀ fd buf nbytes, e ≠ .read fd buf nbytes) : PcbChange img s e id (pcb' id) := by
  cases h with
  | same => exact .keeps rfl
  | «open» hd hfree =>
    refine .update (.opens rfl rfl hfree (Pcb.fds_opened ..) ?_)
    simp only [Pcb.opened]
    split
    · rfl
    · rfl
  | close hi => exact .update (.closes rfl rfl hi)
  | read => exact (hread _ _ _ rfl).elim
  | rtcRead => exact (hread _ _ _ rfl).elim
  | rtcWrite => exact .update (.keeps (Pcb.files_clock ..))
  | rtc => exact .keeps (files_rtcInterruptHandler s id)

/-- **Step lemma.** What a step does to the files and the arguments of a PCB. -/
theorem pcbChange (id : Nat) (h : step img s e = some s') :
    PcbChange img s e id (s'.pcb id) := by
  by_cases hcall : s.callsHalt e = true
  · obtain ⟨m, sp, stale, hhalt, hpcb, hnow, -, hmask, -⟩ := step_halt hcall h
    exact pcbChange_halt hcall hpcb hnow hmask hhalt
  · have hcall : s.callsHalt e = false := Bool.eq_false_iff.mpr hcall
    cases e with
    | tick stale => exact pcbChange_pitInterruptHandler (step_tick h)
    | execute command stale => exact pcbChange_execute h
    | read fd buf nbytes => exact pcbChange_read (step_call h rfl).2
    | _ => exact (pcb_step ⟨rfl, rfl, hcall⟩ h).change fun _ _ _ he => by cases he

end LinuxLikeKernel
