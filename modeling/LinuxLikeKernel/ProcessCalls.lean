import LinuxLikeKernel.LiveTerminals

/-!
# The calls of one process

What the steps of a running process do to the PCBs: the calls on descriptors, the turns of the
loops of a blocked call, and the interrupts that come in between.

## Main definitions

- `OneProcess` — a step during which the same process runs on
- `PcbStep` — what such a step can do to the PCBs

## Main results

- `open_cases`, `close_cases` — what the two calls return, and what they change
- `pcb_step` — every such step is one of `PcbStep`
- `nowPcbId_step` — the PCB that the calls look up stays the same
-/

namespace LinuxLikeKernel
open Kernel Transition

variable {img : Image} {s s' : Kernel}

/-- No process switch, and no process that starts or ends. -/
def OneProcess (s : Kernel) (e : Event) : Prop :=
  e.isTick = false ∧ e.isExecute = false ∧ s.callsHalt e = false

instance (s : Kernel) (e : Event) : Decidable (OneProcess s e) :=
  inferInstanceAs (Decidable (_ ∧ _))

/-! ### Descriptors -/

/-- What `open` makes of the descriptor it takes for an entry. -/
def FileDesc.bind (d : FileDesc) (dentry : Dentry) : FileDesc :=
  match dentry.filetype with
  | 0 => { d with inode := 0, optable := .rtc, filePosition := 0, flags := 1 }
  | 1 => { d with inode := 0, optable := .dir, filePosition := 0, flags := 1 }
  | 2 => { d with inode := dentry.inode, optable := .file, filePosition := 0, flags := 1 }
  | _ => { d with filePosition := 0, flags := 1 }

@[simp] theorem FileDesc.flags_bind (d : FileDesc) (dentry : Dentry) :
    (d.bind dentry).flags = 1 := by
  simp only [FileDesc.bind]
  split <;> rfl

@[simp] theorem FileDesc.filePosition_bind (d : FileDesc) (dentry : Dentry) :
    (d.bind dentry).filePosition = 0 := by
  simp only [FileDesc.bind]
  split <;> rfl

/-- The PCB of a process that has opened an entry. -/
def Pcb.opened (p : Pcb) (fd : Fin 8) (dentry : Dentry) : Pcb :=
  if dentry.filetype = 0 then
    { p.setFd fd ((p.fds fd).bind dentry) with rtcFreq := 2, rtcCounter := 1024 / 2 }
  else p.setFd fd ((p.fds fd).bind dentry)

theorem Pcb.fds_opened (p : Pcb) (fd : Fin 8) (dentry : Dentry) :
    (p.opened fd dentry).fds = Function.update p.fds fd ((p.fds fd).bind dentry) := by
  simp only [Pcb.opened]
  split <;> rfl

@[simp] theorem pcb_setPcb (s : Kernel) (id : Nat) (p : Pcb) :
    (s.setPcb id p).pcb = Function.update s.pcb id p := rfl

@[simp] theorem pcb_setFd (s : Kernel) (id : Nat) (fd : Fin 8) (d : FileDesc) :
    (s.setFd id fd d).pcb = Function.update s.pcb id ((s.pcb id).setFd fd d) := rfl

@[simp] theorem pcb_ret (s : Kernel) (eax : Int) : (s.ret eax).pcb = s.pcb := rfl

@[simp] theorem Pcb.fds_setFd (p : Pcb) (fd : Fin 8) (d : FileDesc) :
    (p.setFd fd d).fds = Function.update p.fds fd d := rfl

@[simp] theorem Pcb.setFd_setFd (p : Pcb) (fd : Fin 8) (d d' : FileDesc) :
    (p.setFd fd d).setFd fd d' = p.setFd fd d' := by
  simp only [Pcb.setFd, Function.update_idem]

/-- The two parts of `open` together. -/
theorem pcb_bindFd {m : Kernel} {id : Nat} {fd : Fin 8} {dentry : Dentry}
    (hid : m.nowPcbId = id)
    (hm : m.pcb = Function.update s.pcb id ((s.pcb id).setFd fd
      { (s.pcb id).fds fd with flags := 1, filePosition := 0 })) :
    (m.bindFd id fd dentry).pcb =
      Function.update s.pcb id ((s.pcb id).opened fd dentry) := by
  by_cases h0 : dentry.filetype = 0
  · have hrtc : m.rtcOpen.pcb = Function.update m.pcb id
        { m.pcb id with rtcFreq := 2, rtcCounter := 1024 / 2 } := by
      rw [rtcOpen, hid, pcb_setPcb]
    simp only [bindFd, FileDesc.bind, Pcb.opened, h0, if_true, pcb_setFd, hrtc, hm,
      Function.update_self, Function.update_idem]
    simp [Pcb.setFd]
  · by_cases h1 : dentry.filetype = 1
    · simp [bindFd, FileDesc.bind, Pcb.opened, h1, hm]
    · by_cases h2 : dentry.filetype = 2
      · simp [bindFd, FileDesc.bind, Pcb.opened, h2, hm]
      · simp [bindFd, FileDesc.bind, Pcb.opened, h0, hm]

/-- `open` returns -1 and does nothing, or it takes the first free descriptor for an entry. -/
theorem open_cases (img : Image) (s : Kernel) (filename : List UInt8) :
    ((readDentryByName img filename = none ∨ freeFd (s.pcb s.nowPcbId) = none) ∧
        s.open img filename = s.ret (-1)) ∨
      ∃ dentry fd, readDentryByName img filename = some dentry ∧
        freeFd (s.pcb s.nowPcbId) = some fd ∧ (s.open img filename).eax = fd.val ∧
        (s.open img filename).pcb =
          Function.update s.pcb s.nowPcbId ((s.pcb s.nowPcbId).opened fd dentry) := by
  simp only [Kernel.open]
  split
  · rename_i hnone
    exact .inl ⟨.inl hnone, rfl⟩
  · rename_i dentry hd
    split
    · rename_i hfull
      exact .inl ⟨.inr hfull, rfl⟩
    · rename_i fd hfree
      exact .inr ⟨dentry, fd, hd, hfree, rfl, pcb_bindFd rfl rfl⟩

/-- The descriptor with this number is open. -/
def IsOpen (fds : Fin 8 → FileDesc) (fd : Int) : Prop :=
  ∃ i : Fin 8, (i.val : Int) = fd ∧ (fds i).flags ≠ 0

theorem isOpen_val {fds : Fin 8 → FileDesc} {i : Fin 8} :
    IsOpen fds i.val ↔ (fds i).flags ≠ 0 := by
  constructor
  · rintro ⟨j, hj, hopen⟩
    obtain rfl : j = i := by omega
    exact hopen
  · exact fun h => ⟨i, rfl, h⟩

/-- `close` returns -1 and does nothing, or it closes a descriptor and asks its driver. -/
theorem close_cases (s : Kernel) (fd : Int) :
    (¬ (2 ≤ fd ∧ IsOpen (s.pcb s.nowPcbId).fds fd) ∧ s.close fd = s.ret (-1)) ∨
      ∃ i : Fin 8, (i.val : Int) = fd ∧ 2 ≤ fd ∧ ((s.pcb s.nowPcbId).fds i).flags ≠ 0 ∧
        s.close fd = (s.setFd s.nowPcbId i { (s.pcb s.nowPcbId).fds i with flags := 0 }).ret
          (FileOptable.close ((s.pcb s.nowPcbId).fds i).optable) := by
  simp only [Kernel.close]
  split
  · rename_i hfd
    have hval : (((⟨fd.toNat, by omega⟩ : Fin 8).val : Nat) : Int) = fd := by
      simp only
      omega
    split
    · rename_i hclosed
      refine .inl ⟨?_, rfl⟩
      rintro ⟨-, hopen⟩
      rw [← hval, isOpen_val] at hopen
      exact hopen hclosed
    · rename_i hopen
      exact .inr ⟨_, hval, hfd.1, hopen, rfl⟩
  · rename_i hfd
    refine .inl ⟨?_, rfl⟩
    rintro ⟨h2, i, hi, -⟩
    omega

/-- `read` and `write` dispatch exactly if the descriptor is open and there is a buffer. -/
theorem readDriver_cases (s : Kernel) (fd : Int) (buf : Nat) :
    (¬ (buf ≠ 0 ∧ IsOpen (s.pcb s.nowPcbId).fds fd) ∧ s.readDriver fd buf = none) ∨
      ∃ i : Fin 8, (i.val : Int) = fd ∧ buf ≠ 0 ∧ ((s.pcb s.nowPcbId).fds i).flags ≠ 0 ∧
        s.readDriver fd buf = some (i, ((s.pcb s.nowPcbId).fds i).optable) := by
  simp only [readDriver]
  split
  · rename_i hfd
    have hval : (((⟨fd.toNat, by omega⟩ : Fin 8).val : Nat) : Int) = fd := by
      simp only
      omega
    split
    · rename_i hno
      refine .inl ⟨?_, rfl⟩
      rintro ⟨hbuf, hopen⟩
      rw [← hval, isOpen_val] at hopen
      exact hno.elim hbuf hopen
    · rename_i hno
      exact .inr ⟨_, hval, fun h => hno (.inl h), fun h => hno (.inr h), rfl⟩
  · rename_i hfd
    refine .inl ⟨?_, rfl⟩
    rintro ⟨-, i, hi, -⟩
    omega

theorem readDriver_eq_some {fd : Int} {buf : Nat} {i : Fin 8} {driver : FileOptable}
    (h : s.readDriver fd buf = some (i, driver)) :
    (i.val : Int) = fd ∧ ((s.pcb s.nowPcbId).fds i).flags ≠ 0 ∧
      ((s.pcb s.nowPcbId).fds i).optable = driver := by
  obtain ⟨-, hnone⟩ | ⟨j, hj, -, hopen, hsome⟩ := readDriver_cases s fd buf
  · rw [hnone] at h
    cases h
  · rw [hsome] at h
    obtain ⟨rfl, rfl⟩ := Prod.mk.inj (Option.some.inj h)
    exact ⟨hj, hopen, rfl⟩

/-! ### What a step does to the PCBs -/

/-- The PCBs after a step of one process. -/
inductive PcbStep (img : Image) (s : Kernel) : Event → (Nat → Pcb) → Prop
  | same {e : Event} : PcbStep img s e s.pcb
  | «open» {filename : List UInt8} {dentry : Dentry} {fd : Fin 8}
      (hd : readDentryByName img filename = some dentry)
      (hfree : freeFd (s.pcb s.nowPcbId) = some fd) :
      PcbStep img s (.open filename)
        (Function.update s.pcb s.nowPcbId ((s.pcb s.nowPcbId).opened fd dentry))
  | close {fd : Int} {i : Fin 8} (hi : (i.val : Int) = fd) :
      PcbStep img s (.close fd)
        (Function.update s.pcb s.nowPcbId
          ((s.pcb s.nowPcbId).setFd i { (s.pcb s.nowPcbId).fds i with flags := 0 }))
  /-- `file_read` moves the position in the PCB it finds through the stack pointer. -/
  | read {fd nbytes position : Int} {buf : Nat} {i : Fin 8}
      (hdriver : s.readDriver fd buf = some (i, .file)) :
      PcbStep img s (.read fd buf nbytes)
        (Function.update s.pcb s.getCurPcb
          ((s.pcb s.getCurPcb).setFd i
            { (s.pcb s.getCurPcb).fds i with filePosition := position }))
  | rtcRead {fd nbytes : Int} {buf : Nat} {i : Fin 8} (hcpu : s.cpu = .user)
      (hdriver : s.readDriver fd buf = some (i, .rtc))
      (hfreq : (s.pcb s.nowPcbId).rtcFreq ≠ 0) :
      PcbStep img s (.read fd buf nbytes)
        (Function.update s.pcb s.nowPcbId
          { s.pcb s.nowPcbId with rtcCounter := 1024 / (s.pcb s.nowPcbId).rtcFreq })
  | rtcWrite {fd nbytes : Int} {buf : Nat} {content : Nat → UInt8} {i : Fin 8}
      (hdriver : s.readDriver fd buf = some (i, .rtc))
      (hvalid : RtcFreqValid (freqBits content) nbytes) :
      PcbStep img s (.write fd buf content nbytes)
        (Function.update s.pcb s.nowPcbId
          { s.pcb s.nowPcbId with rtcFreq := freqBits content })
  | rtc : PcbStep img s .rtc s.rtcInterruptHandler.pcb

theorem pcb_read {fd nbytes : Int} {buf : Nat} (hcpu : s.cpu = .user)
    (h : s.read img fd buf nbytes = some s') : PcbStep img s (.read fd buf nbytes) s'.pcb := by
  cases read_exit h with
  | refused => exact .same
  | term => exact .same
  | rtcFault => exact .same
  | rtc hdriver hfreq => exact .rtcRead hcpu hdriver hfreq
  | dir => exact .same
  | file hdriver =>
    simp only [fileRead]
    split
    · exact .read hdriver
    · exact .read hdriver
  | error => exact .same

theorem pcb_write {fd nbytes : Int} {buf : Nat} {content : Nat → UInt8}
    (h : s.write fd buf content nbytes = some s') :
    PcbStep img s (.write fd buf content nbytes) s'.pcb := by
  obtain ⟨eax, rfl⟩ | ⟨out, eax, rfl⟩ | ⟨i, hdriver, hvalid, rfl⟩ := write_cases h
  · exact .same
  · exact .same
  · exact .rtcWrite hdriver hvalid

theorem pcb_runLoop {sp : StackPtr} (h : s.runLoop sp = some s') : s'.pcb = s.pcb := by
  cases runLoop_exit h <;> rfl

/-- **Step lemma.** What the steps of one process do to the PCBs. -/
theorem pcb_step {e : Event} (hdom : OneProcess s e) (h : step img s e = some s') :
    PcbStep img s e s'.pcb := by
  obtain ⟨htick, hexec, hhalt⟩ := hdom
  cases e with
  | tick stale => cases htick
  | execute command stale => cases hexec
  | halt status stale => cases hhalt
  | exception message stale => cases hhalt
  | key scancode stale =>
    have h := step_key h
    obtain ⟨⟨k, ctrlC⟩, hk, h⟩ := Option.bind_eq_some_iff.mp h
    have hflag : ctrlC = false := by simpa [callsHalt, hk] using hhalt
    subst hflag
    rw [← Option.some.inj h]
    exact .same
  | rtc =>
    rw [step_rtc h]
    exact .rtc
  | run =>
    obtain ⟨sp, -, h⟩ := step_run h
    rw [pcb_runLoop h]
    exact .same
  | «open» filename =>
    rw [← Option.some.inj (step_call h rfl).2]
    obtain ⟨-, heq⟩ | ⟨dentry, fd, hd, hfree, -, hpcb⟩ := open_cases img s filename
    · rw [heq]
      exact .same
    · rw [hpcb]
      exact .open hd hfree
  | close fd =>
    rw [← Option.some.inj (step_call h rfl).2]
    obtain ⟨-, heq⟩ | ⟨i, hi, -, -, heq⟩ := close_cases s fd
    · rw [heq]
      exact .same
    · rw [heq]
      exact .close hi
  | read fd buf nbytes =>
    obtain ⟨hcpu, h⟩ := step_call h rfl
    exact pcb_read hcpu h
  | write fd buf content nbytes => exact pcb_write (step_call h rfl).2
  | getargs buf nbytes =>
    rw [syscall_getargs (step_call h rfl).2]
    exact .same
  | vidmap screenStart =>
    rw [syscall_vidmap (step_call h rfl).2]
    exact .same

theorem nowPcbId_eq_of_table (h : s'.table = s.table) : s'.nowPcbId = s.nowPcbId := by
  have hnow : s'.con.nowTermId = s.con.nowTermId := congrArg (fun T : Table => T.now) h
  have hcur : (s'.con.term s.con.nowTermId).curPcbId = (s.con.term s.con.nowTermId).curPcbId :=
    congrArg (fun T : Table => (T.term s.con.nowTermId).curPcbId) h
  simp only [nowPcbId, pcbId, hnow, hcur]

/-- The steps of one process leave the process table alone. -/
theorem table_step {e : Event} (hdom : OneProcess s e) (h : step img s e = some s') :
    s'.table = s.table := by
  obtain ⟨htick, hexec, hhalt⟩ := hdom
  cases step_kind h with
  | tick => cases htick
  | execute => cases hexec
  | halt hcall => rw [hcall] at hhalt; cases hhalt
  | light hcall hexec hcore => exact table_eq_of_core hcore
  | block hcpu hcore hf => exact (table_block ..).trans (table_eq_of_core hcore)
  | fault hcpu => rfl
  | video hcore => exact congrArg Core.toTable hcore
  | loop hcpu hframe hf₀ hf hcore => exact congrArg Core.toTable hcore
  | loopEnd hcpu hframe hf₀ hdepth hcore => exact congrArg Core.toTable hcore

theorem nowPcbId_step {e : Event} (hdom : OneProcess s e) (h : step img s e = some s') :
    s'.nowPcbId = s.nowPcbId := nowPcbId_eq_of_table (table_step hdom h)

end LinuxLikeKernel
