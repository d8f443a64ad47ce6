import LinuxLikeKernel.CommandLine
import LinuxLikeKernel.FileContents
import LinuxLikeKernel.OperationExits

/-!
# What the operations change

The process table and what decides which process runs, as projections of the kernel state, and
for each operation what it does to them. The proofs about whole runs use these lemmas and not
the operations' definitions.

## Main definitions

- `Kernel.table` — what the kernel knows of its processes
- `Kernel.core` — the table with the stacks, the page tables and the processor
- `Kernel.callsHalt` — an event whose handling calls `halt`
- `Kernel.LoadsReach` — no load of a program faults

## Main results

- `Kernel.execute_cases`, `Kernel.halt_cases`, `Kernel.pitInterruptHandler_cases`,
  `step_cases` — everything these functions can do
-/

namespace LinuxLikeKernel
open ByteMemory Transition

/-! ### The table -/

/-- The fields of a terminal that drawing, typing and switching leave alone. -/
structure TermFixed where
  curPcbId : Int
  running : Bool
  videoMem : Nat

def Term.fixed (tm : Term) : TermFixed := ⟨tm.curPcbId, tm.running, tm.videoMem⟩

/-- The part of the console that does not depend on what is drawn, typed or displayed. -/
structure ConsoleFixed where
  now : TermId
  term : TermId → TermFixed

def Console.fixed (k : Console) : ConsoleFixed := ⟨k.nowTermId, fun t => (k.term t).fixed⟩

/-- The fields of a PCB that `execute` sets for good. -/
structure Ident where
  processNumber : Int
  parentProcessNumber : Int
  parentKsp : StackPtr
  parentKbp : StackPtr
  termId : Nat

def Pcb.ident (p : Pcb) : Ident :=
  ⟨p.processNumber, p.parentProcessNumber, p.parentKsp, p.parentKbp, p.termId⟩

@[ext] structure Table extends ConsoleFixed where
  mask : TermId → Fin 4 → Bool
  ident : Nat → Ident

def Kernel.table (s : Kernel) : Table := ⟨s.con.fixed, s.pcbMask, fun p => (s.pcb p).ident⟩

/-- The process table together with what decides which process runs. -/
structure Core extends Table where
  ksp : Nat → StackPtr
  kbp : Nat → StackPtr
  paging : PageTables
  tssEsp0 : Nat
  kstack : Nat → List Frame
  cpu : Cpu

def Kernel.core (s : Kernel) : Core :=
  ⟨s.table, fun p => (s.pcb p).ksp, fun p => (s.pcb p).kbp, s.paging, s.tssEsp0, s.kstack, s.cpu⟩

/-- A process is put in slot `i` of the row of terminal `cur`, by a caller whose frame is at
`sp`. -/
def Table.start (T : Table) (cur : TermId) (i : Fin 4) (sp : StackPtr) : Table :=
  { T with
    mask := Kernel.markSlot T.mask cur i true
    term := Function.update T.term cur { T.term cur with curPcbId := i.val }
    ident := Function.update T.ident (slotId cur i)
      ⟨slotId cur i, if i.val = 0 then -1 else slotId cur i - 1, sp, sp, cur⟩ }

/-- A slot is freed, and the running terminal goes back to the process `parent`. -/
def Table.unlink (T : Table) (row : TermId) (slot : Fin 4) (parent : Int) : Table :=
  { T with
    mask := Kernel.markSlot T.mask row slot false
    term := Function.update T.term T.now
      { T.term T.now with curPcbId := parent.tmod maxPcbMaskLen } }

/-- What starting a process changes, `execute` having its frame at `sp`. -/
def Core.start (c : Core) (cur : TermId) (i : Fin 4) (sp : StackPtr) : Core :=
  { c with
    toTable := c.toTable.start cur i sp.up
    paging := c.paging.pcbMapping userStart (Kernel.processFrame (slotId cur i))
    tssEsp0 := Kernel.processEsp0 (slotId cur i)
    kstack := Kernel.pushFrame c.kstack sp .execute
    cpu := .user }

/-- What a load that faults leaves: the slot is taken, and its page mapped. -/
def Core.place (c : Core) (cur : TermId) (i : Fin 4) : Core :=
  { c with
    mask := Kernel.markSlot c.mask cur i true
    paging := c.paging.pcbMapping userStart (Kernel.processFrame (slotId cur i)) }

/-- The program that has been found. -/
def Lookup.program : Lookup → Option Program
  | .found prog => some prog
  | _ => none

/-! ### Console operations -/

namespace Console

theorem fixed_setTerm (k : Console) (id : TermId) {tm : Term} (h : tm.fixed = (k.term id).fixed) :
    (k.setTerm id tm).fixed = k.fixed := by
  simp only [fixed, setTerm, ConsoleFixed.mk.injEq, true_and]
  funext t
  by_cases ht : t = id
  · subst ht
    simpa using h
  · simp [Function.update_of_ne ht]

@[simp] theorem fixed_setScreen (k : Console) (sc : Screen) :
    (k.setScreen sc).fixed = k.fixed := rfl

@[simp] theorem fixed_puts (k : Console) (str : List UInt8) : (k.puts str).fixed = k.fixed := rfl

/-- Printing in the background moves the cursor of the running terminal's record. -/
@[simp] theorem fixed_multiPlaceCursor (k : Console) (x y : Nat) :
    (k.multiPlaceCursor x y).fixed = k.fixed := by
  simp only [multiPlaceCursor]
  split
  · refine (fixed_setTerm _ _ ?_).trans (fixed_setTerm _ _ ?_)
    · rfl
    · rfl
  · refine (fixed_setTerm _ _ ?_).trans ((fixed_setScreen ..).trans (fixed_setTerm _ _ ?_))
    · rfl
    · rfl

@[simp] theorem fixed_multiPutc (k : Console) (c : UInt8) : (k.multiPutc c).fixed = k.fixed := by
  simp only [multiPutc]
  split
  · exact fixed_multiPlaceCursor ..
  · simp only [multiSetScreenCursor]
    split
    · refine (fixed_multiPlaceCursor ..).trans (fixed_setTerm _ _ ?_)
      rfl
    · refine (fixed_multiPlaceCursor ..).trans (fixed_setTerm _ _ ?_)
      rfl

@[simp] theorem fixed_multiPuts (k : Console) (str : List UInt8) :
    (k.multiPuts str).fixed = k.fixed := by
  induction str generalizing k with
  | nil => rfl
  | cons c cs ih => exact (ih (k.multiPutc c)).trans (fixed_multiPutc k c)

@[simp] theorem fixed_bufClear (k : Console) : k.bufClear.fixed = k.fixed := rfl

@[simp] theorem fixed_termSave (k : Console) (id : TermId) :
    (k.termSave id).fixed = k.fixed := fixed_setTerm k id rfl

@[simp] theorem fixed_termRestore (k : Console) (id : TermId) :
    (k.termRestore id).fixed = k.fixed := rfl

theorem fixed_termSwitch {k k' : Console} {oldId : Option TermId} {newId : TermId}
    (h : k.termSwitch oldId newId = some k') : k'.fixed = k.fixed := by
  obtain ⟨id, -, rfl⟩ := Option.map_eq_some_iff.mp h
  simp

theorem fixed_termReadTurn (k : Console) (length : Int) (phase : ReadPhase) :
    (k.termReadTurn length phase).con.fixed = k.fixed := by
  cases phase with
  | wait => rfl
  | woken => exact fixed_setTerm k _ rfl
  | copy i => simp only [termReadTurn]; split <;> rfl
  | clear j count => simp only [termReadTurn]; split <;> rfl

theorem fixed_keyEnter {k k' : Console} (h : k.keyEnter = some k') : k'.fixed = k.fixed := by
  simp only [keyEnter] at h
  split at h
  · obtain ⟨cur, -, rfl⟩ := Option.map_eq_some_iff.mp h
    rw [fixed_setScreen]
    refine (fixed_setTerm _ cur ?_).trans rfl
    rfl
  · rw [← Option.some.inj h]

theorem fixed_keyBackspace (k : Console) : k.keyBackspace.fixed = k.fixed := by
  simp only [keyBackspace]
  split <;> rfl

theorem fixed_keyboardInterruptHandler {k k' : Console} {scancode : UInt8} {ctrlC : Bool}
    (h : k.keyboardInterruptHandler scancode = some (k', ctrlC)) : k'.fixed = k.fixed := by
  cases keyStep h with
  | modifier => rfl
  | enter hkey hk => exact fixed_keyEnter hk
  | backspace => exact fixed_keyBackspace k
  | switch hkey halt hk => exact fixed_termSwitch hk
  | fn => rfl
  | noChar => rfl
  | char hkey hchar hk => cases hk <;> rfl

end Console

/-! ### Kernel operations that leave the core alone -/

namespace Kernel

theorem table_eq_of_core {s s' : Kernel} (h : s'.core = s.core) : s'.table = s.table :=
  congrArg Core.toTable h

theorem core_setCon {s : Kernel} {k : Console} (h : k.fixed = s.con.fixed) :
    (s.setCon k).core = s.core := by
  simp [core, table, setCon, h]

/-- A projection of the PCBs that the new PCB agrees on. -/
theorem pcb_update_eq {α : Type*} {pcb : Nat → Pcb} {id : Nat} {p : Pcb} (f : Pcb → α)
    (h : f p = f (pcb id)) : (fun q => f (Function.update pcb id p q)) = fun q => f (pcb q) := by
  funext q
  by_cases hq : q = id
  · subst hq
    simpa using h
  · simp [Function.update_of_ne hq]

theorem core_setPcb {s : Kernel} {id : Nat} {p : Pcb} (hi : p.ident = (s.pcb id).ident)
    (hs : p.ksp = (s.pcb id).ksp) (hb : p.kbp = (s.pcb id).kbp) :
    (s.setPcb id p).core = s.core := by
  simp only [core, table, setPcb, pcb_update_eq Pcb.ident hi, pcb_update_eq Pcb.ksp hs,
    pcb_update_eq Pcb.kbp hb]

@[simp] theorem core_setFd (s : Kernel) (id : Nat) (fd : Fin 8) (d : FileDesc) :
    (s.setFd id fd d).core = s.core := core_setPcb rfl rfl rfl

@[simp] theorem core_ret (s : Kernel) (eax : Int) : (s.ret eax).core = s.core := rfl

@[simp] theorem core_printf (s : Kernel) (str : List UInt8) : (s.printf str).core = s.core :=
  core_setCon rfl

@[simp] theorem curTermId_printf (s : Kernel) (str : List UInt8) :
    (s.printf str).con.curTermId = s.con.curTermId := rfl

@[simp] theorem core_rtcOpen (s : Kernel) : s.rtcOpen.core = s.core := core_setPcb rfl rfl rfl

@[simp] theorem core_bindFd (s : Kernel) (id : Nat) (fd : Fin 8) (dentry : Dentry) :
    (s.bindFd id fd dentry).core = s.core := by
  simp only [bindFd]
  split <;> simp

@[simp] theorem core_open (img : Image) (s : Kernel) (filename : List UInt8) :
    (s.open img filename).core = s.core := by
  simp only [Kernel.open]
  repeat' split
  all_goals simp

@[simp] theorem core_close (s : Kernel) (fd : Int) : (s.close fd).core = s.core := by
  simp only [close]
  repeat' split
  all_goals simp

@[simp] theorem core_print (s : Kernel) (out : List UInt8) : (s.print out).core = s.core := by
  refine core_setCon ?_
  split
  · exact Console.fixed_puts ..
  · exact Console.fixed_multiPuts ..

@[simp] theorem core_setRtcFreq (s : Kernel) (id freq : Nat) :
    (s.setRtcFreq id freq).core = s.core := core_setPcb rfl rfl rfl

theorem core_write {s s' : Kernel} {fd nbytes : Int} {buf : Nat} {content : Nat → UInt8}
    (h : s.write fd buf content nbytes = some s') : s'.core = s.core := by
  obtain ⟨eax, rfl⟩ | ⟨out, eax, rfl⟩ | ⟨i, -, -, rfl⟩ := write_cases h
  · exact core_ret s eax
  · rw [core_ret, core_print]
  · rw [core_ret, core_setRtcFreq]

@[simp] theorem core_haltFds (s : Kernel) (id : Nat) : (s.haltFds id).core = s.core :=
  haltFds_eq Kernel.core (fun s i d => core_setFd s id i d) core_close s

theorem con_close (s : Kernel) (fd : Int) : (s.close fd).con = s.con := by
  simp only [close]
  repeat' split
  all_goals rfl

theorem con_haltFds (s : Kernel) (id : Nat) : (s.haltFds id).con = s.con :=
  haltFds_eq Kernel.con (fun _ _ _ => rfl) con_close s

@[simp] theorem core_rtcTick (s : Kernel) (t : TermId) : (s.rtcTick t).core = s.core := by
  simp only [rtcTick]
  split
  · exact core_setPcb rfl rfl rfl
  · rfl

@[simp] theorem core_rtcInterruptHandler (s : Kernel) :
    s.rtcInterruptHandler.core = s.core := by
  simp [rtcInterruptHandler]

end Kernel

/-! ### Kernel operations that leave the table alone -/

namespace Kernel

@[simp] theorem table_block (s : Kernel) (f : Frame) : (s.block f).table = s.table := rfl

theorem table_resume {s s' : Kernel} {sp : StackPtr} {kind : Frame}
    (h : s.resume sp kind = some s') : s'.table = s.table := by
  obtain ⟨cpu, rfl⟩ := resume_eq h
  rfl

/-! ### `execute` -/

/-- The program that a command names can be loaded. -/
theorem load_ret {img : Image} (hwf : WellFormed img) {command : List UInt8} {stale : Stale}
    {prog : Program} (h : lookup img command stale = .found prog) :
    (readData img prog.inode 0 startVirtualAddr (img.inodeSize prog.inode)).ret ≠ -1 := by
  have hgood : GoodInode img prog.inode := by
    simp only [lookup] at h
    split at h
    · cases h
    · split at h
      · cases h
      · split at h
        · cases h
        · rename_i dentry hd
          split at h
          · cases h
          · obtain rfl := Lookup.found.inj h
            exact hwf.goodInode hd
  rw [readData_whole hgood (by decide)]
  omega

theorem fixed_setCurPcbId (s : Kernel) (t : TermId) (id : Int) :
    (s.setCurPcbId t id).con.fixed = { s.con.fixed with
      term := Function.update s.con.fixed.term t { s.con.fixed.term t with curPcbId := id } } := by
  simp only [setCurPcbId, setCon, Console.setTerm, Console.fixed, ConsoleFixed.mk.injEq, true_and]
  funext u
  by_cases hu : u = t
  · subst hu
    simp [Term.fixed]
  · simp [Function.update_of_ne hu]

theorem table_started (s : Kernel) (sp : StackPtr) (cur : TermId) (i : Fin 4)
    (args : List UInt8) : (s.started sp cur i args).table = s.table.start cur i sp.up := by
  have hmod : (slotId cur i : Int) % 4 = i.val := by
    simp only [slotId, maxPcbMaskLen]
    omega
  have hmod' : slotId cur i % 4 = 0 ↔ i.val = 0 := by
    simp only [slotId, maxPcbMaskLen]
    omega
  have hcon : (s.started sp cur i args).con.fixed = { s.con.fixed with
      term := Function.update s.con.fixed.term cur
        { s.con.fixed.term cur with curPcbId := i.val } } := by
    rw [← fixed_setCurPcbId, ← hmod]
    rfl
  refine Table.ext ?_ ?_ rfl ?_
  · exact congrArg ConsoleFixed.now hcon
  · exact congrArg ConsoleFixed.term hcon
  · funext p
    by_cases hp : p = slotId cur i
    · subst hp
      simp [Table.start, Kernel.started, startProcess, newPcb, Pcb.ident, hmod', push, setCurPcbId,
        setCon, setPcb, mapProcess, setMask, table]
    · simp [Table.start, Kernel.started, startProcess, push, setCurPcbId,
        setCon, setPcb, mapProcess, setMask, Function.update_of_ne hp, table]

theorem core_started (s : Kernel) (sp : StackPtr) (cur : TermId) (i : Fin 4)
    (args : List UInt8) : (s.started sp cur i args).core = s.core.start cur i sp := by
  have hpcb : ∀ f : Pcb → StackPtr,
      f (newPcb (s.pcb (slotId cur i)) sp.up cur (slotId cur i) args) = f (s.pcb (slotId cur i)) →
      (fun p => f ((s.started sp cur i args).pcb p)) = fun p => f (s.pcb p) :=
    fun f hf => pcb_update_eq f hf
  simp only [core, Core.start, Core.mk.injEq]
  exact ⟨table_started .., hpcb Pcb.ksp rfl, hpcb Pcb.kbp rfl, rfl, rfl, rfl, rfl⟩

/-- The user page of a process that has just been mapped. -/
theorem userFrame_mapProcess (s : Kernel) (n : Int) :
    (s.mapProcess n).paging.userFrame = some (processFrame n) :=
  (s.paging.mapsUserPage_pcbMapping _).userFrame (processFrame_aligned n)

theorem started_userFrame (s : Kernel) (sp : StackPtr) (cur : TermId) (i : Fin 4)
    (args : List UInt8) :
    (s.started sp cur i args).paging.userFrame = some (processFrame (slotId cur i)) :=
  userFrame_mapProcess (s.setMask cur i true) _

@[simp] theorem core_withMem (s : Kernel) (mem : Mem) : (s.withMem mem).core = s.core := rfl

/-- `execute` does one of four things: it refuses the command, it finds no slot, or it starts
the program in the row of the displayed terminal, unless the load of the program faults. -/
theorem execute_cases {img : Image} (hwf : WellFormed img) {s : Kernel} {sp : StackPtr}
    {command : List UInt8} {stale : Stale} {o : Outcome}
    (h : execute img s sp command stale = some o) :
    (lookup img command stale = .refused ∧ o = .returned (-1) s) ∨
      ∃ prog cur, lookup img command stale = .found prog ∧ s.con.curTermId = some cur ∧
        ((pcbProcessNumber s.pcbMask cur = none ∧ o = .returned 0 (s.printf noSpaceText)) ∨
          ∃ i mem, pcbProcessNumber s.pcbMask cur = some i ∧
            ((s.paging.Reaches (loadStores img prog.inode) ∧
                o = .started ((s.withMem mem).started sp cur i prog.args)) ∨
              (¬ s.paging.Reaches (loadStores img prog.inode) ∧
                o = .faulted { s.placed cur i mem with cpu := .fault sp }))) := by
  cases execute_exit h with
  | refused hl => exact .inl ⟨hl, rfl⟩
  | full hl hcur hslot => exact .inr ⟨_, _, hl, hcur, .inl ⟨hslot, rfl⟩⟩
  | failed hl hcur hslot hreach hret => exact absurd hret (load_ret hwf hl)
  | faulted hl hcur hslot hreach =>
    exact .inr ⟨_, _, hl, hcur, .inr ⟨_, _, hslot, .inr ⟨hreach, rfl⟩⟩⟩
  | started hl hcur hslot hreach =>
    exact .inr ⟨_, _, hl, hcur, .inr ⟨_, _, hslot, .inl ⟨hreach, rfl⟩⟩⟩

theorem lookup_shell {img : Image} (hb : Bootable img) (stale : Stale) :
    ∃ prog, lookup img shellCommand stale = .found prog ∧
      startVirtualAddr + img.inodeSize prog.inode ≤ userEnd := by
  obtain ⟨dentry, hd, hmagic, hfit⟩ := hb.shell
  have hheader : ∀ i < 4, headerByte img dentry.inode stale i = magicNumber.getD i 0 := by
    intro i hi
    have hlen : i < (readData img dentry.inode 0 localBuf 40).bytes.length := by
      have hl := congrArg List.length hmagic
      rw [List.length_take] at hl
      have h4 : magicNumber.length = 4 := rfl
      omega
    rw [← hmagic, headerByte, List.getD_eq_getElem _ _ hlen, List.getD_eq_getElem _ _ (by
      rw [List.length_take]
      omega), List.getElem_take]
  have hcmp : HasMagic img dentry.inode stale := by
    simp only [HasMagic, strncmp, strncmpFrom, hheader 0 (by decide), hheader 1 (by decide),
      hheader 2 (by decide), hheader 3 (by decide)]
    decide
  exact ⟨_, lookup_shellCommand hd hcmp, hfit⟩

/-- A program that fits in the user page is loaded into it. -/
theorem inUserPage_load {img : Image} {inode : Nat}
    (hfit : startVirtualAddr + img.inodeSize inode ≤ userEnd) :
    InUserPage (loadStores img inode) := by
  intro w hw
  have hlen := readData_length_le img inode 0 startVirtualAddr (img.inodeSize inode)
  have hstart : startVirtualAddr = 0x08048000 := rfl
  have hend : userEnd = 0x8400000 := rfl
  obtain ⟨k, hk, hw⟩ := Effect.mem_stores (by omega) hw
  simp only [userStart]
  omega

/-- **A shell starts** wherever the displayed terminal has a slot for it. -/
theorem execute_shell {img : Image} (hb : Bootable img) {s : Kernel} (sp : StackPtr)
    (stale : Stale) {cur : TermId} {i : Fin 4} (hcur : s.con.curTermId = some cur)
    (hslot : pcbProcessNumber s.pcbMask cur = some i) :
    ∃ args, execute img s sp shellCommand stale = some (.started (s.started sp cur i args)) := by
  obtain ⟨prog, hl, hfit⟩ := lookup_shell hb stale
  have hpage := inUserPage_load hfit
  obtain ⟨mem, heq, hmem⟩ := @execute_loaded img s sp _ _ _ _ _ hl hcur hslot
    (s.paging.reaches_of_inUserPage hpage)
  obtain rfl := hmem hpage
  rw [if_neg (load_ret hb.toWellFormed hl)] at heq
  exact ⟨prog.args, heq⟩

/-- The program that a command names, if it names one, is loaded without a page fault. -/
def LoadReaches (img : Image) (s : Kernel) (command : List UInt8) (stale : Stale) : Prop :=
  ∀ prog ∈ (lookup img command stale).program, s.paging.Reaches (loadStores img prog.inode)

/-- No load that an event may lead to faults: the program of a command, and the shell, which
ticks and `halt` start. -/
def LoadsReach (img : Image) (s : Kernel) : Event → Prop
  | .execute command stale => s.LoadReaches img command stale
  | .tick stale => s.LoadReaches img shellCommand stale
  | .key _ stale => s.LoadReaches img shellCommand stale
  | .halt _ stale => s.LoadReaches img shellCommand stale
  | .exception _ stale => s.LoadReaches img shellCommand stale
  | _ => True

instance (img : Image) (s : Kernel) (command : List UInt8) (stale : Stale) :
    Decidable (s.LoadReaches img command stale) :=
  inferInstanceAs (Decidable (∀ prog ∈ (lookup img command stale).program, _))

instance (img : Image) (s : Kernel) : DecidablePred (s.LoadsReach img)
  | .execute .. => inferInstanceAs (Decidable (LoadReaches ..))
  | .tick _ => inferInstanceAs (Decidable (LoadReaches ..))
  | .key .. => inferInstanceAs (Decidable (LoadReaches ..))
  | .halt .. => inferInstanceAs (Decidable (LoadReaches ..))
  | .exception .. => inferInstanceAs (Decidable (LoadReaches ..))
  | .rtc | .open _ | .close _ | .read .. | .write .. | .getargs .. | .vidmap _ | .run =>
    inferInstanceAs (Decidable True)

/-- What is loaded without a fault is not left half loaded. -/
theorem LoadReaches.ne_faulted {img : Image} {s r : Kernel} {sp : StackPtr}
    {command : List UInt8} {stale : Stale} (h : s.LoadReaches img command stale) :
    execute img s sp command stale ≠ some (.faulted r) := by
  intro ho
  cases execute_exit ho with
  | faulted hl hcur hslot hreach => exact hreach (h _ (by rw [hl]; rfl))

/-- It depends on the page tables only. -/
theorem LoadReaches.congr {img : Image} {s m : Kernel} {command : List UInt8} {stale : Stale}
    (h : s.LoadReaches img command stale) (hpaging : m.paging = s.paging) :
    m.LoadReaches img command stale := fun prog hprog => hpaging ▸ h prog hprog

/-! ### `halt` -/

/-- The slot of the PCB is freed and the row of the running terminal shortened; all else that
matters stays. -/
theorem unlink_cases {s s' : Kernel} {id : Nat} (h : s.unlink id = some s') :
    ∃ (row : TermId) (slot : Fin 4), uint8 (s.pcb id).processNumber = slotId row slot ∧
      s'.core = { s.core with
        toTable := s.table.unlink row slot (s.pcb id).parentProcessNumber } ∧
      s'.con.curTermId = s.con.curTermId := by
  obtain ⟨row, slot, hslot, rfl⟩ := unlink_eq h
  refine ⟨row, slot, hslot, ?_, rfl⟩
  have hcon := fixed_setCurPcbId (s.setCon s.con.bufClear) s.con.nowTermId
    ((s.pcb id).parentProcessNumber.tmod maxPcbMaskLen)
  simp only [core, table, Table.unlink, Core.mk.injEq, Table.mk.injEq]
  exact ⟨⟨hcon, rfl, rfl⟩, rfl, rfl, rfl, rfl, rfl, rfl⟩

/-- The last part of `halt`: an access above 8 MB, or a return into the parent's `execute`. -/
theorem returnToParent_cases {s s' : Kernel} {id : Nat} {sp : StackPtr} {status : UInt8}
    (h : s.returnToParent id sp status = some s') :
    ((s.pcb id).parentProcessNumber < 0 ∧ s' = { s with cpu := .fault sp }) ∨
      (0 ≤ (s.pcb id).parentProcessNumber ∧ ∃ m : Kernel,
        m.core = { s.core with
          paging := s.paging.pcbMapping userStart
            (processFrame (s.pcb (s.pcb id).parentProcessNumber.toNat).processNumber)
          tssEsp0 := processEsp0 (s.pcb (s.pcb id).parentProcessNumber.toNat).processNumber } ∧
        m.con = s.con ∧ m.resume (s.pcb id).parentKbp .execute = some s') := by
  cases returnToParent_exit h with
  | fault hneg => exact .inl ⟨hneg, rfl⟩
  | parent hparent h => exact .inr ⟨hparent, s.parentState id status, rfl, rfl, h⟩

/-- `halt` unlinks the process; then a process with a parent returns to it, and the last shell
calls `execute`. -/
theorem halt_cases {img : Image} {s s' : Kernel} {sp : StackPtr} {status : UInt8} {stale : Stale}
    (h : s.halt img sp status stale = some s') :
    ∃ (row : TermId) (slot : Fin 4) (m : Kernel),
      uint8 (s.pcb s.nowPcbId).processNumber = slotId row slot ∧
      m.core = { s.core with
        toTable := s.table.unlink row slot (s.pcb s.nowPcbId).parentProcessNumber } ∧
      m.con.curTermId = s.con.curTermId ∧
      (((s.pcb s.nowPcbId).parentProcessNumber = -1 ∧
          ∃ o, execute img m sp shellCommand stale = some o ∧
            ((∃ r, o = .started r ∧ s' = r.push sp .restart) ∨ o = .faulted s' ∨
              ∃ eax r, o = .returned eax r ∧ r.returnToParent s.nowPcbId sp status = some s')) ∨
        ((s.pcb s.nowPcbId).parentProcessNumber ≠ -1 ∧
          m.returnToParent s.nowPcbId sp status = some s')) := by
  have hunlinked : ∀ {u : Kernel}, s.unlink s.nowPcbId = some u →
      ∃ (row : TermId) (slot : Fin 4),
        uint8 (s.pcb s.nowPcbId).processNumber = slotId row slot ∧
        (u.haltFds s.nowPcbId).core = { s.core with
          toTable := s.table.unlink row slot (s.pcb s.nowPcbId).parentProcessNumber } ∧
        (u.haltFds s.nowPcbId).con.curTermId = s.con.curTermId ∧
        ((u.haltFds s.nowPcbId).pcb s.nowPcbId).parentProcessNumber =
          (s.pcb s.nowPcbId).parentProcessNumber := by
    intro u hu
    obtain ⟨row, slot, hslot, hcore, hcur⟩ := unlink_cases hu
    have hcore' := (core_haltFds u s.nowPcbId).trans hcore
    refine ⟨row, slot, hslot, hcore',
      (congrArg Console.curTermId (con_haltFds u s.nowPcbId)).trans hcur, ?_⟩
    exact congrArg Ident.parentProcessNumber
      (congrFun (congrArg (fun c : Core => c.ident) hcore') s.nowPcbId)
  cases halt_exit h with
  | parent hu hparent h =>
    obtain ⟨row, slot, hslot, hcore, hcur, hnumber⟩ := hunlinked hu
    exact ⟨row, slot, _, hslot, hcore, hcur, .inr ⟨hnumber ▸ hparent, h⟩⟩
  | shell hu hroot ho hs =>
    obtain ⟨row, slot, hslot, hcore, hcur, hnumber⟩ := hunlinked hu
    exact ⟨row, slot, _, hslot, (core_printf ..).trans hcore, (curTermId_printf ..).trans hcur,
      .inl ⟨hnumber ▸ hroot, _, ho, .inl ⟨_, rfl, hs⟩⟩⟩
  | faulted hu hroot ho =>
    obtain ⟨row, slot, hslot, hcore, hcur, hnumber⟩ := hunlinked hu
    exact ⟨row, slot, _, hslot, (core_printf ..).trans hcore, (curTermId_printf ..).trans hcur,
      .inl ⟨hnumber ▸ hroot, _, ho, .inr (.inl rfl)⟩⟩
  | noShell hu hroot ho h =>
    obtain ⟨row, slot, hslot, hcore, hcur, hnumber⟩ := hunlinked hu
    exact ⟨row, slot, _, hslot, (core_printf ..).trans hcore, (curTermId_printf ..).trans hcur,
      .inl ⟨hnumber ▸ hroot, _, ho, .inr (.inr ⟨_, _, rfl, h⟩)⟩⟩

/-! ### Ticks -/

theorem core_saveContext (s : Kernel) :
    s.saveContext.core = { s.core with
      now := nextTermId s.con.nowTermId
      ksp := Function.update s.core.ksp s.nowPcbId s.entry.up
      kbp := Function.update s.core.kbp s.nowPcbId s.entry.up
      kstack := pushFrame s.kstack s.entry .pit } := by
  have hident : (fun p => (s.saveContext.pcb p).ident) = fun p => (s.pcb p).ident :=
    pcb_update_eq Pcb.ident rfl
  have hupdate : ∀ f : Pcb → StackPtr, f { s.pcb s.nowPcbId with
        kbp := s.entry.up, ksp := s.entry.up } = s.entry.up →
      (fun p => f (s.saveContext.pcb p)) =
        Function.update (fun p => f (s.pcb p)) s.nowPcbId s.entry.up := by
    intro f hf
    funext p
    by_cases hp : p = s.nowPcbId
    · subst hp
      simpa [saveContext, setCon, setPcb, push] using hf
    · simp [saveContext, setCon, setPcb, push, Function.update_of_ne hp]
  simp only [core, table, Core.mk.injEq, Table.mk.injEq]
  exact ⟨⟨rfl, rfl, hident⟩, hupdate Pcb.ksp rfl, hupdate Pcb.kbp rfl, rfl, rfl, rfl, rfl⟩

theorem fixed_launchTerm (k : Console) (id : TermId) :
    (k.launchTerm id).fixed = { k.fixed with
      term := Function.update k.fixed.term id { k.fixed.term id with running := true } } := by
  have hrest : ∀ k' : Console, k'.fixed = k.fixed →
      (k'.setTerm id { k'.term id with running := true }).fixed = { k.fixed with
        term := Function.update k.fixed.term id { k.fixed.term id with running := true } } := by
    intro k' hk'
    rw [← hk']
    simp only [Console.fixed, Console.setTerm, ConsoleFixed.mk.injEq, true_and]
    funext t
    by_cases ht : t = id
    · subst ht
      simp [Term.fixed]
    · simp [Function.update_of_ne ht]
  simp only [Console.launchTerm]
  refine hrest _ ?_
  rw [Console.fixed_termRestore]
  split
  · exact Console.fixed_termSave ..
  · rfl

theorem core_launchState (s : Kernel) :
    s.launchState.core = { s.saveContext.core with
      term := Function.update s.core.term (nextTermId s.con.nowTermId)
        { s.core.term (nextTermId s.con.nowTermId) with running := true } } := by
  simp only [launchState, core, table, setCon, Core.mk.injEq, Table.mk.injEq, and_true]
  exact fixed_launchTerm ..

theorem curTermId_launchState (s : Kernel) :
    s.launchState.con.curTermId = some (nextTermId s.con.nowTermId) := rfl

/-- A tick that launches is a call of `execute` from that state. -/
theorem pitInterruptHandler_launch {img : Image} {s : Kernel} (stale : Stale)
    (hempty : (s.con.term (nextTermId s.con.nowTermId)).curPcbId = -1)
    (hcur : s.con.curTermId ≠ some (nextTermId s.con.nowTermId))
    (hrun : (s.con.term (nextTermId s.con.nowTermId)).running = false) :
    s.pitInterruptHandler img stale =
      (execute img s.launchState s.entry.up shellCommand stale).map fun
        | .started r => r
        | .faulted r => r
        | .returned _ r => r := by
  have hempty' : (s.saveContext.con.term s.saveContext.con.nowTermId).curPcbId = -1 := hempty
  have hcur' : s.saveContext.con.curTermId ≠ some s.saveContext.con.nowTermId := hcur
  have hrun' : ¬(s.saveContext.con.term s.saveContext.con.nowTermId).running = true :=
    Bool.eq_false_iff.mp hrun
  simp only [pitInterruptHandler, if_pos hempty', termLaunch, if_neg hcur', if_neg hrun']
  rfl

/-- What a tick does, after saving the context: it finds an empty terminal and takes one of
the exits of `term_launch` or launches it, or it switches to the terminal's process. -/
theorem pitInterruptHandler_cases {img : Image} {s s' : Kernel} {stale : Stale}
    (h : s.pitInterruptHandler img stale = some s') :
    ((s.con.term (nextTermId s.con.nowTermId)).curPcbId = -1 ∧
      ((s.con.curTermId = some (nextTermId s.con.nowTermId) ∧ s' = s.saveContext) ∨
        (s.con.curTermId ≠ some (nextTermId s.con.nowTermId) ∧
          (s.con.term (nextTermId s.con.nowTermId)).running = true ∧
          s'.core = s.saveContext.core) ∨
        (s.con.curTermId ≠ some (nextTermId s.con.nowTermId) ∧
          (s.con.term (nextTermId s.con.nowTermId)).running = false ∧
          ∃ o, execute img s.launchState s.entry.up shellCommand stale = some o ∧
            (o = .started s' ∨ o = .faulted s' ∨ ∃ eax, o = .returned eax s')))) ∨
    ((s.con.term (nextTermId s.con.nowTermId)).curPcbId ≠ -1 ∧
      ∃ (page : Nat) (m : Kernel),
        s.saveContext.switchVideo (s.saveContext.pcb s.saveContext.nowPcbId) = some page ∧
        m.core = { s.saveContext.core with
          paging := (s.paging.pcbMapping userStart (processFrame
            ((s.con.term (nextTermId s.con.nowTermId)).curPcbId +
              (nextTermId s.con.nowTermId).val * maxPcbMaskLen))).schedulingVideoMapping page
          tssEsp0 := processEsp0 ((s.con.term (nextTermId s.con.nowTermId)).curPcbId +
            (nextTermId s.con.nowTermId).val * maxPcbMaskLen) } ∧
        m.con.curTermId = s.con.curTermId ∧
        m.con.term = s.con.term ∧
        m.resume (s.saveContext.pcb s.saveContext.nowPcbId).kbp .pit = some s') := by
  cases pitInterruptHandler_exit h with
  | displayed hempty hcur => exact .inl ⟨hempty, .inl ⟨hcur, rfl⟩⟩
  | shows hempty hcur hrun hk =>
    exact .inl ⟨hempty, .inr (.inl ⟨hcur, hrun, core_setCon (Console.fixed_termSwitch hk)⟩)⟩
  | @launches o hempty hcur hrun ho =>
    refine .inl ⟨hempty, .inr (.inr ⟨hcur, hrun, o, ho, ?_⟩)⟩
    cases o with
    | started r => exact .inl rfl
    | faulted r => exact .inr (.inl rfl)
    | returned eax r => exact .inr (.inr ⟨eax, rfl⟩)
  | @switches page _ hne hpage h =>
    exact .inr ⟨hne, page, s.switchState page, hpage, rfl, rfl, rfl, h⟩

end Kernel

/-! ### Steps -/

/-- Ctrl+C has cleared the line buffer and nothing else. -/
theorem Console.ctrlC_eq {k k' : Console} {scancode : UInt8}
    (h : k.keyboardInterruptHandler scancode = some (k', true)) : k' = k.bufClear := by
  cases keyStep h with
  | char hkey hchar hk =>
    cases hk with
    | ctrlC => rfl

/-- The frame of a kernel loop that runs with interrupts on. -/
def Frame.IsWait : Frame → Prop
  | .termRead .. => True
  | .rtcRead _ => True
  | _ => False

def Event.isExecute : Event → Bool
  | .execute .. => true
  | _ => false

/-- The event is a system call. -/
def Event.isCall : Event → Bool
  | .tick _ => false
  | .key .. => false
  | .rtc => false
  | .exception .. => false
  | .run => false
  | _ => true

namespace Kernel

/-- The event's handling ends in a call of `halt`. -/
def callsHalt (s : Kernel) : Event → Bool
  | .halt .. => true
  | .exception .. => true
  | .key scancode _ => ((s.con.keyboardInterruptHandler scancode).map Prod.snd).getD false
  | _ => false

theorem entry_eq_of_core {s s' : Kernel} (h : s'.core = s.core) : s'.entry = s.entry := by
  have hcpu : s'.cpu = s.cpu := congrArg Core.cpu h
  have htss : s'.tssEsp0 = s.tssEsp0 := congrArg Core.tssEsp0 h
  simp only [entry, hcpu, htss]

/-- No kernel access has just faulted, so that interrupts can be served. -/
def Interruptible (s : Kernel) : Prop := ∀ sp, s.cpu ≠ .fault sp

/-- The kinds of steps, by what they do to the core. -/
inductive StepKind (img : Image) (s : Kernel) : Event → Kernel → Prop
  | tick {stale : Stale} {s' : Kernel} (hi : s.Interruptible)
      (h : s.pitInterruptHandler img stale = some s') : StepKind img s (.tick stale) s'
  | execute {command : List UInt8} {stale : Stale} {o : Outcome} {s' : Kernel}
      (hcpu : s.cpu = .user) (h : execute img s s.entry command stale = some o)
      (ho : o = .started s' ∨ o = .faulted s' ∨ ∃ eax r, o = .returned eax r ∧ s' = r.ret eax) :
      StepKind img s (.execute command stale) s'
  | halt {e : Event} {m s' : Kernel} {status : UInt8} {stale : Stale}
      (hcall : s.callsHalt e = true) (hcore : m.core = s.core)
      (hcur : m.con.curTermId = s.con.curTermId)
      (hload : s.LoadsReach img e → s.LoadReaches img shellCommand stale)
      (h : m.halt img m.entry status stale = some s') : StepKind img s e s'
  | light {e : Event} {s' : Kernel} (hcall : s.callsHalt e = false)
      (hexec : e.isExecute = false) (hcore : s'.core = s.core) : StepKind img s e s'
  | block {fd nbytes : Int} {buf : Nat} {m : Kernel} {f : Frame} (hcpu : s.cpu = .user)
      (hcore : m.core = s.core) (hf : f.IsWait) :
      StepKind img s (.read fd buf nbytes) (m.block f)
  | fault {fd nbytes : Int} {buf : Nat} (hcpu : s.cpu = .user) :
      StepKind img s (.read fd buf nbytes) { s with cpu := .fault s.entry }
  | video {screenStart page : Nat} {s' : Kernel}
      (hcore : s'.core = { s.core with paging := s.paging.syscallVideoMapping page }) :
      StepKind img s (.vidmap screenStart) s'
  | loop {sp : StackPtr} {f₀ f : Frame} {s' : Kernel} (hcpu : s.cpu = .kernel sp)
      (hframe : s.frameAt sp = some f₀) (hf₀ : f₀.IsWait) (hf : f.IsWait)
      (hcore : s'.core = { s.core with
        kstack := pushFrame s.kstack ⟨sp.stack, sp.depth - 1⟩ f }) :
      StepKind img s .run s'
  | loopEnd {sp : StackPtr} {f₀ : Frame} {s' : Kernel} (hcpu : s.cpu = .kernel sp)
      (hframe : s.frameAt sp = some f₀) (hf₀ : f₀.IsWait) (hdepth : sp.depth = 1)
      (hcore : s'.core = { s.core with cpu := .user }) : StepKind img s .run s'

theorem runLoop_kind {img : Image} {s s' : Kernel} {sp : StackPtr} (hcpu : s.cpu = .kernel sp)
    (h : s.runLoop sp = some s') : StepKind img s .run s' := by
  have hturn : ∀ length phase, (s.setCon (s.con.termReadTurn length phase).con).core = s.core :=
    fun length phase => core_setCon (Console.fixed_termReadTurn ..)
  cases runLoop_exit h with
  | boot => exact .light rfl rfl rfl
  | @reads buf length phase next hframe =>
    have hf : (Frame.termRead buf length next).IsWait := trivial
    refine .loop hcpu hframe trivial hf ?_
    rw [← hturn length phase]
    rfl
  | @readEnds buf j count length hframe _ _ hdepth =>
    refine .loopEnd hcpu hframe trivial hdepth ?_
    rw [← hturn length (.clear j count)]
    rfl
  | waits => exact .light rfl rfl rfl
  | rtcEnds hframe _ hdepth => exact .loopEnd hcpu hframe trivial hdepth rfl

theorem read_kind {img : Image} {s s' : Kernel} {fd nbytes : Int} {buf : Nat}
    (hcpu : s.cpu = .user) (h : s.read img fd buf nbytes = some s') :
    StepKind img s (.read fd buf nbytes) s' := by
  cases read_exit h with
  | refused => exact .light rfl rfl rfl
  | term => exact .block hcpu rfl trivial
  | rtcFault => exact .fault hcpu
  | rtc => exact .block hcpu (core_setPcb rfl rfl rfl) trivial
  | dir => exact .light rfl rfl rfl
  | file => exact .light rfl rfl (by rw [core_ret, core_setFd])
  | error => exact .light rfl rfl rfl

theorem keyboardInterrupt_kind {img : Image} {s s' : Kernel} {scancode : UInt8} {stale : Stale}
    (h : s.keyboardInterrupt img scancode stale = some s') :
    StepKind img s (.key scancode stale) s' := by
  obtain ⟨⟨k, ctrlC⟩, hk, h⟩ := Option.bind_eq_some_iff.mp h
  have hfixed := Console.fixed_keyboardInterruptHandler hk
  cases ctrlC with
  | true =>
    obtain rfl := Console.ctrlC_eq hk
    have hcore : (s.setCon s.con.bufClear).core = s.core := core_setCon hfixed
    have hhalt : (s.setCon s.con.bufClear).halt img (s.setCon s.con.bufClear).entry 1 stale =
        some s' := by
      rw [entry_eq_of_core hcore]
      exact h
    exact .halt (by simp [callsHalt, hk]) hcore rfl id hhalt
  | false =>
    refine .light (by simp [callsHalt, hk]) rfl ?_
    rw [← Option.some.inj h]
    exact core_setCon hfixed

theorem exceptionHandler_kind {img : Image} {s s' : Kernel} {message : List UInt8}
    {stale : Stale} (h : s.exceptionHandler img message stale = some s') :
    StepKind img s (.exception message stale) s' := by
  have hcore : ({ s with interruptHaltFlag := true }.printf message).core = s.core :=
    core_printf ..
  exact .halt rfl hcore rfl id h

theorem syscall_kind {img : Image} {s s' : Kernel} {e : Event} (hcpu : s.cpu = .user)
    (h : s.syscall img e = some s') : StepKind img s e s' := by
  cases e with
  | execute command stale =>
    obtain ⟨o, ho, hs⟩ := Option.map_eq_some_iff.mp h
    refine .execute hcpu ho ?_
    cases o with
    | started r => exact .inl (congrArg Outcome.started hs)
    | faulted r => exact .inr (.inl (congrArg Outcome.faulted hs))
    | returned eax r => exact .inr (.inr ⟨eax, r, rfl, hs.symm⟩)
  | halt status stale => exact .halt rfl rfl rfl id h
  | «open» filename => exact .light rfl rfl (by rw [← Option.some.inj h, core_open])
  | close fd => exact .light rfl rfl (by rw [← Option.some.inj h, core_close])
  | read fd buf nbytes => exact read_kind hcpu h
  | write fd buf content nbytes => exact .light rfl rfl (core_write h)
  | getargs buf nbytes => exact .light rfl rfl (by rw [syscall_getargs h, core_ret])
  | vidmap screenStart =>
    obtain rfl := syscall_vidmap h
    simp only [vidmap]
    split
    · exact .light rfl rfl rfl
    · exact .video rfl
  | tick stale => cases h
  | key scancode stale => cases h
  | rtc => cases h
  | exception message stale => cases h
  | run => cases h

/-- Every step is of one of these kinds. -/
theorem step_kind {img : Image} {s s' : Kernel} {e : Event} (h : step img s e = some s') :
    StepKind img s e s' := by
  simp only [step] at h
  split at h
  · exact exceptionHandler_kind h
  · cases h
  · rename_i hi
    exact .tick hi h
  · exact keyboardInterrupt_kind h
  · exact .light rfl rfl (by rw [← Option.some.inj h, core_rtcInterruptHandler])
  · exact exceptionHandler_kind h
  · cases h
  · rename_i hcpu _ _ _ _ _
    exact syscall_kind hcpu h
  · rename_i hcpu
    exact runLoop_kind hcpu h
  · cases h

theorem step_tick_eq (img : Image) {s : Kernel} (hi : s.Interruptible) (stale : Stale) :
    step img s (.tick stale) = s.pitInterruptHandler img stale := by
  unfold step
  cases hcpu : s.cpu with
  | user => rfl
  | kernel sp => rfl
  | fault sp => exact absurd hcpu (hi sp)

theorem interruptible_of_tick {img : Image} {s s' : Kernel} {stale : Stale}
    (h : step img s (.tick stale) = some s') : s.Interruptible := by
  intro sp hcpu
  unfold step at h
  rw [hcpu] at h
  cases h

theorem step_tick {img : Image} {s s' : Kernel} {stale : Stale}
    (h : step img s (.tick stale) = some s') : s.pitInterruptHandler img stale = some s' := by
  rwa [step_tick_eq img (interruptible_of_tick h)] at h

theorem step_key {img : Image} {s s' : Kernel} {scancode : UInt8} {stale : Stale}
    (h : step img s (.key scancode stale) = some s') :
    s.keyboardInterrupt img scancode stale = some s' := by
  unfold step at h
  cases hcpu : s.cpu with
  | fault sp =>
    rw [hcpu] at h
    cases h
  | user =>
    rw [hcpu] at h
    exact h
  | kernel sp =>
    rw [hcpu] at h
    exact h

theorem step_rtc {img : Image} {s s' : Kernel} (h : step img s .rtc = some s') :
    s' = s.rtcInterruptHandler := by
  unfold step at h
  cases hcpu : s.cpu with
  | fault sp =>
    rw [hcpu] at h
    cases h
  | user =>
    rw [hcpu] at h
    exact (Option.some.inj h).symm
  | kernel sp =>
    rw [hcpu] at h
    exact (Option.some.inj h).symm

theorem step_run {img : Image} {s s' : Kernel} (h : step img s .run = some s') :
    ∃ sp, s.cpu = .kernel sp ∧ s.runLoop sp = some s' := by
  unfold step at h
  cases hcpu : s.cpu with
  | fault sp =>
    rw [hcpu] at h
    cases h
  | user =>
    rw [hcpu] at h
    cases h
  | kernel sp =>
    rw [hcpu] at h
    exact ⟨sp, rfl, h⟩

theorem step_exception {img : Image} {s s' : Kernel} {message : List UInt8} {stale : Stale}
    (h : step img s (.exception message stale) = some s') :
    s.exceptionHandler img message stale = some s' := by
  unfold step at h
  cases hcpu : s.cpu with
  | kernel sp =>
    rw [hcpu] at h
    cases h
  | user =>
    rw [hcpu] at h
    exact h
  | fault sp =>
    rw [hcpu] at h
    exact h

/-- System calls come from user code. -/
theorem step_call {img : Image} {s s' : Kernel} {e : Event} (h : step img s e = some s')
    (he : e.isCall = true) : s.cpu = .user ∧ s.syscall img e = some s' := by
  unfold step at h
  cases hcpu : s.cpu with
  | user =>
    rw [hcpu] at h
    refine ⟨rfl, ?_⟩
    cases e <;> first | exact Bool.noConfusion he | exact h
  | kernel sp =>
    rw [hcpu] at h
    cases e <;> first | exact Bool.noConfusion he | cases h
  | fault sp =>
    rw [hcpu] at h
    cases e <;> first | exact Bool.noConfusion he | cases h

end Kernel

end LinuxLikeKernel
