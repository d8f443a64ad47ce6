import LinuxLikeKernel.Machine

/-!
# The exits of the operations

For each operation of the kernel that tests something, its exits: what has been found at each, and
the state in which the operation ends there. What an operation does to a part of the kernel is
then a case analysis on its exits, and nothing else has to unfold it.

## Main definitions

- `loadStores`, `PageTables.Reaches` — what the load of a program stores, and which stores do not
  fault
- `Kernel.ExecuteExit`, `Kernel.ResumeExit`, `Kernel.ReturnExit`, `Kernel.HaltExit`,
  `Kernel.TickExit`, `Kernel.LoopExit`, `Kernel.ReadExit` — the exits

## Main results

- `Kernel.execute_exit`, `Kernel.halt_exit`, `Kernel.pitInterruptHandler_exit`, ... — an
  operation ends at one of its exits
- `Kernel.haltFds_eq` — what the descriptor loop of `halt` leaves alone
- `Kernel.storeBytes_eq` — what the load of a program changes that the model keeps
-/

namespace LinuxLikeKernel
open ByteMemory

/-- The number of the process in slot `i` of the row of terminal `t`. -/
def slotId (t : TermId) (i : Nat) : Nat := i + t.val * maxPcbMaskLen

/-- The stores of a turn of `term_read`. -/
def Console.ReadTurn.stores (turn : Console.ReadTurn) (buf : Nat) : List Store :=
  turn.stored.toList.map fun w => ((buf + w.1) % 2 ^ 32, w.2)

/-- What the load of an inode stores, and at which addresses. -/
def loadStores (img : Image) (inode : Nat) : List Store :=
  (readData img inode 0 startVirtualAddr (img.inodeSize inode)).stores startVirtualAddr

/-! ### Stores through the page tables -/

namespace PageTables

/-- Each store goes to the user page, or to a page that is mapped. -/
def Reaches (pt : PageTables) (ws : List Store) : Prop :=
  ∀ w ∈ ws, userStart ≤ w.1 ∧ w.1 < userEnd ∨ (pt.translate w.1).isSome

instance (pt : PageTables) (ws : List Store) : Decidable (pt.Reaches ws) :=
  inferInstanceAs (Decidable (∀ w ∈ ws, _))

theorem reaches_of_inUserPage (pt : PageTables) {ws : List Store} (h : InUserPage ws) :
    pt.Reaches ws := fun w hw => .inl (h w hw)

/-- Mapping a process maps all of its page. -/
theorem translate_pcbMapping_user (pt : PageTables) {frame va : Nat} (hf : frame % 0x400000 = 0)
    (hva : userStart ≤ va ∧ va < userEnd) :
    ((pt.pcbMapping userStart frame).translate va).isSome := by
  have hor : frame ||| 0x87 = frame + 0x87 := lor_flags (k := 22) hf (by decide)
  have hp : present (frame + 0x87) = true :=
    testBit_add_flags (k := 22) hf (by decide) (by decide)
  have hl : large (frame + 0x87) = true :=
    testBit_add_flags (k := 22) hf (by decide) (by decide)
  have hidx : va / 0x400000 = userStart / 0x400000 := by
    simp only [userStart, userEnd] at hva ⊢
    omega
  simp only [translate, pcbMapping, hidx, Function.update_self, hor, hp, hl, if_true,
    Option.isSome_some]

/-- And nothing else. -/
theorem translate_pcbMapping_of_not_user (pt : PageTables) (frame : Nat) {va : Nat}
    (hva : ¬(userStart ≤ va ∧ va < userEnd)) :
    (pt.pcbMapping userStart frame).translate va = pt.translate va := by
  have hidx : va / 0x400000 ≠ userStart / 0x400000 := by
    simp only [userStart, userEnd] at hva ⊢
    omega
  simp only [translate, pcbMapping, Function.update_of_ne hidx, tableAt]

end PageTables

namespace Kernel

variable {img : Image} {s s' : Kernel}

/-- The memory of the screen is overwritten. -/
def withMem (s : Kernel) (mem : Mem) : Kernel :=
  s.setCon (s.con.setScreen { s.con.screen with mem := mem })

/-- A store that does not fault changes at most the memory of the screen, and that not in the user
page. -/
theorem storeByte_eq {w : Store} (h : s.storeByte w = some s') :
    ∃ mem, s' = s.withMem mem ∧ (w.1 < userEnd → mem = s.con.screen.mem) := by
  obtain ⟨a, -, rfl⟩ := Option.map_eq_some_iff.mp h
  split
  · exact ⟨s.con.screen.mem, rfl, fun _ => rfl⟩
  · rename_i hge
    exact ⟨_, rfl, fun hlt => absurd hlt hge⟩

/-- A copy is made to its end if all its addresses are mapped, and faults otherwise. -/
theorem storeBytes_eq (s : Kernel) (ws : List Store) :
    (∃ mem, s.storeBytes ws = .ok (s.withMem mem) ∧ (InUserPage ws → mem = s.con.screen.mem) ∧
      ∀ w ∈ ws, (s.paging.translate w.1).isSome) ∨
    ∃ mem, s.storeBytes ws = .error (s.withMem mem) ∧
      ¬ ∀ w ∈ ws, (s.paging.translate w.1).isSome := by
  induction ws generalizing s with
  | nil => exact .inl ⟨s.con.screen.mem, rfl, fun _ => rfl, fun w hw => by cases hw⟩
  | cons w ws ih =>
    rw [storeBytes]
    cases hw : s.storeByte w with
    | none =>
      have hnone : s.paging.translate w.1 = none := Option.map_eq_none_iff.mp hw
      refine .inr ⟨s.con.screen.mem, rfl, fun hall => ?_⟩
      have hsome := hall w List.mem_cons_self
      rw [hnone] at hsome
      cases hsome
    | some u =>
      obtain ⟨a, ha, -⟩ := Option.map_eq_some_iff.mp hw
      have hsome : (s.paging.translate w.1).isSome := Option.isSome_iff_exists.mpr ⟨a, ha⟩
      obtain ⟨m, rfl, hm⟩ := storeByte_eq hw
      obtain ⟨mem, heq, hmem, hall⟩ | ⟨mem, heq, hno⟩ := ih (s.withMem m)
      · refine .inl ⟨mem, heq, fun hpage => ?_, List.forall_mem_cons.mpr ⟨hsome, hall⟩⟩
        rw [hmem fun v hv => hpage v (List.mem_cons_of_mem _ hv)]
        exact hm (hpage w List.mem_cons_self).2
      · exact .inr ⟨mem, heq, fun hall => hno (List.forall_mem_cons.mp hall).2⟩

theorem processFrame_aligned (n : Int) : processFrame n % 0x400000 = 0 := by
  simp only [processFrame, uint32]
  omega

/-- With a process mapped, its page and what has been mapped before can be stored to. -/
theorem mapped_mapProcess_iff (s : Kernel) (n : Int) (ws : List Store) :
    (∀ w ∈ ws, ((s.mapProcess n).paging.translate w.1).isSome) ↔ s.paging.Reaches ws := by
  refine forall₂_congr fun w _ => ?_
  by_cases huser : userStart ≤ w.1 ∧ w.1 < userEnd
  · exact iff_of_true (s.paging.translate_pcbMapping_user (processFrame_aligned n) huser)
      (.inl huser)
  · have heq : (s.mapProcess n).paging.translate w.1 = s.paging.translate w.1 :=
      s.paging.translate_pcbMapping_of_not_user _ huser
    rw [heq]
    exact (or_iff_right huser).symm

/-! ### `execute` -/

/-- The state that a call of `execute` ends in. -/
def Outcome.state : Outcome → Kernel
  | .returned _ s => s
  | .faulted s => s
  | .started s => s

/-- A process has its slot and its page, and a file has been loaded over `mem`. -/
def placed (s : Kernel) (cur : TermId) (i : Fin 4) (mem : Mem) : Kernel :=
  ((s.withMem mem).setMask cur i true).mapProcess (slotId cur i)

/-- The state in which a new program starts, in slot `i` of the row of terminal `cur`. -/
def started (s : Kernel) (sp : StackPtr) (cur : TermId) (i : Fin 4) (args : List UInt8) :
    Kernel :=
  let n := slotId cur i
  ((s.setMask cur i true).mapProcess n).startProcess sp cur n args

/-- How `execute` ends. A load that fails or faults leaves the slot taken and the page mapped; the
memory of the screen is overwritten by a file that is longer than the page has room for. -/
inductive ExecuteExit (img : Image) (s : Kernel) (sp : StackPtr) (command : List UInt8)
    (stale : Stale) : Outcome → Prop
  | refused (hl : lookup img command stale = .refused) :
      ExecuteExit img s sp command stale (.returned (-1) s)
  | full {prog : Program} {cur : TermId} (hl : lookup img command stale = .found prog)
      (hcur : s.con.curTermId = some cur) (hslot : pcbProcessNumber s.pcbMask cur = none) :
      ExecuteExit img s sp command stale (.returned 0 (s.printf noSpaceText))
  | failed {prog : Program} {cur : TermId} {i : Fin 4} {mem : Mem}
      (hl : lookup img command stale = .found prog) (hcur : s.con.curTermId = some cur)
      (hslot : pcbProcessNumber s.pcbMask cur = some i)
      (hreach : s.paging.Reaches (loadStores img prog.inode))
      (hret : (readData img prog.inode 0 startVirtualAddr (img.inodeSize prog.inode)).ret = -1)
      (hmem : InUserPage (loadStores img prog.inode) → mem = s.con.screen.mem) :
      ExecuteExit img s sp command stale (.returned (-1) (s.placed cur i mem))
  | faulted {prog : Program} {cur : TermId} {i : Fin 4} {mem : Mem}
      (hl : lookup img command stale = .found prog) (hcur : s.con.curTermId = some cur)
      (hslot : pcbProcessNumber s.pcbMask cur = some i)
      (hreach : ¬ s.paging.Reaches (loadStores img prog.inode)) :
      ExecuteExit img s sp command stale (.faulted { s.placed cur i mem with cpu := .fault sp })
  | started {prog : Program} {cur : TermId} {i : Fin 4} {mem : Mem}
      (hl : lookup img command stale = .found prog) (hcur : s.con.curTermId = some cur)
      (hslot : pcbProcessNumber s.pcbMask cur = some i)
      (hreach : s.paging.Reaches (loadStores img prog.inode))
      (hret : (readData img prog.inode 0 startVirtualAddr (img.inodeSize prog.inode)).ret ≠ -1)
      (hmem : InUserPage (loadStores img prog.inode) → mem = s.con.screen.mem) :
      ExecuteExit img s sp command stale
        (.started ((s.withMem mem).started sp cur i prog.args))

/-- The load of a program, for the process that has just got its slot and its page. -/
theorem storeBytes_placed (s : Kernel) (cur : TermId) (i : Fin 4) (ws : List Store) :
    (∃ mem, ((s.setMask cur i true).mapProcess (slotId cur i)).storeBytes ws =
        .ok (s.placed cur i mem) ∧ (InUserPage ws → mem = s.con.screen.mem) ∧
      s.paging.Reaches ws) ∨
    ∃ mem, ((s.setMask cur i true).mapProcess (slotId cur i)).storeBytes ws =
        .error (s.placed cur i mem) ∧ ¬ s.paging.Reaches ws := by
  have hmapped := mapped_mapProcess_iff (s.setMask cur i true) (slotId cur i) ws
  obtain ⟨mem, heq, hmem, hall⟩ | ⟨mem, heq, hno⟩ :=
    storeBytes_eq ((s.setMask cur i true).mapProcess (slotId cur i)) ws
  · exact .inl ⟨mem, heq, hmem, hmapped.mp hall⟩
  · exact .inr ⟨mem, heq, mt hmapped.mpr hno⟩

/-- `execute` with a program and a slot for it. -/
theorem execute_found {sp : StackPtr} {command : List UInt8} {stale : Stale} {prog : Program}
    {cur : TermId} {i : Fin 4} (hl : lookup img command stale = .found prog)
    (hcur : s.con.curTermId = some cur) (hslot : pcbProcessNumber s.pcbMask cur = some i) :
    execute img s sp command stale = some (afterLoad sp cur (slotId cur i) prog.args
      (readData img prog.inode 0 startVirtualAddr (img.inodeSize prog.inode)).ret
      (((s.setMask cur i true).mapProcess (slotId cur i)).storeBytes
        (loadStores img prog.inode))) := by
  simp only [execute, hl, hcur, Option.bind_some, hslot, loadStores, slotId]

theorem execute_exit {sp : StackPtr} {command : List UInt8} {stale : Stale} {o : Outcome}
    (h : execute img s sp command stale = some o) : ExecuteExit img s sp command stale o := by
  cases hl : lookup img command stale with
  | overflow =>
    simp only [execute, hl] at h
    cases h
  | refused =>
    simp only [execute, hl] at h
    obtain rfl := Option.some.inj h
    exact .refused hl
  | found prog =>
    have hcur : ∃ cur, s.con.curTermId = some cur := by
      simp only [execute, hl] at h
      obtain ⟨cur, hcur, -⟩ := Option.bind_eq_some_iff.mp h
      exact ⟨cur, hcur⟩
    obtain ⟨cur, hcur⟩ := hcur
    cases hslot : pcbProcessNumber s.pcbMask cur with
    | none =>
      simp only [execute, hl, hcur, Option.bind_some, hslot] at h
      obtain rfl := Option.some.inj h
      exact .full hl hcur hslot
    | some i =>
      rw [execute_found hl hcur hslot] at h
      obtain rfl := Option.some.inj h
      obtain ⟨mem, heq, hmem, hreach⟩ | ⟨mem, heq, hreach⟩ :=
        storeBytes_placed s cur i (loadStores img prog.inode)
      · rw [heq, afterLoad]
        split
        · rename_i hret
          exact .failed hl hcur hslot hreach hret hmem
        · rename_i hret
          exact .started hl hcur hslot hreach hret hmem
      · rw [heq]
        exact .faulted hl hcur hslot hreach

/-- A program that is found, has a slot and is loaded starts, unless its load fails. -/
theorem execute_loaded {sp : StackPtr} {command : List UInt8} {stale : Stale} {prog : Program}
    {cur : TermId} {i : Fin 4} (hl : lookup img command stale = .found prog)
    (hcur : s.con.curTermId = some cur) (hslot : pcbProcessNumber s.pcbMask cur = some i)
    (hreach : s.paging.Reaches (loadStores img prog.inode)) :
    ∃ mem, execute img s sp command stale = some
        (if (readData img prog.inode 0 startVirtualAddr (img.inodeSize prog.inode)).ret = -1 then
          .returned (-1) (s.placed cur i mem)
        else .started ((s.withMem mem).started sp cur i prog.args)) ∧
      (InUserPage (loadStores img prog.inode) → mem = s.con.screen.mem) := by
  obtain ⟨mem, heq, hmem, -⟩ | ⟨mem, -, hno⟩ :=
    storeBytes_placed s cur i (loadStores img prog.inode)
  · refine ⟨mem, ?_, hmem⟩
    rw [execute_found hl hcur hslot, heq, afterLoad]
    rfl
  · exact absurd hreach hno

/-! ### `halt` -/

/-- The slot whose number is in the PCB is freed, in whatever row it is. -/
theorem unlink_eq {id : Nat} (h : s.unlink id = some s') :
    ∃ (row : TermId) (slot : Fin 4), uint8 (s.pcb id).processNumber = slotId row slot ∧
      s' = ((s.setCon s.con.bufClear).setCurPcbId s.con.nowTermId
        ((s.pcb id).parentProcessNumber.tmod maxPcbMaskLen)).setMask row slot false := by
  simp only [unlink] at h
  split at h
  · rename_i hrow
    refine ⟨⟨uint8 (s.pcb id).processNumber / 4, hrow⟩,
      ⟨uint8 (s.pcb id).processNumber % 4, Nat.mod_lt _ (by decide)⟩, ?_, ?_⟩
    · simp only [slotId, maxPcbMaskLen]
      omega
    · exact (Option.some.inj h).symm
  · cases h

/-- What assignments to descriptors and `close` leave alone, a turn of the loop of `halt` leaves
alone. -/
theorem haltFd_eq {α : Type*} (f : Kernel → α) {id : Nat}
    (hset : ∀ (s : Kernel) i d, f (s.setFd id i d) = f s)
    (hclose : ∀ (s : Kernel) fd, f (s.close fd) = f s) (s : Kernel) (i : Fin 8) :
    f (s.haltFd id i) = f s := by
  simp only [haltFd, hset]
  split
  · exact (hclose ..).trans (hset ..)
  · rfl

/-- And so does the loop. -/
theorem haltFds_eq {α : Type*} (f : Kernel → α) {id : Nat}
    (hset : ∀ (s : Kernel) i d, f (s.setFd id i d) = f s)
    (hclose : ∀ (s : Kernel) fd, f (s.close fd) = f s) (s : Kernel) :
    f (s.haltFds id) = f s := by
  simp only [haltFds]
  induction List.finRange 8 generalizing s with
  | nil => rfl
  | cons i l ih => exact (ih (s.haltFd id i)).trans (haltFd_eq f hset hclose s i)

/-- The state in which `halt` returns through the frame of the parent's `execute`. -/
def parentState (s : Kernel) (id : Nat) (status : UInt8) : Kernel :=
  let parent := s.pcb (s.pcb id).parentProcessNumber.toNat
  { s.mapProcess parent.processNumber with
    tssEsp0 := processEsp0 parent.processNumber
    eax := if s.interruptHaltFlag then status.toNat + 0x100 else status.toNat
    interruptHaltFlag := false }

/-- How the last part of `halt` ends: in an access above 8 MB, or in the parent's `execute`. -/
inductive ReturnExit (s : Kernel) (id : Nat) (sp : StackPtr) (status : UInt8) : Kernel → Prop
  | fault (hneg : (s.pcb id).parentProcessNumber < 0) :
      ReturnExit s id sp status { s with cpu := .fault sp }
  | parent {s' : Kernel} (hparent : 0 ≤ (s.pcb id).parentProcessNumber)
      (h : (s.parentState id status).resume (s.pcb id).parentKbp .execute = some s') :
      ReturnExit s id sp status s'

theorem returnToParent_exit {id : Nat} {sp : StackPtr} {status : UInt8}
    (h : s.returnToParent id sp status = some s') : ReturnExit s id sp status s' := by
  simp only [returnToParent] at h
  split at h
  · rename_i hneg
    obtain rfl := Option.some.inj h
    exact .fault hneg
  · rename_i hneg
    exact .parent (by omega) h

/-- How `halt` ends: in the parent of the process, in a new shell for a process without one, in the
fault of its load, or, when that shell cannot be started, with the parent number -1. -/
inductive HaltExit (img : Image) (s : Kernel) (sp : StackPtr) (status : UInt8) (stale : Stale)
    (s' : Kernel) : Prop
  | parent {u : Kernel} (hu : s.unlink s.nowPcbId = some u)
      (hparent : ((u.haltFds s.nowPcbId).pcb s.nowPcbId).parentProcessNumber ≠ -1)
      (h : (u.haltFds s.nowPcbId).returnToParent s.nowPcbId sp status = some s') :
      HaltExit img s sp status stale s'
  | shell {u r : Kernel} (hu : s.unlink s.nowPcbId = some u)
      (hroot : ((u.haltFds s.nowPcbId).pcb s.nowPcbId).parentProcessNumber = -1)
      (ho : execute img ((u.haltFds s.nowPcbId).printf lastShellText) sp shellCommand stale =
        some (.started r)) (hs : s' = r.push sp .restart) :
      HaltExit img s sp status stale s'
  | faulted {u : Kernel} (hu : s.unlink s.nowPcbId = some u)
      (hroot : ((u.haltFds s.nowPcbId).pcb s.nowPcbId).parentProcessNumber = -1)
      (ho : execute img ((u.haltFds s.nowPcbId).printf lastShellText) sp shellCommand stale =
        some (.faulted s')) :
      HaltExit img s sp status stale s'
  | noShell {u r : Kernel} {eax : Int} (hu : s.unlink s.nowPcbId = some u)
      (hroot : ((u.haltFds s.nowPcbId).pcb s.nowPcbId).parentProcessNumber = -1)
      (ho : execute img ((u.haltFds s.nowPcbId).printf lastShellText) sp shellCommand stale =
        some (.returned eax r))
      (h : r.returnToParent s.nowPcbId sp status = some s') : HaltExit img s sp status stale s'

theorem halt_exit {sp : StackPtr} {status : UInt8} {stale : Stale}
    (h : s.halt img sp status stale = some s') : HaltExit img s sp status stale s' := by
  simp only [halt] at h
  obtain ⟨u, hu, h⟩ := Option.bind_eq_some_iff.mp h
  split at h
  · rename_i hroot
    obtain ⟨o, ho, h⟩ := Option.bind_eq_some_iff.mp h
    cases o with
    | started r => exact .shell hu hroot ho (Option.some.inj h).symm
    | faulted r =>
      obtain rfl := Option.some.inj h
      exact .faulted hu hroot ho
    | returned eax r => exact .noShell hu hroot ho h
  · rename_i hparent
    exact .parent hu hparent h

/-! ### Returns and loops -/

/-- Under a frame is user code or a kernel loop. -/
theorem leave_cases {sp : StackPtr} (h : s.leave sp = some s') :
    (sp.depth = 1 ∧ s' = { s with cpu := .user }) ∨
      ∃ d, sp.depth = d + 2 ∧ s' = { s with cpu := .kernel ⟨sp.stack, d + 1⟩ } := by
  simp only [leave] at h
  split at h
  · rename_i hd
    exact .inl ⟨hd, (Option.some.inj h).symm⟩
  · rename_i d hd
    refine .inr ⟨d, hd, ?_⟩
    split at h
    · exact (Option.some.inj h).symm
    · exact (Option.some.inj h).symm
    · exact (Option.some.inj h).symm
    · cases h
  · cases h

/-- How a kernel function returns: to what lies under its frame, from a launch to what lies under
the frame of the tick, and from a restart into `halt`. -/
inductive ResumeExit (s : Kernel) (sp : StackPtr) (kind : Frame) : Kernel → Prop
  | under {s' : Kernel} (hframe : (s.kstack sp.stack)[sp.depth - 1]? = some kind)
      (h : s.leave sp = some s') : ResumeExit s sp kind s'
  | launch {s' : Kernel} (hkind : kind = .execute)
      (hframe : (s.kstack sp.stack)[sp.depth - 1]? = some .execute)
      (hpit : (s.kstack sp.stack)[sp.depth - 2]? = some .pit)
      (h : s.leave ⟨sp.stack, sp.depth - 1⟩ = some s') : ResumeExit s sp kind s'
  | restart (hkind : kind = .execute)
      (hframe : (s.kstack sp.stack)[sp.depth - 1]? = some .restart) :
      ResumeExit s sp kind { s with cpu := .fault ⟨sp.stack, sp.depth - 1⟩ }

theorem resume_exit {sp : StackPtr} {kind : Frame} (h : s.resume sp kind = some s') :
    ResumeExit s sp kind s' := by
  simp only [resume] at h
  split at h
  · rename_i hframe
    exact .under hframe h
  · rename_i hframe
    split at h
    · rename_i hpit
      exact .launch rfl hframe hpit h
    · exact .under hframe h
  · rename_i hframe
    obtain rfl := Option.some.inj h
    exact .restart rfl hframe
  · cases h

/-- A tick returns to what lies under its frame. -/
theorem resume_pit_cases {sp : StackPtr} (h : s.resume sp .pit = some s') :
    (s.kstack sp.stack)[sp.depth - 1]? = some .pit ∧
      ((sp.depth = 1 ∧ s' = { s with cpu := .user }) ∨
        ∃ d, sp.depth = d + 2 ∧ s' = { s with cpu := .kernel ⟨sp.stack, d + 1⟩ }) := by
  cases resume_exit h with
  | under hframe h => exact ⟨hframe, leave_cases h⟩
  | launch hkind => cases hkind
  | restart hkind => cases hkind

/-- A child returns through the first frame on the stack of its caller. -/
theorem resume_execute_bottom {p : Nat} (hframe : (s.kstack p)[0]? = some .execute) :
    s.resume ⟨p, 1⟩ .execute = some { s with cpu := .user } := by
  simp only [resume, Nat.sub_self, Nat.reduceSub, hframe]
  rfl

/-- Nothing but the processor's state changes in it. -/
theorem leave_eq {sp : StackPtr} (h : s.leave sp = some s') :
    ∃ cpu, s' = { s with cpu := cpu } := by
  obtain ⟨-, rfl⟩ | ⟨d, -, rfl⟩ := leave_cases h
  · exact ⟨_, rfl⟩
  · exact ⟨_, rfl⟩

theorem resume_eq {sp : StackPtr} {kind : Frame} (h : s.resume sp kind = some s') :
    ∃ cpu, s' = { s with cpu := cpu } := by
  cases resume_exit h with
  | under hframe h => exact leave_eq h
  | launch hkind hframe hpit h => exact leave_eq h
  | restart => exact ⟨_, rfl⟩

theorem returnToUser_eq {sp : StackPtr} {eax : Int} (h : s.returnToUser sp eax = some s') :
    sp.depth = 1 ∧ s' = { s with cpu := .user, eax := eax } := by
  simp only [returnToUser] at h
  split at h
  · rename_i hdepth
    exact ⟨hdepth, (Option.some.inj h).symm⟩
  · cases h

/-- How a turn of a kernel loop ends. The loops of `entry` and of `rtc_read` wait without a change;
`term_read` goes from phase to phase. -/
inductive LoopExit (s : Kernel) (sp : StackPtr) : Kernel → Prop
  | boot (hframe : s.frameAt sp = some .boot) : LoopExit s sp s
  | reads {buf : Nat} {length : Int} {phase next : ReadPhase}
      (hframe : s.frameAt sp = some (.termRead buf length phase))
      (hpage : InUserPage ((s.con.termReadTurn length phase).stores buf))
      (hnext : (s.con.termReadTurn length phase).next = some next) :
      LoopExit s sp ((s.setCon (s.con.termReadTurn length phase).con).push
        ⟨sp.stack, sp.depth - 1⟩ (.termRead buf length next))
  | readEnds {buf j count : Nat} {length : Int}
      (hframe : s.frameAt sp = some (.termRead buf length (.clear j count)))
      (hpage : InUserPage ((s.con.termReadTurn length (.clear j count)).stores buf))
      (hnext : (s.con.termReadTurn length (.clear j count)).next = none) (hdepth : sp.depth = 1) :
      LoopExit s sp { s.setCon (s.con.termReadTurn length (.clear j count)).con with
        cpu := .user, eax := count }
  | waits {id : Nat} (hframe : s.frameAt sp = some (.rtcRead id))
      (hcounter : 0 < (s.pcb id).rtcCounter) : LoopExit s sp s
  | rtcEnds {id : Nat} (hframe : s.frameAt sp = some (.rtcRead id))
      (hcounter : ¬ 0 < (s.pcb id).rtcCounter) (hdepth : sp.depth = 1) :
      LoopExit s sp { s with cpu := .user, eax := 0 }

theorem runLoop_exit {sp : StackPtr} (h : s.runLoop sp = some s') : LoopExit s sp s' := by
  simp only [runLoop] at h
  split at h
  · rename_i hframe
    obtain rfl := Option.some.inj h
    exact .boot hframe
  · rename_i buf length phase hframe
    split at h
    · cases h
    · rename_i hpage
      split at h
      · rename_i hnext
        obtain rfl := Option.some.inj h
        exact .reads hframe (not_not.mp hpage) hnext
      · rename_i hnext
        obtain ⟨hdepth, rfl⟩ := returnToUser_eq h
        exact .readEnds hframe (not_not.mp hpage) hnext hdepth
      · cases h
  · rename_i id hframe
    split at h
    · rename_i hcounter
      obtain rfl := Option.some.inj h
      exact .waits hframe hcounter
    · rename_i hcounter
      obtain ⟨hdepth, rfl⟩ := returnToUser_eq h
      exact .rtcEnds hframe hcounter hdepth
  · cases h

/-! ### `read` -/

/-- How `read` ends, or where it goes into a loop. -/
inductive ReadExit (img : Image) (s : Kernel) (fd : Int) (buf : Nat) (nbytes : Int) :
    Kernel → Prop
  | refused (hdriver : s.readDriver fd buf = none) : ReadExit img s fd buf nbytes (s.ret (-1))
  | term {i : Fin 8} (hdriver : s.readDriver fd buf = some (i, .stdin)) :
      ReadExit img s fd buf nbytes (s.block (.termRead buf nbytes .wait))
  | rtcFault {i : Fin 8} (hdriver : s.readDriver fd buf = some (i, .rtc))
      (hfreq : (s.pcb s.nowPcbId).rtcFreq = 0) :
      ReadExit img s fd buf nbytes { s with cpu := .fault s.entry }
  | rtc {i : Fin 8} (hdriver : s.readDriver fd buf = some (i, .rtc))
      (hfreq : (s.pcb s.nowPcbId).rtcFreq ≠ 0) :
      ReadExit img s fd buf nbytes ((s.setPcb s.nowPcbId { s.pcb s.nowPcbId with
        rtcCounter := 1024 / (s.pcb s.nowPcbId).rtcFreq }).block (.rtcRead s.nowPcbId))
  | dir {i : Fin 8} (hdriver : s.readDriver fd buf = some (i, .dir))
      (hpage : InUserPage ((dirRead img s.numFileRead buf).1.stores buf)) :
      ReadExit img s fd buf nbytes
        (({ s with numFileRead := (dirRead img s.numFileRead buf).2 } : Kernel).ret
          (dirRead img s.numFileRead buf).1.ret)
  | file {i : Fin 8} (hdriver : s.readDriver fd buf = some (i, .file))
      (hpage : InUserPage
        ((fileRead img ((s.pcb s.getCurPcb).fds i) i buf nbytes).1.stores buf)) :
      ReadExit img s fd buf nbytes
        ((s.setFd s.getCurPcb i (fileRead img ((s.pcb s.getCurPcb).fds i) i buf nbytes).2).ret
          (fileRead img ((s.pcb s.getCurPcb).fds i) i buf nbytes).1.ret)
  | error {i : Fin 8} {driver : FileOptable} (hdriver : s.readDriver fd buf = some (i, driver))
      (hno : driver = .stdout ∨ driver = .error) :
      ReadExit img s fd buf nbytes (s.ret operationError.ret)

theorem read_exit {fd nbytes : Int} {buf : Nat} (h : s.read img fd buf nbytes = some s') :
    ReadExit img s fd buf nbytes s' := by
  simp only [read] at h
  split at h
  · rename_i hdriver
    obtain rfl := Option.some.inj h
    exact .refused hdriver
  · rename_i hdriver
    obtain rfl := Option.some.inj h
    exact .term hdriver
  · rename_i hdriver
    obtain rfl := Option.some.inj h
    simp only [rtcRead]
    split
    · rename_i hfreq
      exact .rtcFault hdriver hfreq
    · rename_i hfreq
      exact .rtc hdriver hfreq
  · rename_i hdriver
    split at h
    · rename_i hpage
      obtain rfl := Option.some.inj h
      exact .dir hdriver hpage
    · cases h
  · rename_i hdriver
    split at h
    · rename_i hpage
      obtain rfl := Option.some.inj h
      exact .file hdriver hpage
    · cases h
  · rename_i hdriver
    obtain rfl := Option.some.inj h
    exact .error hdriver (.inl rfl)
  · rename_i hdriver
    obtain rfl := Option.some.inj h
    exact .error hdriver (.inr rfl)

/-! ### Ticks -/

/-- The state in which a tick calls `execute` to launch the next terminal. -/
def launchState (s : Kernel) : Kernel :=
  s.saveContext.setCon (s.saveContext.con.launchTerm (nextTermId s.con.nowTermId))

/-- The state in which a tick returns through the frame of the next terminal's last tick. -/
def switchState (s : Kernel) (page : Nat) : Kernel :=
  let n := (s.con.term (nextTermId s.con.nowTermId)).curPcbId +
    (nextTermId s.con.nowTermId).val * maxPcbMaskLen
  let m := s.saveContext.mapProcess n
  { m.setCon (m.con.setScreen (setVidmem m.con.screen page)) with
    paging := m.paging.schedulingVideoMapping page
    tssEsp0 := processEsp0 n }

/-- How a tick ends. For an empty terminal it takes one of the exits of `term_launch`, or launches
it; else it switches to the terminal's process. -/
inductive TickExit (img : Image) (s : Kernel) (stale : Stale) : Kernel → Prop
  | displayed (hempty : (s.con.term (nextTermId s.con.nowTermId)).curPcbId = -1)
      (hcur : s.con.curTermId = some (nextTermId s.con.nowTermId)) :
      TickExit img s stale s.saveContext
  | shows {k : Console} (hempty : (s.con.term (nextTermId s.con.nowTermId)).curPcbId = -1)
      (hcur : s.con.curTermId ≠ some (nextTermId s.con.nowTermId))
      (hrun : (s.con.term (nextTermId s.con.nowTermId)).running = true)
      (hk : s.saveContext.con.termSwitch s.con.curTermId (nextTermId s.con.nowTermId) = some k) :
      TickExit img s stale (s.saveContext.setCon k)
  | launches {o : Outcome}
      (hempty : (s.con.term (nextTermId s.con.nowTermId)).curPcbId = -1)
      (hcur : s.con.curTermId ≠ some (nextTermId s.con.nowTermId))
      (hrun : (s.con.term (nextTermId s.con.nowTermId)).running = false)
      (ho : execute img s.launchState s.entry.up shellCommand stale = some o) :
      TickExit img s stale o.state
  | switches {page : Nat} {s' : Kernel}
      (hne : (s.con.term (nextTermId s.con.nowTermId)).curPcbId ≠ -1)
      (hpage : s.saveContext.switchVideo (s.saveContext.pcb s.saveContext.nowPcbId) = some page)
      (h : (s.switchState page).resume (s.saveContext.pcb s.saveContext.nowPcbId).kbp .pit =
        some s') : TickExit img s stale s'

theorem pitInterruptHandler_exit {stale : Stale}
    (h : s.pitInterruptHandler img stale = some s') : TickExit img s stale s' := by
  simp only [pitInterruptHandler] at h
  split at h
  · rename_i hempty
    simp only [termLaunch] at h
    split at h
    · rename_i hcur
      obtain rfl := Option.some.inj h
      exact .displayed hempty hcur
    · rename_i hcur
      split at h
      · rename_i hrun
        obtain ⟨k, hk, rfl⟩ := Option.map_eq_some_iff.mp h
        exact .shows hempty hcur hrun hk
      · rename_i hrun
        obtain ⟨o, ho, rfl⟩ := Option.map_eq_some_iff.mp h
        have hlaunch : TickExit img s stale o.state :=
          .launches hempty hcur (Bool.eq_false_iff.mpr hrun) ho
        cases o with
        | started r => exact hlaunch
        | faulted r => exact hlaunch
        | returned eax r => exact hlaunch
  · rename_i hne
    simp only [switchProcess] at h
    obtain ⟨page, hpage, h⟩ := Option.bind_eq_some_iff.mp h
    exact .switches hne hpage h

/-! ### `getargs` and `vidmap` -/

/-- `getargs` leaves its value in EAX, and the kernel as it was. -/
theorem syscall_getargs {buf : Nat} {nbytes : Int}
    (h : s.syscall img (.getargs buf nbytes) = some s') :
    s' = s.ret (getargs (s.pcb s.nowPcbId) nbytes).ret := by
  simp only [syscall] at h
  split at h
  · exact (Option.some.inj h).symm
  · cases h

/-- `vidmap` changes the page tables only. -/
theorem syscall_vidmap {screenStart : Nat}
    (h : s.syscall img (.vidmap screenStart) = some s') :
    s' = ({ s with paging := (vidmap s.paging screenStart).1 } : Kernel).ret
      (vidmap s.paging screenStart).2.ret := by
  simp only [syscall] at h
  split at h
  · exact (Option.some.inj h).symm
  · cases h

end Kernel

end LinuxLikeKernel
