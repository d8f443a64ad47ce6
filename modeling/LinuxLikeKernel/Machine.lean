import LinuxLikeKernel.Keyboard
import LinuxLikeKernel.Library.Run
import LinuxLikeKernel.Scheduling

/-!
# The machine

The kernel as a step function on events: the interrupts, and what user code asks for. All
gates are interrupt gates, so that a system call or a handler runs to its end in one step,
except in the loops of `term_read` and `rtc_read`, which set the interrupt flag; those go on
by `run` steps.

## Main definitions

- `boot` — the state in which `entry` goes to sleep
- `step` — the effect of an event
- `Bootable` — an image the kernel can work with
-/

namespace LinuxLikeKernel
open ByteMemory Transition

/-- What happens next. The names that `open` and `execute` are given are their bytes up to the
NUL, pointers are addresses; `write` has what lies at its pointer too. -/
inductive Event
  | tick (stale : Stale)
  | key (scancode : UInt8) (stale : Stale)
  | rtc
  | execute (command : List UInt8) (stale : Stale)
  | halt (status : UInt8) (stale : Stale)
  /-- A processor exception, with what its handler prints. -/
  | exception (message : List UInt8) (stale : Stale)
  | «open» (filename : List UInt8)
  | close (fd : Int)
  | read (fd : Int) (buf : Nat) (nbytes : Int)
  | write (fd : Int) (buf : Nat) (content : Nat → UInt8) (nbytes : Int)
  | getargs (buf : Nat) (nbytes : Int)
  | vidmap (screenStart : Nat)
  /-- A kernel loop with interrupts on makes a turn. -/
  | run

/-! ### Boot -/

/-- `term_init`, over the page tables and the video memory it finds. -/
def termInit (k : Console) (pt : PageTables) : Console × PageTables :=
  ({ k with
      term := fun t => {
        curPcbId := -1
        cursorX := 0
        cursorY := 0
        keyBuf := fun j => if j < keyBufMax then 0 else (k.term t).keyBuf j
        keyBufIdx := 0
        enterState := false
        running := false
        videoMem := 0xB9000 + 0x1000 * t.val }
      curTermId := none
      screen := { k.screen with
        mem := (List.finRange 3).foldl (fun m (t : TermId) =>
          forRange (numRows * numCols)
            (fun j m => putCell m (0xB9000 + 0x1000 * t.val) j 32 (attrib (some t))) m)
          k.screen.mem } },
    (List.finRange 3).foldl
      (fun pt (t : TermId) => pt.terminalVideoMapping (0xB9000 + 0x1000 * t.val) t) pt)

/-- The state at the `hlt` loop of `entry`, over whatever was in memory. The globals with no
initialiser start as zeros. -/
def boot (s : Kernel) : Kernel :=
  let k : Console := { s.con with
    nowTermId := 0
    keyBuf := fun j => if j < keyBufMax then 0 else s.con.keyBuf j
    keyBufIdx := 0
    scancodeState := 0
    ctrlState := false
    altState := false }
  { s with
    con := (termInit k s.paging.pagingInit).1
    paging := (termInit k s.paging.pagingInit).2
    pcbMask := fun _ _ => false
    tssEsp0 := 0x800000
    kstack := Function.update s.kstack 0 [.boot]
    cpu := .kernel ⟨0, 1⟩
    interruptHaltFlag := false
    numFileRead := 0 }

/-! ### Steps -/

namespace Kernel

/-- The frame at a stack position. -/
def frameAt (s : Kernel) (sp : StackPtr) : Option Frame := (s.kstack sp.stack)[sp.depth - 1]?

/-- A blocked system call returns to user code, with its frame at `sp`. Interrupts are on
there, so this is the first frame on its stack. -/
def returnToUser (s : Kernel) (sp : StackPtr) (eax : Int) : Option Kernel :=
  if sp.depth = 1 then some { s with cpu := .user, eax := eax } else none

/-- A turn of the kernel loop whose frame is at `sp`. -/
def runLoop (s : Kernel) (sp : StackPtr) : Option Kernel :=
  match s.frameAt sp with
  | some .boot => some s
  | some (.termRead buf length phase) =>
    let turn := s.con.termReadTurn length phase
    let stores : List Store := turn.stored.toList.map fun w => ((buf + w.1) % 2 ^ 32, w.2)
    if ¬ InUserPage stores then none
    else
      let s := s.setCon turn.con
      match turn.next, phase with
      | some phase, _ =>
        some (s.push ⟨sp.stack, sp.depth - 1⟩ (.termRead buf length phase))
      | none, .clear _ count => s.returnToUser sp count
      | none, _ => none
  | some (.rtcRead id) =>
    if 0 < (s.pcb id).rtcCounter then some s else s.returnToUser sp 0
  | _ => none

/-- `keyboard_interrupt_handler` with its last line. -/
def keyboardInterrupt (img : Image) (s : Kernel) (scancode : UInt8) (stale : Stale) :
    Option Kernel :=
  (s.con.keyboardInterruptHandler scancode).bind fun (k, ctrlC) =>
    if ctrlC then (s.setCon k).halt img s.entry 1 stale else some (s.setCon k)

/-- The exception handlers of `idt.c`, which end in `halt(0)`. -/
def exceptionHandler (img : Image) (s : Kernel) (message : List UInt8) (stale : Stale) :
    Option Kernel :=
  ({ s with interruptHaltFlag := true }.printf message).halt img s.entry 0 stale

/-- `execute` as a system call. -/
def sysExecute (img : Image) (s : Kernel) (command : List UInt8) (stale : Stale) :
    Option Kernel :=
  (s.execute img s.entry command stale).map fun
    | .started s => s
    | .faulted s => s
    | .returned eax s => s.ret eax

/-- The events of user code. -/
def syscall (img : Image) (s : Kernel) : Event → Option Kernel
  | .execute command stale => s.sysExecute img command stale
  | .halt status stale => s.halt img s.entry status stale
  | .open filename => some (s.open img filename)
  | .close fd => some (s.close fd)
  | .read fd buf nbytes => s.read img fd buf nbytes
  | .write fd buf content nbytes => s.write fd buf content nbytes
  | .getargs buf nbytes =>
    let r := getargs (s.pcb s.nowPcbId) nbytes
    if InUserPage (r.stores buf) then some (s.ret r.ret) else none
  | .vidmap screenStart =>
    let (pt, r) := vidmap s.paging screenStart
    if InUserPage (r.stores screenStart) then some ({ s with paging := pt }.ret r.ret) else none
  | _ => none

end Kernel

/-- The effect of an event. In user code everything can happen, in a kernel loop interrupts
and a turn of the loop, and after a kernel access that faults only the exception. -/
def step (img : Image) (s : Kernel) (e : Event) : Option Kernel :=
  match s.cpu, e with
  | .fault _, .exception message stale => s.exceptionHandler img message stale
  | .fault _, _ => none
  | _, .tick stale => s.pitInterruptHandler img stale
  | _, .key scancode stale => s.keyboardInterrupt img scancode stale
  | _, .rtc => some s.rtcInterruptHandler
  | .user, .exception message stale => s.exceptionHandler img message stale
  | .user, .run => none
  | .user, e => s.syscall img e
  | .kernel sp, .run => s.runLoop sp
  | .kernel _, _ => none

/-! ### Images -/

/-- An image the kernel can work with: well formed, with an executable `shell` that fits in a
user page. -/
structure Bootable (img : Image) : Prop extends WellFormed img where
  shell : ∃ dentry, readDentryByName img shellCommand = some dentry ∧
    (readData img dentry.inode 0 localBuf 40).bytes.take 4 = magicNumber ∧
    startVirtualAddr + img.inodeSize dentry.inode ≤ userEnd

/-! ### A small system -/

/-- The bytes of a small image that are not 0: an entry for the directory and one for `shell`,
whose file consists of the magic number and zeros. -/
def sampleBytes : List Store :=
  [(0, 2), (4, 1), (8, 1),
    (64, 46), (96, 1),
    (128, 115), (129, 104), (130, 101), (131, 108), (132, 108), (160, 2),
    (4096, 40),
    (8192, 0x7f), (8193, 0x45), (8194, 0x4c), (8195, 0x46)]

def sampleImage : Image := fun a => (sampleBytes.find? fun w => w.1 = a).elim 0 Prod.snd

/-- Memory full of zeros, before `boot`. -/
def powerOn : Kernel where
  con := {
    term := fun _ => ⟨0, 0, 0, fun _ => 0, 0, false, false, 0⟩
    curTermId := none
    nowTermId := 0
    keyBuf := fun _ => 0
    keyBufIdx := 0
    screen := ⟨fun _ => 0, 0, 0, 0, 0⟩
    scancodeState := 0
    ctrlState := false
    altState := false }
  pcbMask := fun _ _ => false
  pcb := fun _ => ⟨fun _ => ⟨.error, 0, 0, 0⟩, ⟨0, 0⟩, ⟨0, 0⟩, ⟨0, 0⟩, ⟨0, 0⟩, 0, 0, fun _ => 0,
    0, 0, 0⟩
  paging := ⟨fun _ => 0, fun _ => 0, fun _ => 0, 0x1000, 0x2000, by decide, by decide⟩
  tssEsp0 := 0
  kstack := fun _ => []
  cpu := .kernel ⟨0, 0⟩
  interruptHaltFlag := false
  numFileRead := 0
  eax := 0

/-- No leftovers but zeros. -/
def noStale : Stale := ⟨[], fun _ => 0⟩

theorem sampleImage_bootable : Bootable sampleImage where
  inode_lt := by decide +kernel
  good _ := goodInode_of_single (by decide +kernel) (by decide +kernel) (by decide +kernel)
  shell := by
    refine ⟨⟨shellCommand, 2, 0⟩, ?_, ?_, ?_⟩
    · decide +kernel
    · decide +kernel
    · decide +kernel

end LinuxLikeKernel
