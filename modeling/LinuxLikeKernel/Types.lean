import LinuxLikeKernel.Library.Memory
import LinuxLikeKernel.Paging

/-!
# The kernel's data

The global variables and records of the headers. Fields that no modelled function reads are
left out: `term_id` and the `rtc_virtual_*` fields of `term_t`, `cur_tss` of `pcb_t`.

A kernel stack pointer is a position on one of the 8 KB kernel stacks: the number of the
stack, counted down from 8 MB as process numbers are, and how many of the frames on it are in
use there. `kstack` holds what the stacks contain, whoever uses them.
-/

namespace LinuxLikeKernel
open ByteMemory

abbrev termMax : Nat := 3
abbrev maxPcbMaskLen : Nat := 4
abbrev maxArgLength : Nat := 100
abbrev keyBufMax : Nat := 128
abbrev numCols : Nat := 80
abbrev numRows : Nat := 25
/-- `VIDEO`, the visible screen. -/
abbrev video : Nat := 0xB8000

/-- An index into `term`. -/
abbrev TermId := Fin 3

instance neZeroThree : NeZero 3 := ⟨by decide⟩

instance neZeroEight : NeZero 8 := ⟨by decide⟩

/-- A value as the `uint32_t` it is stored in. -/
def uint32 (n : Int) : Nat := (n % 2 ^ 32).toNat

/-- A value as the `int32_t` it is stored in. -/
def int32 (n : Int) : Int := (n + 2 ^ 31) % 2 ^ 32 - 2 ^ 31

/-- A byte as the `int8_t` it is read as. -/
def int8 (b : UInt8) : Int := if b.toNat < 128 then b.toNat else (b.toNat : Int) - 256

/-- `term_t`. -/
structure Term where
  curPcbId : Int
  cursorX : Nat
  cursorY : Nat
  keyBuf : Nat → UInt8
  keyBufIdx : Nat
  enterState : Bool
  running : Bool
  videoMem : Nat

/-- The static variables of `lib.c`, with the memory they draw in and the position last
written to the hardware cursor. -/
structure Screen where
  mem : Mem
  screenX : Nat
  screenY : Nat
  videoMem : Nat
  cursorPos : Nat

/-- The terminals, the line buffer, the screen and the keyboard state. `curTermId` is the
displayed terminal, `none` for the value 3 that `term_init` leaves there; `nowTermId` is the
terminal being run. -/
structure Console where
  term : TermId → Term
  curTermId : Option TermId
  nowTermId : TermId
  keyBuf : Nat → UInt8
  keyBufIdx : Nat
  screen : Screen
  scancodeState : UInt8
  ctrlState : Bool
  altState : Bool

/-- The file operation tables: `stdin_fop`, `stdout_fop`, `rtc_fop`, `dir_fop`, `file_fop`
and `error_fop`. -/
inductive FileOptable
  | stdin | stdout | rtc | dir | file | error
  deriving DecidableEq, Repr

/-- `file_desc_t`. -/
structure FileDesc where
  optable : FileOptable
  inode : Nat
  filePosition : Int
  flags : Int
  deriving DecidableEq, Repr

/-- ESP or EBP inside the kernel: the stack, and the frames in use on it. -/
structure StackPtr where
  stack : Nat
  depth : Nat
  deriving DecidableEq, Repr

/-- `pcb_t`. -/
structure Pcb where
  fds : Fin 8 → FileDesc
  parentKsp : StackPtr
  parentKbp : StackPtr
  ksp : StackPtr
  kbp : StackPtr
  processNumber : Int
  parentProcessNumber : Int
  argbuf : Nat → UInt8
  termId : Nat
  rtcCounter : Nat
  rtcFreq : Nat

/-- How far a `term_read` has got: in its wait loop, past it with `enter_state` still to be
reset, about to copy byte `i`, or clearing byte `j` of the line buffer with `count` bytes
copied. -/
inductive ReadPhase
  | wait
  | woken
  | copy (i : Nat)
  | clear (j count : Nat)
  deriving DecidableEq, Repr

/-- What a stretch of kernel stack belongs to. -/
inductive Frame
  /-- `entry`, which loops on `hlt` after boot. -/
  | boot
  /-- `pit_interrupt_handler`, under it what it interrupted. -/
  | pit
  /-- `execute`, waiting for its child. -/
  | execute
  /-- The `execute` that `halt` calls for a last shell; a return from it goes into `halt`. -/
  | restart
  /-- `term_read`, which runs with interrupts on. -/
  | termRead (buf : Nat) (length : Int) (phase : ReadPhase)
  /-- `rtc_read`, waiting on the counter of the PCB it looked up. -/
  | rtcRead (pcb : Nat)
  deriving DecidableEq, Repr

/-- What the processor is doing between two kernel operations: user code, a kernel loop with
interrupts on, or a kernel access that faults. -/
inductive Cpu
  | user
  | kernel (sp : StackPtr)
  | fault (sp : StackPtr)
  deriving DecidableEq, Repr

/-- The whole kernel state. PCBs are named by the id `get_pcb_from_id` takes. -/
structure Kernel where
  con : Console
  pcbMask : TermId → Fin 4 → Bool
  pcb : Nat → Pcb
  paging : PageTables
  tssEsp0 : Nat
  kstack : Nat → List Frame
  cpu : Cpu
  interruptHaltFlag : Bool
  numFileRead : Nat
  eax : Int

/-- The character codes of a text. -/
def text (cs : List Char) : List UInt8 := cs.map fun c => UInt8.ofNat c.toNat

end LinuxLikeKernel
