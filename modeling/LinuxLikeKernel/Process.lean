import LinuxLikeKernel.SystemCall

/-!
# Starting and ending processes

`execute` and `halt` of `system_call.c`, with the command parser and the process table.

`execute` reads two things it has not written: what lies past a file name that fills
`filename`, and the part of `headerbuf` that a short file leaves. Both are in `Stale`, which
an event that may lead to `execute` carries.

## Main definitions

- `parseCommand`, `lookup` — the command line, and the program it names
- `Kernel.pcbProcessNumber`, `Kernel.pcbTotalNumber` — the process table
- `Kernel.execute`, `Kernel.halt`
-/

namespace LinuxLikeKernel
open ByteMemory

/-- Leftovers on the kernel stack. -/
structure Stale where
  /-- The bytes from the end of `filename` up to the next NUL. -/
  afterFilename : List UInt8
  headerbuf : Nat → UInt8

/-! ### The command line -/

structure ParseState where
  filenameFlag : Int
  filename : List UInt8
  fileargs : List UInt8

/-- The body of the parser's loop, `none` for the early return. `offset` is the length of
what is being recorded. -/
def parseStep (i : Nat) (c : UInt8) (st : ParseState) : Option ParseState :=
  -- `i` is the index in the command, with the spaces before the name
  if maxFilenameLength < i ∧ st.filenameFlag = 0 then none
  else if c = 32 ∧ st.filenameFlag = -1 then some st
  else if c ≠ 32 ∧ (st.filenameFlag = -1 ∨ st.filenameFlag = 0) then
    some { st with filenameFlag := 0, filename := st.filename ++ [c] }
  else if c = 32 ∧ (st.filenameFlag = 0 ∨ st.filenameFlag = 1) then
    some { st with filenameFlag := 1 }
  else if st.filenameFlag = 1 ∨ st.filenameFlag = 2 then
    some { st with filenameFlag := 2, fileargs := st.fileargs ++ [c] }
  else some st

/-- The loop from index `i` on, over the bytes up to the NUL. -/
def parseFrom (i : Nat) (st : ParseState) : List UInt8 → Option ParseState
  | [] => some st
  | c :: cs => (parseStep i c st).bind fun st => parseFrom (i + 1) st cs

def parseCommand (command : List UInt8) : Option ParseState := parseFrom 0 ⟨-1, [], []⟩ command

/-- A program to start: its inode, its entry point, and its arguments. -/
structure Program where
  inode : Nat
  entrypoint : Nat
  args : List UInt8

inductive Lookup
  /-- The parser has written past the end of `filename` or `fileargs`. -/
  | overflow
  /-- One of the returns with -1 before a slot is taken. -/
  | refused
  | found (prog : Program)

/-- The pointer to a local buffer; only that it is not NULL matters. -/
abbrev localBuf : Nat := 1

/-- Byte `i` of `headerbuf` after the header of an inode has been read into it. -/
def headerByte (img : Image) (inode : Nat) (stale : Stale) (i : Nat) : UInt8 :=
  (readData img inode 0 localBuf 40).bytes.getD i (stale.headerbuf i)

/-- `magicnumber`. -/
def magicNumber : List UInt8 := [0x7f, 0x45, 0x4c, 0x46]

/-- `entrypoint`, from bytes 24 to 27 of the header. -/
def entryPoint (header : Nat → UInt8) : Nat :=
  (header 24).toNat + (header 25).toNat * 2 ^ 8 + (header 26).toNat * 2 ^ 16 +
    (header 27).toNat * 2 ^ 24

/-- The name `read_dentry_by_name` sees: one of 32 characters has no NUL of its own. -/
def commandName (filename : List UInt8) (stale : Stale) : List UInt8 :=
  if filename.length = maxFilenameLength then filename ++ stale.afterFilename else filename

/-- `execute` up to its choice of a slot. A NULL command is refused like an empty one. -/
def lookup (img : Image) (command : List UInt8) (stale : Stale) : Lookup :=
  match parseCommand command with
  | none => .refused
  | some st =>
    if maxFilenameLength < st.filename.length ∨ maxArgLength < st.fileargs.length then .overflow
    else
      match readDentryByName img (commandName st.filename stale) with
      | none => .refused
      | some dentry =>
        let header := headerByte img dentry.inode stale
        if strncmp header (cstr magicNumber) 4 ≠ 0 then .refused
        else .found ⟨dentry.inode, entryPoint header, st.fileargs⟩

/-- `START_VITURAL_ADDR`. -/
abbrev startVirtualAddr : Nat := 0x08048000

/-- `"shell"`. -/
def shellCommand : List UInt8 := text ['s', 'h', 'e', 'l', 'l']

namespace Kernel

/-! ### The process table -/

/-- `PCB_total_number`. -/
def pcbTotalNumber (mask : TermId → Fin 4 → Bool) : Nat :=
  ((List.finRange 3).map fun t => ((List.finRange 4).filter (mask t)).length).sum

/-- A write to `PCB_mask[t][i]`. -/
def markSlot (mask : TermId → Fin 4 → Bool) (t : TermId) (i : Fin 4) (used : Bool) :
    TermId → Fin 4 → Bool :=
  Function.update mask t (Function.update (mask t) i used)

/-- The first free slot of a row of `PCB_mask`. -/
def freeSlot (mask : TermId → Fin 4 → Bool) (t : TermId) : Option (Fin 4) :=
  (List.finRange 4).find? fun i => !mask t i

/-- `PCB_process_number`: the slot, in the row of the displayed terminal. It tests the first
free one only. -/
def pcbProcessNumber (mask : TermId → Fin 4 → Bool) (cur : TermId) : Option (Fin 4) :=
  (freeSlot mask cur).filter fun i => pcbTotalNumber (markSlot mask cur i true) ≤ 6

def setMask (s : Kernel) (t : TermId) (i : Fin 4) (used : Bool) : Kernel :=
  { s with pcbMask := markSlot s.pcbMask t i used }

def setCurPcbId (s : Kernel) (t : TermId) (id : Int) : Kernel :=
  s.setCon (s.con.setTerm t { s.con.term t with curPcbId := id })

/-- `printf` of a text. -/
def printf (s : Kernel) (str : List UInt8) : Kernel := s.setCon (s.con.puts str)

/-- The frame of process `n`, as `pcb_mapping` is given it. -/
def processFrame (n : Int) : Nat := uint32 (0x800000 + n * 0x400000)

/-- `tss.esp0` of process `n`. -/
def processEsp0 (n : Int) : Nat := uint32 (0x800000 - n * 0x2000 - 4)

/-- The user page becomes that of process `n`. -/
def mapProcess (s : Kernel) (n : Int) : Kernel :=
  { s with paging := s.paging.pcbMapping userStart (processFrame n) }

/-! ### `execute` -/

/-- How `execute` ends: it returns to its caller, or faults, or the new program runs. -/
inductive Outcome
  | returned (eax : Int) (s : Kernel)
  | faulted (s : Kernel)
  | started (s : Kernel)

/-- A store by the kernel, `none` for a page fault. What user pages hold is not kept; past the
user page lies the page that `vidmap` and the ticks map. -/
def storeByte (s : Kernel) (w : Store) : Option Kernel :=
  (s.paging.translate w.1).map fun a =>
    if w.1 < userEnd then s
    else s.setCon (s.con.setScreen { s.con.screen with mem := store s.con.screen.mem a w.2 })

/-- The stores of a copy, with the state at the first that faults as the error. -/
def storeBytes (s : Kernel) : List Store → Except Kernel Kernel
  | [] => .ok s
  | w :: ws =>
    match s.storeByte w with
    | some s => s.storeBytes ws
    | none => .error s

/-- The descriptors of a new process. -/
def freshFds : Fin 8 → FileDesc
  | 0 => ⟨.stdin, 0, 0, 1⟩
  | 1 => ⟨.stdout, 0, 0, 1⟩
  | _ => ⟨.error, 0, 0, 0⟩

/-- The PCB that `execute` fills in, over what was there. -/
def newPcb (old : Pcb) (sp : StackPtr) (cur : TermId) (n : Nat) (args : List UInt8) : Pcb :=
  { old with
    parentKsp := sp
    parentKbp := sp
    processNumber := n
    parentProcessNumber := if n % 4 = 0 then -1 else n - 1
    termId := cur
    fds := freshFds
    argbuf := cstr args }

/-- The end of `execute`, from `Create PCB` on, for the process number `n`. -/
def startProcess (s : Kernel) (sp : StackPtr) (cur : TermId) (n : Nat) (args : List UInt8) :
    Kernel :=
  let s := s.setPcb n (newPcb (s.pcb n) sp.up cur n args)
  let s := s.setCurPcbId cur (n % 4)
  { s.push sp .execute with
    tssEsp0 := processEsp0 n
    interruptHaltFlag := false
    cpu := .user }

/-- `execute` after its load, which has faulted or returned `ret`. -/
def afterLoad (sp : StackPtr) (cur : TermId) (n : Nat) (args : List UInt8) (ret : Int) :
    Except Kernel Kernel → Outcome
  | .error s => .faulted { s with cpu := .fault sp }
  | .ok s =>
    if ret = -1 then .returned (-1) s else .started (s.startProcess sp cur n args)

/-- `"There are no available space in the PCB\n"`. -/
def noSpaceText : List UInt8 :=
  text ['T', 'h', 'e', 'r', 'e', ' ', 'a', 'r', 'e', ' ', 'n', 'o', ' ', 'a', 'v', 'a', 'i',
    'l', 'a', 'b', 'l', 'e', ' ', 's', 'p', 'a', 'c', 'e', ' ', 'i', 'n', ' ', 't', 'h', 'e',
    ' ', 'P', 'C', 'B', '\n']

/-- `execute`, called with its frame at `sp`. The slot, `term_id` and the parent all come from
`cur_term_id`; with no terminal displayed the slot is looked for past the end of `PCB_mask`,
which is not followed, and neither is a parser that writes past its buffers. -/
def execute (img : Image) (s : Kernel) (sp : StackPtr) (command : List UInt8) (stale : Stale) :
    Option Outcome :=
  match lookup img command stale with
  | .overflow => none
  | .refused => some (.returned (-1) s)
  | .found prog =>
    s.con.curTermId.bind fun cur =>
      match pcbProcessNumber s.pcbMask cur with
      | none => some (.returned 0 (s.printf noSpaceText))
      | some i =>
        let n := i.val + cur.val * maxPcbMaskLen
        let s := (s.setMask cur i true).mapProcess n
        let load := readData img prog.inode 0 startVirtualAddr (img.inodeSize prog.inode)
        some (afterLoad sp cur n prog.args load.ret
          (s.storeBytes (load.stores startVirtualAddr)))

/-! ### `halt` -/

/-- The kernel is left through the frame at the top of `sp`: under it is user code, or the
kernel loop that was interrupted. -/
def leave (s : Kernel) (sp : StackPtr) : Option Kernel :=
  match sp.depth with
  | 1 => some { s with cpu := .user }
  | d + 2 =>
    match (s.kstack sp.stack)[d]? with
    | some (.termRead ..) => some { s with cpu := .kernel ⟨sp.stack, d + 1⟩ }
    | some (.rtcRead _) => some { s with cpu := .kernel ⟨sp.stack, d + 1⟩ }
    | some .boot => some { s with cpu := .kernel ⟨sp.stack, d + 1⟩ }
    | _ => none
  | 0 => none

/-- A kernel function returns through the frame that EBP points to, at the top of `sp`: `kind`
says which function's frame it has to be for the return to make sense. -/
def resume (s : Kernel) (sp : StackPtr) (kind : Frame) : Option Kernel :=
  match kind, (s.kstack sp.stack)[sp.depth - 1]? with
  | .pit, some .pit => s.leave sp
  | .execute, some .execute =>
    -- `term_launch` returns into the tick that called it
    if (s.kstack sp.stack)[sp.depth - 2]? = some .pit then s.leave ⟨sp.stack, sp.depth - 1⟩
    else s.leave sp
  -- `halt` goes on to read the PCB of process -1, above 8 MB
  | .execute, some .restart => some { s with cpu := .fault ⟨sp.stack, sp.depth - 1⟩ }
  | _, _ => none

/-- One turn of the descriptor loop of `halt`. By now `close` looks up another PCB. -/
def haltFd (s : Kernel) (id : Nat) (i : Fin 8) : Kernel :=
  let d := (s.pcb id).fds i
  let s := if d.flags = 1 then (s.setFd id i { d with flags := 0 }).close i.val else s
  s.setFd id i { (s.pcb id).fds i with optable := .error }

def haltFds (s : Kernel) (id : Nat) : Kernel :=
  (List.finRange 8).foldl (fun s i => s.haltFd id i) s

/-- `"Halting the last shell is not allowed!\n"`. -/
def lastShellText : List UInt8 :=
  text ['H', 'a', 'l', 't', 'i', 'n', 'g', ' ', 't', 'h', 'e', ' ', 'l', 'a', 's', 't', ' ',
    's', 'h', 'e', 'l', 'l', ' ', 'i', 's', ' ', 'n', 'o', 't', ' ', 'a', 'l', 'l', 'o', 'w',
    'e', 'd', '!', '\n']

/-- The end of `halt`: back to the parent of the process whose PCB is `id`. Above 8 MB, where
the PCB of a negative number would be, nothing is mapped. -/
def returnToParent (s : Kernel) (id : Nat) (sp : StackPtr) (status : UInt8) : Option Kernel :=
  let old := s.pcb id
  if old.parentProcessNumber < 0 then some { s with cpu := .fault sp }
  else
    let parent := s.pcb old.parentProcessNumber.toNat
    let s := s.mapProcess parent.processNumber
    { s with
      tssEsp0 := processEsp0 parent.processNumber
      eax := if s.interruptHaltFlag then status.toNat + 0x100 else status.toNat
      interruptHaltFlag := false }.resume old.parentKbp .execute

/-- `halt` up to its descriptor loop: the terminal's process id becomes that of the parent,
and the slot is freed. A slot that is not in the table is none of the kernel's. -/
def unlink (s : Kernel) (id : Nat) : Option Kernel :=
  let s := s.setCon s.con.bufClear
  let pcb := s.pcb id
  let s := s.setCurPcbId s.con.nowTermId (pcb.parentProcessNumber.tmod maxPcbMaskLen)
  let slot := uint8 pcb.processNumber
  if h : slot / 4 < 3 then
    some (s.setMask ⟨slot / 4, h⟩ ⟨slot % 4, Nat.mod_lt _ (by decide)⟩ false)
  else none

/-- `halt`, called with its frame at `sp`. If the new shell of a root process cannot be
started, `halt` goes on with the parent number -1. -/
def halt (img : Image) (s : Kernel) (sp : StackPtr) (status : UInt8) (stale : Stale) :
    Option Kernel :=
  let id := s.nowPcbId
  (s.unlink id).bind fun s =>
    let s := s.haltFds id
    if (s.pcb id).parentProcessNumber = -1 then
      (execute img (s.printf lastShellText) sp shellCommand stale).bind fun
        | .started s => some (s.push sp .restart)
        | .faulted s => some s
        | .returned _ s => s.returnToParent id sp status
    else s.returnToParent id sp status

end Kernel

end LinuxLikeKernel
