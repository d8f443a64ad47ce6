import LinuxLikeKernel.FileSystem
import LinuxLikeKernel.Terminal

/-!
# System calls on descriptors

The calls of `system_call.c` that work in the calling process: `open`, `close`, `read`, `write`,
`getargs` and `vidmap`, with the two ways the file finds a PCB. A call that blocks leaves its
frame on the kernel stack; `Machine` lets it go on.
-/

namespace LinuxLikeKernel
open ByteMemory

/-- The user page: [128 MB, 132 MB). -/
abbrev userStart : Nat := 0x8000000
abbrev userEnd : Nat := 0x8400000

/-- Every store goes to the user page. -/
def InUserPage (ws : List Store) : Prop := ∀ w ∈ ws, userStart ≤ w.1 ∧ w.1 < userEnd

instance (ws : List Store) : Decidable (InUserPage ws) :=
  inferInstanceAs (Decidable (∀ w ∈ ws, _))

/-- A value as the `uint8_t` it is passed as. -/
def uint8 (n : Int) : Nat := (n % 256).toNat

/-- One frame further up the stack. -/
def StackPtr.up (sp : StackPtr) : StackPtr := ⟨sp.stack, sp.depth + 1⟩

def Pcb.setFd (p : Pcb) (fd : Fin 8) (d : FileDesc) : Pcb :=
  { p with fds := Function.update p.fds fd d }

/-- `strlen(argbuf)`, for the 100 bytes that `execute` fills. -/
def Pcb.argLength (p : Pcb) : Nat :=
  ((List.range maxArgLength).map p.argbuf).takeWhile (· ≠ 0) |>.length

namespace Kernel

def setCon (s : Kernel) (k : Console) : Kernel := { s with con := k }

def setPcb (s : Kernel) (id : Nat) (p : Pcb) : Kernel :=
  { s with pcb := Function.update s.pcb id p }

def setFd (s : Kernel) (id : Nat) (fd : Fin 8) (d : FileDesc) : Kernel :=
  s.setPcb id ((s.pcb id).setFd fd d)

/-- The value a system call leaves in EAX. -/
def ret (s : Kernel) (eax : Int) : Kernel := { s with eax := eax }

/-- The id `term[t].cur_pcb_id + t*MAX_PCB_MASK_LEN` as `get_pcb_from_id` takes it. -/
def pcbId (s : Kernel) (t : TermId) : Nat :=
  uint8 ((s.con.term t).curPcbId + t.val * maxPcbMaskLen)

/-- The id the system calls use: that of the running terminal. -/
def nowPcbId (s : Kernel) : Nat := s.pcbId s.con.nowTermId

/-! ### Kernel stacks -/

/-- The stack that a value of `tss.esp0` is on. -/
def stackOf (esp0 : Nat) : Nat := (0x800000 - esp0) / 0x2000

/-- Where the kernel's frames go on entry: from user code to the stack of `tss.esp0`, from the
kernel to the stack in use. -/
def entry (s : Kernel) : StackPtr :=
  match s.cpu with
  | .user => ⟨stackOf s.tssEsp0, 0⟩
  | .kernel sp => sp
  | .fault sp => sp

/-- `get_cur_pcb`: the PCB at the bottom of the stack that ESP is on. -/
def getCurPcb (s : Kernel) : Nat := s.entry.stack

/-- A frame pushed at a stack position, over what was above it. -/
def pushFrame (kstack : Nat → List Frame) (sp : StackPtr) (f : Frame) : Nat → List Frame :=
  Function.update kstack sp.stack ((kstack sp.stack).take sp.depth ++ [f])

def push (s : Kernel) (sp : StackPtr) (f : Frame) : Kernel :=
  { s with kstack := pushFrame s.kstack sp f }

/-- A system call goes into a kernel loop with interrupts on. -/
def block (s : Kernel) (f : Frame) : Kernel :=
  { s.push s.entry f with cpu := .kernel s.entry.up }

/-! ### `open` and `close` -/

/-- `rtc_open`. -/
def rtcOpen (s : Kernel) : Kernel :=
  s.setPcb s.nowPcbId { s.pcb s.nowPcbId with rtcFreq := 2, rtcCounter := 1024 / 2 }

/-- The descriptor `open` takes: the first with `flags == 0`. -/
def freeFd (p : Pcb) : Option (Fin 8) := (List.finRange 8).find? fun fd => (p.fds fd).flags = 0

/-- What `open` makes of the descriptor it has taken, by the type of the entry. A type with no
`case` leaves `inode` and `optable` as they were. -/
def bindFd (s : Kernel) (id : Nat) (fd : Fin 8) (dentry : Dentry) : Kernel :=
  match dentry.filetype with
  | 0 =>
    let s := s.rtcOpen
    s.setFd id fd { (s.pcb id).fds fd with inode := 0, optable := .rtc }
  | 1 => s.setFd id fd { (s.pcb id).fds fd with inode := 0, optable := .dir }
  | 2 => s.setFd id fd { (s.pcb id).fds fd with inode := dentry.inode, optable := .file }
  | _ => s

/-- `open`. -/
def «open» (img : Image) (s : Kernel) (filename : List UInt8) : Kernel :=
  let id := s.nowPcbId
  match readDentryByName img filename with
  | none => s.ret (-1)
  | some dentry =>
    match freeFd (s.pcb id) with
    | none => s.ret (-1)
    | some fd =>
      let s := s.setFd id fd { (s.pcb id).fds fd with flags := 1, filePosition := 0 }
      (s.bindFd id fd dentry).ret fd

/-- The value of `optable.close(fd)`; no driver does anything on a close. -/
def FileOptable.close : FileOptable → Int
  | .error => -1
  | _ => 0

/-- `close`. -/
def close (s : Kernel) (fd : Int) : Kernel :=
  let id := s.nowPcbId
  if h : 2 ≤ fd ∧ fd < 8 then
    let i : Fin 8 := ⟨fd.toNat, by omega⟩
    let d := (s.pcb id).fds i
    if d.flags = 0 then s.ret (-1)
    else (s.setFd id i { d with flags := 0 }).ret (FileOptable.close d.optable)
  else s.ret (-1)

/-! ### `read` -/

/-- The checks of `read` and `write`, and the operation table they dispatch on. -/
def readDriver (s : Kernel) (fd : Int) (buf : Nat) : Option (Fin 8 × FileOptable) :=
  if h : 0 ≤ fd ∧ fd < 8 then
    let i : Fin 8 := ⟨fd.toNat, by omega⟩
    let d := (s.pcb s.nowPcbId).fds i
    if buf = 0 ∨ d.flags = 0 then none else some (i, d.optable)
  else none

theorem readDriver_buf {s : Kernel} {fd : Int} {buf : Nat} {x : Fin 8 × FileOptable}
    (h : s.readDriver fd buf = some x) : buf ≠ 0 := by
  simp only [readDriver] at h
  split at h
  · split at h
    · cases h
    · rename_i hno
      exact fun hz => hno (.inl hz)
  · cases h

/-- `rtc_read` up to its wait loop. A frequency of 0 is a division by zero. -/
def rtcRead (s : Kernel) : Kernel :=
  let id := s.nowPcbId
  let p := s.pcb id
  if p.rtcFreq = 0 then { s with cpu := .fault s.entry }
  else (s.setPcb id { p with rtcCounter := 1024 / p.rtcFreq }).block (.rtcRead id)

/-- `read`, until it returns or blocks. `file_read` finds its descriptor through the stack
pointer. What a store outside the caller's page would do to the kernel is not followed. -/
def read (img : Image) (s : Kernel) (fd : Int) (buf : Nat) (nbytes : Int) : Option Kernel :=
  match s.readDriver fd buf with
  | none => some (s.ret (-1))
  | some (_, .stdin) => some (s.block (.termRead buf nbytes .wait))
  | some (_, .rtc) => some s.rtcRead
  | some (_, .dir) =>
    let (r, n) := dirRead img s.numFileRead buf
    if InUserPage (r.stores buf) then some ({ s with numFileRead := n }.ret r.ret) else none
  | some (i, .file) =>
    let (r, d) := fileRead img ((s.pcb s.getCurPcb).fds i) i buf nbytes
    if InUserPage (r.stores buf) then some ((s.setFd s.getCurPcb i d).ret r.ret) else none
  | some (_, .stdout) => some (s.ret operationError.ret)
  | some (_, .error) => some (s.ret operationError.ret)

/-! ### `write` -/

/-- What `printf` puts on the screen for a format. `conv` says that a `%` has just been read. A
conversion would read an argument that `term_write` does not pass, and a `%` at the end makes
`printf` go on past the end of the text. -/
def printfText : Bool → List UInt8 → Option (List UInt8)
  | false, [] => some []
  | true, [] => none
  | false, c :: cs => if c = 37 then printfText true cs else (printfText false cs).map (c :: ·)
  | true, c :: cs =>
    if c = 37 then (printfText false cs).map (c :: ·)
    else if c = 35 then printfText true cs
    else if c = 120 ∨ c = 117 ∨ c = 100 ∨ c = 99 ∨ c = 115 then none
    else printfText false cs

/-- A text without `%` prints itself. -/
theorem printfText_of_plain {cs : List UInt8} (h : 37 ∉ cs) : printfText false cs = some cs := by
  induction cs with
  | nil => rfl
  | cons c cs ih =>
    obtain ⟨hc, hcs⟩ : (37 : UInt8) ≠ c ∧ (37 : UInt8) ∉ cs := by simpa using h
    rw [printfText, if_neg hc.symm, ih hcs]
    rfl

/-- `temp_buf` of `term_write`. The kernel stack is taken to have the room for it. -/
def writeText (buf : Nat → UInt8) (length : Int) : List UInt8 :=
  ((List.range length.toNat).map buf).takeWhile (· ≠ 0)

/-- The end of `term_write`: the text goes to the screen, or to the page of the running terminal
in the background. -/
def print (s : Kernel) (out : List UInt8) : Kernel :=
  s.setCon (if s.con.curTermId = some s.con.nowTermId then s.con.puts out else s.con.multiPuts out)

/-- `term_write`. With a negative length the size of `temp_buf` is not positive: that, and a text
with a conversion in it, are not followed here. -/
def termWrite (s : Kernel) (buf : Nat → UInt8) (length : Int) : Option Kernel :=
  if length < 0 then none
  else
    let temp := writeText buf length
    (printfText false temp).map fun out => (s.print out).ret temp.length

/-- The bits of the `int` at `buf`. -/
def freqBits (buf : Nat → UInt8) : Nat :=
  (buf 0).toNat + (buf 1).toNat * 2 ^ 8 + (buf 2).toNat * 2 ^ 16 + (buf 3).toNat * 2 ^ 24

/-- The test that `rtc_write` makes of the frequency and the length. -/
def RtcFreqValid (bits : Nat) (nbytes : Int) : Prop :=
  (bits ≠ 0 ∧ bits &&& ((bits + 2 ^ 32 - 1) % 2 ^ 32) = 0) ∧ int32 bits ≤ 1024 ∧ nbytes = 4 ∧
    1 < int32 bits

instance (bits : Nat) (nbytes : Int) : Decidable (RtcFreqValid bits nbytes) :=
  inferInstanceAs (Decidable (_ ∧ _))

def setRtcFreq (s : Kernel) (id freq : Nat) : Kernel :=
  s.setPcb id { s.pcb id with rtcFreq := freq }

/-- `rtc_write`. -/
def rtcWrite (s : Kernel) (buf : Nat → UInt8) (nbytes : Int) : Kernel :=
  let id := s.nowPcbId
  let freq := freqBits buf
  if RtcFreqValid freq nbytes then (s.setRtcFreq id freq).ret 0
  else s.ret (-1)

/-- `write` of the bytes `content` that are at `buf`. A run has no step for the texts that
`termWrite` does not follow. -/
def write (s : Kernel) (fd : Int) (buf : Nat) (content : Nat → UInt8) (nbytes : Int) :
    Option Kernel :=
  match s.readDriver fd buf with
  | none => some (s.ret (-1))
  | some (_, .stdout) => s.termWrite content nbytes
  | some (_, .rtc) => some (s.rtcWrite content nbytes)
  | some (_, _) => some (s.ret operationError.ret)

/-- What a `write` can do: nothing but return a value, print, or set the frequency. -/
theorem write_cases {s s' : Kernel} {fd nbytes : Int} {buf : Nat} {content : Nat → UInt8}
    (h : s.write fd buf content nbytes = some s') :
    (∃ eax, s' = s.ret eax) ∨ (∃ out eax, s' = (s.print out).ret eax) ∨
      ∃ i, s.readDriver fd buf = some (i, .rtc) ∧ RtcFreqValid (freqBits content) nbytes ∧
        s' = (s.setRtcFreq s.nowPcbId (freqBits content)).ret 0 := by
  simp only [write] at h
  split at h
  · exact .inl ⟨_, (Option.some.inj h).symm⟩
  · simp only [termWrite] at h
    split at h
    · cases h
    · obtain ⟨out, -, rfl⟩ := Option.map_eq_some_iff.mp h
      exact .inr (.inl ⟨out, _, rfl⟩)
  · rename_i i hdriver
    obtain rfl := Option.some.inj h
    by_cases hvalid : RtcFreqValid (freqBits content) nbytes
    · exact .inr (.inr ⟨i, hdriver, hvalid, if_pos hvalid⟩)
    · exact .inl ⟨-1, if_neg hvalid⟩
  · exact .inl ⟨_, (Option.some.inj h).symm⟩

/-! ### `getargs` and `vidmap` -/

/-- `getargs` of the calling process: the value, and the bytes for its buffer. -/
def getargs (p : Pcb) (nbytes : Int) : Effect :=
  if p.argLength = 0 ∨ nbytes ≤ p.argLength then ⟨-1, []⟩
  else ⟨0, (List.range p.argLength).map p.argbuf ++ [0]⟩

/-- The bytes of `(uint8_t*)0x8400000`, which `vidmap` stores. -/
def vidmapBytes : List UInt8 := [0, 0, 0x40, 0x08]

/-- `vidmap` of the pointer `p`: the page tables after it and its effect. -/
def vidmap (pt : PageTables) (p : Nat) : PageTables × Effect :=
  if p = 0 ∨ p < userStart ∨ userEnd ≤ p then (pt, ⟨-1, []⟩)
  else (pt.syscallVideoMapping video, ⟨0, vidmapBytes⟩)

end Kernel

end LinuxLikeKernel
