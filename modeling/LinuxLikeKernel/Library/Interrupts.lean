import LinuxLikeKernel.Library.StackWords
import Mathlib.Logic.Relation

/-!
# Interrupts and rings

A part of the i386 in protected mode, for the code on both sides of an interrupt gate: the stack
instructions, calls and jumps, `int` and `iret`, with the two stacks and the rings. The code and the
stack are in flat segments; what is read through DS is read where its segment is, and without a
segment there it is a fault. Limits, pages, other faults, tasks and virtual-8086 mode are not here.

## Main definitions

- `Machine`, `Op`, `Instr` — registers, segments, flags and memory, and the instructions
- `Gate`, `Cpu` — the tables of the processor
- `deliver`, `iret` — into a handler and back
- `step`, `Reaches` — runs of a text
- `Returns` — what a function in C keeps when it returns

## Main results

- `reaches_ops`, `foldl_push`, `foldl_pop` — code in a row
- `jl_iff`, `jg_iff` — the jumps after a comparison
-/

namespace Interrupts
open StackWords

/-! ### The machine -/

inductive Reg
  | eax | ecx | edx | ebx | esp | ebp | esi | edi
  deriving DecidableEq

inductive Seg
  | cs | ss | ds | es
  deriving DecidableEq

@[ext] structure Machine where
  reg : Reg → BitVec 32
  seg : Seg → BitVec 16
  eip : BitVec 32
  eflags : BitVec 32
  cr2 : BitVec 32
  mem : BitVec 32 → BitVec 8

/-- The ring that a selector asks for. -/
def ring (s : BitVec 16) : BitVec 2 := s.truncate 2

/-- The selectors of no segment. -/
def IsNull (s : BitVec 16) : Prop := s.extractLsb' 2 14 = 0

instance (s : BitVec 16) : Decidable (IsNull s) := inferInstanceAs (Decidable (_ = _))

/-- A bit of the flags, as it is set or not. -/
def flag (b : Bool) (i : Nat) : BitVec 32 := if b then BitVec.twoPow 32 i else 0

/-- The six status flags of a result. -/
def status (cf af overflow : Bool) (result : BitVec 32) : BitVec 32 :=
  flag cf 0 ||| flag ((result.truncate 8).cpop.toNat % 2 = 0) 2 ||| flag af 4 |||
    flag (result = 0) 6 ||| flag result.msb 7 ||| flag overflow 11

namespace Machine

def set (m : Machine) (r : Reg) (v : BitVec 32) : Machine :=
  { m with reg := Function.update m.reg r v }

def setSeg (m : Machine) (s : Seg) (v : BitVec 16) : Machine :=
  { m with seg := Function.update m.seg s v }

def goto (m : Machine) (a : BitVec 32) : Machine := { m with eip := a }

/-- Words pushed on the stack, the last of the list first. -/
def pushes (m : Machine) (ws : List (BitVec 32)) : Machine :=
  { m.set .esp (m.reg .esp - size ws.length) with mem := pushed m.mem (m.reg .esp) ws }

/-- The word on the stack at a distance from its top. -/
def stack (m : Machine) (disp : BitVec 32) : BitVec 32 := load m.mem (m.reg .esp + disp)

/-- The ring of the code that runs. -/
def cpl (m : Machine) : BitVec 2 := ring (m.seg .cs)

def setStatus (m : Machine) (s : BitVec 32) : Machine :=
  { m with eflags := m.eflags &&& ~~~0x8D5 ||| s }

/-- POPF leaves VM, VIF and VIP as they are, clears RF, and changes IOPL in ring 0 only and IF up to
the ring of IOPL. -/
def popFlags (m : Machine) (v : BitVec 32) : Machine :=
  let kept : BitVec 32 := 0x1A0000 ||| (if m.cpl = 0 then 0 else 0x3000) |||
    (if m.cpl ≤ (m.eflags >>> 12).truncate 2 then 0 else 0x200)
  { m with eflags := m.eflags &&& kept ||| v &&& ~~~(kept ||| 0x10000) }

end Machine

/-! ### Instructions -/

/-- What may be pushed. -/
inductive Source
  | reg (r : Reg)
  | seg (s : Seg)
  | imm (v : BitVec 32)
  /-- `pushfl`. -/
  | flags
  deriving DecidableEq

def Source.value (m : Machine) : Source → BitVec 32
  | reg r => m.reg r
  | seg s => (m.seg s).zeroExtend 32
  | imm v => v
  -- without VM and RF
  | flags => m.eflags &&& 0xFCFFFF

/-- Where a word may be popped to. -/
inductive Dest
  | reg (r : Reg)
  | seg (s : Seg)
  /-- `popfl`. -/
  | flags
  deriving DecidableEq

def Dest.write (m : Machine) (v : BitVec 32) : Dest → Machine
  | reg r => m.set r v
  | seg s => m.setSeg s (v.truncate 16)
  | flags => m.popFlags v

/-- Instructions that execution goes past. Operands are in the order of the assembler, so that the
last one is the destination. -/
inductive Op
  | push (s : Source)
  | pop (d : Dest)
  | pushal
  | popal
  | movl (v : BitVec 32) (dst : Reg)
  /-- `movl disp(%esp), %dst`. -/
  | loadl (disp : BitVec 32) (dst : Reg)
  /-- `movl %cr2, %dst`. -/
  | movCr2 (dst : Reg)
  | addl (k : BitVec 32) (dst : Reg)
  | orl (k : BitVec 32) (dst : Reg)
  | cmpl (k : BitVec 32) (r : Reg)
  | cld
  deriving DecidableEq

def Op.effect (m : Machine) : Op → Machine
  | push s => m.pushes [s.value m]
  | pop d => d.write (m.set .esp (m.reg .esp + 4)) (m.stack 0)
  | pushal => m.pushes [m.reg .edi, m.reg .esi, m.reg .ebp, m.reg .esp, m.reg .ebx, m.reg .edx,
      m.reg .ecx, m.reg .eax]
  | popal =>
    { m with reg := fun
      | .edi => m.stack 0
      | .esi => m.stack 4
      | .ebp => m.stack 8
      | .esp => m.reg .esp + 32
      | .ebx => m.stack 16
      | .edx => m.stack 20
      | .ecx => m.stack 24
      | .eax => m.stack 28 }
  | movl v dst => m.set dst v
  | loadl disp dst => m.set dst (m.stack disp)
  | movCr2 dst => m.set dst m.cr2
  | addl k dst =>
    (m.set dst (m.reg dst + k)).setStatus (status ((m.reg dst).uaddOverflow k)
      (16 ≤ (m.reg dst).toNat % 16 + k.toNat % 16) ((m.reg dst).saddOverflow k) (m.reg dst + k))
  | orl k dst =>
    (m.set dst (m.reg dst ||| k)).setStatus (status false false false (m.reg dst ||| k))
  | cmpl k r =>
    m.setStatus (status ((m.reg r).ult k) ((m.reg r).toNat % 16 < k.toNat % 16)
      ((m.reg r).ssubOverflow k) (m.reg r - k))
  | cld => { m with eflags := m.eflags &&& ~~~0x400 }

inductive Instr
  | op (o : Op)
  | jl (l : BitVec 32)
  | jg (l : BitVec 32)
  | jmp (l : BitVec 32)
  | call (f : BitVec 32)
  /-- `call *table(,%r,4)`. -/
  | callTable (table : BitVec 32) (r : Reg)
  | ret
  | int (v : BitVec 8)
  | iret
  deriving DecidableEq

/-! ### Into a handler and back -/

/-- A gate of the table of interrupts, for a handler of 32 bits. -/
structure Gate where
  offset : BitVec 32
  selector : BitVec 16
  dpl : BitVec 2
  present : Bool
  /-- A trap gate leaves IF as it is. -/
  isTrap : Bool
  deriving DecidableEq

/-- The tables: the gates, the rings and the bases of the segments, and the stack of ring 0. -/
structure Cpu where
  gate : BitVec 8 → Gate
  dpl : BitVec 16 → BitVec 2
  base : BitVec 16 → BitVec 32
  ss0 : BitVec 16
  esp0 : BitVec 32

/-- The flags that a handler starts with: without TF, NT, RF and VM, and without IF unless it is
behind a trap gate. -/
def Gate.mask (g : Gate) (v : BitVec 32) : BitVec 32 :=
  v &&& ~~~(if g.isTrap then 0x34100 else 0x34300)

namespace Cpu

variable (c : Cpu)

/-- Whether the handler of the gate is in a ring inside the one of the code that runs. -/
def Inward (m : Machine) (g : Gate) : Prop := c.dpl g.selector < m.cpl

instance (m : Machine) (g : Gate) : Decidable (c.Inward m g) := inferInstanceAs (Decidable (_ < _))

/-- What the processor pushes for a handler, the last word first. -/
def frame (m : Machine) (g : Gate) (back : BitVec 32) (error : Option (BitVec 32)) :
    List (BitVec 32) :=
  error.toList ++ [back, (m.seg .cs).zeroExtend 32, m.eflags] ++
    if c.Inward m g then [m.reg .esp, (m.seg .ss).zeroExtend 32] else []

/-- The machine on the stack of the handler. -/
def onStack (m : Machine) (g : Gate) : Machine :=
  if c.Inward m g then (m.set .esp c.esp0).setSeg .ss c.ss0 else m

/-- An interrupt or exception, with the address to go on at. -/
def deliver (m : Machine) (v : BitVec 8) (back : BitVec 32) (error : Option (BitVec 32)) :
    Option Machine :=
  let g := c.gate v
  if g.present then
    let m' := ((c.onStack m g).pushes (c.frame m g back error)).setSeg .cs
      (g.selector.extractLsb' 2 14 ++ c.dpl g.selector)
    some { m' with eip := g.offset, eflags := g.mask m.eflags }
  else none

/-- A gate that is not open to the ring of the code makes `int` a general-protection exception. -/
def int (m : Machine) (v : BitVec 8) (next : BitVec 32) : Option Machine :=
  if (c.gate v).dpl < m.cpl then c.deliver m 13 m.eip (some (v.zeroExtend 32 * 8 + 2))
  else c.deliver m v next none

/-- A call through a table in the segment of DS. Without a segment there it is a general-protection
exception. -/
def callTable (m : Machine) (table : BitVec 32) (r : Reg) (next : BitVec 32) : Option Machine :=
  if IsNull (m.seg .ds) then c.deliver m 13 m.eip (some 0)
  else some ((m.pushes [next]).goto (load m.mem (c.base (m.seg .ds) + (table + m.reg r * 4))))

/-- What a data segment is in an outer ring: a segment of an inner ring is taken away. -/
def outward (r : BitVec 2) (s : BitVec 16) : BitVec 16 := if c.dpl s < r then 0 else s

/-- `iret` in ring 0, to a ring that may be outside it. -/
def iret (m : Machine) : Option Machine :=
  let cs : BitVec 16 := (m.stack 4).truncate 16
  if m.cpl ≠ 0 ∨ m.eflags.getLsbD 14 = true ∨ (m.stack 8).getLsbD 17 = true then none
  else
    let m' := { m.setSeg .cs cs with eip := m.stack 0, eflags := m.stack 8 }
    if ring cs = 0 then some (m'.set .esp (m.reg .esp + 12))
    else
      some ((((m'.set .esp (m.stack 12)).setSeg .ss ((m.stack 16).truncate 16)).setSeg .ds
        (c.outward (ring cs) (m.seg .ds))).setSeg .es (c.outward (ring cs) (m.seg .es)))

end Cpu

/-! ### Runs -/

/-- The instructions at their addresses, each with the address of the next one. -/
abbrev Text := BitVec 32 → Option (Instr × BitVec 32)

/-- One instruction, with the address behind it. -/
def Instr.exec (c : Cpu) (m : Machine) (next : BitVec 32) : Instr → Option Machine
  | op o => some ((o.effect m).goto next)
  | jl l => some (m.goto (if m.eflags.getLsbD 7 ≠ m.eflags.getLsbD 11 then l else next))
  | jg l => some (m.goto (if m.eflags.getLsbD 6 = false ∧ m.eflags.getLsbD 7 = m.eflags.getLsbD 11
      then l else next))
  | jmp l => some (m.goto l)
  | call f => some ((m.pushes [next]).goto f)
  | callTable table r => c.callTable m table r next
  | ret => some ((m.set .esp (m.reg .esp + 4)).goto (m.stack 0))
  | int v => c.int m v next
  | iret => c.iret m

def step (c : Cpu) (text : Text) (m : Machine) : Option Machine :=
  (text m.eip).bind fun x => x.1.exec c m x.2

/-- The text stands from one address to the other. -/
def Stands (text : Text) : BitVec 32 → List Instr → BitVec 32 → Prop
  | a, [], b => a = b
  | a, i :: is, b => ∃ next, text a = some (i, next) ∧ Stands text next is b

def Reaches (c : Cpu) (text : Text) : Machine → Machine → Prop :=
  Relation.ReflTransGen fun m m' => step c text m = some m'

/-- A function in C that was called in the first machine has returned in the second: to its caller,
with the stack as it was, and with the registers that are its caller's. -/
structure Returns (m m' : Machine) : Prop where
  eip : m'.eip = m.stack 0
  esp : m'.reg .esp = m.reg .esp + 4
  ebx : m'.reg .ebx = m.reg .ebx
  esi : m'.reg .esi = m.reg .esi
  edi : m'.reg .edi = m.reg .edi
  ebp : m'.reg .ebp = m.reg .ebp
  seg : m'.seg = m.seg

variable {c : Cpu} {text : Text} {m m' : Machine} {a b : BitVec 32} {is rest : List Instr}

/-! ### The machine after an instruction -/

namespace Machine

variable (m : Machine) (r r' : Reg) (s s' : Seg) (v : BitVec 32) (u : BitVec 16)
  (ws vs : List (BitVec 32))

@[simp] theorem set_reg : (m.set r v).reg r' = if r' = r then v else m.reg r' :=
  Function.update_apply ..

@[simp] theorem set_seg : (m.set r v).seg = m.seg := rfl

@[simp] theorem set_eip : (m.set r v).eip = m.eip := rfl

@[simp] theorem set_eflags : (m.set r v).eflags = m.eflags := rfl

@[simp] theorem set_mem : (m.set r v).mem = m.mem := rfl

@[simp] theorem setSeg_reg : (m.setSeg s u).reg = m.reg := rfl

@[simp] theorem setSeg_seg : (m.setSeg s u).seg s' = if s' = s then u else m.seg s' :=
  Function.update_apply ..

@[simp] theorem setSeg_eip : (m.setSeg s u).eip = m.eip := rfl

@[simp] theorem setSeg_eflags : (m.setSeg s u).eflags = m.eflags := rfl

@[simp] theorem setSeg_mem : (m.setSeg s u).mem = m.mem := rfl

@[simp] theorem goto_reg : (m.goto v).reg = m.reg := rfl

@[simp] theorem goto_seg : (m.goto v).seg = m.seg := rfl

@[simp] theorem goto_eip : (m.goto v).eip = v := rfl

@[simp] theorem goto_eflags : (m.goto v).eflags = m.eflags := rfl

@[simp] theorem goto_mem : (m.goto v).mem = m.mem := rfl

@[simp] theorem pushes_reg :
    (m.pushes ws).reg r = if r = .esp then m.reg .esp - size ws.length else m.reg r :=
  Function.update_apply ..

@[simp] theorem pushes_seg : (m.pushes ws).seg = m.seg := rfl

@[simp] theorem pushes_eip : (m.pushes ws).eip = m.eip := rfl

@[simp] theorem pushes_eflags : (m.pushes ws).eflags = m.eflags := rfl

@[simp] theorem pushes_mem : (m.pushes ws).mem = pushed m.mem (m.reg .esp) ws := rfl

@[simp] theorem setStatus_reg : (m.setStatus v).reg = m.reg := rfl

@[simp] theorem setStatus_seg : (m.setStatus v).seg = m.seg := rfl

@[simp] theorem setStatus_eip : (m.setStatus v).eip = m.eip := rfl

@[simp] theorem setStatus_mem : (m.setStatus v).mem = m.mem := rfl

@[simp] theorem popFlags_reg : (m.popFlags v).reg = m.reg := rfl

@[simp] theorem popFlags_seg : (m.popFlags v).seg = m.seg := rfl

@[simp] theorem popFlags_eip : (m.popFlags v).eip = m.eip := rfl

@[simp] theorem popFlags_mem : (m.popFlags v).mem = m.mem := rfl

theorem pushes_pushes : (m.pushes vs).pushes ws = m.pushes (ws ++ vs) := by
  have hsize : size (ws.length + vs.length) = size vs.length + size ws.length := by
    rw [Nat.add_comm, size_add]
  have hreg : ((m.pushes vs).pushes ws).reg = (m.pushes (ws ++ vs)).reg := by
    funext r
    rw [pushes_reg, pushes_reg, pushes_reg, pushes_reg, if_pos rfl, List.length_append, hsize,
      BitVec.sub_sub]
    split <;> rfl
  have hmem : ((m.pushes vs).pushes ws).mem = (m.pushes (ws ++ vs)).mem := by
    rw [pushes_mem, pushes_mem, pushes_mem, pushes_reg, if_pos rfl, pushed_append]
  exact Machine.ext hreg rfl rfl rfl rfl hmem

end Machine

/-! ### Code in a row -/

theorem Source.value_pushes {s : Source} (h : s ≠ .reg .esp) (ws : List (BitVec 32)) :
    s.value (m.pushes ws) = s.value m := by
  cases s with
  | reg r =>
    refine (Machine.pushes_reg ..).trans (if_neg ?_)
    rintro rfl
    exact h rfl
  | seg s => rfl
  | imm v => rfl
  | flags => rfl

/-- Pushes in a row. -/
theorem foldl_push (sources : List Source) (h : .reg .esp ∉ sources) (m : Machine) :
    (sources.map Op.push).foldl Op.effect m = m.pushes (sources.map (·.value m)).reverse := by
  induction sources generalizing m with
  | nil =>
    refine Machine.ext (funext fun r => ?_) rfl rfl rfl rfl rfl
    by_cases hr : r = .esp <;> simp [size, hr]
  | cons s sources ih =>
    have hrest : .reg .esp ∉ sources := fun hmem => h (List.mem_cons_of_mem _ hmem)
    have hvalues : sources.map (·.value (m.pushes [s.value m])) = sources.map (·.value m) := by
      refine List.map_congr_left fun x hx => Source.value_pushes ?_ _
      rintro rfl
      exact hrest hx
    refine (ih hrest _).trans ?_
    rw [Op.effect, hvalues, Machine.pushes_pushes, List.map_cons, List.reverse_cons]

/-- Words popped, the first one to the first place. -/
def popped (m : Machine) (dests : List Dest) (ws : List (BitVec 32)) : Machine :=
  (dests.zip ws).foldl (fun m x => x.1.write m x.2) m

theorem Dest.write_mem (d : Dest) (v : BitVec 32) : (d.write m v).mem = m.mem := by
  cases d <;> rfl

theorem Dest.write_set {d : Dest} (h : d ≠ .reg .esp) (v sp : BitVec 32) :
    d.write (m.set .esp sp) v = (d.write m v).set .esp sp := by
  cases d with
  | reg r =>
    refine Machine.ext (Function.update_comm ?_ ..) rfl rfl rfl rfl rfl
    rintro rfl
    exact h rfl
  | seg s => rfl
  | flags => rfl

theorem set_set (r : Reg) (v w : BitVec 32) : (m.set r v).set r w = m.set r w :=
  Machine.ext (Function.update_idem ..) rfl rfl rfl rfl rfl

theorem popped_set {dests : List Dest} (h : .reg .esp ∉ dests) (ws : List (BitVec 32))
    (sp : BitVec 32) : popped (m.set .esp sp) dests ws = (popped m dests ws).set .esp sp := by
  induction dests generalizing ws m with
  | nil => rfl
  | cons d dests ih =>
    cases ws with
    | nil => rfl
    | cons w ws =>
      have hd : d ≠ .reg .esp := by
        rintro rfl
        exact h List.mem_cons_self
      refine Eq.trans ?_ (ih (fun hmem => h (List.mem_cons_of_mem _ hmem)) ws)
      rw [← Dest.write_set hd]
      rfl

/-- Pops in a row. -/
theorem foldl_pop (dests : List Dest) (ws : List (BitVec 32)) (h : .reg .esp ∉ dests)
    (hlen : dests.length = ws.length) (m : Machine) (hws : Holds m.mem (m.reg .esp) ws) :
    (dests.map Op.pop).foldl Op.effect m =
      (popped m dests ws).set .esp (m.reg .esp + size ws.length) := by
  induction dests generalizing ws m with
  | nil =>
    obtain rfl := List.eq_nil_of_length_eq_zero hlen.symm
    refine Machine.ext (funext fun r => ?_) rfl rfl rfl rfl rfl
    by_cases hr : r = .esp <;> simp [size, hr, popped]
  | cons d dests ih =>
    cases ws with
    | nil => cases hlen
    | cons w ws =>
      have hd : d ≠ .reg .esp := by
        rintro rfl
        exact h List.mem_cons_self
      have hstack : m.stack 0 = w := by
        rw [Machine.stack, add_zero]
        exact hws.1
      have hsp : m.reg .esp + 4 + size ws.length = m.reg .esp + size (ws.length + 1) := by
        rw [size_succ]
        ring
      have heffect : (Op.pop d).effect m = (d.write m w).set .esp (m.reg .esp + 4) := by
        rw [Op.effect, hstack, Dest.write_set hd]
      have hdests : .reg .esp ∉ dests := fun hmem => h (List.mem_cons_of_mem _ hmem)
      have hrest := ih ws hdests (Nat.succ.inj hlen) ((d.write m w).set .esp (m.reg .esp + 4)) (by
        rw [Machine.set_reg, if_pos rfl, Machine.set_mem, Dest.write_mem]
        exact hws.2)
      rw [popped_set hdests, set_set, Machine.set_reg, if_pos rfl, hsp, ← heffect] at hrest
      exact hrest

theorem Op.effect_goto (o : Op) (a : BitVec 32) : o.effect (m.goto a) = (o.effect m).goto a := by
  cases o with
  | push s => cases s <;> rfl
  | pop d => cases d <;> rfl
  | _ => rfl

theorem foldl_goto (ops : List Op) (m : Machine) (a : BitVec 32) :
    ops.foldl Op.effect (m.goto a) = (ops.foldl Op.effect m).goto a := by
  induction ops generalizing m with
  | nil => rfl
  | cons o ops ih => rw [List.foldl_cons, Op.effect_goto, ih, List.foldl_cons]

theorem popFlags_nt {v : BitVec 32} (hv : v.getLsbD 14 = false) :
    (m.popFlags v).eflags.getLsbD 14 = false := by
  have hv' : v[14] = false := hv
  simp only [Machine.popFlags]
  split <;> split <;> simp [hv']

/-- Code without jumps. -/
theorem reaches_ops (ops : List Op) (h : Stands text m.eip (ops.map .op ++ rest) b) :
    ∃ a, Stands text a rest b ∧ Reaches c text m ((ops.foldl Op.effect m).goto a) := by
  induction ops generalizing m with
  | nil => exact ⟨m.eip, h, .refl⟩
  | cons o ops ih =>
    obtain ⟨next, htext, hnext⟩ := h
    obtain ⟨a, ha, hreaches⟩ := ih (m := (o.effect m).goto next) hnext
    have hstep : step c text m = some ((o.effect m).goto next) := by
      rw [step, htext]
      rfl
    rw [foldl_goto] at hreaches
    exact ⟨a, ha, .head hstep hreaches⟩

/-- Code with instructions of one byte. -/
theorem stands_of_forall (is : List Instr) (h : ∀ k (hk : k < is.length),
    text (a + BitVec.ofNat 32 k) = some (is[k], a + BitVec.ofNat 32 (k + 1))) :
    Stands text a is (a + BitVec.ofNat 32 is.length) := by
  induction is generalizing a with
  | nil => exact (BitVec.add_zero a).symm
  | cons i is ih =>
    have hsum : ∀ k, a + BitVec.ofNat 32 (k + 1) = a + 1 + BitVec.ofNat 32 k := by
      intro k
      rw [Nat.add_comm, BitVec.ofNat_add, BitVec.add_assoc]
      rfl
    refine ⟨a + 1, ?_, ?_⟩
    · have h0 := h 0 (Nat.succ_pos _)
      rwa [BitVec.add_zero] at h0
    · rw [List.length_cons, hsum]
      refine ih fun k hk => ?_
      rw [← hsum, ← hsum]
      exact h (k + 1) (Nat.succ_lt_succ hk)

/-- One instruction. -/
theorem reaches_one {i : Instr} {next : BitVec 32} (h : text m.eip = some (i, next))
    (hexec : i.exec c m next = some m') : Reaches c text m m' :=
  .single (by rw [step, h, Option.bind_some, hexec])

/-! ### Jumps behind a comparison -/

theorem getElem_flag (b : Bool) (i j : Nat) (hj : j < 32) :
    (flag b i)[j] = (b && decide (j = i)) := by
  cases b
  · simp [flag]
  · simp [flag, BitVec.getElem_twoPow]

/-- The flags after a comparison. -/
theorem cmpl_flags (m : Machine) (k : BitVec 32) (r : Reg) :
    ((Op.cmpl k r).effect m).eflags.getLsbD 6 = decide (m.reg r = k) ∧
      ((Op.cmpl k r).effect m).eflags.getLsbD 7 = (m.reg r - k).msb ∧
      ((Op.cmpl k r).effect m).eflags.getLsbD 11 = (m.reg r).ssubOverflow k := by
  have hzero : m.reg r - k = 0#32 ↔ m.reg r = k := by
    exact sub_eq_zero
  refine ⟨?_, ?_, ?_⟩ <;>
    simp [Op.effect, Machine.setStatus, status, getElem_flag, hzero]

theorem lt_iff_flags (x k : BitVec 32) : (x - k).msb ≠ x.ssubOverflow k ↔ x.toInt < k.toInt := by
  have hx := x.toInt_lt
  have hx' := x.le_toInt
  have hk := k.toInt_lt
  have hk' := k.le_toInt
  rw [BitVec.msb_eq_toInt, BitVec.toInt_sub, BitVec.ssubOverflow, Int.bmod, ne_eq, Bool.eq_iff_iff]
  simp only [Bool.or_eq_true, decide_eq_true_eq]
  omega

/-- `jl` behind a comparison. -/
theorem jl_iff (m : Machine) (k : BitVec 32) (r : Reg) :
    ((Op.cmpl k r).effect m).eflags.getLsbD 7 ≠ ((Op.cmpl k r).effect m).eflags.getLsbD 11 ↔
      (m.reg r).toInt < k.toInt := by
  obtain ⟨-, hsf, hof⟩ := cmpl_flags m k r
  rw [hsf, hof, lt_iff_flags]

/-- `jg` behind a comparison. -/
theorem jg_iff (m : Machine) (k : BitVec 32) (r : Reg) :
    (((Op.cmpl k r).effect m).eflags.getLsbD 6 = false ∧
      ((Op.cmpl k r).effect m).eflags.getLsbD 7 = ((Op.cmpl k r).effect m).eflags.getLsbD 11) ↔
      k.toInt < (m.reg r).toInt := by
  obtain ⟨hzf, hsf, hof⟩ := cmpl_flags m k r
  have hlt := lt_iff_flags (m.reg r) k
  have heq : m.reg r = k ↔ (m.reg r).toInt = k.toInt := BitVec.toInt_inj.symm
  have hle := not_iff_comm.mp hlt
  rw [hzf, hsf, hof, decide_eq_false_iff_not, heq, ← hle]
  omega

/-! ### Entry and return -/

/-- The words are pushed on a stack of which `top` was the end. -/
structure Stacked (m m' : Machine) (top : BitVec 32) (ws : List (BitVec 32)) : Prop where
  mem : m'.mem = pushed m.mem top ws
  esp : m'.reg .esp = top - size ws.length

theorem Stacked.words {top : BitVec 32} {ws : List (BitVec 32)} (h : Stacked m m' top ws)
    (hlen : 4 * ws.length ≤ 2 ^ 32) : Holds m'.mem (m'.reg .esp) ws := by
  rw [h.mem, h.esp]
  exact holds_pushed hlen

/-- The memory is otherwise as it was. -/
theorem Stacked.frame {top : BitVec 32} {ws : List (BitVec 32)} (h : Stacked m m' top ws)
    (hlen : 4 * ws.length ≤ 2 ^ 32) {x : BitVec 32}
    (hx : ¬Within (top - size ws.length) (4 * ws.length) x) : m'.mem x = m.mem x := by
  rw [h.mem]
  exact pushed_of_not_within hlen hx

theorem Stacked.push {m₁ m₂ : Machine} {top : BitVec 32} {ws vs : List (BitVec 32)}
    (h : Stacked m m₁ top ws) (h' : Stacked m₁ m₂ (m₁.reg .esp) vs) :
    Stacked m m₂ top (vs ++ ws) where
  mem := by rw [h'.mem, h.mem, h.esp, ← pushed_append]
  esp := by rw [h'.esp, h.esp, BitVec.sub_sub, List.length_append, Nat.add_comm, size_add]

/-- The second machine is at the start of the handler of the gate. -/
structure Enters (c : Cpu) (g : Gate) (m m' : Machine) : Prop where
  eip : m'.eip = g.offset
  cs : m'.seg .cs = g.selector.extractLsb' 2 14 ++ c.dpl g.selector
  ss : m'.seg .ss = if c.Inward m g then c.ss0 else m.seg .ss
  ds : m'.seg .ds = m.seg .ds
  es : m'.seg .es = m.seg .es
  reg : ∀ r, r ≠ .esp → m'.reg r = m.reg r
  eflags : m'.eflags = g.mask m.eflags
  cr2 : m'.cr2 = m.cr2

/-- The words are pushed on the stack there is, and registers and segments are as they were. -/
structure Pushed (m m' : Machine) (ws : List (BitVec 32)) : Prop
    extends Stacked m m' (m.reg .esp) ws where
  reg : ∀ r, r ≠ .esp → m'.reg r = m.reg r
  seg : m'.seg = m.seg
  cr2 : m'.cr2 = m.cr2
  flags : ∀ i, i = 9 ∨ i = 10 ∨ i = 14 → m'.eflags.getLsbD i = m.eflags.getLsbD i

theorem cmpl_keeps (m : Machine) (k : BitVec 32) (r : Reg) {i : Nat}
    (hi : i = 9 ∨ i = 10 ∨ i = 14) :
    ((Op.cmpl k r).effect m).eflags.getLsbD i = m.eflags.getLsbD i := by
  obtain rfl | rfl | rfl := hi <;>
    simp [Op.effect, Machine.setStatus, status, getElem_flag]

theorem pushed_pushes (m : Machine) (ws : List (BitVec 32)) : Pushed m (m.pushes ws) ws where
  mem := rfl
  esp := by simp
  reg r hr := by simp [hr]
  seg := rfl
  cr2 := rfl
  flags _ _ := rfl

namespace Pushed

variable {ws : List (BitVec 32)}

theorem cmpl (h : Pushed m m' ws) (k : BitVec 32) (r : Reg) :
    Pushed m ((Op.cmpl k r).effect m') ws where
  mem := h.mem
  esp := h.esp
  reg := h.reg
  seg := h.seg
  cr2 := h.cr2
  flags i hi := (cmpl_keeps m' k r hi).trans (h.flags i hi)

theorem goto (h : Pushed m m' ws) (a : BitVec 32) : Pushed m (m'.goto a) ws :=
  ⟨⟨h.mem, h.esp⟩, h.reg, h.seg, h.cr2, h.flags⟩

theorem push (h : Pushed m m' ws) (w : BitVec 32) : Pushed m (m'.pushes [w]) (w :: ws) where
  toStacked := h.toStacked.push (pushed_pushes m' [w]).toStacked
  reg r hr := by rw [Machine.pushes_reg, if_neg hr, h.reg r hr]
  seg := h.seg
  cr2 := h.cr2
  flags := h.flags

end Pushed

theorem onStack_esp (c : Cpu) (m : Machine) (g : Gate) :
    (c.onStack m g).reg .esp = if c.Inward m g then c.esp0 else m.reg .esp := by
  rw [Cpu.onStack]
  split <;> simp

theorem onStack_reg (c : Cpu) (m : Machine) (g : Gate) {r : Reg} (hr : r ≠ .esp) :
    (c.onStack m g).reg r = m.reg r := by
  rw [Cpu.onStack]
  split <;> simp [hr]

theorem onStack_ss (c : Cpu) (m : Machine) (g : Gate) :
    (c.onStack m g).seg .ss = if c.Inward m g then c.ss0 else m.seg .ss := by
  rw [Cpu.onStack]
  split <;> simp

theorem onStack_seg (c : Cpu) (m : Machine) (g : Gate) {s : Seg} (hs : s ≠ .ss) :
    (c.onStack m g).seg s = m.seg s := by
  rw [Cpu.onStack]
  split <;> simp [hs]

theorem onStack_mem (c : Cpu) (m : Machine) (g : Gate) : (c.onStack m g).mem = m.mem := by
  rw [Cpu.onStack]
  split <;> rfl

theorem onStack_cr2 (c : Cpu) (m : Machine) (g : Gate) : (c.onStack m g).cr2 = m.cr2 := by
  rw [Cpu.onStack]
  split <;> rfl

/-- Into a handler, on a stack of its own or on the one there is. -/
theorem deliver_enters (c : Cpu) (m : Machine) (v : BitVec 8) (back : BitVec 32)
    (error : Option (BitVec 32)) (hpresent : (c.gate v).present = true) :
    ∃ m', c.deliver m v back error = some m' ∧ Enters c (c.gate v) m m' ∧
      Stacked m m' (if c.Inward m (c.gate v) then c.esp0 else m.reg .esp)
        (c.frame m (c.gate v) back error) := by
  have hesp := onStack_esp c m (c.gate v)
  refine ⟨_, if_pos hpresent, ?_, ?_, ?_⟩
  · exact
      { eip := rfl
        cs := by simp
        ss := by simp [onStack_ss]
        ds := by simp [onStack_seg]
        es := by simp [onStack_seg]
        reg := fun r hr => by simp [hr, onStack_reg]
        eflags := rfl
        cr2 := onStack_cr2 .. }
  · simp [hesp, onStack_mem]
  · simp [hesp]

theorem stack_of_holds {ws : List (BitVec 32)} (hws : Holds m.mem (m.reg .esp) ws) (k : Nat)
    (hk : k < ws.length) : m.stack (size k) = ws[k] := hws.load_eq hk

/-- Back to an outer ring. -/
theorem iret_outward (c : Cpu) {eip cs eflags sp ss : BitVec 32} (hcpl : m.cpl = 0)
    (hnt : m.eflags.getLsbD 14 = false)
    (hws : Holds m.mem (m.reg .esp) [eip, cs, eflags, sp, ss])
    (hvm : eflags.getLsbD 17 = false) (hring : ring (cs.truncate 16) ≠ 0) :
    c.iret m = some
      { m with
        reg := Function.update m.reg .esp sp
        seg := fun
          | .cs => cs.truncate 16
          | .ss => ss.truncate 16
          | .ds => c.outward (ring (cs.truncate 16)) (m.seg .ds)
          | .es => c.outward (ring (cs.truncate 16)) (m.seg .es)
        eip := eip
        eflags := eflags } := by
  have h0 : m.stack 0 = eip := stack_of_holds hws 0 (by simp)
  have h4 : m.stack 4 = cs := stack_of_holds hws 1 (by simp)
  have h8 : m.stack 8 = eflags := stack_of_holds hws 2 (by simp)
  have h12 : m.stack 12 = sp := stack_of_holds hws 3 (by simp)
  have h16 : m.stack 16 = ss := stack_of_holds hws 4 (by simp)
  have hstops : ¬(m.cpl ≠ 0 ∨ m.eflags.getLsbD 14 = true ∨ eflags.getLsbD 17 = true) := by
    simp only [hcpl, hnt, hvm]
    decide
  simp only [Cpu.iret, h0, h4, h8, h12, h16, if_neg hstops, if_neg hring]
  refine congrArg some (Machine.ext rfl (funext fun s => ?_) rfl rfl rfl rfl)
  cases s <;> simp

/-- Back in the same ring. -/
theorem iret_same (c : Cpu) {eip cs eflags : BitVec 32} (hcpl : m.cpl = 0)
    (hnt : m.eflags.getLsbD 14 = false) (hws : Holds m.mem (m.reg .esp) [eip, cs, eflags])
    (hvm : eflags.getLsbD 17 = false) (hring : ring (cs.truncate 16) = 0) :
    c.iret m = some
      { (m.set .esp (m.reg .esp + 12)).setSeg .cs (cs.truncate 16) with
        eip := eip
        eflags := eflags } := by
  have h0 : m.stack 0 = eip := stack_of_holds hws 0 (by simp)
  have h4 : m.stack 4 = cs := stack_of_holds hws 1 (by simp)
  have h8 : m.stack 8 = eflags := stack_of_holds hws 2 (by simp)
  have hstops : ¬(m.cpl ≠ 0 ∨ m.eflags.getLsbD 14 = true ∨ eflags.getLsbD 17 = true) := by
    simp only [hcpl, hnt, hvm]
    decide
  simp only [Cpu.iret, h0, h4, h8, if_neg hstops, if_pos hring]
  rfl

end Interrupts
