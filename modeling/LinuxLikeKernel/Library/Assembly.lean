import LinuxLikeKernel.Library.Strides
import Mathlib.Data.BitVec
import Mathlib.Logic.Relation

/-!
# Assembly code

A small part of the instruction set of the i386, for code that fills and copies memory: moves,
arithmetic, jumps, and the string instructions with a repeat prefix. A state of a run is the code
that is still to be executed, with the machine. Segments are taken to be flat, so that an offset is
an address.

## Main definitions

- `Machine`, `Op`, `StringOp`, `Instr` — the registers and the memory, and the instructions
- `step` — one instruction, or one turn of a repeated one
- `Ends` — the code comes to its end, and the machine is as stated there

## Main results

- `ends_op`, `ends_jz`, `ends_jae`, `ends_rep` and the like — one rule for each instruction
- `Ends.of_reaches` — there is only one way in which a run ends
-/

namespace Assembly

/-! ### The machine -/

/-- The four bytes of a doubleword, the lowest one first. -/
def bytesOf (v : BitVec 32) : Fin 4 → BitVec 8 := fun i => v.extractLsb' (8 * i) 8

inductive Reg
  | eax | ecx | edx | esi | edi
  deriving DecidableEq

/-- The registers, the flags that jumps and string instructions look at, and the memory. -/
structure Machine where
  reg : Reg → BitVec 32
  ds : BitVec 16
  es : BitVec 16
  zf : Bool
  cf : Bool
  df : Bool
  mem : BitVec 32 → BitVec 8

namespace Machine

def set (m : Machine) (r : Reg) (v : BitVec 32) : Machine :=
  { m with reg := Function.update m.reg r v }

def flags (m : Machine) (zf cf : Bool) : Machine := { m with zf := zf, cf := cf }

/-- The low byte of EAX. -/
def al (m : Machine) : BitVec 8 := (m.reg .eax).truncate 8

def setAl (m : Machine) (b : BitVec 8) : Machine :=
  m.set .eax ((m.reg .eax).extractLsb' 8 24 ++ b)

def store (m : Machine) (a : BitVec 32) (b : BitVec 8) : Machine :=
  { m with mem := Function.update m.mem a b }

/-- The four bytes at an address, the lowest one first. -/
def long (m : Machine) (a : BitVec 32) : Fin 4 → BitVec 8 :=
  fun i => m.mem (a + BitVec.ofNat 32 i)

def storeLong (m : Machine) (a : BitVec 32) (b : Fin 4 → BitVec 8) : Machine :=
  (((m.store a (b 0)).store (a + 1) (b 1)).store (a + 2) (b 2)).store (a + 3) (b 3)

/-- What a string instruction adds to its pointers: the size of its operand, up or down as the
direction flag says. -/
def stride (m : Machine) (size : BitVec 32) : BitVec 32 := if m.df then -size else size

def advance (m : Machine) (r : Reg) (size : BitVec 32) : Machine :=
  m.set r (m.reg r + m.stride size)

end Machine

/-! ### Instructions -/

/-- Instructions that execution goes past. Operands are in the order of the assembler, so that the
last one is the destination. -/
inductive Op
  | movl (src dst : Reg)
  /-- `movb (%r), %al`. -/
  | loadAl (r : Reg)
  /-- `movb %al, (%r)`. -/
  | storeAl (r : Reg)
  | movwDsDx
  | movwDxEs
  | testl (a b : Reg)
  | testlImm (k : BitVec 32) (r : Reg)
  | addl (k : BitVec 32) (r : Reg)
  | subl (k : BitVec 32) (r : Reg)
  | andl (k : BitVec 32) (r : Reg)
  | shrl (k : Nat) (r : Reg)
  | leal (disp : BitVec 32) (base index dst : Reg)
  | cmp (a b : Reg)
  | cld
  | std

def Op.effect (m : Machine) : Op → Machine
  | .movl src dst => m.set dst (m.reg src)
  | .loadAl r => m.setAl (m.mem (m.reg r))
  | .storeAl r => m.store (m.reg r) m.al
  | .movwDsDx => m.set .edx ((m.reg .edx).extractLsb' 16 16 ++ m.ds)
  | .movwDxEs => { m with es := (m.reg .edx).truncate 16 }
  | .testl a b => m.flags (m.reg a &&& m.reg b = 0) false
  | .testlImm k r => m.flags (m.reg r &&& k = 0) false
  | .addl k r => (m.set r (m.reg r + k)).flags (m.reg r + k = 0) (m.reg r + k < k)
  | .subl k r => (m.set r (m.reg r - k)).flags (m.reg r - k = 0) (m.reg r < k)
  | .andl k r => (m.set r (m.reg r &&& k)).flags (m.reg r &&& k = 0) false
  | .shrl k r => (m.set r (m.reg r >>> k)).flags (m.reg r >>> k = 0) ((m.reg r).getLsbD (k - 1))
  | .leal disp base index dst => m.set dst (m.reg base + m.reg index + disp)
  | .cmp a b => m.flags (m.reg b = m.reg a) (m.reg b < m.reg a)
  | .cld => { m with df := false }
  | .std => { m with df := true }

inductive StringOp
  | movsb
  | movsl
  | stosl

/-- A string instruction without its prefix. -/
def StringOp.effect (m : Machine) : StringOp → Machine
  | .movsb => ((m.store (m.reg .edi) (m.mem (m.reg .esi))).advance .esi 1).advance .edi 1
  | .movsl => ((m.storeLong (m.reg .edi) (m.long (m.reg .esi))).advance .esi 4).advance .edi 4
  | .stosl => (m.storeLong (m.reg .edi) (bytesOf (m.reg .eax))).advance .edi 4

/-- A line of assembly code, with labels of a type of its own. -/
inductive Instr (ℓ : Type)
  | label (l : ℓ)
  | op (o : Op)
  | jz (l : ℓ)
  | jae (l : ℓ)
  | jmp (l : ℓ)
  | rep (o : StringOp)

variable {ℓ : Type} [DecidableEq ℓ]

/-- The code from a label on. -/
def goto (l : ℓ) : List (Instr ℓ) → List (Instr ℓ)
  | [] => []
  | .label l' :: rest => if l' = l then rest else goto l rest
  | _ :: rest => goto l rest

/-- One instruction, or one turn of a string instruction that is repeated, if the code is not at its
end. -/
def step (code : List (Instr ℓ)) : List (Instr ℓ) × Machine → Option (List (Instr ℓ) × Machine)
  | ([], _) => none
  | (.label _ :: rest, m) => some (rest, m)
  | (.op o :: rest, m) => some (rest, o.effect m)
  | (.jz l :: rest, m) => some (if m.zf then goto l code else rest, m)
  | (.jae l :: rest, m) => some (if m.cf then rest else goto l code, m)
  | (.jmp l :: _, m) => some (goto l code, m)
  | (.rep o :: rest, m) =>
    if m.reg .ecx = 0 then some (rest, m)
    else some (.rep o :: rest, (o.effect m).set .ecx (m.reg .ecx - 1))

/-! ### Runs -/

/-- The code comes to its end, with a machine as stated. -/
def Ends (code : List (Instr ℓ)) (s : List (Instr ℓ) × Machine) (Q : Machine → Prop) : Prop :=
  ∃ m, Relation.ReflTransGen (fun s t => step code s = some t) s ([], m) ∧ Q m

variable {code rest : List (Instr ℓ)} {s t : List (Instr ℓ) × Machine} {m : Machine} {l : ℓ}
  {o : Op} {so : StringOp} {Q Q' : Machine → Prop}

theorem Ends.head (hstep : step code s = some t) (h : Ends code t Q) : Ends code s Q := by
  obtain ⟨m, hm, hq⟩ := h
  exact ⟨m, .head hstep hm, hq⟩

theorem Ends.mono (h : Ends code s Q) (hq : ∀ m, Q m → Q' m) : Ends code s Q' := by
  obtain ⟨m, hm, hm'⟩ := h
  exact ⟨m, hm, hq m hm'⟩

/-- A run ends in one way only. -/
theorem Ends.of_reaches (h : Ends code s Q)
    (hm : Relation.ReflTransGen (fun s t => step code s = some t) s ([], m)) : Q m := by
  obtain ⟨m', hm', hq⟩ := h
  induction hm using Relation.ReflTransGen.head_induction_on with
  | refl =>
    obtain heq | ⟨t, hstep, -⟩ := Relation.ReflTransGen.cases_head hm'
    · obtain ⟨-, rfl⟩ := Prod.mk.inj heq
      exact hq
    · cases hstep
  | head hstep _ ih =>
    obtain heq | ⟨t, hstep', hrest⟩ := Relation.ReflTransGen.cases_head hm'
    · rw [heq] at hstep
      cases hstep
    · obtain rfl := Option.some.inj (hstep.symm.trans hstep')
      exact ih hrest

theorem ends_nil (h : Q m) : Ends code ([], m) Q := ⟨m, .refl, h⟩

theorem ends_label (h : Ends code (rest, m) Q) : Ends code (.label l :: rest, m) Q := h.head rfl

theorem ends_op (h : Ends code (rest, o.effect m) Q) : Ends code (.op o :: rest, m) Q := h.head rfl

/-- Instructions in a row. -/
theorem ends_ops (ops : List Op) (h : Ends code (rest, ops.foldl Op.effect m) Q) :
    Ends code (ops.map .op ++ rest, m) Q := by
  induction ops generalizing m with
  | nil => exact h
  | cons o ops ih => exact ends_op (ih h)

theorem ends_jmp (h : Ends code (goto l code, m) Q) : Ends code (.jmp l :: rest, m) Q := h.head rfl

theorem ends_jz (hz : m.zf = true) (h : Ends code (goto l code, m) Q) :
    Ends code (.jz l :: rest, m) Q := h.head (by rw [step, if_pos hz])

theorem ends_jz_past (hz : m.zf = false) (h : Ends code (rest, m) Q) :
    Ends code (.jz l :: rest, m) Q := h.head (by rw [step, if_neg (by simp [hz])])

theorem ends_jae (hc : m.cf = false) (h : Ends code (goto l code, m) Q) :
    Ends code (.jae l :: rest, m) Q := h.head (by rw [step, if_neg (by simp [hc])])

theorem ends_jae_past (hc : m.cf = true) (h : Ends code (rest, m) Q) :
    Ends code (.jae l :: rest, m) Q := h.head (by rw [step, if_pos hc])

/-! ### Registers and memory after an instruction -/

namespace Machine

variable (m : Machine) (r r' : Reg) (v a : BitVec 32) (b : BitVec 8) (zf cf : Bool)

@[simp] theorem set_reg : (m.set r v).reg r' = if r' = r then v else m.reg r' :=
  Function.update_apply ..

@[simp] theorem set_mem : (m.set r v).mem = m.mem := rfl

@[simp] theorem set_df : (m.set r v).df = m.df := rfl

@[simp] theorem flags_reg : (m.flags zf cf).reg = m.reg := rfl

@[simp] theorem flags_mem : (m.flags zf cf).mem = m.mem := rfl

@[simp] theorem flags_df : (m.flags zf cf).df = m.df := rfl

@[simp] theorem flags_zf : (m.flags zf cf).zf = zf := rfl

theorem al_eq_bytesOf : m.al = bytesOf (m.reg .eax) 0 := by
  ext i hi
  simp [al, bytesOf]

@[simp] theorem setAl_al : (m.setAl b).al = b := by
  rw [setAl, al, set_reg, if_pos rfl]
  ext i hi
  grind

@[simp] theorem setAl_reg (h : r ≠ .eax) : (m.setAl b).reg r = m.reg r :=
  (set_reg ..).trans (if_neg h)

@[simp] theorem setAl_mem : (m.setAl b).mem = m.mem := rfl

@[simp] theorem store_reg : (m.store a b).reg = m.reg := rfl

@[simp] theorem store_mem : (m.store a b).mem = Function.update m.mem a b := rfl

@[simp] theorem store_df : (m.store a b).df = m.df := rfl

@[simp] theorem store_stride : (m.store a b).stride v = m.stride v := rfl

@[simp] theorem advance_reg :
    (m.advance r v).reg r' = if r' = r then m.reg r + m.stride v else m.reg r' := set_reg ..

@[simp] theorem advance_mem : (m.advance r v).mem = m.mem := rfl

@[simp] theorem advance_stride : (m.advance r v).stride a = m.stride a := rfl

@[simp] theorem set_stride : (m.set r v).stride a = m.stride a := rfl

@[simp] theorem storeLong_reg (b : Fin 4 → BitVec 8) : (m.storeLong a b).reg = m.reg := by
  simp only [storeLong, store_reg]

@[simp] theorem storeLong_stride (b : Fin 4 → BitVec 8) :
    (m.storeLong a b).stride v = m.stride v := by
  simp only [storeLong, store_stride]

theorem stride_up {m : Machine} (h : m.df = false) (size : BitVec 32) :
    m.stride size = size := by
  simp [stride, h]

/-- Four equal bytes are stored by a walk. -/
theorem storeLong_fill {bs : Fin 4 → BitVec 8} (h : ∀ i, bs i = b) :
    (m.storeLong a bs).mem = Strides.fill 1 b 4 a m.mem := by
  simp only [storeLong, h, store_mem, Strides.fill, add_assoc]
  rfl

/-- Four bytes are copied by a walk, if they do not overlap with their copy. -/
theorem storeLong_copy {d s : BitVec 32} (h : Strides.Apart 1 4 d s) :
    (m.storeLong d (m.long s)).mem = Strides.copy 1 4 d s m.mem := by
  have hunread {n : Nat} (hn : n < 4) : ∀ i < n, s + n • 1 ≠ d + i • 1 :=
    fun i hi => (h i (hi.trans hn) n hn).symm
  rw [Strides.copy_succ_of_unread (hunread (by decide)),
    Strides.copy_succ_of_unread (hunread (by decide)),
    Strides.copy_succ_of_unread (hunread (by decide)),
    Strides.copy_succ_of_unread (hunread (by decide))]
  simp [Strides.copy, storeLong, long]

end Machine

/-! ### Repeated string instructions -/

/-- A string instruction that is repeated `n` times. -/
def StringOp.times (so : StringOp) : Nat → Machine → Machine
  | 0, m => m
  | n + 1, m => so.times n ((so.effect m).set .ecx (m.reg .ecx - 1))

namespace StringOp

/-- A string instruction changes ESI, EDI and the memory only. -/
theorem effect_reg (so : StringOp) (m : Machine) {r : Reg} (hsi : r ≠ .esi)
    (hdi : r ≠ .edi) : (so.effect m).reg r = m.reg r := by
  cases so <;> simp [effect, Machine.advance, Machine.storeLong, hsi, hdi]

@[simp] theorem effect_df (so : StringOp) (m : Machine) : (so.effect m).df = m.df := by
  cases so <;> simp [effect, Machine.advance, Machine.storeLong]

theorem times_df (so : StringOp) (n : Nat) (m : Machine) : (so.times n m).df = m.df := by
  induction n generalizing m with
  | zero => rfl
  | succ n ih => rw [times, ih, Machine.set_df, effect_df]

theorem times_reg (so : StringOp) (n : Nat) (m : Machine) {r : Reg} (hcx : r ≠ .ecx)
    (hsi : r ≠ .esi) (hdi : r ≠ .edi) : (so.times n m).reg r = m.reg r := by
  induction n generalizing m with
  | zero => rfl
  | succ n ih => rw [times, ih, Machine.set_reg, if_neg hcx, so.effect_reg m hsi hdi]

theorem movsb_times_mem (n : Nat) (m : Machine) :
    (movsb.times n m).mem = Strides.copy (m.stride 1) n (m.reg .edi) (m.reg .esi) m.mem := by
  induction n generalizing m with
  | zero => rfl
  | succ n ih =>
    rw [times, ih]
    simp [effect, Strides.copy]

/-- `rep stosl` upwards, of a doubleword of four equal bytes. -/
theorem stosl_times {m : Machine} {b : BitVec 8} (n : Nat) (hup : m.df = false)
    (hb : ∀ i, bytesOf (m.reg .eax) i = b) :
    (stosl.times n m).mem = Strides.fill 1 b (4 * n) (m.reg .edi) m.mem ∧
      (stosl.times n m).reg .edi = m.reg .edi + (4 * n) • 1 := by
  induction n generalizing m with
  | zero => simp [times, Strides.fill]
  | succ n ih =>
    have hmem : (stosl.effect m).mem = Strides.fill 1 b 4 (m.reg .edi) m.mem :=
      m.storeLong_fill _ _ hb
    have hdi : (stosl.effect m).reg .edi = m.reg .edi + 4 • 1 := by
      simp [effect, Machine.stride_up hup]
    have hnext := ih (m := (stosl.effect m).set .ecx (m.reg .ecx - 1)) hup
      (by simpa [effect] using hb)
    rw [times, Nat.mul_succ, Nat.add_comm, Strides.fill_add, ← hmem, add_nsmul, ← add_assoc, ← hdi]
    simpa using hnext

/-- `rep movsl` upwards, between blocks that do not overlap. -/
theorem movsl_times {m : Machine} (n : Nat) (hup : m.df = false)
    (hapart : Strides.Apart 1 (4 * n) (m.reg .edi) (m.reg .esi)) :
    (movsl.times n m).mem = Strides.copy 1 (4 * n) (m.reg .edi) (m.reg .esi) m.mem ∧
      (movsl.times n m).reg .edi = m.reg .edi + (4 * n) • 1 ∧
      (movsl.times n m).reg .esi = m.reg .esi + (4 * n) • 1 := by
  induction n generalizing m with
  | zero => simp [times, Strides.copy]
  | succ n ih =>
    rw [Nat.mul_succ, Nat.add_comm] at hapart
    have hmem : (movsl.effect m).mem = Strides.copy 1 4 (m.reg .edi) (m.reg .esi) m.mem :=
      m.storeLong_copy (hapart.take (Nat.le_add_right ..))
    have hdi : (movsl.effect m).reg .edi = m.reg .edi + 4 • 1 := by
      simp [effect, Machine.stride_up hup]
    have hsi : (movsl.effect m).reg .esi = m.reg .esi + 4 • 1 := by
      simp [effect, Machine.stride_up hup]
    have hnext := ih (m := (movsl.effect m).set .ecx (m.reg .ecx - 1)) hup
      (by simpa [hdi, hsi] using hapart.drop)
    rw [times, Nat.mul_succ, Nat.add_comm, Strides.copy_add, ← hmem, add_nsmul, ← add_assoc,
      ← add_assoc, ← hdi, ← hsi]
    simpa using hnext

end StringOp

/-- The counter of a loop that has `n + 1` turns to go. -/
theorem counter_succ {v : BitVec 32} {n : Nat} (h : v.toNat = n + 1) :
    v ≠ 0 ∧ (v - 1).toNat = n := by
  constructor
  · rintro rfl
    cases h
  · bv_omega

theorem ends_rep (h : Ends code (rest, so.times (m.reg .ecx).toNat m) Q) :
    Ends code (.rep so :: rest, m) Q := by
  induction hn : (m.reg .ecx).toNat generalizing m with
  | zero =>
    have hzero : m.reg .ecx = 0 := BitVec.eq_of_toNat_eq hn
    rw [hn] at h
    exact h.head (if_pos hzero)
  | succ n ih =>
    obtain ⟨hne, hnext⟩ := counter_succ hn
    have hcount : ((so.effect m).set .ecx (m.reg .ecx - 1)).reg .ecx = m.reg .ecx - 1 := by
      simp
    rw [hn] at h
    refine (ih ?_ ?_).head (if_neg hne)
    · rwa [hcount, hnext]
    · rw [hcount, hnext]

end Assembly
