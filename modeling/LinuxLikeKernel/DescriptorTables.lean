import LinuxLikeKernel.Library.Interrupts

/-!
# Descriptor tables

The descriptors of `x86_desc.h` and `x86_desc.S` as the bits the processor reads, the table of
interrupts that `idt_init` makes, and what the processor makes of them.

## Main definitions

- `IdtDesc`, `SegDesc` — the descriptors, field by field
- `gateOf` — a gate as the processor reads it
- `idtInit` — `idt_init`
- `kernelCpu` — the processor with the kernel's tables

## Main results

- `setParams_read` — the base and the limit of a segment
- `gate_kernelCpu` — all gates
- `user_int` — what `int` does in a program
-/

namespace LinuxLikeKernel
open Interrupts StackWords

abbrev kernelCs : BitVec 16 := 0x0010
abbrev kernelDs : BitVec 16 := 0x0018
abbrev userCs : BitVec 16 := 0x0023
abbrev userDs : BitVec 16 := 0x002B

abbrev kbdVec : BitVec 8 := 0x21
abbrev rtcVec : BitVec 8 := 0x28
abbrev sysVec : BitVec 8 := 0x80
abbrev pitVec : BitVec 8 := 0x20
abbrev mseVec : BitVec 8 := 0x2C

/-- The handlers that `idt_init` enters. -/
inductive InterruptHandler
  | undefInterrupt
  | de | db | nmi | bp | of | br | ud | nm | df | cso | ts | np | ss | gp | pf | mf | ac | mc | xf
  | kbdHandler | rtcHandler | sycHandler | pitHandler | mseHandler
  deriving DecidableEq

/-! ### Descriptors -/

/-- `idt_desc_t`, from its lowest bits up. -/
structure IdtDesc where
  offset15_00 : BitVec 16
  segSelector : BitVec 16
  reserved4 : BitVec 8
  reserved3 : BitVec 1
  reserved2 : BitVec 1
  reserved1 : BitVec 1
  size : BitVec 1
  reserved0 : BitVec 1
  dpl : BitVec 2
  present : BitVec 1
  offset31_16 : BitVec 16

namespace IdtDesc

/-- The byte of the seven fields that are no bytes. -/
def access (d : IdtDesc) : BitVec 8 :=
  d.present ++ d.dpl ++ d.reserved0 ++ d.size ++ d.reserved1 ++ d.reserved2 ++ d.reserved3

/-- The eight bytes of a descriptor. -/
def val (d : IdtDesc) : BitVec 64 :=
  d.offset31_16 ++ d.access ++ d.reserved4 ++ d.segSelector ++ d.offset15_00

/-- `SET_IDT_ENTRY`. -/
def setIdtEntry (d : IdtDesc) (handler : BitVec 32) : IdtDesc :=
  { d with
    offset31_16 := ((handler &&& 0xFFFF0000) >>> 16).truncate 16
    offset15_00 := (handler &&& 0xFFFF).truncate 16 }

end IdtDesc

/-- A gate as the processor reads it. What is not a gate for 32 bits counts as absent. -/
def gateOf (v : BitVec 64) : Gate :=
  let access : BitVec 8 := v.extractLsb' 40 8
  { offset := v.extractLsb' 48 16 ++ v.extractLsb' 0 16
    selector := v.extractLsb' 16 16
    dpl := access.extractLsb' 5 2
    present := access.getLsbD 7 && access.extractLsb' 1 4 = 0b0111
    isTrap := access.getLsbD 0 }

theorem access_bits (present : BitVec 1) (dpl : BitVec 2) (r0 size r1 r2 r3 : BitVec 1) :
    let access : BitVec 8 := present ++ dpl ++ r0 ++ size ++ r1 ++ r2 ++ r3
    access.extractLsb' 5 2 = dpl ∧
      (access.getLsbD 7 && access.extractLsb' 1 4 = 0b0111) =
        decide (present = 1 ∧ r0 = 0 ∧ size = 1 ∧ r1 = 1 ∧ r2 = 1) ∧
      access.getLsbD 0 = decide (r3 = 1) := by
  decide +revert +kernel

theorem gateOf_val (d : IdtDesc) : gateOf d.val =
    { offset := d.offset31_16 ++ d.offset15_00
      selector := d.segSelector
      dpl := d.dpl
      present := decide (d.present = 1 ∧ d.reserved0 = 0 ∧ d.size = 1 ∧ d.reserved1 = 1 ∧
        d.reserved2 = 1)
      isTrap := decide (d.reserved3 = 1) } := by
  have hhigh : d.val.extractLsb' 48 16 = d.offset31_16 :=
    calc d.val.extractLsb' 48 16
      _ = (d.offset31_16 ++ d.access ++ d.reserved4 ++ d.segSelector).extractLsb' 32 16 :=
        BitVec.extractLsb'_append_eq_of_le (by decide)
      _ = (d.offset31_16 ++ d.access ++ d.reserved4).extractLsb' 16 16 :=
        BitVec.extractLsb'_append_eq_of_le (by decide)
      _ = (d.offset31_16 ++ d.access).extractLsb' 8 16 :=
        BitVec.extractLsb'_append_eq_of_le (by decide)
      _ = d.offset31_16 := BitVec.extractLsb'_append_eq_left
  have haccess : d.val.extractLsb' 40 8 = d.access :=
    calc d.val.extractLsb' 40 8
      _ = (d.offset31_16 ++ d.access ++ d.reserved4 ++ d.segSelector).extractLsb' 24 8 :=
        BitVec.extractLsb'_append_eq_of_le (by decide)
      _ = (d.offset31_16 ++ d.access ++ d.reserved4).extractLsb' 8 8 :=
        BitVec.extractLsb'_append_eq_of_le (by decide)
      _ = (d.offset31_16 ++ d.access).extractLsb' 0 8 :=
        BitVec.extractLsb'_append_eq_of_le (by decide)
      _ = d.access := BitVec.extractLsb'_append_eq_right
  have hselector : d.val.extractLsb' 16 16 = d.segSelector :=
    calc d.val.extractLsb' 16 16
      _ = (d.offset31_16 ++ d.access ++ d.reserved4 ++ d.segSelector).extractLsb' 0 16 :=
        BitVec.extractLsb'_append_eq_of_le (by decide)
      _ = d.segSelector := BitVec.extractLsb'_append_eq_right
  have hlow : d.val.extractLsb' 0 16 = d.offset15_00 := BitVec.extractLsb'_append_eq_right
  obtain ⟨hdpl, hpresent, htrap⟩ := access_bits d.present d.dpl d.reserved0 d.size d.reserved1
    d.reserved2 d.reserved3
  rw [gateOf, hhigh, haccess, hselector, hlow, ← hdpl, ← hpresent, ← htrap]
  rfl

/-- The bits of a part of a word, cut out with a mask and shifted down. -/
theorem truncate_and_shift {n : Nat} (v mask : BitVec 32) (k : Nat)
    (hmask : (mask >>> k).setWidth n = BitVec.allOnes n) :
    ((v &&& mask) >>> k).truncate n = v.extractLsb' k n := by
  change ((v &&& mask) >>> k).setWidth n = _
  rw [BitVec.ushiftRight_and_distrib, BitVec.setWidth_and, hmask, BitVec.and_allOnes]
  ext i hi
  simp

theorem truncate_and {n : Nat} (v mask : BitVec 32) (hmask : mask.setWidth n = BitVec.allOnes n) :
    (v &&& mask).truncate n = v.extractLsb' 0 n := by
  have hzero := truncate_and_shift v mask 0 (by rwa [BitVec.ushiftRight_zero])
  rwa [BitVec.ushiftRight_zero] at hzero

theorem offset_setIdtEntry (d : IdtDesc) (handler : BitVec 32) :
    (d.setIdtEntry handler).offset31_16 ++ (d.setIdtEntry handler).offset15_00 = handler := by
  have hhigh : (d.setIdtEntry handler).offset31_16 = handler.extractLsb' 16 16 :=
    truncate_and_shift handler 0xFFFF0000 16 (by decide)
  have hlow : (d.setIdtEntry handler).offset15_00 = handler.extractLsb' 0 16 :=
    truncate_and handler 0xFFFF (by decide)
  rw [hhigh, hlow]
  exact BitVec.extractLsb'_append_extractLsb'

/-- `seg_desc_t`, from its lowest bits up. -/
structure SegDesc where
  segLim15_00 : BitVec 16
  base15_00 : BitVec 16
  base23_16 : BitVec 8
  type : BitVec 4
  sys : BitVec 1
  dpl : BitVec 2
  present : BitVec 1
  segLim19_16 : BitVec 4
  avail : BitVec 1
  reserved : BitVec 1
  opsize : BitVec 1
  granularity : BitVec 1
  base31_24 : BitVec 8

namespace SegDesc

/-- The byte from `type` to `present`. -/
def access (d : SegDesc) : BitVec 8 := d.present ++ d.dpl ++ d.sys ++ d.type

/-- The byte from `seg_lim_19_16` to `granularity`. -/
def flags (d : SegDesc) : BitVec 8 :=
  d.granularity ++ d.opsize ++ d.reserved ++ d.avail ++ d.segLim19_16

/-- The eight bytes of a descriptor. -/
def val (d : SegDesc) : BitVec 64 :=
  d.base31_24 ++ d.flags ++ d.access ++ d.base23_16 ++ d.base15_00 ++ d.segLim15_00

/-- `SET_LDT_PARAMS` and `SET_TSS_PARAMS`. -/
def setParams (d : SegDesc) (addr lim : BitVec 32) : SegDesc :=
  { d with
    base31_24 := ((addr &&& 0xFF000000) >>> 24).truncate 8
    base23_16 := ((addr &&& 0x00FF0000) >>> 16).truncate 8
    base15_00 := (addr &&& 0x0000FFFF).truncate 16
    segLim19_16 := ((lim &&& 0x000F0000) >>> 16).truncate 4
    segLim15_00 := (lim &&& 0x0000FFFF).truncate 16 }

end SegDesc

/-- Where the linker has put the handlers and the tables. -/
structure Symbols where
  handler : InterruptHandler → BitVec 32
  ldt : BitVec 32
  tss : BitVec 32

abbrev ldtSize : BitVec 32 := 31
abbrev tssSize : BitVec 32 := 103

/-- The descriptor of the LDT that `entry` makes. -/
def ldtDesc (addr : BitVec 32) : SegDesc :=
  SegDesc.setParams
    { granularity := 0, opsize := 1, reserved := 0, avail := 0, present := 1, dpl := 0, sys := 0,
      type := 2, segLim15_00 := 0, base15_00 := 0, base23_16 := 0, segLim19_16 := 0,
      base31_24 := 0 } addr ldtSize

/-- The descriptor of the TSS that `entry` makes. -/
def tssDesc (addr : BitVec 32) : SegDesc :=
  SegDesc.setParams
    { granularity := 0, opsize := 0, reserved := 0, avail := 0, present := 1, dpl := 0, sys := 0,
      type := 9, segLim15_00 := 0, base15_00 := 0, base23_16 := 0, segLim19_16 := 0,
      base31_24 := 0 } addr tssSize

/-- The table `gdt`. -/
def gdt (sym : Symbols) : List (BitVec 64) :=
  [0, 0, 0x00CF9A000000FFFF, 0x00CF92000000FFFF, 0x00CFFA000000FFFF, 0x00CFF2000000FFFF,
    (tssDesc sym.tss).val, (ldtDesc sym.ldt).val]

/-- The base and the limit of a segment as the processor reads them. -/
def segBase (v : BitVec 64) : BitVec 32 :=
  v.extractLsb' 56 8 ++ v.extractLsb' 32 8 ++ v.extractLsb' 16 16

def segLimit (v : BitVec 64) : BitVec 20 := v.extractLsb' 48 4 ++ v.extractLsb' 0 16

/-- The ring of the segment of a selector. The entries of the LDT are 0. -/
def selectorDpl (sym : Symbols) (s : BitVec 16) : BitVec 2 :=
  if s.getLsbD 2 then 0 else ((gdt sym).getD (s >>> 3).toNat 0).extractLsb' 45 2

/-- The base of the segment of a selector. -/
def selectorBase (sym : Symbols) (s : BitVec 16) : BitVec 32 :=
  if s.getLsbD 2 then 0 else segBase ((gdt sym).getD (s >>> 3).toNat 0)

/-- The processor puts together the pieces of the base and of the limit. -/
theorem read_val (d : SegDesc) : segBase d.val = d.base31_24 ++ d.base23_16 ++ d.base15_00 ∧
    segLimit d.val = d.segLim19_16 ++ d.segLim15_00 := by
  have h56 : d.val.extractLsb' 56 8 = d.base31_24 :=
    calc d.val.extractLsb' 56 8
      _ = (d.base31_24 ++ d.flags ++ d.access ++ d.base23_16 ++ d.base15_00).extractLsb' 40 8 :=
        BitVec.extractLsb'_append_eq_of_le (by decide)
      _ = (d.base31_24 ++ d.flags ++ d.access ++ d.base23_16).extractLsb' 24 8 :=
        BitVec.extractLsb'_append_eq_of_le (by decide)
      _ = (d.base31_24 ++ d.flags ++ d.access).extractLsb' 16 8 :=
        BitVec.extractLsb'_append_eq_of_le (by decide)
      _ = (d.base31_24 ++ d.flags).extractLsb' 8 8 := BitVec.extractLsb'_append_eq_of_le (by decide)
      _ = d.base31_24 := BitVec.extractLsb'_append_eq_left
  have h48 : d.val.extractLsb' 48 4 = d.segLim19_16 :=
    calc d.val.extractLsb' 48 4
      _ = (d.base31_24 ++ d.flags ++ d.access ++ d.base23_16 ++ d.base15_00).extractLsb' 32 4 :=
        BitVec.extractLsb'_append_eq_of_le (by decide)
      _ = (d.base31_24 ++ d.flags ++ d.access ++ d.base23_16).extractLsb' 16 4 :=
        BitVec.extractLsb'_append_eq_of_le (by decide)
      _ = (d.base31_24 ++ d.flags ++ d.access).extractLsb' 8 4 :=
        BitVec.extractLsb'_append_eq_of_le (by decide)
      _ = (d.base31_24 ++ d.flags).extractLsb' 0 4 := BitVec.extractLsb'_append_eq_of_le (by decide)
      _ = d.flags.extractLsb' 0 4 := BitVec.extractLsb'_append_eq_of_add_le (by decide)
      _ = d.segLim19_16 := BitVec.extractLsb'_append_eq_right
  have h32 : d.val.extractLsb' 32 8 = d.base23_16 :=
    calc d.val.extractLsb' 32 8
      _ = (d.base31_24 ++ d.flags ++ d.access ++ d.base23_16 ++ d.base15_00).extractLsb' 16 8 :=
        BitVec.extractLsb'_append_eq_of_le (by decide)
      _ = (d.base31_24 ++ d.flags ++ d.access ++ d.base23_16).extractLsb' 0 8 :=
        BitVec.extractLsb'_append_eq_of_le (by decide)
      _ = d.base23_16 := BitVec.extractLsb'_append_eq_right
  have h16 : d.val.extractLsb' 16 16 = d.base15_00 :=
    calc d.val.extractLsb' 16 16
      _ = (d.base31_24 ++ d.flags ++ d.access ++ d.base23_16 ++ d.base15_00).extractLsb' 0 16 :=
        BitVec.extractLsb'_append_eq_of_le (by decide)
      _ = d.base15_00 := BitVec.extractLsb'_append_eq_right
  have h0 : d.val.extractLsb' 0 16 = d.segLim15_00 := BitVec.extractLsb'_append_eq_right
  rw [segBase, segLimit, h56, h48, h32, h16, h0]
  exact ⟨rfl, rfl⟩

theorem val_dpl (d : SegDesc) : d.val.extractLsb' 45 2 = d.dpl :=
  calc d.val.extractLsb' 45 2
    _ = (d.base31_24 ++ d.flags ++ d.access ++ d.base23_16 ++ d.base15_00).extractLsb' 29 2 :=
      BitVec.extractLsb'_append_eq_of_le (by decide)
    _ = (d.base31_24 ++ d.flags ++ d.access ++ d.base23_16).extractLsb' 13 2 :=
      BitVec.extractLsb'_append_eq_of_le (by decide)
    _ = (d.base31_24 ++ d.flags ++ d.access).extractLsb' 5 2 :=
      BitVec.extractLsb'_append_eq_of_le (by decide)
    _ = d.access.extractLsb' 5 2 := BitVec.extractLsb'_append_eq_of_add_le (by decide)
    _ = (d.present ++ d.dpl ++ d.sys).extractLsb' 1 2 :=
      BitVec.extractLsb'_append_eq_of_le (by decide)
    _ = (d.present ++ d.dpl).extractLsb' 0 2 := BitVec.extractLsb'_append_eq_of_le (by decide)
    _ = d.dpl := BitVec.extractLsb'_append_eq_right

/-- **Segment descriptors.** What `SET_LDT_PARAMS` and `SET_TSS_PARAMS` cut into pieces the
processor puts together again. -/
theorem setParams_read (d : SegDesc) (addr lim : BitVec 32) :
    segBase (d.setParams addr lim).val = addr ∧
      segLimit (d.setParams addr lim).val = lim.truncate 20 := by
  obtain ⟨hbase, hlimit⟩ := read_val (d.setParams addr lim)
  have h24 : (d.setParams addr lim).base31_24 = addr.extractLsb' 24 8 :=
    truncate_and_shift addr 0xFF000000 24 (by decide)
  have h16 : (d.setParams addr lim).base23_16 = addr.extractLsb' 16 8 :=
    truncate_and_shift addr 0x00FF0000 16 (by decide)
  have h0 : (d.setParams addr lim).base15_00 = addr.extractLsb' 0 16 :=
    truncate_and addr 0x0000FFFF (by decide)
  have hhigh : (d.setParams addr lim).segLim19_16 = lim.extractLsb' 16 4 :=
    truncate_and_shift lim 0x000F0000 16 (by decide)
  have hlow : (d.setParams addr lim).segLim15_00 = lim.extractLsb' 0 16 :=
    truncate_and lim 0x0000FFFF (by decide)
  rw [hbase, hlimit, h24, h16, h0, hhigh, hlow]
  have hpieces : addr.extractLsb' 24 8 ++ addr.extractLsb' 16 8 = addr.extractLsb' 16 16 :=
    BitVec.extractLsb'_append_extractLsb'_eq_extractLsb' rfl
  have hlim : lim.extractLsb' 16 4 ++ lim.extractLsb' 0 16 = lim.extractLsb' 0 20 :=
    BitVec.extractLsb'_append_extractLsb'_eq_extractLsb' rfl
  refine ⟨?_, hlim.trans ?_⟩
  · rw [hpieces]
    exact BitVec.extractLsb'_append_extractLsb'
  · ext i hi
    simp

/-! ### The table of interrupts -/

/-- What `idt_init` enters, in its order. -/
def idtEntries : List (BitVec 8 × InterruptHandler) :=
  [(0, .de), (1, .db), (2, .nmi), (3, .bp), (4, .of), (5, .br), (6, .ud), (7, .nm), (8, .df),
    (9, .cso), (10, .ts), (11, .np), (12, .ss), (13, .gp), (14, .pf), (16, .mf), (17, .ac),
    (18, .mc), (19, .xf), (kbdVec, .kbdHandler), (rtcVec, .rtcHandler), (sysVec, .sycHandler),
    (pitVec, .pitHandler), (mseVec, .mseHandler)]

/-- A turn of the loop of `idt_init`. -/
def IdtDesc.initTurn (d : IdtDesc) (undefInterrupt : BitVec 32) (index : BitVec 8) : IdtDesc :=
  let d := { d with
    segSelector := kernelCs, reserved4 := 0, reserved3 := 0, reserved2 := 1, reserved1 := 1,
    size := 1, reserved0 := 0, dpl := 0, present := 1 }
  if 31 < index then d.setIdtEntry undefInterrupt else d

/-- `SET_IDT_ENTRY (idt[x.1], x.2)`. -/
def setEntry (handler : InterruptHandler → BitVec 32) (idt : BitVec 8 → IdtDesc)
    (x : BitVec 8 × InterruptHandler) : BitVec 8 → IdtDesc :=
  Function.update idt x.1 ((idt x.1).setIdtEntry (handler x.2))

/-- `idt_init`. -/
def idtInit (handler : InterruptHandler → BitVec 32) (idt : BitVec 8 → IdtDesc) :
    BitVec 8 → IdtDesc :=
  let idt := fun index => (idt index).initTurn (handler .undefInterrupt) index
  let idt := Function.update idt sysVec { idt sysVec with dpl := 3 }
  idtEntries.foldl (setEntry handler) idt

/-- The table before, of zeros. -/
def idtZero : BitVec 8 → IdtDesc := fun _ => ⟨0, 0, 0, 0, 0, 0, 0, 0, 0, 0, 0⟩

/-- The processor with the kernel's tables. -/
def kernelCpu (sym : Symbols) (esp0 : BitVec 32) : Cpu where
  gate v := gateOf (idtInit sym.handler idtZero v).val
  dpl := selectorDpl sym
  base := selectorBase sym
  ss0 := kernelDs
  esp0 := esp0

/-- The handler of a vector, if it has one. -/
def handlerOf (v : BitVec 8) : Option InterruptHandler :=
  match idtEntries.find? (·.1 = v) with
  | some x => some x.2
  | none => if 31 < v then some .undefInterrupt else none

theorem foldl_setEntry (handler : InterruptHandler → BitVec 32)
    (entries : List (BitVec 8 × InterruptHandler)) (hnodup : (entries.map Prod.fst).Nodup)
    (idt : BitVec 8 → IdtDesc) (v : BitVec 8) :
    entries.foldl (setEntry handler) idt v =
      match entries.find? (·.1 = v) with
      | some x => (idt v).setIdtEntry (handler x.2)
      | none => idt v := by
  induction entries generalizing idt with
  | nil => rfl
  | cons x entries ih =>
    rw [List.map_cons, List.nodup_cons] at hnodup
    rw [List.foldl_cons, ih hnodup.2]
    by_cases hv : x.1 = v
    · have hrest : entries.find? (·.1 = v) = none := by
        rw [List.find?_eq_none]
        intro y hy hyv
        exact hnodup.1 (List.mem_map.mpr ⟨y, hy, (of_decide_eq_true hyv).trans hv.symm⟩)
      rw [hrest, List.find?_cons_of_pos (by simpa using hv)]
      subst hv
      exact Function.update_self ..
    · rw [List.find?_cons_of_neg (by simpa using hv), setEntry, Function.update_of_ne (Ne.symm hv)]

/-- The fields of a gate that `idt_init` enters. -/
structure IdtDesc.IsGate (d : IdtDesc) (offset : BitVec 32) (dpl : BitVec 2) : Prop where
  offset : d.offset31_16 ++ d.offset15_00 = offset
  selector : d.segSelector = kernelCs
  dpl : d.dpl = dpl
  present : d.present = 1
  type : d.reserved0 = 0 ∧ d.size = 1 ∧ d.reserved1 = 1 ∧ d.reserved2 = 1 ∧ d.reserved3 = 0

theorem IdtDesc.IsGate.setIdtEntry {d : IdtDesc} {offset : BitVec 32} {dpl : BitVec 2}
    (h : d.IsGate offset dpl) (handler : BitVec 32) :
    (d.setIdtEntry handler).IsGate handler dpl where
  offset := offset_setIdtEntry d handler
  selector := h.selector
  dpl := h.dpl
  present := h.present
  type := h.type

theorem isGate_initTurn (undefInterrupt : BitVec 32) (index : BitVec 8) :
    ((idtZero index).initTurn undefInterrupt index).IsGate
      (if 31 < index then undefInterrupt else 0) 0 := by
  rw [IdtDesc.initTurn]
  split
  · exact ⟨offset_setIdtEntry .., rfl, rfl, rfl, rfl, rfl, rfl, rfl, rfl⟩
  · have hzero : (0 : BitVec 16) ++ (0 : BitVec 16) = (0 : BitVec 32) := by decide
    exact ⟨hzero, rfl, rfl, rfl, rfl, rfl, rfl, rfl, rfl⟩

theorem isGate_idtInit (handler : InterruptHandler → BitVec 32) (v : BitVec 8) :
    (idtInit handler idtZero v).IsGate (((handlerOf v).map handler).getD 0)
      (if v = sysVec then 3 else 0) := by
  have hnodup : (idtEntries.map Prod.fst).Nodup := by decide
  have hturn := isGate_initTurn (handler .undefInterrupt) v
  have hsys : (Function.update
      (fun index => (idtZero index).initTurn (handler .undefInterrupt) index) sysVec
      { (idtZero sysVec).initTurn (handler .undefInterrupt) sysVec with dpl := 3 } v).IsGate
        (if 31 < v then handler .undefInterrupt else 0) (if v = sysVec then 3 else 0) := by
    by_cases hv : v = sysVec
    · subst hv
      rw [Function.update_self, if_pos rfl]
      exact { hturn with dpl := rfl }
    · rw [Function.update_of_ne hv, if_neg hv]
      exact hturn
  rw [idtInit, foldl_setEntry _ _ hnodup, handlerOf]
  cases idtEntries.find? (·.1 = v) with
  | some x => exact hsys.setIdtEntry _
  | none =>
    refine { hsys with offset := hsys.offset.trans ?_ }
    split <;> rfl

/-- **The gates.** All are interrupt gates to the kernel's code, and only the one for system calls
is open to programs. -/
theorem gate_kernelCpu (sym : Symbols) (esp0 : BitVec 32) (v : BitVec 8) :
    (kernelCpu sym esp0).gate v =
      { offset := ((handlerOf v).map sym.handler).getD 0
        selector := kernelCs
        dpl := if v = sysVec then 3 else 0
        present := true
        isTrap := false } := by
  obtain ⟨hoffset, hselector, hdpl, hpresent, h0, hsize, h1, h2, h3⟩ := isGate_idtInit sym.handler v
  change gateOf (idtInit sym.handler idtZero v).val = _
  rw [gateOf_val, hoffset, hselector, hdpl, hpresent, h0, hsize, h1, h2, h3]
  rfl

theorem kernelCpu_dpl (sym : Symbols) (esp0 : BitVec 32) (s : BitVec 16) :
    (kernelCpu sym esp0).dpl s = selectorDpl sym s := rfl

theorem selectorDpl_kernelCs (sym : Symbols) : selectorDpl sym kernelCs = 0 := by
  simp [selectorDpl, gdt]

/-- The segments of programs start at 0. -/
theorem selectorBase_user (sym : Symbols) {s : BitVec 16} (h : selectorDpl sym s = 3) :
    selectorBase sym s = 0 := by
  rw [selectorDpl] at h
  rw [selectorBase]
  split at h
  · cases h
  · rename_i hti
    rw [if_neg hti]
    generalize (s >>> 3).toNat = k at h
    match k with
    | 0 | 1 | 2 | 3 => simp [gdt] at h
    | 4 | 5 => simp [gdt, segBase]
    | 6 => cases (val_dpl (tssDesc sym.tss)).symm.trans h
    | 7 => cases (val_dpl (ldtDesc sym.ldt)).symm.trans h
    | k + 8 => simp [gdt] at h

/-! ### From a program into the kernel -/

/-- What the processor pushes for a handler when it comes from a program. -/
def trapWords (m : Machine) (back : BitVec 32) : List (BitVec 32) :=
  [back, (m.seg .cs).zeroExtend 32, m.eflags, m.reg .esp, (m.seg .ss).zeroExtend 32]

/-- The machine is at the start of a handler, with the words on an empty kernel stack. -/
structure InKernel (esp0 : BitVec 32) (m m' : Machine) (handler : BitVec 32)
    (ws : List (BitVec 32)) : Prop extends Stacked m m' esp0 ws where
  eip : m'.eip = handler
  cs : m'.seg .cs = kernelCs
  ss : m'.seg .ss = kernelDs
  ds : m'.seg .ds = m.seg .ds
  es : m'.seg .es = m.seg .es
  reg : ∀ r, r ≠ .esp → m'.reg r = m.reg r
  eflags : m'.eflags = m.eflags &&& ~~~0x34300
  cr2 : m'.cr2 = m.cr2

variable {m m' : Machine}

theorem getLsbD_mask (v : BitVec 32) :
    (v &&& ~~~(0x34300 : BitVec 32)).getLsbD 14 = false ∧
      (v &&& ~~~(0x34300 : BitVec 32)).getLsbD 9 = false ∧
      (v &&& ~~~(0x34300 : BitVec 32)).getLsbD 10 = v.getLsbD 10 := by
  refine ⟨?_, ?_, ?_⟩ <;> simp

/-- The segments are ones that a program may have. -/
def UserSegments (sym : Symbols) (m : Machine) : Prop :=
  ∀ s, s = .ds ∨ s = .es → m.seg s = 0 ∨ selectorDpl sym (m.seg s) = 3

theorem UserSegments.outward {sym : Symbols} {esp0 : BitVec 32} (h : UserSegments sym m) {s : Seg}
    (hs : s = .ds ∨ s = .es) :
    (kernelCpu sym esp0).outward 3 (m.seg s) = m.seg s := by
  rw [Cpu.outward, kernelCpu_dpl]
  obtain h0 | h3 := h s hs
  · rw [h0, ite_self]
  · rw [h3, if_neg (by decide)]

theorem UserSegments.base {sym : Symbols} {esp0 : BitVec 32} (h : UserSegments sym m) {s : Seg}
    (hs : s = .ds ∨ s = .es) (hnull : ¬IsNull (m.seg s)) :
    (kernelCpu sym esp0).base (m.seg s) = 0 := by
  obtain h0 | h3 := h s hs
  · exact absurd (by rw [h0]; decide) hnull
  · exact selectorBase_user sym h3

theorem deliver_user (sym : Symbols) (esp0 : BitVec 32) (hcpl : m.cpl = 3) (v : BitVec 8)
    (back : BitVec 32) (error : Option (BitVec 32)) :
    ∃ m', (kernelCpu sym esp0).deliver m v back error = some m' ∧
      InKernel esp0 m m' (((handlerOf v).map sym.handler).getD 0)
        (error.toList ++ trapWords m back) := by
  have hgate := gate_kernelCpu sym esp0 v
  obtain ⟨m', hm', hin, hstack⟩ :=
    deliver_enters (kernelCpu sym esp0) m v back error (by rw [hgate])
  have hinward : (kernelCpu sym esp0).Inward m ((kernelCpu sym esp0).gate v) := by
    rw [Cpu.Inward, hgate, hcpl, kernelCpu_dpl, selectorDpl_kernelCs]
    decide
  rw [if_pos hinward, Cpu.frame, if_pos hinward, List.append_assoc] at hstack
  refine ⟨m', hm', ⟨hstack, ?_, ?_, ?_, hin.ds, hin.es, hin.reg, ?_, hin.cr2⟩⟩
  · rw [hin.eip, hgate]
  · have hcs : kernelCs.extractLsb' 2 14 ++ (0 : BitVec 2) = kernelCs := by decide
    rw [hin.cs, hgate, kernelCpu_dpl, selectorDpl_kernelCs]
    exact hcs
  · rw [hin.ss, if_pos hinward]
    rfl
  · rw [hin.eflags, hgate]
    rfl

/-- `int $0x80` in a program. -/
theorem syscall_enters (sym : Symbols) (esp0 : BitVec 32) (hcpl : m.cpl = 3) (next : BitVec 32) :
    ∃ m', (kernelCpu sym esp0).int m sysVec next = some m' ∧
      InKernel esp0 m m' (sym.handler .sycHandler) (trapWords m next) := by
  have hdpl : ((kernelCpu sym esp0).gate sysVec).dpl = 3 := by
    rw [gate_kernelCpu]
    rfl
  rw [Cpu.int, hdpl, hcpl]
  exact deliver_user sym esp0 hcpl sysVec next none

/-- **`int` in a program.** Only `int $0x80` gets a program to a handler of its number; any other
is a general-protection exception, with the instruction itself to go back to. -/
theorem user_int (sym : Symbols) (esp0 : BitVec 32) (hcpl : m.cpl = 3) (v : BitVec 8)
    (next : BitVec 32) :
    ∃ m', (kernelCpu sym esp0).int m v next = some m' ∧
      if v = sysVec then InKernel esp0 m m' (sym.handler .sycHandler) (trapWords m next)
      else InKernel esp0 m m' (sym.handler .gp)
        ((v.zeroExtend 32 * 8 + 2) :: trapWords m m.eip) := by
  by_cases hv : v = sysVec
  · subst hv
    obtain ⟨m', hm', hin⟩ := syscall_enters sym esp0 hcpl next
    exact ⟨m', hm', hin⟩
  · have hdpl : ((kernelCpu sym esp0).gate v).dpl = 0 := by
      rw [gate_kernelCpu]
      exact if_neg hv
    rw [Cpu.int, hdpl, hcpl, if_pos (by decide)]
    simp only [if_neg hv]
    exact deliver_user sym esp0 hcpl 13 m.eip (some (v.zeroExtend 32 * 8 + 2))

/-- Some addresses. -/
def sampleSymbols : Symbols where
  handler
    | .sycHandler => 0x400000
    | .kbdHandler => 0x410000
    | .rtcHandler => 0x410010
    | .pitHandler => 0x410020
    | .mseHandler => 0x410030
    | .pf => 0x420000
    | _ => 0x430000
  ldt := 0x500000
  tss := 0x501000

/-- A program. -/
def sampleProgram : Machine where
  reg r := if r = .esp then 0x83FFFF0 else 0
  seg s := if s = .cs then userCs else userDs
  eip := 0x8048000
  eflags := 0x202
  cr2 := 0
  mem _ := 0

theorem user_int_sample :
    ∃ m', (kernelCpu sampleSymbols 0x7FFFFC).int sampleProgram kbdVec 0x8048002 = some m' ∧
      InKernel 0x7FFFFC sampleProgram m' (sampleSymbols.handler .gp)
        (0x10A :: trapWords sampleProgram 0x8048000) :=
  user_int sampleSymbols 0x7FFFFC (by decide) kbdVec 0x8048002

end LinuxLikeKernel
