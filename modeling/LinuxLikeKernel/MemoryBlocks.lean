import LinuxLikeKernel.Library.Assembly
import LinuxLikeKernel.Library.Memory
import Mathlib.Tactic.Abel
import Mathlib.Tactic.FinCases

/-!
# `memset`, `memcpy` and `memmove`

Three functions of `lib.c` that are written in assembly code, line by line. `memset` and
`memcpy` go byte by byte to an address that four divides, then doubleword by doubleword, then byte
by byte; `memmove` goes byte by byte, down if the source is below the destination.

## Main definitions

- `memset`, `memcpy`, `memmove` — a call returns, with a machine and a value as stated
- `Placed` — some bytes are at the destination, and no other byte has changed
- `Moves` — what is asked of `memmove`

## Main results

- `blocks_as_byte_by_byte` — `memset` and `memcpy` do what their loops over bytes would
- `memcpy_as_copy` — `memcpy` is the block copy that the rest of the model has for it
- `memmove_runs` — `memmove` places the bytes in any case, and leaves the direction flag set after
  a move down
- `moves_iff` — `memmove` does all that is asked of it just if the source is not below the
  destination
-/

namespace LinuxLikeKernel

open Assembly

/-! ### The functions -/

/-- The labels of `memset` and of `memcpy`, without the name of the function. -/
inductive BlockLabel
  | top | aligned | bottom | done
  deriving DecidableEq

def memsetCode : List (Instr BlockLabel) :=
  [ .label .top,
    .op (.testl .ecx .ecx),
    .jz .done,
    .op (.testlImm 3 .edi),
    .jz .aligned,
    .op (.storeAl .edi),
    .op (.addl 1 .edi),
    .op (.subl 1 .ecx),
    .jmp .top,
    .label .aligned,
    .op .movwDsDx,
    .op .movwDxEs,
    .op (.movl .ecx .edx),
    .op (.shrl 2 .ecx),
    .op (.andl 3 .edx),
    .op .cld,
    .rep .stosl,
    .label .bottom,
    .op (.testl .edx .edx),
    .jz .done,
    .op (.storeAl .edi),
    .op (.addl 1 .edi),
    .op (.subl 1 .edx),
    .jmp .bottom,
    .label .done ]

/-- A call of `memset` returns, with a machine and a value as stated. -/
def memset (m : Machine) (s c n : BitVec 32) (Q : Machine → BitVec 32 → Prop) : Prop :=
  let c := c &&& 0xFF
  let m := m.set .eax (c <<< 24 ||| c <<< 16 ||| c <<< 8 ||| c)
  let m := (m.set .edi s).set .ecx n
  Ends memsetCode (memsetCode, m) (Q · s)

def memcpyCode : List (Instr BlockLabel) :=
  [ .label .top,
    .op (.testl .ecx .ecx),
    .jz .done,
    .op (.testlImm 3 .edi),
    .jz .aligned,
    .op (.loadAl .esi),
    .op (.storeAl .edi),
    .op (.addl 1 .edi),
    .op (.addl 1 .esi),
    .op (.subl 1 .ecx),
    .jmp .top,
    .label .aligned,
    .op .movwDsDx,
    .op .movwDxEs,
    .op (.movl .ecx .edx),
    .op (.shrl 2 .ecx),
    .op (.andl 3 .edx),
    .op .cld,
    .rep .movsl,
    .label .bottom,
    .op (.testl .edx .edx),
    .jz .done,
    .op (.loadAl .esi),
    .op (.storeAl .edi),
    .op (.addl 1 .edi),
    .op (.addl 1 .esi),
    .op (.subl 1 .edx),
    .jmp .bottom,
    .label .done ]

/-- A call of `memcpy` returns, with a machine and a value as stated. -/
def memcpy (m : Machine) (dest src n : BitVec 32) (Q : Machine → BitVec 32 → Prop) : Prop :=
  let m := ((m.set .esi src).set .edi dest).set .ecx n
  Ends memcpyCode (memcpyCode, m) (Q · dest)

inductive MoveLabel
  | go
  deriving DecidableEq

def memmoveCode : List (Instr MoveLabel) :=
  [ .op .movwDsDx,
    .op .movwDxEs,
    .op .cld,
    .op (.cmp .edi .esi),
    .jae .go,
    .op (.leal (-1) .esi .ecx .esi),
    .op (.leal (-1) .edi .ecx .edi),
    .op .std,
    .label .go,
    .rep .movsb ]

/-- A call of `memmove` returns, with a machine and a value as stated. -/
def memmove (m : Machine) (dest src n : BitVec 32) (Q : Machine → BitVec 32 → Prop) : Prop :=
  let m := ((m.set .edi dest).set .esi src).set .ecx n
  Ends memmoveCode (memmoveCode, m) (Q · dest)

/-! ### The doublewords of a block -/

/-- The instructions before the doublewords, the same in `memset` and in `memcpy`. -/
def countLongs : List Op :=
  [.movwDsDx, .movwDxEs, .movl .ecx .edx, .shrl 2 .ecx, .andl 3 .edx, .cld]

/-- ECX counts the doublewords from here, and EDX the bytes that are left over. -/
structure LongsCounted (m m' : Machine) : Prop where
  longs : m'.reg .ecx = m.reg .ecx >>> 2
  bytes : m'.reg .edx = m.reg .ecx &&& 3
  other : ∀ r, r ≠ .ecx → r ≠ .edx → m'.reg r = m.reg r
  mem : m'.mem = m.mem
  up : m'.df = false

theorem longsCounted (m : Machine) : LongsCounted m (countLongs.foldl Op.effect m) where
  longs := by simp [countLongs, Op.effect]
  bytes := by simp [countLongs, Op.effect]
  other r hcx hdx := by simp [countLongs, Op.effect, hcx, hdx]
  mem := rfl
  up := rfl

theorem LongsCounted.total {m m' : Machine} (h : LongsCounted m m') :
    4 * (m'.reg .ecx).toNat + (m'.reg .edx).toNat = (m.reg .ecx).toNat := by
  have hmod : (m.reg .ecx).toNat &&& 3 = (m.reg .ecx).toNat % 4 :=
    Nat.and_two_pow_sub_one_eq_mod (m.reg .ecx).toNat 2
  rw [h.longs, h.bytes]
  simp [Nat.shiftRight_eq_div_pow, hmod, Nat.div_add_mod]

/-! ### The loops of `memset` -/

/-- The loop at the end of `memset`. -/
theorem memset_bottom (m : Machine) :
    Ends memsetCode (goto .bottom memsetCode, m) fun m' =>
      m'.mem = Strides.fill 1 m.al (m.reg .edx).toNat (m.reg .edi) m.mem ∧ m'.df = m.df := by
  induction hn : (m.reg .edx).toNat generalizing m with
  | zero =>
    have hzero : m.reg .edx = 0 := BitVec.eq_of_toNat_eq hn
    refine ends_op (ends_jz (by simp [Op.effect, hzero]) ?_)
    exact ends_nil ⟨rfl, rfl⟩
  | succ n ih =>
    obtain ⟨hne, hnext⟩ := counter_succ hn
    refine ends_op (ends_jz_past (by simpa [Op.effect] using hne) ?_)
    refine ends_op (ends_op (ends_op (ends_jmp ?_)))
    refine (ih _ (by simpa [Op.effect] using hnext)).mono ?_
    rintro m' ⟨hmem, hdf⟩
    refine ⟨hmem.trans ?_, hdf⟩
    simp [Op.effect, Machine.al, Strides.fill]

theorem memset_aligned (m : Machine) (hal : ∀ i, bytesOf (m.reg .eax) i = m.al) :
    Ends memsetCode (goto .aligned memsetCode, m) fun m' =>
      m'.mem = Strides.fill 1 m.al (m.reg .ecx).toNat (m.reg .edi) m.mem ∧ m'.df = false := by
  refine ends_ops countLongs (ends_rep (ends_label ?_))
  have hstart := longsCounted m
  generalize countLongs.foldl Op.effect m = start at hstart ⊢
  have hax : start.reg .eax = m.reg .eax := hstart.other .eax (by decide) (by decide)
  obtain ⟨hlongs, hdi⟩ := StringOp.stosl_times (start.reg .ecx).toNat hstart.up (by rwa [hax])
  have hdx := StringOp.stosl.times_reg (start.reg .ecx).toNat start (r := .edx) (by decide)
    (by decide) (by decide)
  have hal' : (StringOp.stosl.times (start.reg .ecx).toNat start).al = m.al := by
    rw [Machine.al, StringOp.times_reg _ _ _ (by decide) (by decide) (by decide), hax, Machine.al]
  refine (memset_bottom _).mono ?_
  rintro m' ⟨hmem, hdf⟩
  constructor
  · rw [hmem, hal', hdx, hdi, hlongs, ← Strides.fill_add, hstart.total, hstart.mem,
      hstart.other .edi (by decide) (by decide)]
  · rw [hdf, StringOp.times_df, hstart.up]

/-- From the loop to the first doubleword on: the byte that is stored is in every byte of EAX. -/
theorem memset_top (m : Machine) (hal : ∀ i, bytesOf (m.reg .eax) i = m.al) :
    Ends memsetCode (goto .top memsetCode, m) fun m' =>
      m'.mem = Strides.fill 1 m.al (m.reg .ecx).toNat (m.reg .edi) m.mem ∧
        (m.df = false → m'.df = false) := by
  induction hn : (m.reg .ecx).toNat generalizing m with
  | zero =>
    have hzero : m.reg .ecx = 0 := BitVec.eq_of_toNat_eq hn
    refine ends_op (ends_jz (by simp [Op.effect, hzero]) ?_)
    exact ends_nil ⟨rfl, id⟩
  | succ n ih =>
    obtain ⟨hne, hnext⟩ := counter_succ hn
    refine ends_op (ends_jz_past (by simpa [Op.effect] using hne) ?_)
    by_cases haligned : m.reg .edi &&& 3 = 0
    · -- from here by doublewords
      refine ends_op (ends_jz (by simpa [Op.effect] using haligned) ?_)
      refine (memset_aligned _ (by simpa [Op.effect, Machine.al] using hal)).mono ?_
      rintro m' ⟨hmem, hdf⟩
      refine ⟨hmem.trans ?_, fun _ => hdf⟩
      simp [Op.effect, Machine.al, hn]
    · refine ends_op (ends_jz_past (by simpa [Op.effect] using haligned) ?_)
      refine ends_op (ends_op (ends_op (ends_jmp ?_)))
      refine (ih _ ?_ (by simpa [Op.effect] using hnext)).mono ?_
      · simpa [Op.effect, Machine.al] using hal
      · rintro m' ⟨hmem, hdf⟩
        refine ⟨hmem.trans ?_, hdf⟩
        simp [Op.effect, Machine.al, Strides.fill]

/-! ### The loops of `memcpy` -/

/-- The loop at the end of `memcpy`. -/
theorem memcpy_bottom (m : Machine) :
    Ends memcpyCode (goto .bottom memcpyCode, m) fun m' =>
      m'.mem = Strides.copy 1 (m.reg .edx).toNat (m.reg .edi) (m.reg .esi) m.mem ∧
        m'.df = m.df := by
  induction hn : (m.reg .edx).toNat generalizing m with
  | zero =>
    have hzero : m.reg .edx = 0 := BitVec.eq_of_toNat_eq hn
    refine ends_op (ends_jz (by simp [Op.effect, hzero]) ?_)
    exact ends_nil ⟨rfl, rfl⟩
  | succ n ih =>
    obtain ⟨hne, hnext⟩ := counter_succ hn
    refine ends_op (ends_jz_past (by simpa [Op.effect] using hne) ?_)
    refine ends_op (ends_op (ends_op (ends_op (ends_op (ends_jmp ?_)))))
    refine (ih _ (by simpa [Op.effect] using hnext)).mono ?_
    rintro m' ⟨hmem, hdf⟩
    refine ⟨hmem.trans ?_, hdf⟩
    simp [Op.effect, Strides.copy]

theorem memcpy_aligned (m : Machine)
    (hapart : Strides.Apart 1 (m.reg .ecx).toNat (m.reg .edi) (m.reg .esi)) :
    Ends memcpyCode (goto .aligned memcpyCode, m) fun m' =>
      m'.mem = Strides.copy 1 (m.reg .ecx).toNat (m.reg .edi) (m.reg .esi) m.mem ∧
        m'.df = false := by
  refine ends_ops countLongs (ends_rep (ends_label ?_))
  have hstart := longsCounted m
  generalize countLongs.foldl Op.effect m = start at hstart ⊢
  have hdi : start.reg .edi = m.reg .edi := hstart.other .edi (by decide) (by decide)
  have hsi : start.reg .esi = m.reg .esi := hstart.other .esi (by decide) (by decide)
  rw [← hdi, ← hsi, ← hstart.total] at hapart ⊢
  obtain ⟨hlongs, hdi', hsi'⟩ := StringOp.movsl_times (start.reg .ecx).toNat hstart.up
    (hapart.take (Nat.le_add_right ..))
  have hdx := StringOp.movsl.times_reg (start.reg .ecx).toNat start (r := .edx) (by decide)
    (by decide) (by decide)
  refine (memcpy_bottom _).mono ?_
  rintro m' ⟨hmem, hdf⟩
  constructor
  · rw [hmem, hdx, hdi', hsi', hlongs, ← Strides.copy_add, hstart.mem]
  · rw [hdf, StringOp.times_df, hstart.up]

theorem memcpy_top (m : Machine)
    (hapart : Strides.Apart 1 (m.reg .ecx).toNat (m.reg .edi) (m.reg .esi)) :
    Ends memcpyCode (goto .top memcpyCode, m) fun m' =>
      m'.mem = Strides.copy 1 (m.reg .ecx).toNat (m.reg .edi) (m.reg .esi) m.mem ∧
        (m.df = false → m'.df = false) := by
  induction hn : (m.reg .ecx).toNat generalizing m with
  | zero =>
    have hzero : m.reg .ecx = 0 := BitVec.eq_of_toNat_eq hn
    refine ends_op (ends_jz (by simp [Op.effect, hzero]) ?_)
    exact ends_nil ⟨rfl, id⟩
  | succ n ih =>
    obtain ⟨hne, hnext⟩ := counter_succ hn
    refine ends_op (ends_jz_past (by simpa [Op.effect] using hne) ?_)
    by_cases haligned : m.reg .edi &&& 3 = 0
    · -- from here by doublewords
      refine ends_op (ends_jz (by simpa [Op.effect] using haligned) ?_)
      refine (memcpy_aligned _ (by simpa [Op.effect] using hapart)).mono ?_
      rintro m' ⟨hmem, hdf⟩
      refine ⟨hmem.trans ?_, fun _ => hdf⟩
      simp [Op.effect, hn]
    · -- one byte, and the rest of the blocks is still apart
      refine ends_op (ends_jz_past (by simpa [Op.effect] using haligned) ?_)
      refine ends_op (ends_op (ends_op (ends_op (ends_op (ends_jmp ?_)))))
      rw [hn, Nat.add_comm] at hapart
      have hrest := hapart.drop
      rw [one_nsmul, ← hnext] at hrest
      refine (ih _ ?_ (by simpa [Op.effect] using hnext)).mono ?_
      · simpa [Op.effect] using hrest
      · rintro m' ⟨hmem, hdf⟩
        refine ⟨hmem.trans ?_, hdf⟩
        simp [Op.effect, Strides.copy]

/-! ### Blocks -/

/-- The `n` bytes from `dest` on have become the given ones, and no other byte has changed. -/
structure Placed (dest n : BitVec 32) (bytes : Nat → BitVec 8) (mem mem' : BitVec 32 → BitVec 8) :
    Prop where
  inside : ∀ i < n.toNat, mem' (dest + BitVec.ofNat 32 i) = bytes i
  outside : ∀ a, (∀ i < n.toNat, a ≠ dest + BitVec.ofNat 32 i) → mem' a = mem a

variable {dest src n : BitVec 32} {mem : BitVec 32 → BitVec 8}

theorem nsmul_one_eq (i : Nat) : i • (1 : BitVec 32) = BitVec.ofNat 32 i := nsmul_one i

/-- Inside a block that does not wrap around. -/
theorem toNat_add_ofNat {p : BitVec 32} {i : Nat} (h : p.toNat + i < 2 ^ 32) :
    (p + BitVec.ofNat 32 i).toNat = p.toNat + i := by
  have hi : i < 2 ^ 32 := (Nat.le_add_left i p.toNat).trans_lt h
  rw [BitVec.toNat_add, BitVec.toNat_ofNat, Nat.mod_eq_of_lt hi, Nat.mod_eq_of_lt h]

/-- Different numbers are different addresses, inside blocks that do not wrap around. -/
theorem add_ofNat_ne {p q : BitVec 32} {i j : Nat} (hp : p.toNat + i < 2 ^ 32)
    (hq : q.toNat + j < 2 ^ 32) (h : p.toNat + i ≠ q.toNat + j) :
    p + BitVec.ofNat 32 i ≠ q + BitVec.ofNat 32 j := by
  intro heq
  rw [← toNat_add_ofNat hp, ← toNat_add_ofNat hq, heq] at h
  exact h rfl

/-- A block does not come back to a place. -/
theorem block_once (dest : BitVec 32) {i j : Nat} (hij : i < j) (hj : j < 2 ^ 32) :
    dest + BitVec.ofNat 32 i ≠ dest + BitVec.ofNat 32 j := by
  bv_omega

theorem placed_fill (dest n : BitVec 32) (b : BitVec 8) (mem : BitVec 32 → BitVec 8) :
    Placed dest n (fun _ => b) mem (Strides.fill 1 b n.toNat dest mem) where
  inside i hi := by
    rw [← nsmul_one_eq]
    exact Strides.fill_of_mem hi
  outside a ha := Strides.fill_of_not_mem fun i hi => by
    rw [nsmul_one_eq]
    exact ha i hi

/-- A walk up that stores to no byte before it has read it. -/
theorem placed_copy
    (hunread : ∀ i j, i < j → j < n.toNat → src + BitVec.ofNat 32 j ≠ dest + BitVec.ofNat 32 i) :
    Placed dest n (fun i => mem (src + BitVec.ofNat 32 i)) mem
      (Strides.copy 1 n.toNat dest src mem) where
  inside i hi := by
    rw [← nsmul_one_eq]
    refine Strides.copy_of_mem ?_ ?_ hi
    · intro i j hij hj
      rw [nsmul_one_eq, nsmul_one_eq]
      exact block_once dest hij (hj.trans n.isLt)
    · intro i j hij hj
      rw [nsmul_one_eq, nsmul_one_eq]
      exact hunread i j hij hj
  outside a ha := Strides.copy_of_not_mem fun i hi => by
    rw [nsmul_one_eq]
    exact ha i hi

/-! ### `memset` and `memcpy` -/

/-- Every byte of the doubleword that `memset` stores is the low byte of its argument. -/
theorem bytesOf_memset (c : BitVec 32) (k : Fin 4) :
    bytesOf ((c &&& 0xFF) <<< 24 ||| (c &&& 0xFF) <<< 16 ||| (c &&& 0xFF) <<< 8 ||| c &&& 0xFF) k =
      c.truncate 8 := by
  have hmask (j : Nat) : (0xFF : BitVec 32).getLsbD j = decide (j < 8) := by
    rw [show (0xFF : BitVec 32) = BitVec.ofNat 32 (2 ^ 8 - 1) from rfl, BitVec.getLsbD_ofNat,
      Nat.testBit_two_pow_sub_one, ← Bool.decide_and]
    exact decide_eq_decide.mpr (by omega)
  have hlow (j : Nat) : (c &&& 0xFF).getLsbD j = (decide (j < 8) && c.getLsbD j) := by
    rw [BitVec.getLsbD_and, hmask, Bool.and_comm]
  ext i hi
  simp only [bytesOf, BitVec.getElem_extractLsb', BitVec.getLsbD_or, BitVec.getLsbD_shiftLeft, hlow,
    BitVec.getElem_setWidth, BitVec.truncate_eq_setWidth]
  fin_cases k <;> grind

theorem memset_runs (m : Machine) (s c n : BitVec 32) :
    memset m s c n fun m' r =>
      r = s ∧ m'.mem = Strides.fill 1 (c.truncate 8) n.toNat s m.mem ∧
        (m.df = false → m'.df = false) := by
  rw [memset]
  generalize hstart : ((m.set .eax _).set .edi s).set .ecx n = start
  have hax (k : Fin 4) : bytesOf (start.reg .eax) k = c.truncate 8 := by
    subst hstart
    simpa using bytesOf_memset c k
  have hal : start.al = c.truncate 8 := start.al_eq_bytesOf.trans (hax 0)
  refine ends_label ((memset_top start fun k => (hax k).trans hal.symm).mono ?_)
  rintro m' ⟨hmem, hdf⟩
  rw [hal] at hmem
  subst hstart
  exact ⟨rfl, by simpa using hmem, hdf⟩

theorem memcpy_runs (m : Machine) (hapart : Strides.Apart 1 n.toNat dest src) :
    memcpy m dest src n fun m' r =>
      r = dest ∧ m'.mem = Strides.copy 1 n.toNat dest src m.mem ∧
        (m.df = false → m'.df = false) := by
  refine ends_label ((memcpy_top _ (by simpa using hapart)).mono ?_)
  rintro m' ⟨hmem, hdf⟩
  exact ⟨rfl, by simpa using hmem, hdf⟩

/-- Blocks that do not overlap, as intervals of numbers. -/
theorem apart_of_intervals (hd : dest.toNat + n.toNat ≤ 2 ^ 32) (hs : src.toNat + n.toNat ≤ 2 ^ 32)
    (h : src.toNat + n.toNat ≤ dest.toNat ∨ dest.toNat + n.toNat ≤ src.toNat) :
    Strides.Apart 1 n.toNat dest src := by
  intro i hi j hj
  rw [nsmul_one_eq, nsmul_one_eq]
  exact add_ofNat_ne (by omega) (by omega) (by omega)

theorem placed_copy_of_apart (h : Strides.Apart 1 n.toNat dest src) :
    Placed dest n (fun i => mem (src + BitVec.ofNat 32 i)) mem
      (Strides.copy 1 n.toNat dest src mem) := by
  refine placed_copy fun i j hij hj heq => h i (hij.trans hj) j hj ?_
  rw [nsmul_one_eq, nsmul_one_eq, heq]

/-- **`memset` and `memcpy` do what their loops over bytes would do**, for any alignment and any
number of bytes: the bytes at the destination are those asked for, and no other byte changes. -/
theorem blocks_as_byte_by_byte (m : Machine) (s c dest src n : BitVec 32) :
    memset m s c n (fun m' r => r = s ∧
      m'.mem = Strides.fill 1 (c.truncate 8) n.toNat s m.mem ∧
      Placed s n (fun _ => c.truncate 8) m.mem m'.mem) ∧
    (Strides.Apart 1 n.toNat dest src → memcpy m dest src n fun m' r => r = dest ∧
      m'.mem = Strides.copy 1 n.toNat dest src m.mem ∧
      Placed dest n (fun i => m.mem (src + BitVec.ofNat 32 i)) m.mem m'.mem) := by
  constructor
  · refine (memset_runs m s c n).mono ?_
    rintro m' ⟨hr, hmem, -⟩
    refine ⟨hr, hmem, ?_⟩
    rw [hmem]
    exact placed_fill ..
  · intro hapart
    refine (memcpy_runs m hapart).mono ?_
    rintro m' ⟨hr, hmem, -⟩
    refine ⟨hr, hmem, ?_⟩
    rw [hmem]
    exact placed_copy_of_apart hapart

/-- All registers, flags and bytes are zero. -/
def blankMachine : Machine where
  reg _ := 0
  ds := 0
  es := 0
  zf := false
  cf := false
  df := false
  mem _ := 0

/-- A block that begins and ends between doublewords. -/
theorem blocks_as_byte_by_byte_sample :
    memcpy blankMachine 0x1001 0x2002 9 fun m' r => r = 0x1001 ∧
      m'.mem = Strides.copy 1 9 0x1001 0x2002 blankMachine.mem ∧
      Placed 0x1001 9 (fun i => blankMachine.mem (0x2002 + BitVec.ofNat 32 i)) blankMachine.mem
        m'.mem :=
  (blocks_as_byte_by_byte blankMachine 0 0 0x1001 0x2002 9).2 (by
    intro i hi j hj
    rw [nsmul_one_eq, nsmul_one_eq]
    bv_omega)

/-- The memory of a machine, with addresses that are numbers. -/
def byteMemory (mem : BitVec 32 → BitVec 8) : ByteMemory.Mem := fun a => ⟨mem (BitVec.ofNat 32 a)⟩

/-- Between blocks that do not overlap, `memcpy` is the block copy of `term_save` and
`term_restore`. -/
theorem memcpy_as_copy (m : Machine) (hd : dest.toNat + n.toNat ≤ 2 ^ 32)
    (hs : src.toNat + n.toNat ≤ 2 ^ 32)
    (h : src.toNat + n.toNat ≤ dest.toNat ∨ dest.toNat + n.toNat ≤ src.toNat) :
    memcpy m dest src n fun m' _ => ∀ a < 2 ^ 32,
      byteMemory m'.mem a = ByteMemory.copy (byteMemory m.mem) dest.toNat src.toNat n.toNat a := by
  have hapart := apart_of_intervals hd hs h
  refine (memcpy_runs m hapart).mono ?_
  rintro m' ⟨-, hmem, -⟩ a ha
  have hplaced : Placed dest n _ m.mem _ := placed_copy_of_apart hapart
  rw [← hmem] at hplaced
  by_cases hin : dest.toNat ≤ a ∧ a < dest.toNat + n.toNat
  · obtain ⟨i, rfl⟩ := Nat.exists_eq_add_of_le hin.1
    have hi : i < n.toNat := by omega
    rw [ByteMemory.copy_of_lt hi, byteMemory, byteMemory, BitVec.ofNat_add, BitVec.ofNat_add,
      BitVec.ofNat_toNat, BitVec.ofNat_toNat, BitVec.setWidth_eq, BitVec.setWidth_eq,
      hplaced.inside i hi]
  · rw [ByteMemory.copy_of_not_mem (by omega), byteMemory, byteMemory, hplaced.outside]
    rintro i hi heq
    rw [← Nat.mod_eq_of_lt ha, ← BitVec.toNat_ofNat, heq, toNat_add_ofNat (by omega)] at hin
    omega

/-! ### `memmove` -/

/-- Where a walk down a block stands after `i` turns. -/
theorem walk_down (p n : BitVec 32) {i : Nat} (hi : i < n.toNat) :
    p + n + -1 + i • -1 = p + BitVec.ofNat 32 (n.toNat - 1 - i) := by
  obtain ⟨k, hk⟩ := Nat.exists_eq_add_of_lt hi
  have hn : n = BitVec.ofNat 32 i + BitVec.ofNat 32 k + 1 := by
    calc n = BitVec.ofNat 32 n.toNat := by rw [BitVec.ofNat_toNat, BitVec.setWidth_eq]
      _ = BitVec.ofNat 32 i + BitVec.ofNat 32 k + 1 := by
        rw [hk, BitVec.ofNat_add, BitVec.ofNat_add]
        rfl
  have hcount : n.toNat - 1 - i = k := by omega
  rw [neg_nsmul, nsmul_one_eq, hcount, hn]
  abel

theorem placed_copy_down
    (hunread : ∀ i j, i < j → j < n.toNat → src + BitVec.ofNat 32 i ≠ dest + BitVec.ofNat 32 j) :
    Placed dest n (fun i => mem (src + BitVec.ofNat 32 i)) mem
      (Strides.copy (-1) n.toNat (dest + n + -1) (src + n + -1) mem) where
  inside i hi := by
    have hturn : n.toNat - 1 - i < n.toNat := by omega
    have hback : n.toNat - 1 - (n.toNat - 1 - i) = i := by omega
    have hcopy : Strides.copy (-1) n.toNat (dest + n + -1) (src + n + -1) mem
        (dest + n + -1 + (n.toNat - 1 - i) • -1) =
        mem (src + n + -1 + (n.toNat - 1 - i) • -1) := Strides.copy_of_mem ?_ ?_ hturn
    · rwa [walk_down dest n hturn, walk_down src n hturn, hback] at hcopy
    · intro i j hij hj
      rw [walk_down dest n (hij.trans hj), walk_down dest n hj]
      exact (block_once dest (by omega) (by omega)).symm
    · intro i j hij hj
      rw [walk_down dest n (hij.trans hj), walk_down src n hj]
      exact hunread _ _ (by omega) (by omega)
  outside a ha := Strides.copy_of_not_mem fun i hi => by
    rw [walk_down dest n hi]
    exact ha _ (by omega)

theorem memmove_up (m : Machine) (n : BitVec 32) (h : dest ≤ src) :
    memmove m dest src n fun m' r =>
      r = dest ∧ m'.mem = Strides.copy 1 n.toNat dest src m.mem ∧ m'.df = false := by
  refine ends_op (ends_op (ends_op (ends_op (ends_jae ?_ (ends_rep (ends_nil ⟨rfl, ?_, ?_⟩))))))
  · simpa [Op.effect, Machine.flags] using h
  · rw [StringOp.movsb_times_mem]
    simp [Op.effect, Machine.stride]
  · rw [StringOp.times_df]
    rfl

theorem memmove_down (m : Machine) (n : BitVec 32) (h : src < dest) :
    memmove m dest src n fun m' r =>
      r = dest ∧ m'.mem = Strides.copy (-1) n.toNat (dest + n + -1) (src + n + -1) m.mem ∧
        m'.df = true := by
  refine ends_op (ends_op (ends_op (ends_op (ends_jae_past ?_
    (ends_op (ends_op (ends_op (ends_label (ends_rep (ends_nil ⟨rfl, ?_, ?_⟩))))))))))
  · simpa [Op.effect, Machine.flags] using h
  · rw [StringOp.movsb_times_mem]
    simp [Op.effect, Machine.stride]
  · rw [StringOp.times_df]
    rfl

/-- `memmove` places the bytes however the blocks overlap, and the direction flag tells which way
it went. -/
theorem memmove_runs (m : Machine) (hd : dest.toNat + n.toNat ≤ 2 ^ 32)
    (hs : src.toNat + n.toNat ≤ 2 ^ 32) :
    memmove m dest src n fun m' r => r = dest ∧
      Placed dest n (fun i => m.mem (src + BitVec.ofNat 32 i)) m.mem m'.mem ∧
      (m'.df = true ↔ src < dest) := by
  by_cases hdown : src < dest
  · refine (memmove_down m n hdown).mono ?_
    rintro m' ⟨hr, hmem, hdf⟩
    refine ⟨hr, ?_, by simp [hdf, hdown]⟩
    rw [hmem]
    have hlt : src.toNat < dest.toNat := hdown
    exact placed_copy_down fun i j hij hj => add_ofNat_ne (by omega) (by omega) (by omega)
  · have hup : dest ≤ src := BitVec.not_lt.mp hdown
    refine (memmove_up m n hup).mono ?_
    rintro m' ⟨hr, hmem, hdf⟩
    refine ⟨hr, ?_, by simp [hdf, hdown]⟩
    rw [hmem]
    have hle : dest.toNat ≤ src.toNat := hup
    exact placed_copy fun i j hij hj => add_ofNat_ne (by omega) (by omega) (by omega)

/-- What is asked of `memmove`: the bytes that were at the source are at the destination, no other
byte has changed, and string instructions go up again. -/
def Moves (m : Machine) (dest src n : BitVec 32) : Prop :=
  memmove m dest src n fun m' _ =>
    Placed dest n (fun i => m.mem (src + BitVec.ofNat 32 i)) m.mem m'.mem ∧ m'.df = false

/-- A move down comes back with the direction flag set. -/
theorem not_moves_of_lt (m : Machine) (n : BitVec 32) (h : src < dest) : ¬Moves m dest src n := by
  rintro ⟨m', hreach, -, hclear⟩
  obtain ⟨-, -, hset⟩ := (memmove_down m n h).of_reaches hreach
  rw [hclear] at hset
  cases hset

/-- **`memmove` does all that is asked of it just if the source is not below the destination.** -/
theorem moves_iff (m : Machine) (hd : dest.toNat + n.toNat ≤ 2 ^ 32)
    (hs : src.toNat + n.toNat ≤ 2 ^ 32) : Moves m dest src n ↔ dest ≤ src := by
  constructor
  · intro h
    exact BitVec.not_lt.mp fun hlt => not_moves_of_lt m n hlt h
  · intro h
    refine (memmove_runs m hd hs).mono ?_
    rintro m' ⟨-, hplaced, hdf⟩
    exact ⟨hplaced, Bool.eq_false_iff.mpr fun hset => BitVec.not_lt.mpr h (hdf.mp hset)⟩

theorem moves_iff_sample : Moves blankMachine 0x1000 0x1001 3 ↔ (0x1000 : BitVec 32) ≤ 0x1001 :=
  moves_iff blankMachine (by decide) (by decide)

/-- A move of three bytes up by one. -/
theorem direction_flag_stays_set :
    blankMachine.df = false ∧ ¬Moves blankMachine 0x1001 0x1000 3 :=
  ⟨rfl, not_moves_of_lt blankMachine 3 (by decide)⟩

end LinuxLikeKernel
