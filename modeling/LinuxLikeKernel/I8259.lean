import LinuxLikeKernel.Library.Run
import Mathlib.Data.Fintype.Basic

/-!
# The interrupt controllers

`i8259.c` without `send_eoi`. Each of the two controllers has a mask, a bit for each of its eight
lines that is set where the line is disabled; the kernel keeps the masks in two variables and
writes one out whenever it has changed it.

## Main definitions

- `Pic`, `i8259Init`, `enableIrq`, `disableIrq` — the masks and what is done to them
- `irqStep` — a call, with a record of the calls so far
- `MasksRight` — the lines with a clear bit are those that have been enabled last
- `KeepsLines` — a call leaves the bits of the other lines alone

## Main results

- `masked_edit` — the bits after a call
- `masksRight_iff` — when the masks are right all along a sequence of calls
-/

namespace LinuxLikeKernel
open Transition

abbrev master8259Cmd : Nat := 0x20
abbrev master8259Data : Nat := 0x21
abbrev slave8259Cmd : Nat := 0xA0
abbrev slave8259Data : Nat := 0xA1

/-- `master_mask` and `slave_mask`, and what has been written to ports, the last byte first. -/
structure Pic where
  masterMask : UInt8
  slaveMask : UInt8
  written : List (Nat × UInt8)

namespace Pic

/-- `outb`. -/
def outb (p : Pic) (data : UInt8) (port : Nat) : Pic :=
  { p with written := (port, data) :: p.written }

/-- What `enable_irq` and `disable_irq` have in common: `edit` is what the call does to a mask, and
is given the bit of the line. -/
def editMask (edit : UInt8 → UInt8 → UInt8) (p : Pic) (irqNum : UInt32) : Pic :=
  if 15 < irqNum then p
  else if irqNum < 8 then
    let p := { p with masterMask := edit p.masterMask (1 <<< irqNum.toUInt8) }
    p.outb p.masterMask master8259Data
  else
    let p := { p with slaveMask := edit p.slaveMask (1 <<< (irqNum - 8).toUInt8) }
    p.outb p.slaveMask slave8259Data

/-- `enable_irq`. -/
def enableIrq (p : Pic) (irqNum : UInt32) : Pic :=
  p.editMask (fun mask curEnabled => mask &&& ~~~curEnabled) irqNum

/-- `disable_irq`. It takes the complement of the bit as `enable_irq` does. -/
def disableIrq (p : Pic) (irqNum : UInt32) : Pic :=
  p.editMask (fun mask curDisabled => mask ||| ~~~curDisabled) irqNum

/-- `i8259_init`. -/
def i8259Init (p : Pic) : Pic :=
  let p := p.outb 0x11 master8259Cmd
  let p := p.outb 0x20 master8259Data
  let p := p.outb 0x04 master8259Data
  let p := p.outb 0x01 master8259Data
  let p := p.outb 0x11 slave8259Cmd
  let p := p.outb 0x28 slave8259Data
  let p := p.outb 0x02 slave8259Data
  let p := p.outb 0x01 slave8259Data
  let p := p.outb p.masterMask master8259Data
  let p := p.outb p.slaveMask slave8259Data
  p.enableIrq 2

/-- The variables as they are initialised. -/
def start : Pic := ⟨0xFF, 0xFF, []⟩

/-- The byte last written to a port. -/
def lastWritten (p : Pic) (port : Nat) : UInt8 :=
  ((p.written.find? fun w => w.1 = port).map Prod.snd).getD 0

/-- The bit of a line in the mask that its controller has. -/
def masked (p : Pic) (irq : Fin 16) : Bool :=
  if irq.val < 8 then (p.lastWritten master8259Data).toBitVec.getLsbD irq
  else (p.lastWritten slave8259Data).toBitVec.getLsbD (irq - 8)

end Pic

/-! ### Calls -/

inductive IrqCall
  | enable (irqNum : UInt32)
  | disable (irqNum : UInt32)
  deriving DecidableEq

namespace IrqCall

def irqNum : IrqCall → UInt32
  | .enable n => n
  | .disable n => n

/-- The call names the line. -/
def names (c : IrqCall) (irq : Fin 16) : Bool := c.irqNum.toNat = irq.val

/-- The line belongs to the controller that the call goes to. -/
def reaches (c : IrqCall) (irq : Fin 16) : Prop := irq.val / 8 = c.irqNum.toNat / 8

instance (c : IrqCall) (irq : Fin 16) : Decidable (c.reaches irq) :=
  inferInstanceAs (Decidable (_ = _))

def isEnable : IrqCall → Bool
  | .enable _ => true
  | .disable _ => false

/-- What a call does to a mask with the bit of the line. -/
def edit : IrqCall → UInt8 → UInt8 → UInt8
  | .enable _ => fun mask curEnabled => mask &&& ~~~curEnabled
  | .disable _ => fun mask curDisabled => mask ||| ~~~curDisabled

end IrqCall

/-- The effect of a call. -/
def Pic.call (p : Pic) : IrqCall → Pic
  | .enable n => p.enableIrq n
  | .disable n => p.disableIrq n

/-- The last call that names the line enables it; the calls are in reverse order. -/
def lastEnables (calls : List IrqCall) (irq : Fin 16) : Bool :=
  (calls.find? fun c => c.names irq).any IrqCall.isEnable

/-- A call, with a record of it. -/
def irqStep : Pic × List IrqCall → IrqCall → Option (Pic × List IrqCall) :=
  logged (fun p c => some (p.call c)) fun _ c _ calls => c :: calls

/-- The controllers after `i8259_init`, whose last line is a call of `enable_irq`. -/
def initialized : Pic × List IrqCall := (Pic.start.i8259Init, [.enable 2])

/-! ### What should hold -/

/-- The bit of a line is clear exactly if the last call that names it enables it. -/
def MasksRight (x : Pic × List IrqCall) : Prop :=
  ∀ irq, x.1.masked irq = false ↔ lastEnables x.2 irq = true

/-- A call leaves the bits of lines that it does not name. -/
def KeepsLines (x : Pic × List IrqCall) (c : IrqCall) : Prop :=
  ∀ irq, c.names irq = false → (x.1.call c).masked irq = x.1.masked irq

/-- `disable_irq` is called for a line only when no line of its controller is enabled. -/
def NoneEnabled (x : Pic × List IrqCall) : IrqCall → Prop
  | .enable _ => True
  | .disable n => ∀ irq, (IrqCall.disable n).reaches irq → lastEnables x.2 irq = false

/-! ### Bits -/

variable {p : Pic} {c : IrqCall}

theorem Pic.call_eq (p : Pic) (c : IrqCall) : p.call c = p.editMask c.edit c.irqNum := by
  cases c <;> rfl

/-- The bit that is shifted to line `i` of a controller. -/
theorem getLsbD_line {n : UInt8} {i j : Nat} (hn : n.toNat = i) (hi : i < 8) (hj : j < 8) :
    ((1 : UInt8) <<< n).toBitVec.getLsbD j = decide (j = i) := by
  have hbits : ∀ i j : Fin 8,
      ((1 : UInt8) <<< UInt8.ofNat i.val).toBitVec.getLsbD j = decide (j = i) := by decide
  have hline : n = UInt8.ofNat i := UInt8.toNat_inj.mp (by simp; omega)
  rw [hline]
  simpa using hbits ⟨i, hi⟩ ⟨j, hj⟩

/-- A call takes the bit of its own line for `enable_irq`, and all the others for `disable_irq`. -/
theorem getLsbD_edit (c : IrqCall) (mask : UInt8) {n : UInt8} {i j : Nat} (hn : n.toNat = i)
    (hi : i < 8) (hj : j < 8) : (c.edit mask (1 <<< n)).toBitVec.getLsbD j =
      if c.isEnable then mask.toBitVec.getLsbD j && !decide (j = i)
      else mask.toBitVec.getLsbD j || !decide (j = i) := by
  have hnot : (~~~((1 : UInt8) <<< n)).toBitVec.getLsbD j = !decide (j = i) := by
    rw [UInt8.toBitVec_not, BitVec.getLsbD_not, getLsbD_line hn hi hj]
    simp [hj]
  cases c with
  | enable m =>
    rw [IrqCall.edit, UInt8.toBitVec_and, BitVec.getLsbD_and, hnot]
    rfl
  | disable m =>
    rw [IrqCall.edit, UInt8.toBitVec_or, BitVec.getLsbD_or, hnot]
    rfl

/-! ### The masks that the controllers have -/

/-- The controllers have the masks of the two variables. -/
structure Pic.UpToDate (p : Pic) : Prop where
  master : p.lastWritten master8259Data = p.masterMask
  slave : p.lastWritten slave8259Data = p.slaveMask

theorem upToDate_init : initialized.1.UpToDate := ⟨rfl, rfl⟩

theorem Pic.UpToDate.call (h : p.UpToDate) (c : IrqCall) : (p.call c).UpToDate := by
  rw [Pic.call_eq, Pic.editMask]
  split
  · exact h
  · split
    · exact ⟨rfl, h.slave⟩
    · exact ⟨h.master, rfl⟩

/-- What a call does to the masks: it edits that of the controller that has the line. -/
theorem Pic.call_cases (p : Pic) (c : IrqCall) :
    (15 < c.irqNum.toNat ∧ p.call c = p) ∨
      (c.irqNum.toNat < 8 ∧ (p.call c).slaveMask = p.slaveMask ∧
        (p.call c).masterMask = c.edit p.masterMask (1 <<< c.irqNum.toUInt8)) ∨
      (8 ≤ c.irqNum.toNat ∧ c.irqNum.toNat ≤ 15 ∧ (p.call c).masterMask = p.masterMask ∧
        (p.call c).slaveMask = c.edit p.slaveMask (1 <<< (c.irqNum - 8).toUInt8)) := by
  rw [Pic.call_eq, Pic.editMask]
  split
  · rename_i hout
    exact .inl ⟨UInt32.lt_iff_toNat_lt.mp hout, rfl⟩
  · rename_i hin
    have hle : c.irqNum.toNat ≤ 15 := Nat.le_of_not_lt fun h => hin (UInt32.lt_iff_toNat_lt.mpr h)
    split
    · rename_i hmaster
      exact .inr (.inl ⟨UInt32.lt_iff_toNat_lt.mp hmaster, rfl, rfl⟩)
    · rename_i hslave
      have hge : 8 ≤ c.irqNum.toNat :=
        Nat.le_of_not_lt fun h => hslave (UInt32.lt_iff_toNat_lt.mpr h)
      exact .inr (.inr ⟨hge, hle, rfl, rfl⟩)

theorem Pic.UpToDate.masked (h : p.UpToDate) (irq : Fin 16) : p.masked irq =
    if irq.val < 8 then p.masterMask.toBitVec.getLsbD irq
    else p.slaveMask.toBitVec.getLsbD (irq - 8) := by
  rw [Pic.masked, h.master, h.slave]

/-- The bits after a call: those of the other controller stay, and those of the controller that has
the line are edited. -/
theorem masked_call (h : p.UpToDate) (c : IrqCall) (irq : Fin 16) :
    (p.call c).masked irq =
      if c.reaches irq then
        if c.isEnable then p.masked irq && !c.names irq else p.masked irq || !c.names irq
      else p.masked irq := by
  have hirq := irq.isLt
  have hreaches : c.reaches irq ↔ irq.val / 8 = c.irqNum.toNat / 8 := Iff.rfl
  rw [(h.call c).masked, h.masked, IrqCall.names]
  obtain ⟨hout, hp⟩ | ⟨hn, hslave, hmaster⟩ | ⟨hn, hle, hmaster, hslave⟩ := p.call_cases c
  · have hno : ¬ c.reaches irq := mt hreaches.mp (by omega)
    rw [hp, if_neg hno]
  · by_cases hm : irq.val < 8
    · have hyes : c.reaches irq := hreaches.mpr (by omega)
      have hbit := getLsbD_edit c p.masterMask (n := c.irqNum.toUInt8) (i := c.irqNum.toNat)
        (by simp; omega) hn hm
      simp only [if_pos hm, if_pos hyes, hmaster, hbit, eq_comm]
    · have hno : ¬ c.reaches irq := mt hreaches.mp (by omega)
      simp only [if_neg hm, if_neg hno, hslave]
  · by_cases hm : irq.val < 8
    · have hno : ¬ c.reaches irq := mt hreaches.mp (by omega)
      simp only [if_pos hm, if_neg hno, hmaster]
    · have hyes : c.reaches irq := hreaches.mpr (by omega)
      have hline : (c.irqNum - 8).toUInt8.toNat = c.irqNum.toNat - 8 := by
        rw [UInt32.toNat_toUInt8, UInt32.toNat_sub_of_le _ _ hn]
        simp
        omega
      have hbit := getLsbD_edit c p.slaveMask hline (by omega) (show irq.val - 8 < 8 by omega)
      have hsame : irq.val - 8 = c.irqNum.toNat - 8 ↔ c.irqNum.toNat = irq.val := by omega
      simp only [if_neg hm, if_pos hyes, hslave, hbit, hsame]

/-! ### Sequences of calls -/

variable {x x' : Pic × List IrqCall}

/-- The last call that names a line, after one more call. -/
theorem lastEnables_cons (c : IrqCall) (calls : List IrqCall) (irq : Fin 16) :
    lastEnables (c :: calls) irq = if c.names irq then c.isEnable else lastEnables calls irq := by
  rw [lastEnables, List.find?_cons]
  cases c.names irq with
  | true => rfl
  | false => rfl

theorem IrqCall.reaches_of_names {irq : Fin 16} (h : c.names irq = true) : c.reaches irq := by
  have hn : c.irqNum.toNat = irq.val := of_decide_eq_true h
  rw [IrqCall.reaches, hn]

/-- `disable_irq` keeps the masks right for a line if it does not reach it, or the line is not
enabled. -/
theorem right_disable_iff (hdate : p.UpToDate) {calls : List IrqCall} {n : UInt32} {irq : Fin 16}
    (hright : p.masked irq = false ↔ lastEnables calls irq = true) :
    ((p.call (.disable n)).masked irq = false ↔ lastEnables (.disable n :: calls) irq = true) ↔
      ((IrqCall.disable n).reaches irq → lastEnables calls irq = false) := by
  rw [masked_call hdate, lastEnables_cons]
  by_cases hreaches : (IrqCall.disable n).reaches irq
  · simp only [hreaches, forall_const, if_true]
    cases hn : (IrqCall.disable n).names irq with
    | true => simp [IrqCall.isEnable, ← Bool.not_eq_true, ← hright]
    | false => simp [IrqCall.isEnable]
  · have hn : ¬ (IrqCall.disable n).names irq = true :=
      fun h => hreaches (IrqCall.reaches_of_names h)
    simp only [if_neg hn, hreaches, false_imp_iff, iff_true, if_false]
    exact hright

/-- **Exactness.** While the masks are right, they are so after a call exactly if the call enables a
line or no line of its controller is enabled. -/
theorem masksRight_step_iff (hdate : x.1.UpToDate) (hright : MasksRight x)
    (h : irqStep x c = some x') : MasksRight x' ↔ NoneEnabled x c := by
  obtain ⟨p, calls⟩ := x
  obtain rfl := Option.some.inj h
  cases c with
  | enable n =>
    refine iff_of_true (fun irq => ?_) trivial
    have hirq := hright irq
    rw [masked_call hdate, lastEnables_cons]
    by_cases hn : (IrqCall.enable n).names irq = true
    · simp [hn, IrqCall.reaches_of_names hn, IrqCall.isEnable]
    · simpa [hn, IrqCall.isEnable] using hirq
  | disable n => exact forall_congr' fun irq => right_disable_iff hdate (hright irq)

/-- A call after which the masks are right has left the other lines alone. -/
theorem keepsLines_of_right (hright : MasksRight x) (hright' : MasksRight (x.1.call c, c :: x.2)) :
    KeepsLines x c := by
  intro irq hn
  have hbefore := hright irq
  have hafter := hright' irq
  rw [lastEnables_cons, if_neg (by simp [hn]), ← hbefore] at hafter
  exact Bool.eq_iff_iff.mpr (by simpa [← Bool.not_eq_true] using not_congr hafter)

theorem masksRight_initialized : MasksRight initialized := by
  intro irq
  revert irq
  decide

/-- From `i8259_init` on the masks are right after each of a sequence of calls, and each leaves the
lines alone that it does not name, exactly if `disable_irq` is called only for lines of a
controller none of whose lines is enabled. -/
theorem masksRight_iff (calls : List IrqCall) :
    (Along irqStep MasksRight initialized calls ∧ Guarded irqStep KeepsLines initialized calls) ↔
      Guarded irqStep NoneEnabled initialized calls := by
  have hrun : (run irqStep initialized calls).isSome := run_isSome (fun _ _ => rfl) _ _
  have hexact : Along irqStep MasksRight initialized calls ↔
      Guarded irqStep NoneEnabled initialized calls := by
    refine along_iff_guarded (I := fun x => x.1.UpToDate) ?_ ?_ upToDate_init
      masksRight_initialized (Guarded.of_forall (fun _ _ => trivial) _ _) hrun
    · intro x c x' hdate _ h
      obtain rfl := Option.some.inj h
      exact hdate.call c
    · exact fun x c x' hdate hright _ h => masksRight_step_iff hdate hright h
  refine ⟨fun h => hexact.mp h.1, fun h => ⟨hexact.mpr h, ?_⟩⟩
  refine (hexact.mpr h).guarded (fun x c x' hright hs hright' => ?_) hrun
  obtain rfl := Option.some.inj hs
  exact keepsLines_of_right hright hright'

/-- Disabling the keyboard cuts off the slave, and leaves the keyboard enabled. -/
theorem not_masksRight : ¬ ∀ calls : List IrqCall,
    Along irqStep MasksRight initialized calls ∧ Guarded irqStep KeepsLines initialized calls := by
  intro hmasks
  obtain ⟨-, -, hkeeps⟩ := hmasks [.enable 1, .disable 1]
  have hslave := (hkeeps _ rfl).1 2 (by decide)
  revert hslave
  decide

end LinuxLikeKernel
