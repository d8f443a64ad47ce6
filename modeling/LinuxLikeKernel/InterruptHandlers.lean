import LinuxLikeKernel.DescriptorTables

/-!
# Interrupt handlers

`INT_WRAP` and `PF` of `idt_handler.S`, and what comes of a handler that is a function in C.

## Main definitions

- `intWrap`, `pageFaultEntry` — the code of the handlers
- `interruptStack`, `interruptWords` — where and what the processor pushes

## Main results

- `interrupt_transparent` — the code that is interrupted finds everything as it was
- `page_fault_call` — what `pf_handler` is given
- `undefined_interrupt` — where a program goes on after an interrupt without a handler of its own
-/

namespace LinuxLikeKernel
open Interrupts StackWords

/-- `INT_WRAP`, behind its label. -/
def intWrap (userFunc : BitVec 32) : List Instr :=
  [.op .pushal,
    .op (.push .flags),
    .op .cld,
    .call userFunc,
    .op (.pop .flags),
    .op .popal,
    .iret]

/-- `PF`, behind its label. -/
def pageFaultEntry (pfHandler : BitVec 32) : List Instr :=
  [.op (.movCr2 .ebx),
    .op (.push (.reg .ebx)),
    .call pfHandler]

/-- The handlers that are made with `INT_WRAP`. -/
def InterruptHandler.isWrapped : InterruptHandler → Bool
  | .kbdHandler | .rtcHandler | .pitHandler | .mseHandler => true
  | _ => false

variable {sym : Symbols} {text : Text} {m : Machine} {esp0 : BitVec 32}

/-- The wrapped handlers stand in the text, each with the function of `INT_WRAP`. -/
def WrappersStand (sym : Symbols) (text : Text) (userFunc : InterruptHandler → BitVec 32) : Prop :=
  ∀ handler, handler.isWrapped = true →
    ∃ b, Stands text (sym.handler handler) (intWrap (userFunc handler)) b

/-! ### Entry in either ring -/

/-- The end of the stack that a handler starts on. -/
def interruptStack (esp0 : BitVec 32) (m : Machine) : BitVec 32 :=
  if m.cpl = 0 then m.reg .esp else esp0

/-- What the processor pushes there. -/
def interruptWords (m : Machine) : List (BitVec 32) :=
  if m.cpl = 0 then [m.eip, (m.seg .cs).zeroExtend 32, m.eflags] else trapWords m m.eip

/-- The machine is at the start of a handler, with the words on its stack. -/
structure AtHandler (esp0 : BitVec 32) (m m' : Machine) (handler : BitVec 32)
    (error : Option (BitVec 32)) : Prop
    extends Stacked m m' (interruptStack esp0 m) (error.toList ++ interruptWords m) where
  eip : m'.eip = handler
  cs : m'.seg .cs = kernelCs
  ss : m.cpl = 0 → m'.seg .ss = m.seg .ss
  ds : m'.seg .ds = m.seg .ds
  es : m'.seg .es = m.seg .es
  reg : ∀ r, r ≠ .esp → m'.reg r = m.reg r
  eflags : m'.eflags = m.eflags &&& ~~~0x34300
  cr2 : m'.cr2 = m.cr2

theorem deliver_atHandler (sym : Symbols) (esp0 : BitVec 32) (hring : m.cpl = 0 ∨ m.cpl = 3)
    (v : BitVec 8) (error : Option (BitVec 32)) :
    ∃ m', (kernelCpu sym esp0).deliver m v m.eip error = some m' ∧
      AtHandler esp0 m m' (((handlerOf v).map sym.handler).getD 0) error := by
  obtain h0 | h3 := hring
  · have hgate := gate_kernelCpu sym esp0 v
    obtain ⟨m', hm', hin, hstack⟩ :=
      deliver_enters (kernelCpu sym esp0) m v m.eip error (by rw [hgate])
    have hsame : ¬(kernelCpu sym esp0).Inward m ((kernelCpu sym esp0).gate v) := by
      rw [Cpu.Inward, hgate, h0, kernelCpu_dpl, selectorDpl_kernelCs]
      decide
    rw [if_neg hsame, Cpu.frame, if_neg hsame, List.append_nil] at hstack
    have hcs : kernelCs.extractLsb' 2 14 ++ (0 : BitVec 2) = kernelCs := by decide
    refine ⟨m', hm', ⟨?_, ?_, ?_, fun _ => ?_, hin.ds, hin.es, hin.reg, ?_, hin.cr2⟩⟩
    · rw [interruptStack, interruptWords, if_pos h0, if_pos h0]
      exact hstack
    · rw [hin.eip, hgate]
    · rw [hin.cs, hgate, kernelCpu_dpl, selectorDpl_kernelCs]
      exact hcs
    · rw [hin.ss, if_neg hsame]
    · rw [hin.eflags, hgate]
      rfl
  · have h0 : m.cpl ≠ 0 := by
      rw [h3]
      decide
    obtain ⟨m', hm', hin⟩ := deliver_user sym esp0 h3 v m.eip error
    refine ⟨m', hm', ⟨?_, hin.eip, hin.cs, fun h => absurd h h0, hin.ds, hin.es, hin.reg,
      hin.eflags, hin.cr2⟩⟩
    rw [interruptStack, interruptWords, if_neg h0, if_neg h0]
    exact hin.toStacked

/-! ### The wrapper -/

/-- What `INT_WRAP` keeps on the stack. -/
def wrapWords (m : Machine) : List (BitVec 32) :=
  [m.eflags &&& 0xFCFFFF, m.reg .edi, m.reg .esi, m.reg .ebp, m.reg .esp, m.reg .ebx, m.reg .edx,
    m.reg .ecx, m.reg .eax]

variable {c : Cpu} {m₁ m₂ r : Machine} {userFunc b ret : BitVec 32}

/-- To the function. -/
theorem wrap_calls (c : Cpu) (hstands : Stands text m.eip (intWrap userFunc) b) :
    ∃ m' ret, Reaches c text m m' ∧ Stacked m m' (m.reg .esp) ([ret] ++ wrapWords m) ∧
      m'.eip = userFunc ∧ m'.seg = m.seg ∧ m'.eflags = m.eflags &&& ~~~0x400 ∧ m'.cr2 = m.cr2 ∧
      Stands text ret [.op (.pop .flags), .op .popal, .iret] b := by
  obtain ⟨a, ⟨ret, htext, hrest⟩, hreaches⟩ :=
    reaches_ops (c := c) [.pushal, .push .flags, .cld] hstands
  have hall := (pushed_pushes m [m.reg .edi, m.reg .esi, m.reg .ebp, m.reg .esp, m.reg .ebx,
    m.reg .edx, m.reg .ecx, m.reg .eax]).toStacked
  have hflags := hall.push (pushed_pushes _ [m.eflags &&& 0xFCFFFF]).toStacked
  have hcld : Stacked m ([Op.pushal, .push .flags, .cld].foldl Op.effect m) (m.reg .esp)
    (wrapWords m) := ⟨hflags.mem, hflags.esp⟩
  have hcall := hcld.push (pushed_pushes _ [ret]).toStacked
  exact ⟨_, ret, hreaches.trans (reaches_one htext rfl), ⟨hcall.mem, hcall.esp⟩, rfl, rfl, rfl, rfl,
    hrest⟩

/-- From the function to the return from the interrupt. -/
theorem wrap_returns (c : Cpu) (m₁ : Machine)
    (hstands : Stands text r.eip [.op (.pop .flags), .op .popal, .iret] b)
    (hws : Holds r.mem (r.reg .esp) (wrapWords m₁)) (hnt : m₁.eflags.getLsbD 14 = false) :
    ∃ m' next, Reaches c text r m' ∧ text m'.eip = some (.iret, next) ∧
      (∀ q, q ≠ .esp → m'.reg q = m₁.reg q) ∧ m'.reg .esp = r.reg .esp + 36 ∧ m'.seg = r.seg ∧
      m'.eflags.getLsbD 14 = false ∧ m'.cr2 = r.cr2 ∧ m'.mem = r.mem := by
  obtain ⟨a, ⟨next, htext, -⟩, hreaches⟩ := reaches_ops (c := c) [.pop .flags, .popal] hstands
  have hflags : r.stack 0 = m₁.eflags &&& 0xFCFFFF := stack_of_holds hws 0 (by simp [wrapWords])
  have hnt' : (m₁.eflags &&& 0xFCFFFF).getLsbD 14 = false := by
    have hbit : m₁.eflags[14] = false := hnt
    simp [hbit]
  -- the registers, counted from behind the flags
  have hregs : ∀ k (hk : k < 8), load r.mem (r.reg .esp + 4 + size k) = [m₁.reg .edi, m₁.reg .esi,
      m₁.reg .ebp, m₁.reg .esp, m₁.reg .ebx, m₁.reg .edx, m₁.reg .ecx, m₁.reg .eax][k] :=
    fun k hk => Holds.load_eq hws.2 hk
  refine ⟨_, next, hreaches, htext, fun q hq => ?_, ?_, rfl, ?_, rfl, rfl⟩
  · cases q with
    | edi => exact hregs 0 (by decide)
    | esi => exact hregs 1 (by decide)
    | ebp => exact hregs 2 (by decide)
    | esp => exact absurd rfl hq
    | ebx => exact hregs 4 (by decide)
    | edx => exact hregs 5 (by decide)
    | ecx => exact hregs 6 (by decide)
    | eax => exact hregs 7 (by decide)
  · change r.reg .esp + 4 + 32 = _
    rw [BitVec.add_assoc]
    rfl
  · simp only [List.foldl_cons, List.foldl_nil, Op.effect, Dest.write, hflags]
    exact popFlags_nt hnt'

/-! ### An interrupt -/

theorem length_interruptWords (m : Machine) : (interruptWords m).length ≤ 5 := by
  rw [interruptWords]
  split <;> simp [trapWords]

/-- From the end of a handler back to the code that was interrupted. -/
theorem iret_interrupted {handler : BitVec 32} (h : AtHandler esp0 m m₁ handler none)
    (hvm : m.eflags.getLsbD 17 = false) (hring : m.cpl = 0 ∨ m.cpl = 3 ∧ UserSegments sym m)
    (hreg : ∀ q, q ≠ .esp → r.reg q = m₁.reg q) (hesp : r.reg .esp = m₁.reg .esp)
    (hseg : r.seg = m₁.seg) (hnt : r.eflags.getLsbD 14 = false)
    (hws : Holds r.mem (r.reg .esp) (interruptWords m)) :
    (kernelCpu sym esp0).iret r = some { m with cr2 := r.cr2, mem := r.mem } := by
  have hcpl : r.cpl = 0 := by
    rw [Machine.cpl, hseg, h.cs]
    rfl
  have hcs : ((m.seg .cs).zeroExtend 32).truncate 16 = m.seg .cs := by simp
  have hss : ((m.seg .ss).zeroExtend 32).truncate 16 = m.seg .ss := by simp
  have hothers : ∀ q, q ≠ .esp → r.reg q = m.reg q := fun q hq => (hreg q hq).trans (h.reg q hq)
  obtain h0 | ⟨h3, huser⟩ := hring
  · -- three words on the stack of the code itself
    have hsp : m₁.reg .esp = m.reg .esp - 12 := by
      rw [h.esp, interruptStack, if_pos h0, interruptWords, if_pos h0]
      rfl
    rw [interruptWords, if_pos h0] at hws
    rw [iret_same _ hcpl hnt hws hvm (by rw [hcs]; exact h0), hcs]
    refine congrArg some (Machine.ext (funext fun q => ?_) (funext fun s => ?_) rfl rfl rfl rfl)
    · by_cases hq : q = .esp
      · simp [hq, hesp, hsp]
      · simp [hq, hothers q hq]
    · cases s with
      | cs => simp
      | ss => simpa [hseg] using h.ss h0
      | ds => simpa [hseg] using h.ds
      | es => simpa [hseg] using h.es
  · have h0 : m.cpl ≠ 0 := by
      rw [h3]
      decide
    have hring : ring (((m.seg .cs).zeroExtend 32).truncate 16) = 3 := by
      rw [hcs]
      exact h3
    rw [interruptWords, if_neg h0, trapWords] at hws
    rw [iret_outward _ hcpl hnt hws hvm (by rw [hring]; decide), hring, hcs, hss]
    refine congrArg some (Machine.ext (funext fun q => ?_) (funext fun s => ?_) rfl rfl rfl rfl)
    · by_cases hq : q = .esp
      · simp [hq]
      · simp [hq, hothers q hq]
    · rw [hseg, h.ds, h.es]
      cases s with
      | cs => rfl
      | ss => rfl
      | ds => exact huser.outward (.inl rfl)
      | es => exact huser.outward (.inr rfl)

/-- **Interrupts are transparent.** The function of a wrapped handler runs in ring 0 with interrupts
off and the direction flag clear. When it returns, and has left alone what is kept on its stack, the
code that was interrupted, in the kernel or in a program, goes on with everything it had. -/
theorem interrupt_transparent {userFunc : InterruptHandler → BitVec 32}
    (htext : WrappersStand sym text userFunc) {v : BitVec 8} {handler : InterruptHandler}
    (hv : handlerOf v = some handler) (hwrapped : handler.isWrapped = true)
    (hvm : m.eflags.getLsbD 17 = false) (hring : m.cpl = 0 ∨ m.cpl = 3 ∧ UserSegments sym m) :
    ∃ m₁ m₂, (kernelCpu sym esp0).deliver m v m.eip none = some m₁ ∧
      Reaches (kernelCpu sym esp0) text m₁ m₂ ∧
      (m₂.eip = userFunc handler ∧ m₂.cpl = 0 ∧ m₂.eflags.getLsbD 9 = false ∧
        m₂.eflags.getLsbD 10 = false) ∧
      m₂.reg .esp = interruptStack esp0 m - size ((interruptWords m).length + 10) ∧
      (∀ x, ¬Within (m₂.reg .esp) (4 * ((interruptWords m).length + 10)) x →
        m₂.mem x = m.mem x) ∧
      ∀ r, Returns m₂ r →
        (∀ x, Within (m₂.reg .esp + 4) (4 * ((interruptWords m).length + 9)) x →
          r.mem x = m₂.mem x) →
        Reaches (kernelCpu sym esp0) text r { m with cr2 := r.cr2, mem := r.mem } := by
  obtain ⟨b, hstands⟩ := htext handler hwrapped
  obtain ⟨m₁, hdeliver, hat⟩ :=
    deliver_atHandler sym esp0 (hring.imp_right And.left) v none
  rw [hv, Option.map_some, Option.getD_some] at hat
  rw [← hat.eip] at hstands
  obtain ⟨m₂, ret, hcall, hstacked, heip, hseg, heflags, -, hrest⟩ :=
    wrap_calls (kernelCpu sym esp0) hstands
  have hall := hat.toStacked.push hstacked
  have hlen : ([ret] ++ wrapWords m₁ ++ (Option.toList none ++ interruptWords m)).length =
      (interruptWords m).length + 10 := by
    simp [wrapWords]
  have hshort := length_interruptWords m
  have hfits : 4 * ([ret] ++ wrapWords m₁ ++ (Option.toList none ++ interruptWords m)).length ≤
      2 ^ 32 := by
    omega
  have hesp := hall.esp
  rw [hlen] at hesp
  have hbits := getLsbD_mask m.eflags
  rw [← hat.eflags] at hbits
  refine ⟨m₁, m₂, hdeliver, hcall, ⟨heip, ?_, ?_, ?_⟩, hesp, fun x hx => ?_,
    fun r hreturns hkept => ?_⟩
  · rw [Machine.cpl, hseg, hat.cs]
    rfl
  · have hbit : m₁.eflags[9] = false := hbits.2.1
    simp [heflags, hbit]
  · simp [heflags]
  · refine hall.frame hfits ?_
    rw [hlen, ← hesp]
    exact hx
  · obtain ⟨hret, hkeptWords⟩ : Holds m₂.mem (m₂.reg .esp) [ret] ∧
        Holds m₂.mem (m₂.reg .esp + 4) (wrapWords m₁ ++ interruptWords m) :=
      holds_append.mp (hall.words hfits)
    rw [← hreturns.esp] at hkeptWords hkept
    have hlen' : (wrapWords m₁ ++ interruptWords m).length = (interruptWords m).length + 9 := by
      rw [List.length_append, Nat.add_comm]
      rfl
    obtain ⟨hwrap, hframe⟩ := holds_append.mp (hkeptWords.congr (by omega)
      fun x hx => hkept x (by rwa [hlen'] at hx))
    have heip' : r.eip = ret := hreturns.eip.trans (stack_of_holds hret 0 (by simp))
    rw [← heip'] at hrest
    obtain ⟨m', next, hback, hnext, hreg, hesp', hseg', hnt, hcr2, hmem⟩ :=
      wrap_returns (kernelCpu sym esp0) m₁ hrest hwrap hbits.1
    have hsp : m'.reg .esp = m₁.reg .esp := by
      have hdown : m₂.reg .esp = m₁.reg .esp - 40 := hstacked.esp
      rw [hesp', hreturns.esp, hdown]
      ring
    have hiret := iret_interrupted hat hvm hring hreg hsp (hseg'.trans (hreturns.seg.trans hseg))
      hnt (by rw [hmem, hesp']; exact hframe)
    rw [hcr2, hmem] at hiret
    exact hback.trans (reaches_one hnext hiret)

/-- The wrapped handlers, each with a function behind 0x700000. -/
def sampleWrappers : Text := fun a =>
  if a.toNat < 0x410000 then none
  else
    let k := a.toNat - 0x410000
    ((intWrap (BitVec.ofNat 32 (0x700000 + k / 16)))[k % 16]?).map fun i => (i, a + 1)

theorem sampleWrappers_stand : WrappersStand sampleSymbols sampleWrappers fun
    | .kbdHandler => 0x700000
    | .rtcHandler => 0x700001
    | .pitHandler => 0x700002
    | _ => 0x700003 := by
  intro handler hwrapped
  cases handler with
  | kbdHandler => exact ⟨_, stands_of_forall (intWrap 0x700000) (by decide)⟩
  | rtcHandler => exact ⟨_, stands_of_forall (intWrap 0x700001) (by decide)⟩
  | pitHandler => exact ⟨_, stands_of_forall (intWrap 0x700002) (by decide)⟩
  | mseHandler => exact ⟨_, stands_of_forall (intWrap 0x700003) (by decide)⟩
  | _ => cases hwrapped

theorem interrupt_transparent_sample : ∃ m₁ m₂,
    (kernelCpu sampleSymbols 0x7FFFFC).deliver sampleProgram pitVec 0x8048000 none = some m₁ ∧
      Reaches (kernelCpu sampleSymbols 0x7FFFFC) sampleWrappers m₁ m₂ ∧ m₂.eip = 0x700002 := by
  have hsegments : UserSegments sampleSymbols sampleProgram := by
    rintro s (rfl | rfl) <;> decide
  obtain ⟨m₁, m₂, hdeliver, hreaches, ⟨heip, -⟩, -⟩ :=
    @interrupt_transparent sampleSymbols sampleWrappers sampleProgram 0x7FFFFC _
      sampleWrappers_stand pitVec .pitHandler (by decide) rfl (by decide)
      (.inr ⟨by decide, hsegments⟩)
  exact ⟨m₁, m₂, hdeliver, hreaches, heip⟩

/-! ### Handlers that are no wrappers -/

/-- **Page faults.** `pf_handler` is given the address of the fault and the error code of the
processor. -/
theorem page_fault_call {pfHandler b : BitVec 32}
    (hstands : Stands text (sym.handler .pf) (pageFaultEntry pfHandler) b)
    (hring : m.cpl = 0 ∨ m.cpl = 3) (error : BitVec 32) :
    ∃ m₁ m₂, (kernelCpu sym esp0).deliver m 14 m.eip (some error) = some m₁ ∧
      Reaches (kernelCpu sym esp0) text m₁ m₂ ∧
      m₂.eip = pfHandler ∧ m₂.stack 4 = m.cr2 ∧ m₂.stack 8 = error ∧
      m₂.cpl = 0 ∧ m₂.eflags.getLsbD 9 = false := by
  obtain ⟨m₁, hdeliver, hat⟩ := deliver_atHandler sym esp0 hring 14 (some error)
  have hpf : handlerOf 14 = some .pf := by decide
  rw [hpf, Option.map_some, Option.getD_some] at hat
  rw [← hat.eip] at hstands
  obtain ⟨a, ⟨ret, htext, -⟩, hreaches⟩ := reaches_ops (c := kernelCpu sym esp0)
    [.movCr2 .ebx, .push (.reg .ebx)] hstands
  have hmoved : Stacked m (m₁.set .ebx m₁.cr2) (interruptStack esp0 m)
    ((some error).toList ++ interruptWords m) := ⟨hat.mem, hat.esp⟩
  have hpushed := hmoved.push (pushed_pushes _ [(m₁.set .ebx m₁.cr2).reg .ebx]).toStacked
  have hall := hpushed.push (pushed_pushes _ [ret]).toStacked
  have hcr2 : (m₁.set .ebx m₁.cr2).reg .ebx = m.cr2 := by simp [hat.cr2]
  have hwords := hall.words (by
    have := length_interruptWords m
    simp
    omega)
  refine ⟨m₁, _, hdeliver, hreaches.trans (reaches_one htext rfl), rfl, ?_, ?_, ?_, ?_⟩
  · exact (stack_of_holds hwords 1 (by simp)).trans hcr2
  · exact stack_of_holds hwords 2 (by simp)
  · exact (congrArg ring hat.cs).trans rfl
  · have hbit := (getLsbD_mask m.eflags).2.1
    rw [← hat.eflags] at hbit
    exact hbit

/-- `PF` at 0x420000. -/
def samplePageFault : Text := fun a =>
  if a.toNat < 0x420000 then none
  else ((pageFaultEntry 0x700004)[a.toNat - 0x420000]?).map fun i => (i, a + 1)

theorem page_fault_call_sample : ∃ m₁ m₂,
    (kernelCpu sampleSymbols 0x7FFFFC).deliver { sampleProgram with cr2 := 16 } 14 0x8048000
        (some 6) = some m₁ ∧
      Reaches (kernelCpu sampleSymbols 0x7FFFFC) samplePageFault m₁ m₂ ∧
      m₂.eip = 0x700004 ∧ m₂.stack 4 = 16 ∧ m₂.stack 8 = 6 := by
  have hstands : Stands samplePageFault (sampleSymbols.handler .pf) (pageFaultEntry 0x700004)
      0x420003 := stands_of_forall (pageFaultEntry 0x700004) (by decide)
  obtain ⟨m₁, m₂, hdeliver, hreaches, heip, h4, h8, -⟩ := @page_fault_call sampleSymbols
    samplePageFault { sampleProgram with cr2 := 16 } 0x7FFFFC _ _ hstands (.inr (by decide)) 6
  exact ⟨m₁, m₂, hdeliver, hreaches, heip, h4, h8⟩

/-- **An interrupt without a handler of its own.** `undef_interrupt` is a function in C, and returns
as one: when it returns, the program goes on where it was, but with the kernel's code segment, in
ring 0, and on the kernel's stack. -/
theorem undefined_interrupt {v : BitVec 8} (hv : handlerOf v = some .undefInterrupt)
    (hcpl : m.cpl = 3) :
    ∃ m₁, (kernelCpu sym esp0).deliver m v m.eip none = some m₁ ∧
      m₁.eip = sym.handler .undefInterrupt ∧
      ∀ r, Returns m₁ r → r.eip = m.eip ∧ r.cpl = 0 ∧ r.seg .cs = kernelCs ∧
        r.seg .ss = kernelDs ∧ r.reg .esp = esp0 - 16 := by
  obtain ⟨m₁, hdeliver, hin⟩ := deliver_user sym esp0 hcpl v m.eip none
  rw [hv, Option.map_some, Option.getD_some] at hin
  refine ⟨m₁, hdeliver, hin.eip, fun r hreturns => ⟨?_, ?_, ?_, ?_, ?_⟩⟩
  · exact hreturns.eip.trans (stack_of_holds (hin.words (by simp [trapWords])) 0
      (by simp [trapWords]))
  · rw [Machine.cpl, hreturns.seg, hin.cs]
    rfl
  · rw [hreturns.seg, hin.cs]
  · rw [hreturns.seg, hin.ss]
  · have hesp : m₁.reg .esp = esp0 - 20 := hin.esp
    rw [hreturns.esp, hesp]
    ring

theorem undefined_interrupt_sample : ∃ m₁,
    (kernelCpu sampleSymbols 0x7FFFFC).deliver sampleProgram 0x25 0x8048000 none = some m₁ ∧
      ∀ r, Returns m₁ r → r.eip = 0x8048000 ∧ r.cpl = 0 := by
  obtain ⟨m₁, hdeliver, -, hreturns⟩ :=
    @undefined_interrupt sampleSymbols sampleProgram 0x7FFFFC 0x25 (by decide) (by decide)
  exact ⟨m₁, hdeliver, fun r hr => ⟨(hreturns r hr).1, (hreturns r hr).2.1⟩⟩

end LinuxLikeKernel
