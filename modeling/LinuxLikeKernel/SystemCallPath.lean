import LinuxLikeKernel.InterruptHandlers

/-!
# The path of a system call

The code between a program and the kernel's functions: the stubs of `ece391syscall.S`, the gate,
and `syc_handler` with its jump table. For a program with a data segment a system call is a call of
a function in C, on another stack and in another ring. The handler leaves DS as it was, and reads
the jump table through it: without a data segment the call is a fault.

## Main definitions

- `doCall` — the stubs
- `SycHandler` — where `syc_handler` stands, and its code
- `CallReady` — what a stub relies on

## Main results

- `system_call` — a stub calls the function of its number, and returns what that returns
- `null_call` — what it does without a data segment
- `invalid_call` — a number that is none
-/

namespace LinuxLikeKernel
open Interrupts StackWords

/-- The functions of the jump table. -/
inductive SystemCall
  | halt | execute | read | write | open | close | getargs | vidmap | setHandler | sigreturn
  deriving DecidableEq

/-- The numbers of `ece391sysnum.h`. -/
def SystemCall.number : SystemCall → BitVec 32
  | .halt => 1
  | .execute => 2
  | .read => 3
  | .write => 4
  | .open => 5
  | .close => 6
  | .getargs => 7
  | .vidmap => 8
  | .setHandler => 9
  | .sigreturn => 10

/-- `DO_CALL`, behind its label. -/
def doCall (number : BitVec 32) : List Instr :=
  [.op (.push (.reg .ebx)),
    .op (.movl number .eax),
    .op (.loadl 8 .ebx),
    .op (.loadl 12 .ecx),
    .op (.loadl 16 .edx),
    .int 0x80,
    .op (.pop (.reg .ebx)),
    .ret]

/-- `syc_jumptable`. -/
def sycJumptable (addr : SystemCall → BitVec 32) : List (BitVec 32) :=
  [0, addr .halt, addr .execute, addr .read, addr .write, addr .open, addr .close, addr .getargs,
    addr .vidmap, addr .setHandler, addr .sigreturn]

/-- The labels of `syc_handler`. -/
structure SycHandler where
  invalidCallnum : BitVec 32
  endSystemCall : BitVec 32
  sycJumptable : BitVec 32

namespace SycHandler

/-- What is pushed first: what the handler has to keep, and the arguments. -/
def pushes : List Source :=
  [.seg .es, .seg .ds, .reg .ebx, .reg .ecx, .reg .edx, .reg .esi, .reg .edi, .reg .ebp, .flags,
    .reg .edx, .reg .ecx, .reg .ebx]

/-- What is popped at the end. -/
def pops : List Dest :=
  [.flags, .reg .ebp, .reg .edi, .reg .esi, .reg .edx, .reg .ecx, .reg .ebx, .seg .ds, .seg .es]

/-- From `syc_handler` to `invalid_callnum`. -/
def start (l : SycHandler) : List Instr :=
  (pushes.map Op.push ++ [Op.cmpl 1 .eax]).map .op ++
    [.jl l.invalidCallnum,
      .op (.cmpl 10 .eax),
      .jg l.invalidCallnum,
      .callTable l.sycJumptable .eax,
      .jmp l.endSystemCall]

/-- From `invalid_callnum` to `end_system_call`. -/
def invalid : List Instr := [.op (.movl (-1) .eax)]

/-- From `end_system_call` on. -/
def finish : List Instr := (Op.addl 12 .esp :: pops.map Op.pop).map .op ++ [.iret]

/-- The handler stands in the text. -/
structure Linked (l : SycHandler) (text : Text) (sycHandler : BitVec 32) : Prop where
  start : Stands text sycHandler l.start l.invalidCallnum
  invalid : Stands text l.invalidCallnum invalid l.endSystemCall
  finish : ∃ b, Stands text l.endSystemCall finish b

end SycHandler

variable {c : Cpu} {text : Text} {m m' : Machine} {l : SycHandler} {sycHandler : BitVec 32}

/-! ### The first part of the handler -/

/-- What the handler keeps on the stack. -/
def savedWords (m : Machine) : List (BitVec 32) :=
  [m.eflags &&& 0xFCFFFF, m.reg .ebp, m.reg .edi, m.reg .esi, m.reg .edx, m.reg .ecx, m.reg .ebx,
    (m.seg .ds).zeroExtend 32, (m.seg .es).zeroExtend 32]

/-- What the handler has on the stack when it looks at the number. -/
def sycWords (m : Machine) : List (BitVec 32) :=
  [m.reg .ebx, m.reg .ecx, m.reg .edx] ++ savedWords m

/-- The pushes and the first comparison. -/
theorem start_reaches (c : Cpu) (hl : l.Linked text sycHandler) (heip : m.eip = sycHandler) :
    ∃ m₁, Reaches c text m m₁ ∧ Pushed m m₁ (sycWords m) ∧
      (m₁.eflags.getLsbD 7 ≠ m₁.eflags.getLsbD 11 ↔ (m.reg .eax).toInt < 1) ∧
      Stands text m₁.eip [.jl l.invalidCallnum, .op (.cmpl 10 .eax), .jg l.invalidCallnum,
        .callTable l.sycJumptable .eax, .jmp l.endSystemCall] l.invalidCallnum := by
  have hstands := hl.start
  rw [← heip] at hstands
  obtain ⟨a, hstands, hreaches⟩ := reaches_ops (c := c) _ hstands
  have hwords : (SycHandler.pushes.map (·.value m)).reverse = sycWords m := rfl
  rw [List.foldl_append, foldl_push _ (by decide), hwords] at hreaches
  refine ⟨_, hreaches, ?_, ?_, hstands⟩
  · exact ((pushed_pushes m (sycWords m)).cmpl 1 .eax).goto a
  · exact jl_iff (m.pushes (sycWords m)) 1 .eax

/-- Both comparisons: to the call of a function, or to the code for a number that is none. -/
theorem compare_reaches (c : Cpu) (hl : l.Linked text sycHandler) (heip : m.eip = sycHandler) :
    ∃ m₁, Reaches c text m m₁ ∧ Pushed m m₁ (sycWords m) ∧
      if 1 ≤ (m.reg .eax).toInt ∧ (m.reg .eax).toInt ≤ 10 then
        Stands text m₁.eip [.callTable l.sycJumptable .eax, .jmp l.endSystemCall] l.invalidCallnum
      else m₁.eip = l.invalidCallnum := by
  obtain ⟨m₁, hreaches, hpushed, hless, next, htext, hstands⟩ := start_reaches c hl heip
  have hjl : Reaches c text m₁ (m₁.goto
      (if m₁.eflags.getLsbD 7 ≠ m₁.eflags.getLsbD 11 then l.invalidCallnum else next)) :=
    reaches_one htext rfl
  by_cases h1 : (m.reg .eax).toInt < 1
  · rw [if_pos (hless.mpr h1)] at hjl
    refine ⟨_, hreaches.trans hjl, hpushed.goto _, ?_⟩
    rw [if_neg (by omega)]
    rfl
  · rw [if_neg fun h => h1 (hless.mp h)] at hjl
    obtain ⟨next', htext', next'', htext'', hstands⟩ := hstands
    have hcmp : Reaches c text (m₁.goto next)
        (((Op.cmpl 10 .eax).effect (m₁.goto next)).goto next') := reaches_one htext' rfl
    have hjg := jg_iff (m₁.goto next) 10 .eax
    have heax : (m₁.goto next).reg .eax = m.reg .eax := hpushed.reg .eax (by decide)
    rw [heax] at hjg
    have hpushed' := ((hpushed.goto next).cmpl 10 .eax).goto next'
    by_cases h10 : 10 < (m.reg .eax).toInt
    · refine ⟨_, ((hreaches.trans hjl).trans hcmp).trans
        (reaches_one htext'' (congrArg some (congrArg _ (if_pos (hjg.mpr h10))))), hpushed'.goto _,
        ?_⟩
      rw [if_neg (by omega)]
      rfl
    · refine ⟨_, ((hreaches.trans hjl).trans hcmp).trans
        (reaches_one htext'' (congrArg some (congrArg _ (if_neg fun h => h10 (hjg.mp h))))),
        hpushed'.goto _, ?_⟩
      rw [if_pos (by omega)]
      exact hstands

theorem SystemCall.number_range (n : SystemCall) :
    1 ≤ n.number.toInt ∧ n.number.toInt ≤ 10 := by
  cases n <;> decide

/-- A call of the function of a number, with the arguments on the stack. -/
theorem call_reaches (c : Cpu) (hl : l.Linked text sycHandler) (heip : m.eip = sycHandler)
    {addr : SystemCall → BitVec 32} {n : SystemCall} (hn : m.reg .eax = n.number)
    (hnull : ¬IsNull (m.seg .ds)) (hbase : c.base (m.seg .ds) = 0)
    (htable : Holds m.mem l.sycJumptable (sycJumptable addr))
    (hapart : ∀ x, Within l.sycJumptable 44 x → ¬Within (m.reg .esp - 48) 48 x) :
    ∃ m₁ back, Reaches c text m m₁ ∧ Pushed m m₁ (back :: sycWords m) ∧ m₁.eip = addr n ∧
      Stands text back [.jmp l.endSystemCall] l.invalidCallnum := by
  obtain ⟨m₁, hreaches, hpushed, hcall⟩ := compare_reaches c hl heip
  rw [if_pos (by rw [hn]; exact n.number_range)] at hcall
  obtain ⟨back, htext, hback⟩ := hcall
  have hexec : c.callTable m₁ l.sycJumptable .eax back =
      some ((m₁.pushes [back]).goto (load m₁.mem (l.sycJumptable + m₁.reg .eax * 4))) := by
    rw [Cpu.callTable, hpushed.seg, if_neg hnull, hbase, zero_add]
  have hentry : load m₁.mem (l.sycJumptable + m₁.reg .eax * 4) = addr n := by
    have htable' : Holds m₁.mem l.sycJumptable (sycJumptable addr) := by
      refine htable.congr (by simp [sycJumptable]) fun x hx => ?_
      exact hpushed.toStacked.frame (by simp [sycWords, savedWords]) (hapart x hx)
    have hsize : m₁.reg .eax * 4 = size n.number.toNat := by
      rw [hpushed.reg .eax (by decide), hn]
      cases n <;> rfl
    rw [hsize, htable'.load_eq (by cases n <;> simp [sycJumptable, SystemCall.number])]
    cases n <;> rfl
  exact ⟨_, back, hreaches.trans (reaches_one htext hexec), (hpushed.push back).goto _, hentry,
    hback⟩

/-- Without a data segment the call is a fault of the handler. -/
theorem fault_reaches (sym : Symbols) (esp0 : BitVec 32) (hl : l.Linked text sycHandler)
    (heip : m.eip = sycHandler) {n : SystemCall} (hn : m.reg .eax = n.number) (hcpl : m.cpl = 0)
    (hnull : IsNull (m.seg .ds)) :
    ∃ m₁ m₂, Reaches (kernelCpu sym esp0) text m m₂ ∧ Pushed m m₁ (sycWords m) ∧
      AtHandler esp0 m₁ m₂ (sym.handler .gp) (some 0) := by
  obtain ⟨m₁, hreaches, hpushed, hcall⟩ := compare_reaches (kernelCpu sym esp0) hl heip
  rw [if_pos (by rw [hn]; exact n.number_range)] at hcall
  obtain ⟨back, htext, -⟩ := hcall
  have hcpl₁ : m₁.cpl = 0 := by
    rw [Machine.cpl, hpushed.seg]
    exact hcpl
  obtain ⟨m₂, hdeliver, hat⟩ := deliver_atHandler sym esp0 (.inl hcpl₁) 13 (some 0)
  have hexec : (kernelCpu sym esp0).callTable m₁ l.sycJumptable .eax back = some m₂ := by
    rw [Cpu.callTable, hpushed.seg, if_pos hnull]
    exact hdeliver
  exact ⟨m₁, m₂, hreaches.trans (reaches_one htext hexec), hpushed, hat⟩

/-! ### The last part of the handler -/

/-- What is popped is what was kept. -/
theorem popped_savedWords (m m₀ : Machine) :
    (∀ r, r ≠ .eax → r ≠ .esp →
        (popped m SycHandler.pops (savedWords m₀)).reg r = m₀.reg r) ∧
      (popped m SycHandler.pops (savedWords m₀)).reg .eax = m.reg .eax ∧
      (popped m SycHandler.pops (savedWords m₀)).seg .ds = m₀.seg .ds ∧
      (popped m SycHandler.pops (savedWords m₀)).seg .es = m₀.seg .es ∧
      (popped m SycHandler.pops (savedWords m₀)).seg .cs = m.seg .cs := by
  refine ⟨fun r hax hsp => ?_, ?_, ?_, ?_, ?_⟩
  · cases r <;> first | contradiction | simp [popped, SycHandler.pops, savedWords, Dest.write]
  all_goals simp [popped, SycHandler.pops, savedWords, Dest.write]

/-- What the words of the handler are popped to. `m₀` is the machine at the start of the handler. -/
theorem finish_reaches (c : Cpu) (hl : l.Linked text sycHandler) (heip : m.eip = l.endSystemCall)
    (m₀ : Machine) {eip cs eflags sp ss : BitVec 32} (hcpl : m.cpl = 0)
    (hws : Holds m.mem (m.reg .esp + 12) (savedWords m₀ ++ [eip, cs, eflags, sp, ss]))
    (hnt : m₀.eflags.getLsbD 14 = false) (hvm : eflags.getLsbD 17 = false)
    (hring : ring (cs.truncate 16) ≠ 0) :
    Reaches c text m
      { m with
        reg := fun r => if r = .eax then m.reg .eax else if r = .esp then sp else m₀.reg r
        seg := fun
          | .cs => cs.truncate 16
          | .ss => ss.truncate 16
          | .ds => c.outward (ring (cs.truncate 16)) (m₀.seg .ds)
          | .es => c.outward (ring (cs.truncate 16)) (m₀.seg .es)
        eip := eip
        eflags := eflags } := by
  obtain ⟨b, hstands⟩ := hl.finish
  rw [← heip] at hstands
  obtain ⟨a, ⟨next, htext, -⟩, hreaches⟩ := reaches_ops (c := c) _ hstands
  obtain ⟨hsaved, hframe⟩ := holds_append.mp hws
  have hesp : ((Op.addl 12 .esp).effect m).reg .esp = m.reg .esp + 12 := by simp [Op.effect]
  have hpops := foldl_pop SycHandler.pops (savedWords m₀) (by decide) rfl
    ((Op.addl 12 .esp).effect m) (by rw [hesp]; exact hsaved)
  rw [List.foldl_cons, hpops, hesp] at hreaches
  obtain ⟨hreg, heax, hds, hes, hcs⟩ := popped_savedWords ((Op.addl 12 .esp).effect m) m₀
  have hmem : (popped ((Op.addl 12 .esp).effect m) SycHandler.pops (savedWords m₀)).mem = m.mem :=
    rfl
  have hcr2 : (popped ((Op.addl 12 .esp).effect m) SycHandler.pops (savedWords m₀)).cr2 = m.cr2 :=
    rfl
  have hflags : (popped ((Op.addl 12 .esp).effect m) SycHandler.pops
      (savedWords m₀)).eflags.getLsbD 14 = false := by
    refine popFlags_nt (m := (Op.addl 12 .esp).effect m) ?_
    have hnt' : m₀.eflags[14] = false := hnt
    simp [hnt']
  have heax' : ((Op.addl 12 .esp).effect m).reg .eax = m.reg .eax := by simp [Op.effect]
  have hcs' : ((Op.addl 12 .esp).effect m).seg .cs = m.seg .cs := rfl
  rw [heax'] at heax
  rw [hcs'] at hcs
  generalize popped ((Op.addl 12 .esp).effect m) SycHandler.pops (savedWords m₀) = p at *
  have hmachine := @iret_outward
    ((p.set .esp (m.reg .esp + 12 + size (savedWords m₀).length)).goto a) c eip cs eflags sp ss
    ((congrArg ring hcs).trans hcpl) hflags
    (by rw [Machine.goto_mem, Machine.set_mem, hmem]; simpa using hframe) hvm hring
  refine Eq.subst (motive := Reaches c text m) ?_ (hreaches.trans (reaches_one htext hmachine))
  refine Machine.ext (funext fun r => ?_) (funext fun s => ?_) rfl rfl hcr2 hmem
  · by_cases hsp : r = .esp
    · simp [hsp]
    · by_cases hax : r = .eax
      · simp [hax, heax]
      · simp [hsp, hax, hreg r hax hsp]
  · cases s <;> simp [hds, hes]

/-! ### From a program and back -/

variable {sym : Symbols} {esp0 : BitVec 32} {m₁ m₂ : Machine}

/-- From the end of the handler back to the program, if what the handler has on the stack is still
there. -/
theorem end_reaches (hl : l.Linked text (sym.handler .sycHandler)) {next : BitVec 32}
    (hcpl : m.cpl = 3) (hvm : m.eflags.getLsbD 17 = false) (hseg : UserSegments sym m)
    (hin : InKernel esp0 m m₁ (sym.handler .sycHandler) (trapWords m next))
    (heip : m₂.eip = l.endSystemCall) (hcpl₂ : m₂.cpl = 0)
    (hws : Holds m₂.mem (m₂.reg .esp + 12) (savedWords m₁ ++ trapWords m next)) :
    Reaches (kernelCpu sym esp0) text m₂
      { m with
        reg := Function.update m.reg .eax (m₂.reg .eax)
        eip := next
        cr2 := m₂.cr2
        mem := m₂.mem } := by
  have hcs : ((m.seg .cs).zeroExtend 32).truncate 16 = m.seg .cs := by
    simp
  have hss : ((m.seg .ss).zeroExtend 32).truncate 16 = m.seg .ss := by
    simp
  have hring : ring (((m.seg .cs).zeroExtend 32).truncate 16) = 3 := by
    rw [hcs]
    exact hcpl
  have hnt : m₁.eflags.getLsbD 14 = false := by
    rw [hin.eflags]
    exact (getLsbD_mask m.eflags).1
  have hreaches := finish_reaches (kernelCpu sym esp0) hl heip m₁ hcpl₂ hws hnt hvm
    (by rw [hring]; decide)
  refine Eq.subst (motive := Reaches _ text m₂) ?_ hreaches
  refine Machine.ext (funext fun r => ?_) (funext fun s => ?_) rfl rfl rfl rfl
  · by_cases hax : r = .eax
    · simp [hax]
    · by_cases hsp : r = .esp
      · simp [hsp]
      · simp [hax, hsp, hin.reg r hsp]
  · rw [hring, hcs, hss, hin.ds, hin.es]
    cases s with
    | cs => rfl
    | ss => rfl
    | ds => exact hseg.outward (.inl rfl)
    | es => exact hseg.outward (.inr rfl)

/-- **A number that is none.** No function is called: the program goes on with -1, and has
everything else as it was. -/
theorem invalid_call (hl : l.Linked text (sym.handler .sycHandler)) {next : BitVec 32}
    (hint : text m.eip = some (.int sysVec, next)) (hcpl : m.cpl = 3)
    (hvm : m.eflags.getLsbD 17 = false) (hseg : UserSegments sym m)
    (hno : ¬(1 ≤ (m.reg .eax).toInt ∧ (m.reg .eax).toInt ≤ 10)) :
    ∃ mem, Reaches (kernelCpu sym esp0) text m
        { m with reg := Function.update m.reg .eax (-1), eip := next, mem := mem } ∧
      ∀ x, ¬Within (esp0 - 68) 68 x → mem x = m.mem x := by
  obtain ⟨m₁, hentry, hin⟩ := syscall_enters sym esp0 hcpl next
  have heax : m₁.reg .eax = m.reg .eax := hin.reg .eax (by decide)
  obtain ⟨m₂, hcompare, hpushed, hinvalid⟩ := compare_reaches (kernelCpu sym esp0) hl hin.eip
  rw [heax, if_neg hno] at hinvalid
  have hstands := hl.invalid
  rw [← hinvalid] at hstands
  obtain ⟨next', htext, hnext⟩ := hstands
  have hnext' : next' = l.endSystemCall := hnext
  subst hnext'
  have hstack := hin.toStacked.push hpushed.toStacked
  have hcs : m₂.cpl = 0 := by
    rw [Machine.cpl, hpushed.seg, hin.cs]
    rfl
  have hwords := hstack.words (by simp [sycWords, savedWords, trapWords])
  rw [sycWords, List.append_assoc] at hwords
  have hend := @end_reaches _ _ _ _ _ m₁ ((m₂.set .eax (-1)).goto l.endSystemCall) hl next hcpl hvm
    hseg hin rfl hcs (holds_append.mp hwords).2
  refine ⟨m₂.mem, ?_, fun x hx => hstack.frame (by simp [sycWords, savedWords, trapWords]) hx⟩
  have hreaches := (((reaches_one hint hentry).trans hcompare).trans
    (reaches_one htext rfl)).trans hend
  refine Eq.subst (motive := Reaches _ text m) ?_ hreaches
  refine Machine.ext ?_ rfl rfl rfl ?_ rfl
  · rw [Machine.goto_reg, Machine.set_reg, if_pos rfl]
  · exact hpushed.cr2.trans hin.cr2

/-- What a stub of a program relies on: it is in a program, which has a data segment, the kernel's
table is in memory, and neither that nor the words of the stub are where the kernel's stack will
be. -/
structure CallReady (sym : Symbols) (esp0 : BitVec 32) (l : SycHandler)
    (addr : SystemCall → BitVec 32) (m : Machine) : Prop where
  cpl : m.cpl = 3
  vm : m.eflags.getLsbD 17 = false
  segments : UserSegments sym m
  data : ¬IsNull (m.seg .ds)
  table : Holds m.mem l.sycJumptable (sycJumptable addr)
  table_apart : ∀ x, Within l.sycJumptable 44 x →
    ¬Within (esp0 - 72) 72 x ∧ ¬Within (m.reg .esp - 4) 4 x
  stack_apart : ∀ x, Within (esp0 - 72) 72 x → ¬Within (m.reg .esp - 4) 8 x

/-- The machine that a stub gets to with its first five instructions. -/
structure StubDone (m m' : Machine) (number back a₁ a₂ a₃ : BitVec 32) : Prop
    extends Stacked m m' (m.reg .esp) [m.reg .ebx] where
  words : Holds m'.mem (m'.reg .esp) [m.reg .ebx, back]
  eax : m'.reg .eax = number
  ebx : m'.reg .ebx = a₁
  ecx : m'.reg .ecx = a₂
  edx : m'.reg .edx = a₃
  others : ∀ r, r = .esi ∨ r = .edi ∨ r = .ebp → m'.reg r = m.reg r
  seg : m'.seg = m.seg
  eflags : m'.eflags = m.eflags

theorem stub_reaches (c : Cpu) {number back a₁ a₂ a₃ b : BitVec 32}
    (hstub : Stands text m.eip (doCall number) b)
    (hargs : Holds m.mem (m.reg .esp) [back, a₁, a₂, a₃]) :
    ∃ m', Reaches c text m m' ∧ StubDone m m' number back a₁ a₂ a₃ ∧
      Stands text m'.eip [.int 0x80, .op (.pop (.reg .ebx)), .ret] b := by
  obtain ⟨a, hstands, hreaches⟩ := reaches_ops (c := c) [.push (.reg .ebx), .movl number .eax,
    .loadl 8 .ebx, .loadl 12 .ecx, .loadl 16 .edx] hstub
  have hpushed := (pushed_pushes m [m.reg .ebx]).toStacked
  -- the arguments, counted from the word that has been pushed
  have hwords : Holds (m.pushes [m.reg .ebx]).mem (m.reg .esp) [back, a₁, a₂, a₃] := by
    refine hargs.congr (by simp) fun x hx => hpushed.frame (by simp) fun hx' => ?_
    have heq : x - (m.reg .esp - size 1) = x - m.reg .esp + 4 := by
      rw [show size 1 = 4 from rfl]
      ring
    rw [Within, List.length_singleton, heq, BitVec.toNat_add] at hx'
    change ((x - m.reg .esp).toNat + 4) % 2 ^ 32 < 4 at hx'
    rw [Within] at hx
    simp only [List.length_cons, List.length_nil] at hx
    omega
  have hload : ∀ k (hk : k < 4), load (m.pushes [m.reg .ebx]).mem
      (m.reg .esp - 4 + BitVec.ofNat 32 (4 * k + 4)) = [back, a₁, a₂, a₃][k] := by
    intro k hk
    have heq : m.reg .esp - 4 + BitVec.ofNat 32 (4 * k + 4) = m.reg .esp + size k := by
      have hfour : BitVec.ofNat 32 (4 * k + 4) = size k + 4 := by
        rw [BitVec.ofNat_add]
        rfl
      rw [hfour]
      ring
    rw [heq]
    exact hwords.load_eq hk
  have htop : Holds (m.pushes [m.reg .ebx]).mem (m.reg .esp - 4) [m.reg .ebx, back] := by
    have hesp : m.reg .esp - 4 + 4 = m.reg .esp := BitVec.sub_add_cancel ..
    refine ⟨load_store_self, ?_, trivial⟩
    rw [hesp]
    exact hwords.1
  have h1 := hload 1 (by decide)
  have h2 := hload 2 (by decide)
  have h3 := hload 3 (by decide)
  refine ⟨_, hreaches, ?_, hstands⟩
  exact
    { mem := rfl
      esp := by simp [Op.effect, Source.value]
      words := by simpa [Op.effect, Source.value, size] using htop
      eax := by simp [Op.effect]
      ebx := by simpa [Op.effect, Source.value, Machine.stack, size] using h1
      ecx := by simpa [Op.effect, Source.value, Machine.stack, size] using h2
      edx := by simpa [Op.effect, Source.value, Machine.stack, size] using h3
      others := by
        rintro r (rfl | rfl | rfl) <;> simp [Op.effect]
      seg := rfl
      eflags := rfl }

/-- The rest of a stub. -/
theorem stub_returns (c : Cpu) {w back b : BitVec 32}
    (hstands : Stands text m.eip [.op (.pop (.reg .ebx)), .ret] b)
    (hws : Holds m.mem (m.reg .esp) [w, back]) :
    Reaches c text m (((m.set .ebx w).set .esp (m.reg .esp + 8)).goto back) := by
  obtain ⟨next, hpop, next', hret, -⟩ := hstands
  have hw : m.stack 0 = w := stack_of_holds hws 0 (by simp)
  have hback : load m.mem (m.reg .esp + 4) = back := hws.2.1
  have hfirst : Reaches c text m (((m.set .esp (m.reg .esp + 4)).set .ebx w).goto next) :=
    reaches_one hpop (by rw [Instr.exec, Op.effect, hw]; rfl)
  refine hfirst.trans (reaches_one hret ?_)
  refine congrArg some (Machine.ext (funext fun r => ?_) rfl ?_ rfl rfl rfl)
  · by_cases hsp : r = .esp
    · subst hsp
      simp [BitVec.add_assoc]
    · simp [hsp]
  · simpa [Machine.stack] using hback

/-- The machines on the way of a call: `s` in front of `int`, `m₁` at the start of the handler, and
`m₂` at the start of the function. -/
structure CallPath (sym : Symbols) (esp0 : BitVec 32) (text : Text) (l : SycHandler)
    (addr : SystemCall → BitVec 32) (n : SystemCall) (back a₁ a₂ a₃ b : BitVec 32)
    (m s m₁ m₂ : Machine) (next ret : BitVec 32) : Prop
    extends Pushed m₁ m₂ (ret :: sycWords m₁) where
  reaches : Reaches (kernelCpu sym esp0) text m m₂
  done : StubDone m s n.number back a₁ a₂ a₃
  rest : Stands text next [.op (.pop (.reg .ebx)), .ret] b
  entered : InKernel esp0 s m₁ (sym.handler .sycHandler) (trapWords s next)
  eip : m₂.eip = addr n
  jmp : Stands text ret [.jmp l.endSystemCall] l.invalidCallnum

theorem StubDone.cpl {s : Machine} {number back a₁ a₂ a₃ : BitVec 32}
    (h : StubDone m s number back a₁ a₂ a₃) : s.cpl = m.cpl := by
  rw [Machine.cpl, h.seg]
  rfl

/-- A stub gets to the handler. -/
theorem stub_enters {n : SystemCall} {back a₁ a₂ a₃ b : BitVec 32} (sym : Symbols)
    (esp0 : BitVec 32) (hcpl : m.cpl = 3) (hstub : Stands text m.eip (doCall n.number) b)
    (hargs : Holds m.mem (m.reg .esp) [back, a₁, a₂, a₃]) :
    ∃ s m₁ next, Reaches (kernelCpu sym esp0) text m m₁ ∧ StubDone m s n.number back a₁ a₂ a₃ ∧
      Stands text next [.op (.pop (.reg .ebx)), .ret] b ∧
      InKernel esp0 s m₁ (sym.handler .sycHandler) (trapWords s next) ∧
      m₁.reg .eax = n.number ∧ m₁.seg .ds = m.seg .ds := by
  obtain ⟨s, hs, hdone, next, hint, hrest⟩ := stub_reaches (kernelCpu sym esp0) hstub hargs
  obtain ⟨m₁, hentry, hin⟩ := syscall_enters sym esp0 (hdone.cpl.trans hcpl) next
  exact ⟨s, m₁, next, hs.trans (reaches_one hint hentry), hdone, hrest, hin,
    (hin.reg .eax (by decide)).trans hdone.eax, hin.ds.trans (congrFun hdone.seg .ds)⟩

/-- A stub gets to the function of its number. -/
theorem stub_calls {addr : SystemCall → BitVec 32} {n : SystemCall} {back a₁ a₂ a₃ b : BitVec 32}
    (hl : l.Linked text (sym.handler .sycHandler)) (hready : CallReady sym esp0 l addr m)
    (hstub : Stands text m.eip (doCall n.number) b)
    (hargs : Holds m.mem (m.reg .esp) [back, a₁, a₂, a₃]) :
    ∃ s m₁ m₂ next ret,
      CallPath sym esp0 text l addr n back a₁ a₂ a₃ b m s m₁ m₂ next ret := by
  obtain ⟨s, m₁, next, hentry, hdone, hrest, hin, heax, hds⟩ :=
    stub_enters sym esp0 hready.cpl hstub hargs
  have hesp₁ : m₁.reg .esp = esp0 - 20 := hin.esp
  -- the table is below neither stack
  have htable : Holds m₁.mem l.sycJumptable (sycJumptable addr) := by
    refine hready.table.congr (by simp [sycJumptable]) fun x hx => ?_
    obtain ⟨hkernel, huser⟩ := hready.table_apart x hx
    have htrap : ¬Within (esp0 - size 5) (4 * 5) x := fun h =>
      hkernel (Within.below (k := 18) h (by decide) (by decide))
    rw [hin.toStacked.frame (by simp [trapWords]) htrap, hdone.toStacked.frame (by simp) huser]
  have hapart : ∀ x, Within l.sycJumptable 44 x → ¬Within (m₁.reg .esp - 48) 48 x := by
    intro x hx h
    have hsum : m₁.reg .esp - 48 = esp0 - 72 + 4 := by
      rw [hesp₁]
      ring
    rw [hsum] at h
    exact (hready.table_apart x hx).1 ((Within.shift (k := 4) h (by decide)).mono (by decide))
  have hbase : (kernelCpu sym esp0).base (m.seg .ds) = 0 :=
    hready.segments.base (.inl rfl) hready.data
  obtain ⟨m₂, ret, hcall, hpushed, heip, hret⟩ :=
    call_reaches (kernelCpu sym esp0) hl hin.eip heax (by rw [hds]; exact hready.data)
      (by rw [hds]; exact hbase) htable hapart
  exact ⟨s, m₁, m₂, next, ret, hpushed, hentry.trans hcall, hdone, hrest, hin, heip, hret⟩

/-- **A system call without a data segment.** The function is not called: the handler cannot read
the jump table, and the processor gets to the handler of general-protection exceptions, still on the
kernel's stack. -/
theorem null_call {n : SystemCall} {back a₁ a₂ a₃ b : BitVec 32}
    (hl : l.Linked text (sym.handler .sycHandler)) (hcpl : m.cpl = 3) (hnull : IsNull (m.seg .ds))
    (hstub : Stands text m.eip (doCall n.number) b)
    (hargs : Holds m.mem (m.reg .esp) [back, a₁, a₂, a₃]) :
    ∃ m', Reaches (kernelCpu sym esp0) text m m' ∧ m'.eip = sym.handler .gp ∧ m'.stack 0 = 0 ∧
      m'.cpl = 0 ∧ m'.reg .esp = esp0 - 84 ∧
      ∀ x, ¬Within (esp0 - 84) 84 x → ¬Within (m.reg .esp - 4) 4 x → m'.mem x = m.mem x := by
  obtain ⟨s, m₁, next, hentry, hdone, -, hin, heax, hds⟩ := stub_enters sym esp0 hcpl hstub hargs
  have hring : m₁.cpl = 0 := (congrArg ring hin.cs).trans rfl
  obtain ⟨m₂, m₃, hreaches, hpushed, hat⟩ :=
    fault_reaches sym esp0 hl hin.eip heax hring (by rw [hds]; exact hnull)
  have hring₂ : m₂.cpl = 0 := by
    rw [Machine.cpl, hpushed.seg]
    exact hring
  have hfault := hat.toStacked
  rw [interruptStack, if_pos hring₂, interruptWords, if_pos hring₂] at hfault
  have hall := (hin.toStacked.push hpushed.toStacked).push hfault
  refine ⟨m₃, hentry.trans hreaches, hat.eip, ?_, (congrArg ring hat.cs).trans rfl, hall.esp,
    fun x hkernel huser => ?_⟩
  · exact stack_of_holds (hfault.words (by simp)) 0 (by simp)
  · rw [hall.frame (by simp [sycWords, savedWords, trapWords]) hkernel,
      hdone.toStacked.frame (by simp) huser]

namespace CallPath

variable {addr : SystemCall → BitVec 32} {n : SystemCall} {back a₁ a₂ a₃ b next ret : BitVec 32}
  {s : Machine}

/-- All that is on the kernel's stack. -/
theorem stacked (h : CallPath sym esp0 text l addr n back a₁ a₂ a₃ b m s m₁ m₂ next ret) :
    Stacked s m₂ esp0 ([ret] ++ sycWords m₁ ++ trapWords s next) :=
  h.entered.toStacked.push h.toStacked

theorem words (h : CallPath sym esp0 text l addr n back a₁ a₂ a₃ b m s m₁ m₂ next ret) :
    Holds m₂.mem (m₂.reg .esp) [ret, a₁, a₂, a₃] ∧
      Holds m₂.mem (m₂.reg .esp + 16) (savedWords m₁ ++ trapWords s next) := by
  obtain ⟨hcallWords, hsaved⟩ : Holds m₂.mem (m₂.reg .esp)
        [ret, m₁.reg .ebx, m₁.reg .ecx, m₁.reg .edx] ∧
      Holds m₂.mem (m₂.reg .esp + 16) (savedWords m₁ ++ trapWords s next) :=
    holds_append.mp (h.stacked.words (by simp [sycWords, savedWords, trapWords]))
  have hin := h.entered
  rw [hin.reg .ebx (by decide), hin.reg .ecx (by decide), hin.reg .edx (by decide), h.done.ebx,
    h.done.ecx, h.done.edx] at hcallWords
  exact ⟨hcallWords, hsaved⟩

/-- The arguments of the function are those of the stub. -/
theorem args (h : CallPath sym esp0 text l addr n back a₁ a₂ a₃ b m s m₁ m₂ next ret) :
    m₂.stack 4 = a₁ ∧ m₂.stack 8 = a₂ ∧ m₂.stack 12 = a₃ :=
  ⟨stack_of_holds h.words.1 1 (by simp), stack_of_holds h.words.1 2 (by simp),
    stack_of_holds h.words.1 3 (by simp)⟩

theorem esp_eq (h : CallPath sym esp0 text l addr n back a₁ a₂ a₃ b m s m₁ m₂ next ret) :
    m₂.reg .esp = esp0 - 72 := h.stacked.esp

/-- The function runs in ring 0 with interrupts off. -/
theorem state (h : CallPath sym esp0 text l addr n back a₁ a₂ a₃ b m s m₁ m₂ next ret) :
    m₂.cpl = 0 ∧ m₂.eflags.getLsbD 9 = false ∧
      m₂.eflags.getLsbD 10 = m.eflags.getLsbD 10 := by
  have hflags : ∀ i, i = 9 ∨ i = 10 ∨ i = 14 →
      m₂.eflags.getLsbD i = (m.eflags &&& ~~~(0x34300 : BitVec 32)).getLsbD i := by
    intro i hi
    rw [h.flags i hi, h.entered.eflags, h.done.eflags]
  refine ⟨?_, ?_, ?_⟩
  · rw [Machine.cpl, h.seg, h.entered.cs]
    rfl
  · rw [hflags 9 (.inl rfl)]
    exact (getLsbD_mask _).2.1
  · rw [hflags 10 (.inr (.inl rfl))]
    exact (getLsbD_mask _).2.2

/-- The memory is otherwise as it was. -/
theorem frame (h : CallPath sym esp0 text l addr n back a₁ a₂ a₃ b m s m₁ m₂ next ret)
    {x : BitVec 32} (hkernel : ¬Within (esp0 - 72) 72 x) (huser : ¬Within (m.reg .esp - 4) 4 x) :
    m₂.mem x = m.mem x := by
  rw [h.stacked.frame (by simp [sycWords, savedWords, trapWords]) hkernel,
    h.done.toStacked.frame (by simp) huser]

/-- When the function returns, and the words on both stacks are still there, the stub returns. -/
theorem comes_back (h : CallPath sym esp0 text l addr n back a₁ a₂ a₃ b m s m₁ m₂ next ret)
    (hl : l.Linked text (sym.handler .sycHandler)) (hready : CallReady sym esp0 l addr m)
    (hback : m.stack 0 = back) {r : Machine} (hreturns : Returns m₂ r)
    (hkept : ∀ x, Within (esp0 - 56) 56 x ∨ Within (m.reg .esp - 4) 8 x → r.mem x = m₂.mem x) :
    ∃ m', Reaches (kernelCpu sym esp0) text r m' ∧ Returns m m' ∧
      m'.reg .eax = r.reg .eax ∧ m'.eflags = m.eflags ∧ m'.mem = r.mem := by
  have hsaved : Holds r.mem (r.reg .esp + 12) (savedWords m₁ ++ trapWords s next) := by
    have hsum : r.reg .esp + 12 = m₂.reg .esp + 16 := by
      rw [hreturns.esp]
      ring
    have htop : m₂.reg .esp + 16 = esp0 - 56 := by
      rw [h.esp_eq]
      ring
    rw [hsum]
    refine h.words.2.congr (by simp [savedWords, trapWords]) fun x hx => hkept x (.inl ?_)
    rw [← htop]
    exact hx
  have heip : r.eip = ret := hreturns.eip.trans (stack_of_holds h.words.1 0 (by simp))
  have hcplr : r.cpl = 0 := by
    rw [Machine.cpl, hreturns.seg]
    exact h.state.1
  have hvm : s.eflags.getLsbD 17 = false := by
    rw [h.done.eflags]
    exact hready.vm
  have hseg : UserSegments sym s := by
    intro g hg
    rw [h.done.seg]
    exact hready.segments g hg
  obtain ⟨b', hjmp, -⟩ := h.jmp
  rw [← heip] at hjmp
  have hend := @end_reaches _ _ _ _ _ m₁ (r.goto l.endSystemCall) hl next
    (h.done.cpl.trans hready.cpl) hvm hseg h.entered rfl hcplr hsaved
  have hesp : s.reg .esp = m.reg .esp - 4 := h.done.esp
  have hstubWords : Holds r.mem (s.reg .esp) [m.reg .ebx, back] := by
    refine h.done.words.congr (by simp) fun x hx => ?_
    have hx' : Within (m.reg .esp - 4) 8 x := by rwa [hesp] at hx
    rw [hkept x (.inr hx'), h.stacked.frame (by simp [sycWords, savedWords, trapWords])
      fun hin => hready.stack_apart x hin hx']
  have hret := stub_returns (kernelCpu sym esp0) (m := { s with
    reg := Function.update s.reg .eax (r.reg .eax), eip := next, cr2 := r.cr2, mem := r.mem })
    h.rest hstubWords
  refine ⟨_, ((reaches_one hjmp rfl).trans hend).trans hret, ?_, by simp, h.done.eflags, rfl⟩
  have hesp' : s.reg .esp + 8 = m.reg .esp + 4 := by
    rw [hesp]
    ring
  exact
    { eip := hback.symm
      esp := by simpa using hesp'
      ebx := by simp
      esi := by simpa using h.done.others .esi (by simp)
      edi := by simpa using h.done.others .edi (by simp)
      ebp := by simpa using h.done.others .ebp (by simp)
      seg := h.done.seg }

end CallPath

/-- **A system call.** In a program with a data segment a stub calls the function of its number in
the kernel with its own arguments, on the kernel's stack and with interrupts off. When the function
returns, and has left alone what the handler and the stub have on their stacks, the stub returns:
for the program it is a function in C that returns what the kernel's function does. -/
theorem system_call {addr : SystemCall → BitVec 32} {n : SystemCall} {back a₁ a₂ a₃ b : BitVec 32}
    (hl : l.Linked text (sym.handler .sycHandler)) (hready : CallReady sym esp0 l addr m)
    (hstub : Stands text m.eip (doCall n.number) b)
    (hargs : Holds m.mem (m.reg .esp) [back, a₁, a₂, a₃]) :
    ∃ m', Reaches (kernelCpu sym esp0) text m m' ∧
      (m'.eip = addr n ∧ m'.stack 4 = a₁ ∧ m'.stack 8 = a₂ ∧ m'.stack 12 = a₃) ∧
      (m'.cpl = 0 ∧ m'.eflags.getLsbD 9 = false ∧ m'.eflags.getLsbD 10 = m.eflags.getLsbD 10) ∧
      (∀ x, ¬Within (esp0 - 72) 72 x → ¬Within (m.reg .esp - 4) 4 x → m'.mem x = m.mem x) ∧
      ∀ r, Returns m' r →
        (∀ x, Within (esp0 - 56) 56 x ∨ Within (m.reg .esp - 4) 8 x → r.mem x = m'.mem x) →
        ∃ m'', Reaches (kernelCpu sym esp0) text r m'' ∧ Returns m m'' ∧
          m''.reg .eax = r.reg .eax ∧ m''.eflags = m.eflags ∧ m''.mem = r.mem := by
  obtain ⟨s, m₁, m₂, next, ret, hpath⟩ := stub_calls hl hready hstub hargs
  exact ⟨m₂, hpath.reaches, ⟨hpath.eip, hpath.args⟩, hpath.state, fun x => hpath.frame,
    fun r => hpath.comes_back hl hready (stack_of_holds hargs 0 (by simp))⟩

/-! ### A small text -/

/-- The handler behind 0x400000, with its table at 0x600000. -/
def sampleHandler : SycHandler := ⟨0x400012, 0x400013, 0x600000⟩

/-- The functions of the kernel. -/
def sampleAddr (n : SystemCall) : BitVec 32 := 0x700000 + n.number

/-- The handler, and the stub of `read` at 0x8048000. -/
def sampleText : Text := fun a =>
  let kernel := sampleHandler.start ++ SycHandler.invalid ++ SycHandler.finish
  if a.toNat < 0x8000000 then (kernel[a.toNat - 0x400000]?).map fun i => (i, a + 1)
  else ((doCall 3)[a.toNat - 0x8048000]?).map fun i => (i, a + 1)

theorem sampleText_linked :
    sampleHandler.Linked sampleText (sampleSymbols.handler .sycHandler) where
  start := stands_of_forall sampleHandler.start (by decide)
  invalid := stands_of_forall SycHandler.invalid (by decide)
  finish := ⟨_, stands_of_forall SycHandler.finish (by decide)⟩

/-- A program that is about to call `ece391_read (5, 0x8000000, 10)`, with its table. -/
def sampleCaller : Machine :=
  { sampleProgram with
    mem := pushed (pushed (fun _ => 0) 0x60002C (sycJumptable sampleAddr)) 0x8400000
      [0x8048100, 5, 0x8000000, 10] }

theorem sampleCaller_ready :
    CallReady sampleSymbols 0x7FFFFC sampleHandler sampleAddr sampleCaller where
  cpl := by decide
  vm := by decide
  segments := by
    rintro s (rfl | rfl) <;> decide
  data := by decide
  table := by
    have htable : Holds (pushed (fun _ => 0) 0x60002C (sycJumptable sampleAddr)) 0x600000
        (sycJumptable sampleAddr) := holds_pushed (by simp [sycJumptable])
    refine htable.congr (by simp [sycJumptable]) fun x hx => pushed_of_not_within (by decide) ?_
    exact not_within_of_le (n := 44) (by decide) (by decide) hx
  table_apart x hx :=
    ⟨not_within_of_le (by decide) (by decide) hx, not_within_of_le (by decide) (by decide) hx⟩
  stack_apart x hx := not_within_of_le (by decide) (by decide) hx

theorem system_call_sample :
    ∃ m', Reaches (kernelCpu sampleSymbols 0x7FFFFC) sampleText sampleCaller m' ∧
      m'.eip = sampleAddr .read ∧ m'.stack 4 = 5 ∧ m'.stack 8 = 0x8000000 ∧ m'.stack 12 = 10 ∧
      m'.cpl = 0 := by
  have hargs : Holds sampleCaller.mem (sampleCaller.reg .esp) [0x8048100, 5, 0x8000000, 10] :=
    holds_pushed (by decide)
  have hstub : Stands sampleText sampleCaller.eip (doCall SystemCall.read.number) 0x8048008 :=
    stands_of_forall (doCall 3) (by decide)
  obtain ⟨m', hreaches, ⟨heip, h4, h8, h12⟩, ⟨hcpl, -⟩, -⟩ :=
    system_call sampleText_linked sampleCaller_ready hstub hargs
  exact ⟨m', hreaches, heip, h4, h8, h12, hcpl⟩

/-- A program that calls a function with the number 11. -/
def sampleInvalid : Machine :=
  { sampleProgram with
    reg := fun r => if r = .esp then 0x83FFFF0 else 11
    eip := 0x8048005 }

theorem invalid_call_sample :
    ∃ mem, Reaches (kernelCpu sampleSymbols 0x7FFFFC) sampleText sampleInvalid
      { sampleInvalid with
        reg := Function.update sampleInvalid.reg .eax (-1)
        eip := 0x8048006
        mem := mem } := by
  have hsegments : UserSegments sampleSymbols sampleInvalid := by
    rintro s (rfl | rfl) <;> decide
  obtain ⟨mem, hreaches, -⟩ := @invalid_call sampleText sampleInvalid sampleHandler sampleSymbols
    0x7FFFFC sampleText_linked 0x8048006 (by decide) (by decide) (by decide) hsegments (by decide)
  exact ⟨mem, hreaches⟩

end LinuxLikeKernel
