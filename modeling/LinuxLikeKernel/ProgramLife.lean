import LinuxLikeKernel.SystemCallPath

/-!
# Into a program and out of it

The instructions at the end of `execute`, and `_start` of `ece391syscall.S`, which calls `main` and
gives what that returns to `ece391_halt`. A program starts without data segments, and `halt` is
called only for one that has got itself one.

## Main definitions

- `enterProgram`, `startProgram` — the code
- `MainReturns` — `main` has returned
- `ExitReady` — what the end of a program relies on

## Main results

- `program_life` — from `execute` to the start of `main`, and from its end to `halt` in the kernel,
  or to a general-protection exception
-/

namespace LinuxLikeKernel
open Interrupts StackWords

/-- The end of `execute`. The entry point is in a register of the compiler's choice. -/
def enterProgram (entrypoint : Reg) : List Instr :=
  [.op (.push (.imm 0x002B)),
    .op (.push (.imm 0x83FFFFC)),
    .op (.push .flags),
    .op (.pop (.reg .eax)),
    .op (.orl 0x200 .eax),
    .op (.push (.reg .eax)),
    .op (.push (.imm 0x0023)),
    .op (.push (.reg entrypoint)),
    .iret]

/-- `_start`, behind its label. -/
def startProgram (main ece391Halt : BitVec 32) : List Instr :=
  [.call main,
    .op (.push (.imm 0)),
    .op (.push (.imm 0)),
    .op (.push (.reg .eax)),
    .call ece391Halt]

variable {sym : Symbols} {text : Text} {m r : Machine} {esp0 b main ece391Halt : BitVec 32}
  {entrypoint : Reg}

/-! ### The start -/

/-- The flags that a program starts with. -/
def startFlags (m : Machine) : BitVec 32 := m.eflags &&& 0xFCFFFF ||| 0x200

/-- The instructions that set IF in the flags. -/
theorem raise_flags (m : Machine) :
    let p := [Op.push .flags, .pop (.reg .eax), .orl 0x200 .eax].foldl Op.effect m
    p.reg .eax = startFlags m ∧ p.reg .esp = m.reg .esp ∧
      (∀ q, q ≠ .eax → q ≠ .esp → p.reg q = m.reg q) ∧
      p.mem = pushed m.mem (m.reg .esp) [m.eflags &&& 0xFCFFFF] ∧ p.seg = m.seg ∧
      p.eflags.getLsbD 14 = m.eflags.getLsbD 14 := by
  have hflags : (m.pushes [m.eflags &&& 0xFCFFFF]).stack 0 = m.eflags &&& 0xFCFFFF :=
    stack_of_holds ((pushed_pushes m _).toStacked.words (by simp)) 0 (by simp)
  have hesp : (m.pushes [m.eflags &&& 0xFCFFFF]).reg .esp + 4 = m.reg .esp := by
    rw [Machine.pushes_reg, if_pos rfl]
    exact BitVec.sub_add_cancel ..
  simp only [List.foldl_cons, List.foldl_nil, Op.effect, Source.value, Dest.write, hflags, hesp]
  refine ⟨?_, ?_, fun q hax hsp => ?_, rfl, rfl, ?_⟩
  · simp [startFlags]
  · simp
  · simp [hax, hsp]
  · simp [Machine.setStatus, status, getElem_flag]

/-- The machine in front of the `iret` of `execute`. -/
theorem enter_reaches (c : Cpu) (hstands : Stands text m.eip (enterProgram entrypoint) b)
    (hax : entrypoint ≠ .eax) (hsp : entrypoint ≠ .esp) (hnt : m.eflags.getLsbD 14 = false) :
    ∃ m' next, Reaches c text m m' ∧ text m'.eip = some (.iret, next) ∧
      Stacked m m' (m.reg .esp) [m.reg entrypoint, 0x23, startFlags m, 0x83FFFFC, 0x2B] ∧
      m'.seg = m.seg ∧ m'.eflags.getLsbD 14 = false := by
  obtain ⟨a, ⟨next, htext, -⟩, hreaches⟩ := reaches_ops (c := c) ([.push (.imm 0x002B),
    .push (.imm 0x83FFFFC)] ++ ([.push .flags, .pop (.reg .eax), .orl 0x200 .eax] ++
      [.push (.reg .eax), .push (.imm 0x0023), .push (.reg entrypoint)])) hstands
  rw [List.foldl_append, List.foldl_append] at hreaches
  have htop := (pushed_pushes m [0x2B]).toStacked.push (pushed_pushes _ [0x83FFFFC]).toStacked
  obtain ⟨heax, hesp, hothers, hmem, hseg, hnt'⟩ :=
    raise_flags ([Op.push (.imm 0x002B), .push (.imm 0x83FFFFC)].foldl Op.effect m)
  generalize [Op.push .flags, .pop (.reg .eax), .orl 0x200 .eax].foldl Op.effect
    ([Op.push (.imm 0x002B), .push (.imm 0x83FFFFC)].foldl Op.effect m) = p at *
  have hflags : Stacked m (p.pushes [p.reg .eax]) (m.reg .esp) [startFlags m, 0x83FFFFC, 0x2B] := by
    -- the flags are pushed over the word that they were popped from
    have hpush : Stacked m _ (m.reg .esp) [startFlags m, 0x83FFFFC, 0x2B] :=
      htop.push (pushed_pushes _ [startFlags m]).toStacked
    refine ⟨?_, ?_⟩
    · rw [← hpush.mem, Machine.pushes_mem, hmem, hesp, heax]
      exact store_store
    · rw [← hpush.esp, Machine.pushes_reg, Machine.pushes_reg, hesp, if_pos rfl, if_pos rfl]
      rfl
  have hentry : ((p.pushes [p.reg .eax]).pushes [0x23]).reg entrypoint = m.reg entrypoint := by
    rw [Machine.pushes_reg, if_neg hsp, Machine.pushes_reg, if_neg hsp, hothers entrypoint hax hsp]
    simp [Op.effect, hsp]
  have hall := (hflags.push (pushed_pushes _ [0x23]).toStacked).push (pushed_pushes _
    [((p.pushes [p.reg .eax]).pushes [0x23]).reg entrypoint]).toStacked
  refine ⟨_, next, hreaches, htext, ?_, hseg, hnt'.trans hnt⟩
  rw [← hentry]
  exact ⟨hall.mem, hall.esp⟩

/-- What a program starts with. The kernel's data segments are taken away. -/
structure Started (c : Cpu) (m m' : Machine) : Prop where
  cs : m'.seg .cs = userCs
  ss : m'.seg .ss = userDs
  data : ∀ s, s = .ds ∨ s = .es → m'.seg s = c.outward 3 (m.seg s)
  eflags : m'.eflags = startFlags m

/-- To the entry point. -/
theorem entry_reaches (c : Cpu) (hstands : Stands text m.eip (enterProgram entrypoint) b)
    (hax : entrypoint ≠ .eax) (hsp : entrypoint ≠ .esp) (hcpl : m.cpl = 0)
    (hnt : m.eflags.getLsbD 14 = false) :
    ∃ m', Reaches c text m m' ∧ Started c m m' ∧ m'.eip = m.reg entrypoint ∧
      m'.reg .esp = 0x83FFFFC ∧ ∀ x, ¬Within (m.reg .esp - 20) 20 x → m'.mem x = m.mem x := by
  obtain ⟨m₁, next, hreaches, htext, hstack, hseg, hnt₁⟩ := enter_reaches c hstands hax hsp hnt
  have hcpl₁ : m₁.cpl = 0 := by
    rw [Machine.cpl, hseg]
    exact hcpl
  have hvm : (startFlags m).getLsbD 17 = false := by simp [startFlags]
  have hiret := iret_outward c hcpl₁ hnt₁ (hstack.words (by simp)) hvm (by decide)
  refine ⟨_, hreaches.trans (reaches_one htext hiret), ⟨rfl, rfl, ?_, rfl⟩, rfl,
    by simp, fun x hx => hstack.frame (by simp) hx⟩
  rintro s (rfl | rfl) <;> exact congrArg (fun g : Seg → BitVec 16 => c.outward 3 (g _)) hseg

/-- To the start of `main`. -/
theorem main_reaches (c : Cpu) {b' : BitVec 32}
    (henter : Stands text m.eip (enterProgram entrypoint) b') (hax : entrypoint ≠ .eax)
    (hsp : entrypoint ≠ .esp) (hcpl : m.cpl = 0) (hnt : m.eflags.getLsbD 14 = false)
    (hstart : Stands text (m.reg entrypoint) (startProgram main ece391Halt) b) :
    ∃ m', Reaches c text m m' ∧ Started c m m' ∧ m'.eip = main ∧ m'.reg .esp = 0x83FFFF8 ∧
      Stands text (m'.stack 0) [.op (.push (.imm 0)), .op (.push (.imm 0)), .op (.push (.reg .eax)),
        .call ece391Halt] b ∧
      ∀ x, ¬Within (m.reg .esp - 20) 20 x → ¬Within 0x83FFFF8 4 x → m'.mem x = m.mem x := by
  obtain ⟨m₁, hreaches, ⟨hcs, hss, hdata, hflags⟩, heip, hesp, hframe⟩ :=
    entry_reaches c henter hax hsp hcpl hnt
  rw [← heip] at hstart
  obtain ⟨back, hcall, hrest⟩ := hstart
  have hpush := (pushed_pushes m₁ [back]).toStacked
  have hback : (m₁.pushes [back]).stack 0 = back :=
    stack_of_holds (hpush.words (by simp)) 0 (by simp)
  have htop : (0x83FFFFC : BitVec 32) - size 1 = 0x83FFFF8 := by decide
  rw [hesp] at hpush
  refine ⟨(m₁.pushes [back]).goto main, hreaches.trans (reaches_one hcall rfl),
    ⟨hcs, hss, hdata, hflags⟩, rfl, hpush.esp.trans htop, ?_, fun x hkernel huser => ?_⟩
  · change Stands text ((m₁.pushes [back]).stack 0) _ b
    rw [hback]
    exact hrest
  · rw [← htop] at huser
    exact (hpush.frame (by simp) huser).trans (hframe x hkernel)

/-! ### The end -/

/-- `main` has returned: to its caller, with the stack as it was. Its data segments are any that a
program may have. -/
structure MainReturns (sym : Symbols) (m r : Machine) : Prop where
  eip : r.eip = m.stack 0
  esp : r.reg .esp = m.reg .esp + 4
  cs : r.seg .cs = m.seg .cs
  segments : UserSegments sym r
  vm : r.eflags.getLsbD 17 = false

/-- What the end of a program relies on: the kernel's table is in memory, and neither that nor the
part of the program's stack that is used is where the kernel's stack will be. -/
structure ExitReady (esp0 : BitVec 32) (l : SycHandler) (addr : SystemCall → BitVec 32)
    (r : Machine) : Prop where
  table : Holds r.mem l.sycJumptable (sycJumptable addr)
  table_apart : ∀ x, Within l.sycJumptable 44 x →
    ¬Within (esp0 - 72) 72 x ∧ ¬Within (r.reg .esp - 20) 20 x
  stack_apart : ∀ x, Within (esp0 - 72) 72 x → ¬Within (r.reg .esp - 20) 20 x

/-- From where `main` returns to the stub of `halt`. -/
theorem exit_reaches (c : Cpu) (hrest : Stands text r.eip [.op (.push (.imm 0)),
      .op (.push (.imm 0)), .op (.push (.reg .eax)), .call ece391Halt] b) :
    ∃ s back, Reaches c text r s ∧ s.eip = ece391Halt ∧ s.seg = r.seg ∧ s.eflags = r.eflags ∧
      Stacked r s (r.reg .esp) [back, r.reg .eax, 0, 0] := by
  obtain ⟨a, ⟨back, hcall, -⟩, hreaches⟩ := reaches_ops (c := c)
    ([.imm 0, .imm 0, .reg .eax].map .push) hrest
  rw [foldl_push _ (by decide)] at hreaches
  have hstack := (pushed_pushes r [r.reg .eax, 0, 0]).toStacked.push
    (pushed_pushes _ [back]).toStacked
  exact ⟨_, back, hreaches.trans (reaches_one hcall rfl), rfl, rfl, rfl, hstack.mem, hstack.esp⟩

/-- From there to `halt` in the kernel. -/
theorem halt_reaches {l : SycHandler} {addr : SystemCall → BitVec 32} {b' back : BitVec 32}
    {s : Machine} (hl : l.Linked text (sym.handler .sycHandler)) (hready : ExitReady esp0 l addr r)
    (hcpl : s.cpl = 3) (hvm : s.eflags.getLsbD 17 = false) (hseg : UserSegments sym s)
    (hdata : ¬IsNull (s.seg .ds)) (hstack : Stacked r s (r.reg .esp) [back, r.reg .eax, 0, 0])
    (hhalt : Stands text s.eip (doCall SystemCall.halt.number) b') :
    ∃ m', Reaches (kernelCpu sym esp0) text s m' ∧ m'.eip = addr .halt ∧
      m'.stack 4 = r.reg .eax ∧ m'.cpl = 0 ∧ m'.eflags.getLsbD 9 = false ∧
      ∀ x, ¬Within (esp0 - 72) 72 x → ¬Within (r.reg .esp - 20) 20 x → m'.mem x = r.mem x := by
  have hesp : s.reg .esp = r.reg .esp - 16 := hstack.esp
  have hlow : s.reg .esp - 4 = r.reg .esp - 20 := by
    rw [hesp]
    ring
  have hframe : ∀ x, ¬Within (r.reg .esp - 20) 20 x → s.mem x = r.mem x := fun x hx =>
    hstack.frame (by simp) fun h => hx (Within.below (n := 4) (k := 5) h (by decide) (by decide))
  have hcall : CallReady sym esp0 l addr s :=
    { cpl := hcpl
      vm := hvm
      segments := hseg
      data := hdata
      table := hready.table.congr (by simp [sycJumptable]) fun x hx =>
        hframe x (hready.table_apart x hx).2
      table_apart := fun x hx => by
        rw [hlow]
        obtain ⟨hkernel, huser⟩ := hready.table_apart x hx
        exact ⟨hkernel, fun h => huser (h.mono (by decide))⟩
      stack_apart := fun x hx => by
        rw [hlow]
        exact fun h => hready.stack_apart x hx (h.mono (by decide)) }
  obtain ⟨_, _, m', _, _, hpath⟩ := stub_calls hl hcall hhalt (hstack.words (by simp))
  obtain ⟨hring, hif, -⟩ := hpath.state
  refine ⟨m', hpath.reaches, hpath.eip, hpath.args.1, hring, hif, fun x hkernel huser => ?_⟩
  have hstub : ¬Within (s.reg .esp - 4) 4 x := by
    rw [hlow]
    exact fun h => huser (h.mono (by decide))
  rw [hpath.frame hkernel hstub, hframe x huser]

/-- **A program.** The end of `execute` gets to the start of `main`: in ring 3, on an empty stack at
the end of the program's page, with interrupts on and without data segments, since those of the
kernel are taken away. Where `main` returns with a data segment of its own, the kernel's `halt` is
called with what it returned; without one, the system call is a general-protection exception. -/
theorem program_life {l : SycHandler} {addr : SystemCall → BitVec 32} {b₁ b₂ : BitVec 32}
    (hl : l.Linked text (sym.handler .sycHandler))
    (henter : Stands text m.eip (enterProgram entrypoint) b₁) (hax : entrypoint ≠ .eax)
    (hsp : entrypoint ≠ .esp) (hcpl : m.cpl = 0) (hnt : m.eflags.getLsbD 14 = false)
    (hdata : ∀ s, s = .ds ∨ s = .es → m.seg s = kernelDs)
    (hstart : Stands text (m.reg entrypoint) (startProgram main ece391Halt) b)
    (hhalt : Stands text ece391Halt (doCall SystemCall.halt.number) b₂) :
    ∃ m', Reaches (kernelCpu sym esp0) text m m' ∧
      (m'.eip = main ∧ m'.reg .esp = 0x83FFFF8 ∧ m'.eflags.getLsbD 9 = true) ∧
      (m'.seg .cs = userCs ∧ m'.seg .ss = userDs ∧ m'.seg .ds = 0 ∧ m'.seg .es = 0) ∧
      (∀ x, ¬Within (m.reg .esp - 20) 20 x → ¬Within 0x83FFFF8 4 x → m'.mem x = m.mem x) ∧
      ∀ r, MainReturns sym m' r →
        (IsNull (r.seg .ds) → ∃ m'', Reaches (kernelCpu sym esp0) text r m'' ∧
          m''.eip = sym.handler .gp ∧ m''.stack 0 = 0 ∧ m''.cpl = 0) ∧
        (¬IsNull (r.seg .ds) → ExitReady esp0 l addr r →
          ∃ m'', Reaches (kernelCpu sym esp0) text r m'' ∧ m''.eip = addr .halt ∧
            m''.stack 4 = r.reg .eax ∧ m''.cpl = 0 ∧ m''.eflags.getLsbD 9 = false ∧
            ∀ x, ¬Within (esp0 - 72) 72 x → ¬Within 0x83FFFE8 20 x → m''.mem x = r.mem x) := by
  obtain ⟨m', hreaches, hstarted, heip, hesp, hrest, hframe⟩ :=
    main_reaches (kernelCpu sym esp0) henter hax hsp hcpl hnt hstart
  have hnull : ∀ s, s = .ds ∨ s = .es → m'.seg s = 0 := by
    intro s hs
    have hdpl : (kernelCpu sym esp0).dpl kernelDs = 0 := by
      simp [kernelCpu_dpl, selectorDpl, gdt]
    rw [hstarted.data s hs, hdata s hs, Cpu.outward, hdpl]
    decide
  have hif : m'.eflags.getLsbD 9 = true := by
    rw [hstarted.eflags]
    simp [startFlags]
  refine ⟨m', hreaches, ⟨heip, hesp, hif⟩, ⟨hstarted.cs, hstarted.ss, hnull .ds (.inl rfl),
    hnull .es (.inr rfl)⟩, hframe, fun r hreturns => ?_⟩
  rw [← hreturns.eip] at hrest
  obtain ⟨s, back, hexit, hstub, hsegs, hflags, hstack⟩ :=
    exit_reaches (kernelCpu sym esp0) hrest
  rw [← hstub] at hhalt
  have hcpls : s.cpl = 3 := by
    rw [Machine.cpl, hsegs, hreturns.cs, hstarted.cs]
    rfl
  have hargs := hstack.words (by simp)
  refine ⟨fun hds => ?_, fun hds hready => ?_⟩
  · rw [← hsegs] at hds
    obtain ⟨m'', hfault, hgp, herror, hring, -⟩ := null_call hl hcpls hds hhalt hargs
    exact ⟨m'', hexit.trans hfault, hgp, herror, hring⟩
  · rw [← hsegs] at hds
    have hvm : s.eflags.getLsbD 17 = false := by
      rw [hflags]
      exact hreturns.vm
    have hsegments : UserSegments sym s := by
      intro q hq
      rw [hsegs]
      exact hreturns.segments q hq
    have hlow : r.reg .esp - 20 = 0x83FFFE8 := by
      rw [hreturns.esp, hesp]
      decide
    rw [← hlow]
    obtain ⟨m'', hcall, hends⟩ := halt_reaches hl hready hcpls hvm hsegments hds hstack hhalt
    exact ⟨m'', hexit.trans hcall, hends⟩

/-! ### A program that returns 7 -/

/-- `execute` about to start it, with the kernel's table in memory. -/
def sampleExecute : Machine where
  reg r := if r = .esp then 0x7FDF00 else if r = .ebx then 0x8048008 else 0
  seg s := if s = .cs then kernelCs else kernelDs
  eip := 0x300000
  eflags := 0x202
  cr2 := 0
  mem := pushed (fun _ => 0) 0x60002C (sycJumptable sampleAddr)

/-- The end of `execute`, and behind the stub of `halt` the start of the program. -/
def sampleLife : Text := fun a =>
  let kernel := sampleHandler.start ++ SycHandler.invalid ++ SycHandler.finish
  let program := doCall 1 ++ startProgram 0x8049000 0x8048000
  if a.toNat < 0x400000 then ((enterProgram .ebx)[a.toNat - 0x300000]?).map fun i => (i, a + 1)
  else if a.toNat < 0x8000000 then (kernel[a.toNat - 0x400000]?).map fun i => (i, a + 1)
  else (program[a.toNat - 0x8048000]?).map fun i => (i, a + 1)

theorem sampleLife_linked :
    sampleHandler.Linked sampleLife (sampleSymbols.handler .sycHandler) where
  start := stands_of_forall sampleHandler.start (by decide)
  invalid := stands_of_forall SycHandler.invalid (by decide)
  finish := ⟨_, stands_of_forall SycHandler.finish (by decide)⟩

theorem program_life_sample :
    ∃ m', Reaches (kernelCpu sampleSymbols 0x7FFFFC) sampleLife sampleExecute m' ∧
      m'.eip = 0x8049000 ∧
      (∃ r m'', MainReturns sampleSymbols m' r ∧ r.seg .ds = 0 ∧
        Reaches (kernelCpu sampleSymbols 0x7FFFFC) sampleLife r m'' ∧
        m''.eip = sampleSymbols.handler .gp) ∧
      ∃ r m'', MainReturns sampleSymbols m' r ∧ r.reg .eax = 7 ∧ r.seg .ds = userDs ∧
        Reaches (kernelCpu sampleSymbols 0x7FFFFC) sampleLife r m'' ∧
        m''.eip = sampleAddr .halt ∧ m''.stack 4 = 7 := by
  have henter : Stands sampleLife sampleExecute.eip (enterProgram .ebx) 0x300009 :=
    stands_of_forall (enterProgram .ebx) (by decide)
  have hstart : Stands sampleLife (sampleExecute.reg .ebx) (startProgram 0x8049000 0x8048000)
      0x804800D := stands_of_forall (startProgram 0x8049000 0x8048000) (by decide)
  have hhalt : Stands sampleLife 0x8048000 (doCall SystemCall.halt.number) 0x8048008 :=
    stands_of_forall (doCall 1) (by decide)
  have htable : Holds sampleExecute.mem 0x600000 (sycJumptable sampleAddr) :=
    holds_pushed (by simp [sycJumptable])
  obtain ⟨m', hreaches, ⟨heip, hesp, -⟩, ⟨-, -, -, hes⟩, hframe, hend⟩ :=
    @program_life _ _ _ 0x7FFFFC _ _ _ _ _ sampleAddr _ _ sampleLife_linked henter (by decide)
      (by decide) (by decide) (by decide) (by rintro s (rfl | rfl) <;> decide) hstart hhalt
  -- `main` returns 7, with what it has in DS
  let back (ds : BitVec 16) : Machine :=
    { m' with
      reg := fun q => if q = .eax then 7 else if q = .esp then 0x83FFFFC else m'.reg q
      seg := fun s => if s = .ds then ds else m'.seg s
      eip := m'.stack 0
      eflags := 0x202 }
  have hback : ∀ ds, ds = 0 ∨ ds = userDs → MainReturns sampleSymbols m' (back ds) := by
    intro ds hor
    refine ⟨rfl, ?_, rfl, ?_, (by decide : (0x202 : BitVec 32).getLsbD 17 = false)⟩
    · rw [hesp]
      exact (by decide : (0x83FFFFC : BitVec 32) = 0x83FFFF8 + 4)
    · rintro s (rfl | rfl)
      · obtain rfl | rfl := hor
        · exact .inl rfl
        · exact .inr (by decide : selectorDpl sampleSymbols userDs = 3)
      · exact .inl hes
  have hlow : (back userDs).reg .esp - 20 = 0x83FFFE8 :=
    (by decide : (0x83FFFFC : BitVec 32) - 20 = 0x83FFFE8)
  have hready : ExitReady 0x7FFFFC sampleHandler sampleAddr (back userDs) :=
    { table := htable.congr (by simp [sycJumptable]) fun x hx =>
        hframe x (not_within_of_le (n := 44) (by decide) (by decide) hx)
          (not_within_of_le (n := 44) (by decide) (by decide) hx)
      table_apart := fun x hx => by
        rw [hlow]
        exact ⟨not_within_of_le (by decide) (by decide) hx,
          not_within_of_le (by decide) (by decide) hx⟩
      stack_apart := fun x hx => by
        rw [hlow]
        exact not_within_of_le (by decide) (by decide) hx }
  obtain ⟨m₁, hfault, hgp, -⟩ := (hend _ (hback 0 (.inl rfl))).1 (by decide : IsNull 0)
  obtain ⟨m₂, hcalled, hhalted, h4, -⟩ :=
    (hend _ (hback userDs (.inr rfl))).2 (by decide : ¬IsNull userDs) hready
  exact ⟨m', hreaches, heip, ⟨_, m₁, hback 0 (.inl rfl), rfl, hfault, hgp⟩,
    _, m₂, hback userDs (.inr rfl), rfl, rfl, hcalled, hhalted, h4⟩

end LinuxLikeKernel
