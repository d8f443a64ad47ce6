import LinuxLikeKernel.RunningProcess

/-!
# Processes in their own terminal

`execute` and the restart of a root shell put the new process in the displayed terminal, while
the rest of the kernel goes by the running one. As long as the two are the same at those
moments, and no load faults, all pieces of state name the same running process.

## Main definitions

- `OwnTerminal` — new processes go to the terminal of their caller
- `Designates` — stack, page, TSS and terminal table name one live process

## Main results

- `healthy_step` — the step lemma
- `designates_of_guarded_run` — along guarded runs they name one live process
-/

namespace LinuxLikeKernel
open ByteMemory Transition Kernel

/-! ### The condition -/

/-- An `execute` that will get a slot for its program. -/
def Kernel.startsProcess (img : Image) (s : Kernel) : Event → Bool
  | .execute command stale =>
    match lookup img command stale with
    | .found _ => (s.con.curTermId.bind fun cur => pcbProcessNumber s.pcbMask cur).isSome
    | _ => false
  | _ => false

/-- The running terminal has a process, and if that is a root shell it is displayed. -/
def HaltsAtHome (s : Kernel) : Prop :=
  0 ≤ (s.con.term s.con.nowTermId).curPcbId ∧
    ((s.con.term s.con.nowTermId).curPcbId = 0 → s.con.curTermId = some s.con.nowTermId)

instance (s : Kernel) : Decidable (HaltsAtHome s) := inferInstanceAs (Decidable (_ ∧ (_ → _)))

/-- A tick that selects a terminal without a process can launch it, a process is started, or a
root shell replaced, only while its terminal is displayed, and no load faults. -/
def OwnTerminal (img : Image) (s : Kernel) (e : Event) : Prop :=
  (e.isTick = true → CanLaunch s) ∧
  (s.startsProcess img e = true → s.con.curTermId = some s.con.nowTermId) ∧
  (s.callsHalt e = true → HaltsAtHome s) ∧ s.LoadsReach img e

instance (img : Image) (s : Kernel) (e : Event) : Decidable (OwnTerminal img s e) :=
  inferInstanceAs (Decidable ((_ → _) ∧ (_ → _) ∧ (_ → _) ∧ _))

variable {img : Image} {s s' : Kernel} {n : TermId → Nat}

/-! ### Ticks -/

theorem nextTermId_ne (t : TermId) : nextTermId t ≠ t := by
  revert t
  decide

/-- The PCB that a process switch resumes is that of the process at the top of the row. -/
theorem nowPcbId_saveContext (hr : Rows s.table n) (hpos : 0 < n (nextTermId s.con.nowTermId)) :
    s.saveContext.nowPcbId = top n (nextTermId s.con.nowTermId) :=
  pcbId_eq hpos (hr.le _) (hr.cur _)

/-- The number a tick computes for the process it switches to. -/
theorem pcbNumber_eq (hr : Rows s.table n) {t : TermId} (hpos : 0 < n t) :
    (s.con.term t).curPcbId + t.val * maxPcbMaskLen = (top n t : Nat) := by
  rw [show (s.con.term t).curPcbId = (n t : Int) - 1 from hr.cur t]
  simp only [top, slotId, maxPcbMaskLen]
  omega

/-- A process that a tick has put aside runs again when the tick returns. -/
theorem Suspended.resume {m : Kernel} {p : Nat} (h : Suspended m.core p)
    (hpage : m.paging.MapsUserPage (processFrame p)) (htss : m.tssEsp0 = processEsp0 p)
    (hres : m.resume (m.core.kbp p) .pit = some s') :
    ∃ cpu, s'.core = { m.core with cpu := cpu } ∧ Running s'.core p := by
  obtain ⟨d, hkbp, -, hd⟩ := h
  rw [hkbp] at hres
  obtain ⟨-, ⟨hdepth, rfl⟩ | ⟨d', hdepth, rfl⟩⟩ := resume_pit_cases hres
  · exact ⟨.user, rfl, hpage, htss, .inl rfl⟩
  · have hd1 : d = d' + 1 := Nat.succ.inj hdepth
    obtain rfl | ⟨rfl, hwait⟩ := hd
    · cases hd1
    · obtain rfl : 0 = d' := Nat.succ.inj hd1
      exact ⟨.kernel ⟨p, 1⟩, rfl, hpage, htss, .inr (.inr ⟨rfl, hwait⟩)⟩

/-- A tick that switches keeps the processes healthy. -/
theorem healthy_switch (hh : Healthy s.core n) (hi : s.Interruptible)
    (hpos : 0 < n (nextTermId s.con.nowTermId)) {stale : Stale}
    (h : s.pitInterruptHandler img stale = some s') : Healthy s'.core n := by
  have hid := savesTop_nowPcbId hh.rows
  have hne : (s.con.term (nextTermId s.con.nowTermId)).curPcbId ≠ -1 := by
    have hcur := hh.rows.cur (nextTermId s.con.nowTermId)
    intro hempty
    rw [show (s.core.term (nextTermId s.con.nowTermId)).curPcbId = -1 from hempty] at hcur
    omega
  obtain ⟨hempty, -⟩ | ⟨-, page, m, -, hcore, -, -, hres⟩ := pitInterruptHandler_cases h
  · exact absurd hempty hne
  rw [pcbNumber_eq hh.rows hpos, core_saveContext_eq] at hcore
  rw [nowPcbId_saveContext hh.rows hpos] at hres
  have hkbp : m.core.kbp = s.saveContext.core.kbp := by rw [hcore, core_saveContext_eq]
  have hsusp : Suspended m.core (top n (nextTermId s.con.nowTermId)) := by
    rw [hcore]
    exact hh.save_suspended hi hid hpos
  have hpage : m.paging.MapsUserPage (processFrame (top n (nextTermId s.con.nowTermId))) := by
    rw [show m.paging = _ from congrArg Core.paging hcore]
    exact (s.paging.mapsUserPage_pcbMapping _).syscallVideoMapping page
  have htss : m.tssEsp0 = processEsp0 (top n (nextTermId s.con.nowTermId)) :=
    congrArg Core.tssEsp0 hcore
  obtain ⟨cpu, hcore', hrun⟩ := hsusp.resume hpage htss (by rw [hkbp]; exact hres)
  rw [hcore] at hcore'
  refine hh.switch hi hid hpos ?_ ?_ ?_ hrun
  · rw [hcore']
  · rw [hcore']
  · rw [hcore']

/-- A tick that finds the next terminal without a process launches a shell there. -/
theorem Healthy.tick_launches (hb : Bootable img) (hh : Healthy s.core n) (hg : CanLaunch s)
    (hempty : (s.con.term (nextTermId s.con.nowTermId)).curPcbId = -1) {stale : Stale}
    (h : s.pitInterruptHandler img stale = some s') :
    n (nextTermId s.con.nowTermId) = 0 ∧ pcbTotalNumber s.pcbMask < 6 ∧
      ∃ args, s' = s.launchState.started s.entry.up (nextTermId s.con.nowTermId) 0 args := by
  obtain ⟨hdisplayed, htotal⟩ := hg hempty
  have h0 := Rows.eq_zero_of_empty hh.rows hempty
  have hrun : (s.con.term (nextTermId s.con.nowTermId)).running = false :=
    hh.idle (nextTermId s.core.now) (nextTermId_ne _) h0
  obtain ⟨args, heq⟩ :=
    LinuxLikeKernel.tick_launches hb hh.rows hempty hdisplayed hrun htotal stale
  exact ⟨h0, htotal, args, (Option.some.inj (heq.symm.trans h)).symm⟩

/-- **Ticks.** A tick that launches or switches keeps the processes healthy. -/
theorem healthy_tick (hb : Bootable img) (hh : Healthy s.core n) (hi : s.Interruptible)
    (hg : CanLaunch s) {stale : Stale} (h : s.pitInterruptHandler img stale = some s') :
    ∃ n', Healthy s'.core n' ∧
      ∀ u, n' u = n u ∨ (u = nextTermId s.con.nowTermId ∧ n u = 0 ∧ n' u = 1) := by
  have hid := savesTop_nowPcbId hh.rows
  have hcur : (s.con.term (nextTermId s.con.nowTermId)).curPcbId =
      (n (nextTermId s.con.nowTermId) : Int) - 1 := hh.rows.cur _
  by_cases hempty : (s.con.term (nextTermId s.con.nowTermId)).curPcbId = -1
  · obtain ⟨h0, htotal, args, rfl⟩ := hh.tick_launches hb hg hempty h
    change n (nextTermId s.core.now) = 0 at h0
    have hlaunch : s.launchState.core = { s.core.save s.nowPcbId with
        term := Function.update s.core.term (nextTermId s.core.now)
          { s.core.term (nextTermId s.core.now) with running := true } } := by
      rw [← core_saveContext_eq]
      exact core_launchState s
    rw [core_started]
    refine ⟨_, hh.launch hi hid h0 hlaunch ?_, fun u => ?_⟩
    · exact slot_of_launch hh.rows h0 htotal
    · by_cases hu : u = nextTermId s.core.now
      · subst hu
        rw [Function.update_self, h0]
        exact .inr ⟨rfl, rfl, rfl⟩
      · exact .inl (Function.update_of_ne hu _ _)
  · exact ⟨n, healthy_switch hh hi (by omega) h, fun u => .inl rfl⟩

/-! ### `execute` -/

/-- **Calls.** A program executed in its caller's terminal. -/
theorem healthy_execute (hwf : WellFormed img) (hh : Healthy s.core n) (hcpu : s.cpu = .user)
    {command : List UInt8} {stale : Stale} {o : Outcome}
    (hg : s.startsProcess img (.execute command stale) = true →
      s.con.curTermId = some s.con.nowTermId)
    (hload : s.LoadReaches img command stale)
    (h : execute img s s.entry command stale = some o) :
    (s.startsProcess img (.execute command stale) = false ∧
        ∃ eax r, o = .returned eax r ∧ r.core = s.core) ∨
      ∃ (i : Fin 4) (mem : Mem) (args : List UInt8),
        o = .started ((s.withMem mem).started s.entry s.con.nowTermId i args) ∧
        s.startsProcess img (.execute command stale) = true ∧
        pcbProcessNumber s.pcbMask s.con.nowTermId = some i ∧
        Healthy ((s.withMem mem).started s.entry s.con.nowTermId i args).core
          (Function.update n s.con.nowTermId (n s.con.nowTermId + 1)) := by
  obtain ⟨hl, rfl⟩ | ⟨prog, cur, hl, hcur, ⟨hnone, rfl⟩ | ⟨i, mem, hslot, ⟨-, rfl⟩ | ⟨-, rfl⟩⟩⟩ :=
    execute_cases hwf h
  · exact .inl ⟨by simp only [Kernel.startsProcess, hl], _, _, rfl, rfl⟩
  · refine .inl ⟨?_, _, _, rfl, core_printf ..⟩
    simp only [Kernel.startsProcess, hl, hcur, Option.bind_some, hnone, Option.isSome_none]
  · have hstart : s.startsProcess img (.execute command stale) = true := by
      simp only [Kernel.startsProcess, hl, hcur, Option.bind_some, hslot, Option.isSome_some]
    obtain rfl : cur = s.con.nowTermId := Option.some.inj (hcur.symm.trans (hg hstart))
    refine .inr ⟨i, mem, prog.args, rfl, hstart, hslot, ?_⟩
    rw [core_started]
    exact hh.call hcpu hslot
  · exact absurd h hload.ne_faulted

/-! ### `halt` -/

/-- The rows after a `halt`: a child is gone, a root shell is replaced. -/
def haltRows (n : TermId → Nat) (t : TermId) : TermId → Nat :=
  if n t = 1 then n else Function.update n t (n t - 1)

/-- A root shell that halts is started again, in the slot that has become free. -/
theorem healthy_halt_root (hb : Bootable img) (hh : Healthy s.core n)
    (h1 : n s.con.nowTermId = 1) (hhome : s.con.curTermId = some s.con.nowTermId)
    {status : UInt8} {stale : Stale} (h : s.halt img s.entry status stale = some s') :
    s'.cpu = .user ∧ s'.con.nowTermId = s.con.nowTermId ∧
      Healthy s'.core (haltRows n s.con.nowTermId) := by
  obtain ⟨row, slot, m, args, hslot, hcore, hfree, rfl⟩ := halt_restarts hb hh.rows h1 hhome h
  have hcore' := core_started m s.entry s.con.nowTermId 0 args
  have hrestart : Healthy (m.started s.entry s.con.nowTermId 0 args).core n := by
    rw [hcore']
    exact hh.restart h1 hslot hcore hfree
  have hnow : (m.started s.entry s.con.nowTermId 0 args).con.nowTermId = s.con.nowTermId := by
    refine (congrArg (fun c : Core => c.now) hcore').trans ?_
    rw [hcore]
    rfl
  -- the new shell runs on the stack of the old one
  have hpos : 0 < n s.core.now := by
    show 0 < n s.con.nowTermId
    omega
  have hstack : s.entry.stack = top n s.con.nowTermId :=
    (hh.running hpos).entry (hh.top_lt hpos)
  refine ⟨rfl, hnow, ?_⟩
  rw [haltRows, if_pos h1]
  refine hrestart.push rfl (hstack.trans ?_) .restart
  exact congrArg (top n) hnow.symm

/-- A child that halts returns to the process below it in its row, which waits in `execute`. -/
theorem healthy_halt_child (hh : Healthy s.core n) (h2 : 1 < n s.con.nowTermId) {row : TermId}
    {slot : Fin 4} {m : Kernel} (hslot : slotId row slot = top n s.con.nowTermId)
    (hcore : m.core = { s.core with
      toTable := s.table.unlink row slot (s.pcb (top n s.con.nowTermId)).parentProcessNumber })
    {sp : StackPtr} {status : UInt8}
    (hret : m.returnToParent (top n s.con.nowTermId) sp status = some s') :
    s'.cpu = .user ∧ s'.con.nowTermId = s.con.nowTermId ∧
      Healthy s'.core (haltRows n s.con.nowTermId) := by
  have hident : ∀ p, (m.pcb p).ident = (s.pcb p).ident :=
    congrFun (congrArg (fun c : Core => c.ident) hcore)
  have hbelow : top n s.con.nowTermId = slotId s.con.nowTermId (n s.con.nowTermId - 2 + 1) := by
    rw [top, show n s.con.nowTermId - 2 + 1 = n s.con.nowTermId - 1 by omega]
  have hcalls : Calls s.core (slotId s.con.nowTermId (n s.con.nowTermId - 2))
      (slotId s.con.nowTermId (n s.con.nowTermId - 2 + 1)) := hh.calls _ _ (by
    show n s.con.nowTermId - 2 + 1 < n s.con.nowTermId
    omega)
  rw [← hbelow] at hcalls
  -- the parent is the process under it in the row
  have hparent : (m.pcb (top n s.con.nowTermId)).parentProcessNumber =
      (slotId s.con.nowTermId (n s.con.nowTermId - 2) : Nat) := by
    refine (congrArg Ident.parentProcessNumber (hident _)).trans
      ((hh.rows.parent s.con.nowTermId (n s.con.nowTermId - 1) (by
        show n s.con.nowTermId - 1 < n s.con.nowTermId
        omega)).trans ?_)
    rw [if_neg (by omega)]
    simp only [slotId, maxPcbMaskLen]
    omega
  have hnumber : (m.pcb (slotId s.con.nowTermId (n s.con.nowTermId - 2))).processNumber =
      (slotId s.con.nowTermId (n s.con.nowTermId - 2) : Nat) :=
    (congrArg Ident.processNumber (hident _)).trans
      (hh.rows.number s.con.nowTermId (n s.con.nowTermId - 2) (by
        show n s.con.nowTermId - 2 < n s.con.nowTermId
        omega))
  have hkbp : (m.pcb (top n s.con.nowTermId)).parentKbp =
      ⟨slotId s.con.nowTermId (n s.con.nowTermId - 2), 1⟩ :=
    (congrArg Ident.parentKbp (hident _)).trans hcalls.kbp
  obtain ⟨hneg, -⟩ | ⟨-, r, hr, -, hres⟩ := returnToParent_cases hret
  · rw [hparent] at hneg
    omega
  · rw [hparent, Int.toNat_natCast, hnumber, hcore] at hr
    rw [hkbp] at hres
    have hframe : (r.kstack (slotId s.con.nowTermId (n s.con.nowTermId - 2)))[0]? =
        some .execute := by
      rw [show r.kstack = s.kstack from congrArg Core.kstack hr]
      exact hcalls.frame
    obtain rfl := Option.some.inj ((resume_execute_bottom hframe).symm.trans hres)
    have htop : top (haltRows n s.con.nowTermId) s.con.nowTermId =
        slotId s.con.nowTermId (n s.con.nowTermId - 2) := by
      rw [haltRows, if_neg (by omega), top, Function.update_self]
      rfl
    refine ⟨rfl, (congrArg (fun c : Core => c.now) hr).trans rfl, ?_⟩
    have hrun : Running { r.core with cpu := .user }
        (slotId s.con.nowTermId (n s.con.nowTermId - 2)) := by
      rw [hr]
      exact ⟨m.paging.mapsUserPage_pcbMapping _, rfl, .inl rfl⟩
    rw [← htop] at hrun
    rw [haltRows, if_neg (by omega)] at hrun ⊢
    refine hh.pop h2 hslot ?_ ?_ ?_ hrun
    · exact (congrArg Core.toTable hr).trans rfl
    · exact (congrArg Core.kbp hr).trans rfl
    · exact (congrArg Core.kstack hr).trans rfl

/-- **Halts.** The parent runs again, or a new shell in place of the root shell. -/
theorem healthy_halt (hb : Bootable img) (hh : Healthy s.core n) (hhome : HaltsAtHome s)
    {status : UInt8} {stale : Stale} (h : s.halt img s.entry status stale = some s') :
    s'.cpu = .user ∧ s'.con.nowTermId = s.con.nowTermId ∧
      Healthy s'.core (haltRows n s.con.nowTermId) := by
  have hcur : (s.con.term s.con.nowTermId).curPcbId = (n s.con.nowTermId : Int) - 1 :=
    hh.rows.cur s.con.nowTermId
  by_cases h1 : n s.con.nowTermId = 1
  · exact healthy_halt_root hb hh h1 (hhome.2 (by omega)) h
  · obtain ⟨row, slot, m, hslot, hcore, -, ⟨h1', -⟩ | ⟨h2, hret⟩⟩ :=
      halt_unlinks hh.rows (Rows.pos_of_live hh.rows hhome.1) h
    · exact absurd h1' h1
    · exact healthy_halt_child hh h2 hslot hcore hret

theorem haltsAtHome_of_eq {m : Kernel} (hfixed : m.con.fixed = s.con.fixed)
    (hcur : m.con.curTermId = s.con.curTermId) (h : HaltsAtHome s) : HaltsAtHome m := by
  have hnow : m.con.nowTermId = s.con.nowTermId := congrArg ConsoleFixed.now hfixed
  have hid : (m.con.term s.con.nowTermId).curPcbId = (s.con.term s.con.nowTermId).curPcbId :=
    congrArg (fun c : ConsoleFixed => (c.term s.con.nowTermId).curPcbId) hfixed
  rw [HaltsAtHome, hnow, hid, hcur]
  exact h

/-! ### One step -/

theorem startsProcess_eq_false {e : Event} (he : e.isExecute = false) :
    s.startsProcess img e = false := by
  cases e with
  | execute command stale => cases he
  | _ => rfl

theorem startsProcess_of_callsHalt {e : Event} (h : s.callsHalt e = true) :
    s.startsProcess img e = false := by
  cases e with
  | execute command stale => cases h
  | _ => rfl

/-- What a step does to the processes: a tick may launch a shell, `execute` may put a process
on top of the running row, `halt` may take one off it. -/
inductive ProcessStep (img : Image) (s : Kernel) (n : TermId → Nat) (e : Event) (s' : Kernel) :
    (TermId → Nat) → Prop
  | other {n' : TermId → Nat} (hstart : s.startsProcess img e = false)
      (hcall : s.callsHalt e = false)
      (hn : ∀ u, n' u = n u ∨ (e.isTick = true ∧ n u = 0 ∧ n' u = 1)) :
      ProcessStep img s n e s' n'
  | execute {i : Fin 4} {mem : Mem} (args : List UInt8) (hstart : s.startsProcess img e = true)
      (hcpu : s.cpu = .user) (hslot : pcbProcessNumber s.pcbMask s.con.nowTermId = some i)
      (hs : s' = (s.withMem mem).started s.entry s.con.nowTermId i args) :
      ProcessStep img s n e s' (Function.update n s.con.nowTermId (n s.con.nowTermId + 1))
  | halt (hcall : s.callsHalt e = true) (hcpu : s'.cpu = .user)
      (hnow : s'.con.nowTermId = s.con.nowTermId) :
      ProcessStep img s n e s' (haltRows n s.con.nowTermId)

/-- **Step lemma.** Steps that the guard allows keep the processes healthy. -/
theorem healthy_step (hb : Bootable img) {e : Event} (hh : Healthy s.core n)
    (hg : OwnTerminal img s e) (h : step img s e = some s') :
    ∃ n', Healthy s'.core n' ∧ ProcessStep img s n e s' n' := by
  obtain ⟨hlaunch, hstart, hhalt, hload⟩ := hg
  cases step_kind h with
  | tick hi htick =>
    obtain ⟨n', hh', hn'⟩ := healthy_tick hb hh hi (hlaunch rfl) htick
    exact ⟨n', hh', .other rfl rfl fun u => (hn' u).imp_right fun hu => ⟨rfl, hu.2⟩⟩
  | execute hcpu hexec ho =>
    obtain ⟨hno, eax, r, rfl, hcore⟩ | ⟨i, mem, args, rfl, hstarts, hslot, hh'⟩ :=
      healthy_execute hb.toWellFormed hh hcpu hstart hload hexec
    · obtain ho | ho | ⟨eax', r', ho, rfl⟩ := ho
      · cases ho
      · cases ho
      · obtain ⟨-, rfl⟩ := Outcome.returned.inj ho
        refine ⟨n, ?_, .other hno rfl fun u => .inl rfl⟩
        rw [core_ret, hcore]
        exact hh
    · obtain ho | ho | ⟨eax', r', ho, rfl⟩ := ho
      · obtain rfl := Outcome.started.inj ho
        exact ⟨_, hh', .execute args hstarts hcpu hslot rfl⟩
      · cases ho
      · cases ho
  | halt hcall hcore hcur hshell hm =>
    rename_i m status stale
    have hfixed : m.con.fixed = s.con.fixed :=
      congrArg Table.toConsoleFixed (table_eq_of_core hcore)
    have hnow' : m.con.nowTermId = s.con.nowTermId := congrArg ConsoleFixed.now hfixed
    have hhome := haltsAtHome_of_eq hfixed hcur (hhalt hcall)
    have hh' : Healthy m.core n := hcore.symm ▸ hh
    obtain ⟨hcpu, hnow, hh''⟩ := healthy_halt hb hh' hhome hm
    rw [hnow'] at hnow hh''
    exact ⟨_, hh'', .halt hcall hcpu hnow⟩
  | light hcall hexec hcore =>
    exact ⟨n, hcore ▸ hh, .other (startsProcess_eq_false hexec) hcall fun u => .inl rfl⟩
  | block hcpu hcore hf =>
    have hh' : Healthy _ n := hcore.symm ▸ hh
    exact ⟨n, hh'.block ((congrArg Core.cpu hcore).trans hcpu) hf,
      .other rfl rfl fun u => .inl rfl⟩
  | fault hcpu => exact ⟨n, hh.fault hcpu, .other rfl rfl fun u => .inl rfl⟩
  | video hcore => exact ⟨n, hcore ▸ hh.video _, .other rfl rfl fun u => .inl rfl⟩
  | loop hcpu hframe hf₀ hf hcore =>
    exact ⟨n, hcore ▸ hh.loop hcpu hframe hf₀ hf, .other rfl rfl fun u => .inl rfl⟩
  | loopEnd hcpu hframe hf₀ hdepth hcore =>
    exact ⟨n, hcore ▸ hh.loopEnd hcpu hframe hf₀, .other rfl rfl fun u => .inl rfl⟩

theorem healthy_boot (s : Kernel) : Healthy (boot s).core fun _ => 0 where
  rows := rows_boot s
  calls := fun u i hi => by omega
  suspended := fun u hu hpos => by omega
  idle := fun _ _ _ => rfl
  idle_now := fun _ => rfl
  now := .inl ⟨fun _ => rfl, rfl, rfl⟩

/-! ### Whole runs -/

/-- A tick from `s` saves ESP and EBP in the PCB of process `p` and in no other. -/
def TickSavesIn (img : Image) (s : Kernel) (p : Nat) : Prop :=
  ∀ stale s', step img s (.tick stale) = some s' →
    s'.core.ksp = Function.update s.core.ksp p s.entry.up ∧
    s'.core.kbp = Function.update s.core.kbp p s.entry.up

/-- All pieces of state designate process `p`, which is alive: the kernel stack that is in use
or would be on the next entry, the user page, the TSS, and the terminal table. -/
structure Designates (img : Image) (s : Kernel) (p : Nat) : Prop where
  live : LivePcb s.pcbMask p
  number : (s.pcb p).processNumber = p
  stack : s.entry.stack = p
  frame : s.paging.userFrame = some (processFrame p)
  tss : s.tssEsp0 = processEsp0 p
  now : (s.con.term s.con.nowTermId).curPcbId + s.con.nowTermId.val * maxPcbMaskLen = p
  getCurPcb : s.getCurPcb = p
  nowPcbId : s.nowPcbId = p
  tick : TickSavesIn img s p

/-- A load changes neither of the two. -/
theorem saved_execute {sp : StackPtr} {command : List UInt8} {stale : Stale} {o : Outcome}
    (h : execute img s sp command stale = some o) :
    o.state.core.ksp = s.core.ksp ∧ o.state.core.kbp = s.core.kbp := by
  cases execute_exit h with
  | refused => exact ⟨rfl, rfl⟩
  | full =>
    rw [Outcome.state, core_printf]
    exact ⟨rfl, rfl⟩
  | failed => exact ⟨rfl, rfl⟩
  | faulted => exact ⟨rfl, rfl⟩
  | started =>
    rw [Outcome.state, core_started]
    exact ⟨rfl, rfl⟩

/-- Where a tick saves the context. -/
theorem tickSavesIn_nowPcbId (img : Image) (s : Kernel) : TickSavesIn img s s.nowPcbId := by
  intro stale s' h
  have hsaved : ∀ c : Core, c.ksp = s.saveContext.core.ksp ∧ c.kbp = s.saveContext.core.kbp →
      c.ksp = Function.update s.core.ksp s.nowPcbId s.entry.up ∧
        c.kbp = Function.update s.core.kbp s.nowPcbId s.entry.up := by
    rintro c ⟨hksp, hkbp⟩
    rw [hksp, hkbp, core_saveContext]
    exact ⟨rfl, rfl⟩
  refine hsaved s'.core ?_
  cases pitInterruptHandler_exit (step_tick h) with
  | displayed => exact ⟨rfl, rfl⟩
  | shows hempty hcur hrun hk =>
    rw [core_setCon (Console.fixed_termSwitch hk)]
    exact ⟨rfl, rfl⟩
  | launches hempty hcur hrun ho =>
    obtain ⟨hksp, hkbp⟩ := saved_execute ho
    have hlaunch := core_launchState s
    exact ⟨hksp.trans ((congrArg Core.ksp hlaunch).trans rfl),
      hkbp.trans ((congrArg Core.kbp hlaunch).trans rfl)⟩
  | switches hne hpage hres =>
    obtain ⟨cpu, rfl⟩ := resume_eq hres
    exact ⟨rfl, rfl⟩

/-- The pieces of state that a healthy running process is told by. -/
theorem Healthy.designates (hh : Healthy s.core n)
    (hpos : 0 < n s.con.nowTermId) (hrun : Running s.core (top n s.con.nowTermId)) :
    Designates img s (top n s.con.nowTermId) := by
  have hle : n s.con.nowTermId ≤ 4 := hh.rows.le s.con.nowTermId
  have hstack : s.entry.stack = top n s.con.nowTermId := hrun.entry (hh.top_lt hpos)
  have hid : s.nowPcbId = top n s.con.nowTermId := hh.rows.nowPcbId_eq hpos
  refine ⟨?_, ?_, hstack, hrun.page.userFrame (processFrame_aligned _), hrun.tss,
    pcbNumber_eq hh.rows hpos, hstack, hid, ?_⟩
  · rw [← hid]
    exact hh.rows.livePcb hpos
  · exact hh.rows.number s.con.nowTermId (n s.con.nowTermId - 1) (by
      show n s.con.nowTermId - 1 < n s.con.nowTermId
      omega)
  · rw [← hid]
    exact tickSavesIn_nowPcbId img s

/-- Guarded runs from boot end in a healthy state. -/
theorem healthy_of_guarded_run (hb : Bootable img) {s₀ : Kernel} {es : List Event}
    (hg : Guarded (step img) (OwnTerminal img) (boot s₀) es)
    (hrun : run (step img) (boot s₀) es = some s) : ∃ n, Healthy s.core n := by
  have hstep : ∀ s e s', (∃ n, Healthy s.core n) → OwnTerminal img s e → step img s e = some s' →
      ∃ n, Healthy s'.core n := by
    rintro s e s' ⟨n, hh⟩ hg h
    obtain ⟨n', hh', -⟩ := healthy_step hb hh hg h
    exact ⟨n', hh'⟩
  exact Guarded.invariant hstep ⟨_, healthy_boot s₀⟩ hg hrun

/-- **One running process.** In every state that a guarded run reaches with all three shells
running, the stack, the page, the TSS and the table designate one live process, and a tick
saves the context in its PCB. -/
theorem designates_of_guarded_run (hb : Bootable img) {s₀ : Kernel} {es : List Event}
    (hg : Guarded (step img) (OwnTerminal img) (boot s₀) es)
    (hrun : run (step img) (boot s₀) es = some s) (hall : ∀ t, s.HasProcess t) :
    ∃ p, Designates img s p := by
  obtain ⟨n, hh⟩ := healthy_of_guarded_run hb hg hrun
  have hcur : (s.con.term s.con.nowTermId).curPcbId = (n s.con.nowTermId : Int) - 1 :=
    hh.rows.cur s.con.nowTermId
  obtain ⟨i, hi, -⟩ := hall s.con.nowTermId
  obtain hboot | ⟨hpos, hrunning⟩ := hh.now
  · have h0 := hboot.empty s.con.nowTermId
    omega
  · exact ⟨_, hh.designates hpos hrunning⟩

/-- The shell of terminal 0 is displayed, runs a second shell and is switched out. -/
theorem designates_of_guarded_run_sample : ∃ s p, run (step sampleImage) (boot powerOn)
      [.tick noStale, .tick noStale, .tick noStale, .execute shellCommand noStale,
        .key 0x38 noStale, .key 0x3C noStale, .tick noStale] = some s ∧
    Designates sampleImage s p := by
  have hobs : (run (step sampleImage) (boot powerOn)
      [.tick noStale, .tick noStale, .tick noStale, .execute shellCommand noStale,
        .key 0x38 noStale, .key 0x3C noStale, .tick noStale]).map (fun s =>
      decide (∀ t, s.HasProcess t)) = some true := by decide +kernel
  obtain ⟨s, hs, hall⟩ := Option.map_eq_some_iff.mp hobs
  obtain ⟨p, hp⟩ := designates_of_guarded_run sampleImage_bootable
    (show Guarded _ (OwnTerminal sampleImage) _ _ by decide +kernel) hs (of_decide_eq_true hall)
  exact ⟨s, p, hs, hp⟩

/-- The user switches to terminal 1 before the shell of terminal 0 calls `execute`. -/
def switchedExecuteEvents : List Event :=
  [.tick noStale, .tick noStale, .tick noStale, .key 0x38 noStale, .key 0x3C noStale,
    .execute shellCommand noStale]

/-- The new process runs on stack 5 while the table says process 0. -/
theorem not_designates_of_run : ¬ ∀ (img : Image), Bootable img →
    ∀ (s₀ s : Kernel) (es : List Event), run (step img) (boot s₀) es = some s →
      (∀ t, s.HasProcess t) → ∃ p, Designates img s p := by
  intro hdesignates
  have hobs : (run (step sampleImage) (boot powerOn) switchedExecuteEvents).map (fun s =>
      (decide (∀ t, s.HasProcess t), s.getCurPcb, s.nowPcbId)) = some (true, 5, 0) := by
    decide +kernel
  obtain ⟨s, hs, hobs⟩ := Option.map_eq_some_iff.mp hobs
  simp only [Prod.mk.injEq] at hobs
  obtain ⟨hall, hcur, hnow⟩ := hobs
  obtain ⟨p, hp⟩ :=
    hdesignates sampleImage sampleImage_bootable powerOn s _ hs (of_decide_eq_true hall)
  have h5 : 5 = p := hcur.symm.trans hp.getCurPcb
  have h0 : 0 = p := hnow.symm.trans hp.nowPcbId
  omega

end LinuxLikeKernel
