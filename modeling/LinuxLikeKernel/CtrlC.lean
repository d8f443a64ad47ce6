import LinuxLikeKernel.OwnTerminal
import LinuxLikeKernel.PcbChanges

/-!
# Ctrl+C

The keyboard handler runs on top of whatever process the scheduler has put on the processor, and
`halt` ends the process of the running terminal. Ctrl+C is meant for the process of the displayed
one.

## Main definitions

- `HaltsCurrent` — the current process of a terminal has halted, and no other process
- `CtrlCRight` — Ctrl+C does that to the displayed terminal
- `ReturnsToCaller` — the running process has not been started by `halt`, in place of a root shell
- `CtrlCAtHome` — Ctrl+C comes while the displayed terminal is the running one, for such a process

## Main results

- `haltsCurrent_iff` — `halt` does it for the running terminal only, and if it can return
- `ctrlCRight_iff` — along a run Ctrl+C does what it is meant for exactly under `CtrlCAtHome`
-/

namespace LinuxLikeKernel
open ByteMemory Kernel Transition

variable {img : Image} {s s' m : Kernel} {e : Event} {n : TermId → Nat} {d : TermId}

/-- The current process of terminal `d` has halted, and no other one: a process with a parent is
gone from the table, and a root shell has been replaced by a new one. The other processes still have
their slots, their parents and their kernel stacks, and there is no fault, whose handler would end
one of them. -/
structure HaltsCurrent (d : TermId) (s s' : Kernel) : Prop where
  child : 0 < (s.con.term d).curPcbId →
    (s'.con.term d).curPcbId = (s.con.term d).curPcbId - 1 ∧
      ∀ i : Fin 4, slotId d i = s.pcbId d → s'.pcbMask d i = false
  shell : (s.con.term d).curPcbId = 0 →
    (s'.con.term d).curPcbId = 0 ∧ (s'.pcb (s.pcbId d)).fds = freshFds
  terminals : ∀ t, t ≠ d → (s'.con.term t).curPcbId = (s.con.term t).curPcbId
  others : ∀ (t : TermId) (i : Fin 4), s.pcbMask t i = true → slotId t i ≠ s.pcbId d →
    s'.pcbMask t i = true ∧ (s'.pcb (slotId t i)).ident = (s.pcb (slotId t i)).ident ∧
      (s'.pcb (slotId t i)).kbp = (s.pcb (slotId t i)).kbp
  noFault : s'.Interruptible

/-- Only the core matters before. -/
theorem HaltsCurrent.of_core (h : HaltsCurrent d m s') (hcore : m.core = s.core) :
    HaltsCurrent d s s' := by
  have hcur : ∀ t, (m.con.term t).curPcbId = (s.con.term t).curPcbId :=
    fun t => congrArg (fun c : Core => (c.term t).curPcbId) hcore
  have hmask : m.pcbMask = s.pcbMask := congrArg (fun c : Core => c.mask) hcore
  have hident : ∀ p, (m.pcb p).ident = (s.pcb p).ident :=
    fun p => congrArg (fun c : Core => c.ident p) hcore
  have hkbp : ∀ p, (m.pcb p).kbp = (s.pcb p).kbp :=
    fun p => congrArg (fun c : Core => c.kbp p) hcore
  have hid : m.pcbId d = s.pcbId d := by rw [pcbId, pcbId, hcur]
  obtain ⟨hchild, hshell, hterminals, hothers, hfault⟩ := h
  simp only [hcur, hmask, hident, hkbp, hid] at hchild hshell hterminals hothers
  exact ⟨hchild, hshell, hterminals, hothers, hfault⟩

/-! ### `halt` -/

/-- The last part of `halt` leaves the table and the kernel stacks of other processes alone. -/
theorem kbp_returnToParent {id : Nat} {sp : StackPtr} {status : UInt8}
    (h : s.returnToParent id sp status = some s') (p : Nat) : (s'.pcb p).kbp = (s.pcb p).kbp := by
  rw [pcb_returnToParent h]

/-- The process that runs has no parent, or its `parent_kbp` does not lead into the `execute` of a
`halt`. -/
def Kernel.ReturnsToCaller (s : Kernel) : Prop :=
  0 < (s.con.term s.con.nowTermId).curPcbId →
    s.frameAt (s.pcb s.nowPcbId).parentKbp ≠ some .restart

instance (s : Kernel) : Decidable s.ReturnsToCaller := inferInstanceAs (Decidable (_ → _))

theorem Kernel.ReturnsToCaller.of_core (h : m.ReturnsToCaller) (hcore : m.core = s.core) :
    s.ReturnsToCaller := by
  have hnow : m.con.nowTermId = s.con.nowTermId := congrArg (fun c : Core => c.now) hcore
  have hcur : (m.con.term s.con.nowTermId).curPcbId = (s.con.term s.con.nowTermId).curPcbId :=
    congrArg (fun c : Core => (c.term s.con.nowTermId).curPcbId) hcore
  have hid : m.nowPcbId = s.nowPcbId := nowPcbId_eq_of_table (table_eq_of_core hcore)
  have hkbp : (m.pcb s.nowPcbId).parentKbp = (s.pcb s.nowPcbId).parentKbp :=
    congrArg (fun c : Core => (c.ident s.nowPcbId).parentKbp) hcore
  have hstack : m.kstack = s.kstack := congrArg Core.kstack hcore
  simp only [ReturnsToCaller, hnow, hcur, hid, hkbp, frameAt, hstack] at h
  exact h

/-- `halt` faults on its return to a parent only in the frame of a `halt`. -/
theorem interruptible_returnToParent_iff {id : Nat} {sp : StackPtr} {status : UInt8}
    (hparent : 0 ≤ (s.pcb id).parentProcessNumber)
    (h : s.returnToParent id sp status = some s') :
    s'.Interruptible ↔ s.frameAt (s.pcb id).parentKbp ≠ some .restart := by
  have hleave : ∀ {u : Kernel} {sp : StackPtr}, u.leave sp = some s' → s'.Interruptible := by
    intro u sp h
    obtain ⟨-, rfl⟩ | ⟨d, -, rfl⟩ := leave_cases h
    · exact nofun
    · exact nofun
  cases returnToParent_exit h with
  | fault hneg => omega
  | parent _ h =>
    cases resume_exit h with
    | under hframe h =>
      refine iff_of_true (hleave h) fun hrestart => ?_
      cases hframe.symm.trans hrestart
    | launch _ hframe _ h =>
      refine iff_of_true (hleave h) fun hrestart => ?_
      cases hframe.symm.trans hrestart
    | restart _ hframe => exact iff_of_false (fun hfault => hfault _ rfl) fun hno => hno hframe

/-- The state in which the process of the running terminal has been unlinked. -/
structure Unlinked (n : TermId → Nat) (s m : Kernel) : Prop where
  cur : ∀ t, (m.con.term t).curPcbId =
    if t = s.con.nowTermId then (n t : Int) - 2 else (s.con.term t).curPcbId
  mask : ∀ (t : TermId) (i : Fin 4), m.pcbMask t i =
    if slotId t i = s.nowPcbId then false else s.pcbMask t i
  ident : ∀ p, (m.pcb p).ident = (s.pcb p).ident
  kbp : ∀ p, (m.pcb p).kbp = (s.pcb p).kbp
  kstack : m.kstack = s.kstack

theorem unlinked_of_core (hr : Rows s.table n) (hpos : 0 < n s.con.nowTermId) {row : TermId}
    {slot : Fin 4} (hslot : slotId row slot = top n s.con.nowTermId)
    (hcore : m.core = { s.core with
      toTable := s.table.unlink row slot (s.pcb (top n s.con.nowTermId)).parentProcessNumber }) :
    Unlinked n s m := by
  have htable : m.table =
      s.table.unlink row slot (s.pcb (top n s.con.nowTermId)).parentProcessNumber :=
    congrArg Core.toTable hcore
  have hrows : Rows m.table (Function.update n s.con.nowTermId (n s.con.nowTermId - 1)) :=
    htable ▸ hr.unlink hpos hslot
  refine ⟨fun t => ?_, fun t i => ?_, fun p => ?_, fun p => ?_, congrArg Core.kstack hcore⟩
  · split
    · rename_i ht
      subst ht
      have hcur := hrows.cur s.con.nowTermId
      rw [Function.update_self] at hcur
      refine Eq.trans hcur ?_
      omega
    · rename_i ht
      have hterm := congrArg (fun T : Table => (T.term t).curPcbId) htable
      refine Eq.trans hterm ?_
      have hne : t ≠ s.table.now := ht
      simp only [Table.unlink, Function.update_of_ne hne]
      rfl
  · have hmask := congrArg (fun T : Table => T.mask t i) htable
    refine Eq.trans hmask ?_
    rw [hr.nowPcbId_eq hpos]
    change markSlot s.pcbMask row slot false t i =
      if slotId t i = top n s.con.nowTermId then _ else _
    rw [← hslot]
    by_cases hsame : row = t ∧ slot = i
    · obtain ⟨rfl, rfl⟩ := hsame
      simp [markSlot]
    · rw [markSlot_of_ne hsame, if_neg]
      intro heq
      obtain ⟨rfl, hi⟩ := (slotId_inj i.isLt slot.isLt).mp heq
      exact hsame ⟨rfl, Fin.ext hi.symm⟩
  · exact congrArg (fun c : Core => c.ident p) hcore
  · exact congrArg (fun c : Core => c.kbp p) hcore

/-- A child that halts returns to its parent, and it does if that is where it came from. -/
theorem Unlinked.haltsCurrent_child_iff (hu : Unlinked n s m) (hr : Rows s.table n)
    (h2 : 1 < n s.con.nowTermId) {sp : StackPtr} {status : UInt8}
    (h : m.returnToParent s.nowPcbId sp status = some s') :
    HaltsCurrent s.con.nowTermId s s' ↔ s.ReturnsToCaller := by
  have hcur : (s.con.term s.con.nowTermId).curPcbId = (n s.con.nowTermId : Int) - 1 :=
    hr.cur s.con.nowTermId
  have htable := table_returnToParent h
  have hterm : ∀ t, (s'.con.term t).curPcbId = (m.con.term t).curPcbId :=
    fun t => congrArg (fun T : Table => (T.term t).curPcbId) htable
  have hmask : ∀ t i, s'.pcbMask t i = m.pcbMask t i :=
    fun t i => congrArg (fun T : Table => T.mask t i) htable
  have hident : ∀ p, (s'.pcb p).ident = (m.pcb p).ident :=
    fun p => congrArg (fun T : Table => T.ident p) htable
  have hid : s.nowPcbId = slotId s.con.nowTermId (n s.con.nowTermId - 1) :=
    hr.nowPcbId_eq (by omega)
  have hparent : 0 ≤ (m.pcb s.nowPcbId).parentProcessNumber := by
    have hnumber : (m.pcb s.nowPcbId).parentProcessNumber =
        (s.pcb s.nowPcbId).parentProcessNumber :=
      congrArg Ident.parentProcessNumber (hu.ident s.nowPcbId)
    have hrow : (s.pcb (slotId s.con.nowTermId (n s.con.nowTermId - 1))).parentProcessNumber =
        if n s.con.nowTermId - 1 = 0 then -1
        else (slotId s.con.nowTermId (n s.con.nowTermId - 1) : Int) - 1 :=
      hr.parent s.con.nowTermId (n s.con.nowTermId - 1) (by omega)
    rw [hnumber, hid, hrow, if_neg (by omega)]
    simp only [slotId]
    omega
  have hfault : s'.Interruptible ↔ s.ReturnsToCaller := by
    have hkbp : (m.pcb s.nowPcbId).parentKbp = (s.pcb s.nowPcbId).parentKbp :=
      congrArg Ident.parentKbp (hu.ident s.nowPcbId)
    rw [interruptible_returnToParent_iff hparent h, ReturnsToCaller, hkbp, frameAt, frameAt,
      hu.kstack]
    have hpos : 0 < (s.con.term s.con.nowTermId).curPcbId := by omega
    exact ⟨fun hno _ => hno, fun hno => hno hpos⟩
  refine ⟨fun hhalts => hfault.mp hhalts.noFault, fun hreturns => ?_⟩
  refine ⟨fun _ => ⟨?_, fun i hi => ?_⟩, fun h0 => ?_, fun t ht => ?_,
    fun t i hi hne => ⟨?_, ?_, ?_⟩, hfault.mpr hreturns⟩
  · rw [hterm, hu.cur, if_pos rfl]
    omega
  · have hslot : slotId s.con.nowTermId i = s.nowPcbId := hi
    rw [hmask, hu.mask, if_pos hslot]
  · omega
  · rw [hterm, hu.cur, if_neg ht]
  · have hslot : slotId t i ≠ s.nowPcbId := hne
    rw [hmask, hu.mask, if_neg hslot, hi]
  · rw [hident, hu.ident]
  · rw [kbp_returnToParent h, hu.kbp]

/-- A root shell is replaced in its slot, if its terminal is the displayed one. -/
theorem Unlinked.haltsCurrent_shell (hu : Unlinked n s m) (hr : Rows s.table n)
    (h1 : n s.con.nowTermId = 1) (sp : StackPtr) (args : List UInt8) :
    HaltsCurrent s.con.nowTermId s ((m.started sp s.con.nowTermId 0 args).push sp .restart) := by
  have hcur : (s.con.term s.con.nowTermId).curPcbId = (n s.con.nowTermId : Int) - 1 :=
    hr.cur s.con.nowTermId
  have hid : s.nowPcbId = slotId s.con.nowTermId 0 := by
    rw [hr.nowPcbId_eq (by omega), h1]
  have htable := table_started m sp s.con.nowTermId 0 args
  have hterm : ∀ t, t ≠ s.con.nowTermId →
      ((m.started sp s.con.nowTermId 0 args).con.term t).curPcbId = (m.con.term t).curPcbId := by
    intro t ht
    refine (congrArg (fun T : Table => (T.term t).curPcbId) htable).trans ?_
    simp only [Table.start, Function.update_of_ne ht]
    rfl
  have hpcb : ∀ p, p ≠ s.nowPcbId → (m.started sp s.con.nowTermId 0 args).pcb p = m.pcb p := by
    intro p hp
    rw [pcb_started, Function.update_of_ne (hid ▸ hp)]
  refine ⟨fun hpos => ?_, fun _ => ⟨?_, ?_⟩, fun t ht => ?_, fun t i hi hne => ⟨?_, ?_, ?_⟩,
    fun sp' hcpu => ?_⟩
  · omega
  · refine (congrArg (fun T : Table => (T.term s.con.nowTermId).curPcbId) htable).trans ?_
    simp only [Table.start, Function.update_self]
    rfl
  · change (Pcb.fds ((m.started sp s.con.nowTermId 0 args).pcb s.nowPcbId)) = freshFds
    rw [hid, pcb_started]
    change Pcb.fds (Function.update m.pcb (slotId s.con.nowTermId 0) _ _) = freshFds
    rw [Function.update_self]
    rfl
  · refine (hterm t ht).trans ?_
    rw [hu.cur, if_neg ht]
  · have hmask : (m.started sp s.con.nowTermId 0 args).pcbMask t i =
        markSlot m.pcbMask s.con.nowTermId 0 true t i :=
      congrArg (fun T : Table => T.mask t i) htable
    have hslot : ¬(s.con.nowTermId = t ∧ (0 : Fin 4) = i) := by
      rintro ⟨rfl, rfl⟩
      exact hne hid.symm
    have hnotNow : slotId t i ≠ s.nowPcbId := hne
    refine hmask.trans ?_
    rw [markSlot_of_ne hslot, hu.mask, if_neg hnotNow, hi]
  · exact (congrArg Pcb.ident (hpcb _ hne)).trans (hu.ident _)
  · exact (congrArg Pcb.kbp (hpcb _ hne)).trans (hu.kbp _)
  · cases hcpu

/-- However `halt` ends, the running terminal goes back in its row, unless it is the displayed one
and gets a new shell. -/
theorem cur_halt_of_ne (hr : Rows s.table n)
    (hlive : 0 ≤ (s.con.term s.con.nowTermId).curPcbId)
    (hd : s.con.curTermId ≠ some s.con.nowTermId) {sp : StackPtr} {status : UInt8} {stale : Stale}
    (h : s.halt img sp status stale = some s') :
    (s'.con.term s.con.nowTermId).curPcbId < (s.con.term s.con.nowTermId).curPcbId := by
  have hcur : (s.con.term s.con.nowTermId).curPcbId = (n s.con.nowTermId : Int) - 1 :=
    hr.cur s.con.nowTermId
  have hpos := hr.pos_of_live hlive
  obtain ⟨row, slot, m, hslot, hcore, hcurTerm, hend⟩ := halt_unlinks hr hpos h
  have hu := unlinked_of_core hr hpos hslot hcore
  have hless : (m.con.term s.con.nowTermId).curPcbId <
      (s.con.term s.con.nowTermId).curPcbId := by
    rw [hu.cur, if_pos rfl]
    omega
  have hback : ∀ {r : Kernel} {id : Nat},
      (r.con.term s.con.nowTermId).curPcbId = (m.con.term s.con.nowTermId).curPcbId →
      r.returnToParent id sp status = some s' →
      (s'.con.term s.con.nowTermId).curPcbId < (s.con.term s.con.nowTermId).curPcbId := by
    intro r id hr hret
    have hterm := congrArg (fun T : Table => (T.term s.con.nowTermId).curPcbId)
      (table_returnToParent hret)
    exact lt_of_eq_of_lt (hterm.trans hr) hless
  -- what the call of `execute` for a new shell makes of the terminal
  have hcalled : ∀ {o : Outcome}, execute img m sp shellCommand stale = some o →
      (o.state.con.term s.con.nowTermId).curPcbId = (m.con.term s.con.nowTermId).curPcbId := by
    intro o ho
    cases execute_exit ho with
    | refused => rfl
    | full => exact congrArg (fun c : Core => (c.term s.con.nowTermId).curPcbId) (core_printf ..)
    | failed => rfl
    | faulted => rfl
    | @started prog cur i mem _ hcur' =>
      have hne : s.con.nowTermId ≠ cur := by
        rintro rfl
        exact hd (hcurTerm ▸ hcur')
      refine (congrArg (fun T : Table => (T.term s.con.nowTermId).curPcbId)
        (table_started (m.withMem mem) sp cur i prog.args)).trans ?_
      simp only [Table.start, Function.update_of_ne hne]
      rfl
  obtain ⟨-, o, ho, ⟨r, rfl, rfl⟩ | rfl | ⟨eax, r, rfl, hret⟩⟩ | ⟨-, hret⟩ := hend
  · exact lt_of_eq_of_lt (hcalled ho) hless
  · exact lt_of_eq_of_lt (hcalled ho) hless
  · exact hback (hcalled ho) hret
  · exact hback rfl hret

/-- `halt` ends the process of the running terminal, and where this is a root shell the new one
goes to the displayed terminal. -/
theorem haltsCurrent_iff (hb : Bootable img) (hr : Rows s.table n)
    (hlive : 0 ≤ (s.con.term s.con.nowTermId).curPcbId) (hd : s.con.curTermId = some d)
    {sp : StackPtr} {status : UInt8} {stale : Stale} (h : s.halt img sp status stale = some s') :
    HaltsCurrent d s s' ↔ d = s.con.nowTermId ∧ s.ReturnsToCaller := by
  by_cases hne : d ≠ s.con.nowTermId
  · refine iff_of_false (fun hhalts => ?_) fun hhome => hne hhome.1
    have hless := cur_halt_of_ne hr hlive
      (fun hnow => hne (Option.some.inj (hd.symm.trans hnow))) h
    have hkept := hhalts.terminals s.con.nowTermId (Ne.symm hne)
    omega
  · obtain rfl := not_not.mp hne
    rw [and_iff_right rfl]
    have hcur : (s.con.term s.con.nowTermId).curPcbId = (n s.con.nowTermId : Int) - 1 :=
      hr.cur s.con.nowTermId
    have hpos := hr.pos_of_live hlive
    by_cases h1 : n s.con.nowTermId = 1
    · obtain ⟨row, slot, m, args, hslot, hcore, -, rfl⟩ := halt_restarts hb hr h1 hd h
      have hu := unlinked_of_core hr hpos hslot hcore
      exact iff_of_true (hu.haltsCurrent_shell hr h1 sp args) fun hpos' => by omega
    · obtain ⟨row, slot, m, hslot, hcore, -, ⟨h1', -⟩ | ⟨h2, hret⟩⟩ := halt_unlinks hr hpos h
      · exact absurd h1' h1
      · have hu := unlinked_of_core hr hpos hslot hcore
        have hid : s.nowPcbId = top n s.con.nowTermId := hr.nowPcbId_eq hpos
        rw [← hid] at hret
        exact hu.haltsCurrent_child_iff hr h2 hret

/-! ### The key -/

/-- The event is a C with Ctrl held down, and the handler calls `halt`. -/
def Kernel.pressesCtrlC (s : Kernel) : Event → Bool
  | .key scancode stale => s.callsHalt (.key scancode stale)
  | _ => false

/-- Ctrl+C halts the current process of the displayed terminal. -/
def CtrlCRight (img : Image) (s : Kernel) (e : Event) : Prop :=
  s.pressesCtrlC e = true → ∀ d s', s.con.curTermId = some d → step img s e = some s' →
    HaltsCurrent d s s'

/-- Ctrl+C comes while the displayed terminal is the running one, and the process there can return
to its caller. -/
def CtrlCAtHome (s : Kernel) (e : Event) : Prop :=
  s.pressesCtrlC e = true → ∀ d, s.con.curTermId = some d →
    d = s.con.nowTermId ∧ s.ReturnsToCaller

instance (s : Kernel) (e : Event) : Decidable (CtrlCAtHome s e) :=
  inferInstanceAs (Decidable (_ → _))

theorem callsHalt_of_pressesCtrlC (h : s.pressesCtrlC e = true) : s.callsHalt e = true := by
  cases e with
  | key scancode stale => exact h
  | _ => cases h

/-- One press. -/
theorem ctrlCRight_iff_ctrlCAtHome (hb : Bootable img) (hr : Rows s.table n)
    (hlive : HaltsLive s e) (h : step img s e = some s') :
    CtrlCRight img s e ↔ CtrlCAtHome s e := by
  refine imp_congr_right fun hpress => ?_
  have hcall := callsHalt_of_pressesCtrlC hpress
  have hone : ∀ d, s.con.curTermId = some d →
      (HaltsCurrent d s s' ↔ d = s.con.nowTermId ∧ s.ReturnsToCaller) := by
    intro d hd
    cases step_kind h with
    | @halt _ m _ status stale _ hcore hcur _ hhalt =>
      have htable := table_eq_of_core hcore
      have hnow : m.con.nowTermId = s.con.nowTermId := congrArg (fun T : Table => T.now) htable
      have hlive' : 0 ≤ (m.con.term m.con.nowTermId).curPcbId := by
        rw [hnow]
        have hterm := congrArg (fun T : Table => (T.term s.con.nowTermId).curPcbId) htable
        exact (hlive hcall).trans_eq hterm.symm
      have hreturns : s.ReturnsToCaller ↔ m.ReturnsToCaller :=
        ⟨fun hh => hh.of_core hcore.symm, fun hh => hh.of_core hcore⟩
      rw [hreturns, ← hnow, ← haltsCurrent_iff hb (htable ▸ hr) hlive' (hcur.trans hd) hhalt]
      exact ⟨fun hh => hh.of_core hcore.symm, fun hh => hh.of_core hcore⟩
    | light hcall' => cases hcall.symm.trans hcall'
    | _ => cases hpress
  constructor
  · exact fun hright d hd => (hone d hd).mp (hright d s' hd h)
  · intro hhome d m hd hm
    obtain rfl := Option.some.inj (h.symm.trans hm)
    exact (hone d hd).mpr (hhome d hd)

/-- **Ctrl+C.** Along a run from boot in which `halt` is called only in terminals with a process and
no load faults, Ctrl+C halts the current process of the displayed terminal and no other one exactly
when it always comes while that terminal is the running one, for a process that can return to its
caller. -/
theorem ctrlCRight_iff (hb : Bootable img) {s₀ : Kernel} {es : List Event}
    (hlive : Guarded (step img) (KeepsStacks img) (boot s₀) es)
    (hrun : run (step img) (boot s₀) es = some s) :
    Guarded (step img) (CtrlCRight img) (boot s₀) es ↔
      Guarded (step img) CtrlCAtHome (boot s₀) es := by
  refine guarded_iff_guarded (I := fun s => ∃ n, Rows s.table n) ?_ ?_ ⟨_, rows_boot s₀⟩ hlive
    (by rw [hrun]; rfl)
  · rintro s e s' ⟨n, hr⟩ hg h
    obtain ⟨n', hr', -⟩ := rows_step hb.toWellFormed hr hg h
    exact ⟨n', hr'⟩
  · rintro s e s' ⟨n, hr⟩ hg h
    exact ctrlCRight_iff_ctrlCAtHome hb hr hg.1 h

/-- The three shells are launched, and Ctrl+C is pressed while that of the displayed terminal 0
runs. -/
def homeKeys : List Event :=
  [.tick noStale, .tick noStale, .tick noStale, .key 0x1D noStale, .key 0x2E noStale]

theorem ctrlCRight_iff_sample :
    Guarded (step sampleImage) (CtrlCRight sampleImage) (boot powerOn) homeKeys := by
  have hguards : Guarded (step sampleImage) (KeepsStacks sampleImage) (boot powerOn) homeKeys ∧
      Guarded (step sampleImage) CtrlCAtHome (boot powerOn) homeKeys := by decide +kernel
  have hsome : (run (step sampleImage) (boot powerOn) homeKeys).isSome = true := by
    decide +kernel
  obtain ⟨s, hs⟩ := Option.isSome_iff_exists.mp hsome
  exact (ctrlCRight_iff sampleImage_bootable hguards.1 hs).mpr hguards.2

/-- One more tick, and the scheduler runs the shell of terminal 1 when Ctrl+C is pressed. -/
def awayKeys : List Event :=
  [.tick noStale, .tick noStale, .tick noStale, .tick noStale, .key 0x1D noStale]

/-- The shell of terminal 1 is gone. -/
theorem not_ctrlCRight : ¬ ∀ img, Bootable img → ∀ (s₀ : Kernel) (es : List Event),
    (∀ e ∈ es, e.isTick = true ∨ ∃ scancode stale, e = .key scancode stale) →
      ∀ s, run (step img) (boot s₀) es = some s →
        ∀ scancode stale, CtrlCRight img s (.key scancode stale) := by
  intro hctrlC
  have hobs : (run (step sampleImage) (boot powerOn) awayKeys).bind (fun s =>
      (step sampleImage s (.key 0x2E noStale)).map fun s' =>
        (s.pressesCtrlC (.key 0x2E noStale), s.con.curTermId, (s.con.term 1).curPcbId,
          (s'.con.term 1).curPcbId)) = some (true, some 0, 0, -1) := by decide +kernel
  obtain ⟨s, hs, hobs⟩ := Option.bind_eq_some_iff.mp hobs
  obtain ⟨s', hs', hobs⟩ := Option.map_eq_some_iff.mp hobs
  simp only [Prod.mk.injEq] at hobs
  obtain ⟨hpress, hcur, h1, h1'⟩ := hobs
  have hevents : ∀ e ∈ awayKeys, e.isTick = true ∨ ∃ scancode stale, e = .key scancode stale := by
    intro e he
    simp only [awayKeys, List.mem_cons, List.not_mem_nil, or_false] at he
    obtain rfl | rfl | rfl | rfl | rfl := he
    · exact .inl rfl
    · exact .inl rfl
    · exact .inl rfl
    · exact .inl rfl
    · exact .inr ⟨_, _, rfl⟩
  have hhalts := hctrlC sampleImage sampleImage_bootable powerOn awayKeys hevents s hs 0x2E noStale
    hpress 0 s' hcur hs'
  have hkept := hhalts.terminals 1 (by decide)
  omega

end LinuxLikeKernel
