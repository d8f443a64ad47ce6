import LinuxLikeKernel.ProcessTable

/-!
# Terminals come to life

The first three ticks launch the three terminals, if nothing keeps `term_launch` from it. From
then on every terminal has a process, and the ids given to `get_pcb_from_id` name processes, as
long as the last shell of a terminal does not halt and no load faults. Before the last launch it
may, if its terminal is displayed.

## Main definitions

- `pcbLookups` — the ids an event's handling passes to `get_pcb_from_id`
- `LaunchGuard` — launches are not skipped, root shells that have all been launched do not halt, and
  no load faults
- `Launching` — the terminals launched so far have a process

## Main results

- `terminals_live` — the three properties along guarded runs
-/

namespace LinuxLikeKernel
open ByteMemory Transition Kernel

/-! ### What is looked up -/

/-- A process of the table: some slot in use has this id. -/
def LivePcb (mask : TermId → Fin 4 → Bool) (id : Nat) : Prop :=
  ∃ t i, id = slotId t i.val ∧ mask t i = true

/-- An id passed to `get_pcb_from_id`, and `PCB_mask` at that moment. -/
abbrev PcbLookup : Type := Nat × (TermId → Fin 4 → Bool)

namespace Kernel

/-- The id passed for a terminal. -/
def pcbLookup (s : Kernel) (t : TermId) : PcbLookup := (s.pcbId t, s.pcbMask)

/-- The lookups of `halt`: its own, and one by `close` for each descriptor with the flag set,
after the process has been unlinked. -/
def haltLookups (s : Kernel) : List PcbLookup :=
  let own := s.pcbLookup s.con.nowTermId
  let openFds := (List.finRange 8).filter fun i => ((s.pcb s.nowPcbId).fds i).flags = 1
  own :: ((s.unlink s.nowPcbId).toList.flatMap fun u =>
    openFds.map fun _ => u.pcbLookup u.con.nowTermId)

/-- The ids that the handling of an event passes to `get_pcb_from_id`. `rtc_open` and
`rtc_read` repeat the lookup of `open` and `read`; `execute`, `vidmap` and the loops of a
blocked call make none. -/
def pcbLookups (s : Kernel) (e : Event) : List PcbLookup :=
  if s.callsHalt e then s.haltLookups
  else
    let next := nextTermId s.con.nowTermId
    match e with
    | .tick _ => s.pcbLookup s.con.nowTermId ::
        if (s.con.term next).curPcbId = -1 then [] else [s.pcbLookup next]
    | .rtc => [s.pcbLookup 0, s.pcbLookup 1, s.pcbLookup 2]
    | .open _ => [s.pcbLookup s.con.nowTermId]
    | .close _ => [s.pcbLookup s.con.nowTermId]
    | .read .. => [s.pcbLookup s.con.nowTermId]
    | .write .. => [s.pcbLookup s.con.nowTermId]
    | .getargs .. => [s.pcbLookup s.con.nowTermId]
    | _ => []

/-- The terminal has a current process, in one of its slots. -/
def HasProcess (s : Kernel) (t : TermId) : Prop :=
  ∃ i : Fin 4, (s.con.term t).curPcbId = i.val ∧ s.pcbMask t i = true

instance (s : Kernel) (t : TermId) : Decidable (s.HasProcess t) :=
  inferInstanceAs (Decidable (∃ _, _ ∧ _))

end Kernel

/-! ### The condition -/

def Event.isTick : Event → Bool
  | .tick _ => true
  | _ => false

def ticks (es : List Event) : Nat := (es.map fun e => if e.isTick then 1 else 0).sum

/-- If the next terminal has no process, nothing keeps a tick from launching it: it is not
displayed, and there are fewer than six processes. -/
def CanLaunch (s : Kernel) : Prop :=
  (s.con.term (nextTermId s.con.nowTermId)).curPcbId = -1 →
    s.con.curTermId ≠ some (nextTermId s.con.nowTermId) ∧ pcbTotalNumber s.pcbMask < 6

instance (s : Kernel) : Decidable (CanLaunch s) := inferInstanceAs (Decidable (_ → _ ∧ _))

/-- `halt` is called only in terminals whose process has a parent. -/
def HaltsChild (s : Kernel) (e : Event) : Prop :=
  s.callsHalt e = true → 0 < (s.con.term s.con.nowTermId).curPcbId

instance (s : Kernel) (e : Event) : Decidable (HaltsChild s e) :=
  inferInstanceAs (Decidable (_ → _))

/-- No root shell halts, and no load faults. -/
def KeepsShells (img : Image) (s : Kernel) (e : Event) : Prop :=
  HaltsChild s e ∧ s.LoadsReach img e

instance (img : Image) (s : Kernel) (e : Event) : Decidable (KeepsShells img s e) :=
  inferInstanceAs (Decidable (_ ∧ _))

/-- The process of the running terminal is a root shell that is displayed, and some terminal has
not been launched. -/
def RestartsEarly (s : Kernel) : Prop :=
  (s.con.term s.con.nowTermId).curPcbId = 0 ∧ s.con.curTermId = some s.con.nowTermId ∧
    ∃ t, (s.con.term t).curPcbId = -1

instance (s : Kernel) : Decidable (RestartsEarly s) :=
  inferInstanceAs (Decidable (_ ∧ _ ∧ ∃ _, _))

/-- A tick that selects a terminal without a process can launch it, no root shell halts unless it is
started again before the last launch, and no load faults. -/
def LaunchGuard (img : Image) (s : Kernel) (e : Event) : Prop :=
  (e.isTick = true → CanLaunch s) ∧
  (s.callsHalt e = true → 0 < (s.con.term s.con.nowTermId).curPcbId ∨ RestartsEarly s) ∧
  s.LoadsReach img e

instance (img : Image) (s : Kernel) (e : Event) : Decidable (LaunchGuard img s e) :=
  inferInstanceAs (Decidable ((_ → _) ∧ (_ → _) ∧ _))

/-! ### What launches depend on -/

/-- The running terminal and the `running` flags. -/
def Table.phase (T : Table) : TermId × (TermId → Bool) := (T.now, fun t => (T.term t).running)

theorem phase_start (T : Table) (cur : TermId) (i : Fin 4) (sp : StackPtr) :
    (T.start cur i sp).phase = T.phase := by
  simp only [Table.phase, Table.start, Prod.mk.injEq, true_and]
  funext t
  by_cases ht : t = cur
  · subst ht
    rw [Function.update_self]
  · rw [Function.update_of_ne ht]

theorem phase_unlink (T : Table) (row : TermId) (slot : Fin 4) (parent : Int) :
    (T.unlink row slot parent).phase = T.phase := by
  simp only [Table.phase, Table.unlink, Prod.mk.injEq, true_and]
  funext t
  by_cases ht : t = T.now
  · subst ht
    rw [Function.update_self]
  · rw [Function.update_of_ne ht]

variable {img : Image} {s s' : Kernel} {n : TermId → Nat}

theorem phase_launchState (s : Kernel) :
    s.launchState.table.phase = (nextTermId s.con.nowTermId,
      Function.update s.table.phase.2 (nextTermId s.con.nowTermId) true) := by
  rw [show s.launchState.table = _ from congrArg Core.toTable (core_launchState s)]
  simp only [Table.phase, Prod.mk.injEq]
  refine ⟨rfl, ?_⟩
  funext t
  by_cases ht : t = nextTermId s.con.nowTermId
  · subst ht
    simp
  · simp [Function.update_of_ne ht, core]

theorem phase_execute {sp : StackPtr} {command : List UInt8} {stale : Stale} {o : Outcome}
    (h : execute img s sp command stale = some o) : o.state.table.phase = s.table.phase := by
  cases execute_exit h with
  | refused => rfl
  | full => rw [Outcome.state, table_eq_of_core (core_printf ..)]
  | failed => rfl
  | faulted => rfl
  | started =>
    rw [Outcome.state, table_started, phase_start]
    rfl

theorem phase_halt {sp : StackPtr} {status : UInt8} {stale : Stale}
    (h : s.halt img sp status stale = some s') : s'.table.phase = s.table.phase := by
  obtain ⟨row, slot, m, -, hcore, -, hend⟩ := halt_cases h
  have hm : m.table.phase = s.table.phase := by
    rw [show m.table = _ from congrArg Core.toTable hcore]
    exact phase_unlink ..
  obtain ⟨-, o, ho, hs⟩ | ⟨-, hret⟩ := hend
  · have hphase := (phase_execute ho).trans hm
    obtain ⟨r, rfl, rfl⟩ | rfl | ⟨eax, r, rfl, hret⟩ := hs
    · exact hphase
    · exact hphase
    · rw [table_returnToParent hret]
      exact hphase
  · rw [table_returnToParent hret]
    exact hm

/-- Only ticks move on and launch. -/
theorem phase_step {e : Event} (he : e.isTick = false)
    (h : step img s e = some s') : s'.table.phase = s.table.phase := by
  cases step_kind h with
  | tick hi htick => cases he
  | execute hcpu hexec ho =>
    have hphase := phase_execute hexec
    obtain rfl | rfl | ⟨eax, r, rfl, rfl⟩ := ho
    · exact hphase
    · exact hphase
    · exact hphase
  | halt hcall hcore hcur hload hhalt =>
    rw [phase_halt hhalt, table_eq_of_core hcore]
  | light hcall hexec hcore => rw [table_eq_of_core hcore]
  | block hcpu hcore hf => rw [table_block, table_eq_of_core hcore]
  | fault hcpu => rfl
  | video hcore => rw [show s'.table = _ from congrArg Core.toTable hcore]; rfl
  | loop hcpu hframe hf₀ hf hcore => rw [show s'.table = _ from congrArg Core.toTable hcore]; rfl
  | loopEnd hcpu hframe hf₀ hdepth hcore =>
    rw [show s'.table = _ from congrArg Core.toTable hcore]
    rfl

/-! ### One step -/

theorem val_nextTermId (t : TermId) : (nextTermId t).val = (t.val + 1) % 3 := by
  simp [nextTermId, Fin.val_add]

/-- After `k` ticks: the rows are stacks, the running terminal is the `k`-th, the first `k`
terminals have processes, and a terminal that has none was never launched. -/
structure Launching (k : Nat) (s : Kernel) (n : TermId → Nat) : Prop where
  rows : Rows s.table n
  now : s.con.nowTermId.val = k % 3
  live : ∀ t : TermId, (t.val + 2) % 3 < k → 0 < n t
  idle : ∀ t, n t = 0 → (s.con.term t).running = false

/-- The slot of the shell that a tick launches. -/
theorem slot_of_launch (hr : Rows s.table n) (h0 : n (nextTermId s.con.nowTermId) = 0)
    (htotal : pcbTotalNumber s.pcbMask < 6) :
    pcbProcessNumber s.pcbMask (nextTermId s.con.nowTermId) = some 0 := by
  have hsum : pcbTotalNumber s.pcbMask = n 0 + n 1 + n 2 := hr.total_eq
  refine (hr.slot_of_room (by omega) (by omega)).trans ?_
  simp only [h0]
  rfl

/-- **A launch succeeds.** A tick that selects a terminal without a process starts a shell in
it, if the terminal is not displayed and there are fewer than six processes. -/
theorem tick_launches (hb : Bootable img) (hr : Rows s.table n)
    (hempty : (s.con.term (nextTermId s.con.nowTermId)).curPcbId = -1)
    (hcur : s.con.curTermId ≠ some (nextTermId s.con.nowTermId))
    (hrun : (s.con.term (nextTermId s.con.nowTermId)).running = false)
    (htotal : pcbTotalNumber s.pcbMask < 6) (stale : Stale) :
    ∃ args, s.pitInterruptHandler img stale =
      some (s.launchState.started s.entry.up (nextTermId s.con.nowTermId) 0 args) := by
  have h0 := hr.eq_zero_of_empty hempty
  obtain ⟨args, hexec⟩ := execute_shell hb s.entry.up stale (curTermId_launchState s)
    (slot_of_launch hr h0 htotal)
  refine ⟨args, ?_⟩
  rw [pitInterruptHandler_launch stale hempty hcur hrun, hexec]
  rfl

/-- A tick that finds a process changes nothing in the table but the running terminal. -/
theorem table_switch {stale : Stale}
    (hne : (s.con.term (nextTermId s.con.nowTermId)).curPcbId ≠ -1)
    (h : s.pitInterruptHandler img stale = some s') : s'.table = s.saveContext.table := by
  obtain ⟨hempty, -⟩ | ⟨-, page, m, -, hcore, -, -, hres⟩ := pitInterruptHandler_cases h
  · exact absurd hempty hne
  · rw [table_resume hres, show m.table = _ from congrArg Core.toTable hcore]
    rfl

theorem Launching.tick (hb : Bootable img) {k : Nat} (hl : Launching k s n) {stale : Stale}
    (hg : LaunchGuard img s (.tick stale)) (h : s.pitInterruptHandler img stale = some s') :
    ∃ n', Launching (k + 1) s' n' := by
  have hnext : (nextTermId s.con.nowTermId).val = (k + 1) % 3 := by
    rw [val_nextTermId, hl.now]
    omega
  have hcur := hl.rows.cur (nextTermId s.con.nowTermId)
  by_cases hempty : (s.con.term (nextTermId s.con.nowTermId)).curPcbId = -1
  · -- the terminal was never launched, so nothing stops it
    obtain ⟨hdisplayed, htotal⟩ := hg.1 rfl hempty
    have h0 := hl.rows.eq_zero_of_empty hempty
    have hidle := hl.idle _ h0
    obtain ⟨args, heq⟩ := tick_launches hb hl.rows hempty hdisplayed hidle htotal stale
    obtain rfl := Option.some.inj (heq.symm.trans h)
    have hslot := slot_of_launch hl.rows h0 htotal
    have hrows := (rows_launchState hl.rows).start s.entry.up.up hslot
    rw [← table_started] at hrows
    have hphase := (congrArg Table.phase (table_started s.launchState s.entry.up
      (nextTermId s.con.nowTermId) 0 args)).trans (phase_start ..)
    rw [phase_launchState] at hphase
    refine ⟨_, hrows, (congrArg (fun p => p.1.val) hphase).trans hnext, fun t ht => ?_,
      fun t ht => ?_⟩
    · by_cases hn : t = nextTermId s.con.nowTermId
      · subst hn
        rw [Function.update_self]
        omega
      · rw [Function.update_of_ne hn]
        refine hl.live t ?_
        have hne : t.val ≠ (nextTermId s.con.nowTermId).val := fun h => hn (Fin.ext h)
        have hlt := t.isLt
        omega
    · have hn : t ≠ nextTermId s.con.nowTermId := by
        rintro rfl
        rw [Function.update_self] at ht
        omega
      rw [Function.update_of_ne hn] at ht
      exact (congrFun (congrArg Prod.snd hphase) t).trans
        ((Function.update_of_ne hn _ _).trans (hl.idle t ht))
  · -- it has a process, so the tick is a switch
    have htable := table_switch hempty h
    have hpos : 0 < n (nextTermId s.con.nowTermId) := by
      have hne : (s.table.term (nextTermId s.con.nowTermId)).curPcbId ≠ -1 := hempty
      omega
    refine ⟨n, htable ▸ rows_saveContext hl.rows, ?_, fun t ht => ?_, fun t ht => ?_⟩
    · rw [show s'.con.nowTermId = nextTermId s.con.nowTermId from
        congrArg (fun T : Table => T.now) htable]
      exact hnext
    · by_cases hn : t = nextTermId s.con.nowTermId
      · exact hn ▸ hpos
      · refine hl.live t ?_
        have hne : t.val ≠ (nextTermId s.con.nowTermId).val := fun h => hn (Fin.ext h)
        have hlt := t.isLt
        omega
    · rw [show (s'.con.term t).running = (s.con.term t).running from
        congrArg (fun T : Table => (T.term t).running) htable]
      exact hl.idle t ht

theorem HaltsChild.haltsLive {e : Event} (hg : HaltsChild s e) : HaltsLive s e :=
  fun h => Int.le_of_lt (hg h)

/-- When no root shell halts, terminals that have a process keep one. -/
theorem rows_step_pos (hwf : WellFormed img) {e : Event} (hr : Rows s.table n)
    (hg : KeepsShells img s e) (h : step img s e = some s') :
    ∃ n', Rows s'.table n' ∧ ∀ t, 0 < n t → 0 < n' t := by
  obtain ⟨n', hr', hle⟩ := rows_step hwf hr ⟨hg.1.haltsLive, hg.2⟩ h
  refine ⟨n', hr', fun t ht => ?_⟩
  obtain hle | ⟨hcall, rfl, hle⟩ := hle t
  · omega
  · have hchild := hg.1 hcall
    have hcur : (s.con.term s.con.nowTermId).curPcbId = (n s.con.nowTermId : Int) - 1 :=
      hr.cur s.con.nowTermId
    omega

/-- A root shell that halts while it is displayed is started again in its slot. -/
theorem rows_restart (hb : Bootable img) (hr : Rows s.table n) (h1 : n s.con.nowTermId = 1)
    (hhome : s.con.curTermId = some s.con.nowTermId) {sp : StackPtr} {status : UInt8}
    {stale : Stale} (h : s.halt img sp status stale = some s') : Rows s'.table n := by
  obtain ⟨row, slot, m, args, hslot, hcore, hfree, rfl⟩ := halt_restarts hb hr h1 hhome h
  have hm : m.table = s.table.unlink row slot
      (s.pcb (top n s.con.nowTermId)).parentProcessNumber := congrArg Core.toTable hcore
  have hpop : Rows m.table (Function.update n s.con.nowTermId (n s.con.nowTermId - 1)) :=
    hm ▸ hr.unlink (by show 0 < n s.con.nowTermId; omega) hslot
  have hback : Function.update (Function.update n s.con.nowTermId (n s.con.nowTermId - 1))
      s.con.nowTermId (n s.con.nowTermId - 1 + 1) = n := by
    rw [Function.update_idem, Nat.sub_add_cancel (by omega), Function.update_eq_self]
  have hstart := hpop.start sp.up hfree
  rw [Function.update_self, hback, ← table_started m sp s.con.nowTermId 0 args] at hstart
  exact hstart

/-- The same for all that `halt` is called by. -/
theorem rows_step_restart (hb : Bootable img) {e : Event} (hr : Rows s.table n)
    (hcall : s.callsHalt e = true) (h1 : n s.con.nowTermId = 1)
    (hhome : s.con.curTermId = some s.con.nowTermId) (h : step img s e = some s') :
    Rows s'.table n := by
  cases step_kind h with
  | halt hcall' hcore hcur hload hhalt =>
    rename_i m status stale
    have htable := table_eq_of_core hcore
    have hnow : m.con.nowTermId = s.con.nowTermId := congrArg (fun T : Table => T.now) htable
    exact rows_restart hb (htable ▸ hr) (by rw [hnow]; exact h1) (by rw [hcur, hnow]; exact hhome)
      hhalt
  | light hcall' => cases hcall.symm.trans hcall'
  | tick => cases hcall
  | execute => cases hcall
  | block => cases hcall
  | fault => cases hcall
  | video => cases hcall
  | loop => cases hcall
  | loopEnd => cases hcall

/-- Terminals that have a process keep one. -/
theorem Launching.rows_step (hb : Bootable img) {k : Nat} {e : Event} (hl : Launching k s n)
    (hg : LaunchGuard img s e) (h : step img s e = some s') :
    ∃ n', Rows s'.table n' ∧ ∀ t, 0 < n t → 0 < n' t := by
  by_cases hearly : s.callsHalt e = true ∧ RestartsEarly s
  · obtain ⟨hcall, hcur, hhome, -⟩ := hearly
    have hcur' : (s.con.term s.con.nowTermId).curPcbId = (n s.con.nowTermId : Int) - 1 :=
      hl.rows.cur s.con.nowTermId
    exact ⟨n, rows_step_restart hb hl.rows hcall (by omega) hhome h, fun t => id⟩
  · have hchild : HaltsChild s e := fun hcall =>
      (hg.2.1 hcall).resolve_right fun hr => hearly ⟨hcall, hr⟩
    exact rows_step_pos hb.toWellFormed hl.rows ⟨hchild, hg.2.2⟩ h

/-- **Step lemma.** Ticks bring the next terminal to life, other events keep alive what is. -/
theorem Launching.step (hb : Bootable img) {k : Nat} {e : Event} (hl : Launching k s n)
    (hg : LaunchGuard img s e) (h : step img s e = some s') :
    ∃ n', Launching (k + if e.isTick then 1 else 0) s' n' := by
  by_cases he : e.isTick = true
  · cases e with
    | tick stale =>
      rw [if_pos he]
      exact hl.tick hb hg (step_tick h)
    | _ => cases he
  · have hphase := phase_step (Bool.eq_false_iff.mpr he) h
    obtain ⟨n', hr', hpos⟩ := hl.rows_step hb hg h
    rw [if_neg he]
    refine ⟨n', hr', ?_, fun t ht => hpos t (hl.live t ht), fun t ht => ?_⟩
    · exact (congrArg (fun p => p.1.val) hphase).trans hl.now
    · refine (congrFun (congrArg Prod.snd hphase) t).trans (hl.idle t ?_)
      have := hpos t
      omega

theorem launching_boot (s : Kernel) : Launching 0 (boot s) fun _ => 0 where
  rows := rows_boot s
  now := rfl
  live := fun t ht => by omega
  idle := fun _ _ => rfl

/-! ### The ids that are looked up -/

theorem Rows.hasProcess (hr : Rows s.table n) {t : TermId} (hpos : 0 < n t) :
    s.HasProcess t := by
  have hle := hr.le t
  have hcur : (s.con.term t).curPcbId = n t - 1 := hr.cur t
  refine ⟨⟨n t - 1, by omega⟩, ?_, (hr.mask t _).mpr ?_⟩
  · rw [hcur]
    simp only
    omega
  · simp only
    omega

theorem Rows.livePcb (hr : Rows s.table n) {t : TermId} (hpos : 0 < n t) :
    LivePcb (s.pcbLookup t).2 (s.pcbLookup t).1 := by
  have hle := hr.le t
  refine ⟨t, ⟨n t - 1, by omega⟩, pcbId_eq hpos hle (hr.cur t), (hr.mask t _).mpr ?_⟩
  simp only
  omega

/-- When the process that halts has a parent, `halt` looks up the two of them. -/
theorem Rows.haltLookups (hr : Rows s.table n)
    (hchild : 0 < (s.con.term s.con.nowTermId).curPcbId) :
    ∀ l ∈ s.haltLookups, LivePcb l.2 l.1 := by
  have hcur : (s.con.term s.con.nowTermId).curPcbId = n s.con.nowTermId - 1 :=
    hr.cur s.con.nowTermId
  have hpos : 0 < n s.con.nowTermId := by omega
  have hle := hr.le s.con.nowTermId
  have hid := hr.nowPcbId_eq hpos
  intro l hl
  obtain rfl | hl := List.mem_cons.mp hl
  · exact hr.livePcb hpos
  · obtain ⟨u, hu, hl⟩ := List.mem_flatMap.mp hl
    obtain ⟨-, -, rfl⟩ := List.mem_map.mp hl
    obtain ⟨row, slot, hslot, hcore, -⟩ := unlink_cases (Option.mem_toList.mp hu)
    rw [hid] at hslot hcore
    rw [show (s.pcb (slotId s.con.nowTermId (n s.con.nowTermId - 1))).processNumber =
        slotId s.con.nowTermId (n s.con.nowTermId - 1) from
        hr.number s.con.nowTermId _ (by omega), uint8_slotId _ (by omega)] at hslot
    have hpop := hr.unlink hpos hslot.symm
    have htable : u.table = s.table.unlink row slot
        (s.pcb (slotId s.con.nowTermId (n s.con.nowTermId - 1))).parentProcessNumber :=
      congrArg Core.toTable hcore
    have hrows : Rows u.table (Function.update n s.con.nowTermId (n s.con.nowTermId - 1)) :=
      htable ▸ hpop
    have hnow : u.con.nowTermId = s.con.nowTermId := congrArg (fun T : Table => T.now) htable
    refine hrows.livePcb ?_
    rw [hnow, Function.update_self]
    omega

theorem Rows.pcbLookups (hr : Rows s.table n) (hall : ∀ t, 0 < n t) {e : Event}
    (hchild : s.callsHalt e = true → 0 < (s.con.term s.con.nowTermId).curPcbId) :
    ∀ l ∈ s.pcbLookups e, LivePcb l.2 l.1 := by
  have hlive := fun t => hr.livePcb (hall t)
  intro l hl
  simp only [Kernel.pcbLookups] at hl
  split at hl
  · rename_i hcall
    exact hr.haltLookups (hchild hcall) l hl
  · cases e with
    | tick stale =>
      obtain rfl | hl := List.mem_cons.mp hl
      · exact hlive _
      · split at hl
        · cases hl
        · obtain rfl := List.mem_singleton.mp hl
          exact hlive _
    | rtc =>
      simp only [List.mem_cons, List.not_mem_nil, or_false] at hl
      obtain rfl | rfl | rfl := hl
      · exact hlive 0
      · exact hlive 1
      · exact hlive 2
    | «open» filename => exact List.mem_singleton.mp hl ▸ hlive _
    | close fd => exact List.mem_singleton.mp hl ▸ hlive _
    | read fd buf nbytes => exact List.mem_singleton.mp hl ▸ hlive _
    | write fd buf content nbytes => exact List.mem_singleton.mp hl ▸ hlive _
    | getargs buf nbytes => exact List.mem_singleton.mp hl ▸ hlive _
    | _ => cases hl

/-! ### Whole runs -/

/-- A shell has been started in terminal `t`: it has the terminal's first slot, its page and
kernel stack are in place, and it runs. -/
structure ShellStarted (s : Kernel) (t : TermId) : Prop where
  cur : (s.con.term t).curPcbId = 0
  mask : s.pcbMask t 0 = true
  number : (s.pcb (slotId t 0)).processNumber = slotId t 0
  tss : s.tssEsp0 = processEsp0 (slotId t 0)
  frame : s.paging.userFrame = some (processFrame (slotId t 0))
  cpu : s.cpu = .user

theorem shellStarted_of_launch (hr : Rows s.table n) (h0 : n (nextTermId s.con.nowTermId) = 0)
    (htotal : pcbTotalNumber s.pcbMask < 6) (args : List UInt8) :
    ShellStarted (s.launchState.started s.entry.up (nextTermId s.con.nowTermId) 0 args)
      (nextTermId s.con.nowTermId) := by
  have hslot := slot_of_launch hr h0 htotal
  have hrows := (rows_launchState hr).start s.entry.up.up hslot
  rw [← table_started s.launchState s.entry.up (nextTermId s.con.nowTermId) 0 args] at hrows
  have htop : Function.update n (nextTermId s.con.nowTermId)
      (n (nextTermId s.con.nowTermId) + 1) (nextTermId s.con.nowTermId) = 1 := by
    rw [Function.update_self, h0]
  refine ⟨?_, ?_, ?_, rfl, started_userFrame .., rfl⟩
  · refine (hrows.cur (nextTermId s.con.nowTermId)).trans ?_
    rw [htop]
    rfl
  · refine (hrows.mask (nextTermId s.con.nowTermId) 0).mpr ?_
    rw [htop]
    exact Nat.one_pos
  · exact hrows.number (nextTermId s.con.nowTermId) 0 (by rw [htop]; exact Nat.one_pos)

/-- **Terminals come to life and stay alive.** In every run from boot that meets the launch
guard: a tick that selects a terminal without a process starts a shell in it; from the third
tick on every terminal has a live process; and from then on every id that is looked up is that
of a live process. -/
theorem terminals_live (hb : Bootable img) {s₀ : Kernel} {es : List Event}
    (hg : Guarded (step img) (LaunchGuard img) (boot s₀) es)
    (hrun : run (step img) (boot s₀) es = some s) :
    (∀ stale, LaunchGuard img s (.tick stale) → s.Interruptible →
      (s.con.term (nextTermId s.con.nowTermId)).curPcbId = -1 →
      ∃ s', step img s (.tick stale) = some s' ∧
        ShellStarted s' (nextTermId s.con.nowTermId)) ∧
    (3 ≤ ticks es → (∀ t, s.HasProcess t) ∧
      ∀ e, LaunchGuard img s e → ∀ l ∈ s.pcbLookups e, LivePcb l.2 l.1) := by
  have hstep : ∀ k s e s', (∃ n, Launching k s n) → LaunchGuard img s e → step img s e = some s' →
      ∃ n, Launching (k + if e.isTick then 1 else 0) s' n := by
    rintro k s e s' ⟨n, hl⟩ hg h
    exact hl.step hb hg h
  obtain ⟨n, hl⟩ := Guarded.invariant_count (fun e : Event => if e.isTick then 1 else 0) hstep
    ⟨_, launching_boot s₀⟩ hg hrun
  rw [Nat.zero_add] at hl
  refine ⟨fun stale hguard hi hempty => ?_, fun h3 => ?_⟩
  · obtain ⟨hdisplayed, htotal⟩ := hguard.1 rfl hempty
    have h0 := hl.rows.eq_zero_of_empty hempty
    obtain ⟨args, heq⟩ :=
      tick_launches hb hl.rows hempty hdisplayed (hl.idle _ h0) htotal stale
    rw [step_tick_eq img hi, heq]
    exact ⟨_, rfl, shellStarted_of_launch hl.rows h0 htotal args⟩
  · have hall : ∀ t, 0 < n t := by
      intro t
      refine hl.live t (Nat.lt_of_lt_of_le (Nat.mod_lt _ (by decide)) h3)
    refine ⟨fun t => hl.rows.hasProcess (hall t), fun e hguard => hl.rows.pcbLookups hall ?_⟩
    -- all terminals have been launched
    refine fun hcall => (hguard.2.1 hcall).resolve_right ?_
    rintro ⟨-, -, t, ht⟩
    have hcur : (s.con.term t).curPcbId = (n t : Int) - 1 := hl.rows.cur t
    have hpos := hall t
    omega

/-- The first shell halts and is started again, and the next two ticks launch the others. -/
theorem terminals_live_sample : ∃ s, run (step sampleImage) (boot powerOn)
      [.tick noStale, .halt 0 noStale, .tick noStale, .tick noStale] = some s ∧
    (∀ t, s.HasProcess t) ∧
    ∀ e, LaunchGuard sampleImage s e → ∀ l ∈ s.pcbLookups e, LivePcb l.2 l.1 := by
  obtain ⟨s, hs⟩ := Option.isSome_iff_exists.mp
    (show (run (step sampleImage) (boot powerOn)
      [.tick noStale, .halt 0 noStale, .tick noStale, .tick noStale]).isSome = true by
        decide +kernel)
  exact ⟨s, hs, (terminals_live sampleImage_bootable
    (show Guarded _ (LaunchGuard sampleImage) _ _ by decide +kernel) hs).2 (by decide)⟩

/-- After the first tick terminal 1 is displayed; Alt+F3 displays terminal 2, which has not
been launched. -/
def earlySwitchEvents : List Event := [.tick noStale, .key 0x38 noStale, .key 0x3D noStale]

/-- The next tick selects terminal 2, finds it displayed, and launches nothing. -/
theorem not_terminals_live : ¬ ∀ (img : Image), Bootable img →
    ∀ (s₀ s : Kernel) (es : List Event), run (step img) (boot s₀) es = some s →
      (∀ stale, s.Interruptible → (s.con.term (nextTermId s.con.nowTermId)).curPcbId = -1 →
        ∃ s', step img s (.tick stale) = some s' ∧
          ShellStarted s' (nextTermId s.con.nowTermId)) ∧
      (3 ≤ ticks es → (∀ t, s.HasProcess t) ∧
        ∀ e, ∀ l ∈ s.pcbLookups e, LivePcb l.2 l.1) := by
  intro hall
  have hobs : (run (step sampleImage) (boot powerOn) earlySwitchEvents).map (fun s =>
      (s.cpu, s.con.nowTermId, (s.con.term 2).curPcbId,
        (step sampleImage s (.tick noStale)).map fun s => (s.con.term 2).curPcbId)) =
      some (.user, 1, -1, some (-1)) := by decide +kernel
  obtain ⟨s, hs, hobs⟩ := Option.map_eq_some_iff.mp hobs
  simp only [Prod.mk.injEq] at hobs
  obtain ⟨hcpu, hnow, hempty, hafter⟩ := hobs
  have hnext : nextTermId s.con.nowTermId = 2 := by rw [hnow]; rfl
  have hi : s.Interruptible := by
    intro sp hsp
    rw [hcpu] at hsp
    cases hsp
  obtain ⟨s', hs', hstarted⟩ := (hall sampleImage sampleImage_bootable powerOn s _ hs).1 noStale hi
    (by rw [hnext]; exact hempty)
  have hcur := hstarted.cur
  rw [hnext] at hcur
  rw [hs', Option.map_some, Option.some.injEq, hcur] at hafter
  cases hafter

end LinuxLikeKernel
