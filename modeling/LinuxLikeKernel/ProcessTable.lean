import LinuxLikeKernel.Core

/-!
# The process table as stacks of processes

Each row of `PCB_mask` holds a stack of processes: the slots in use are the first ones, the
terminal's current process is the last of them, and each process is the parent of the next.
`execute` pushes on the row of the displayed terminal and `halt` pops the row of the running
one, so the rows stay stacks unless `halt` runs in a terminal that has no process, or the load of
a program faults after its slot has been taken.

## Main definitions

- `Rows` — the rows are stacks, as high as `n` says
- `HaltsLive` — `halt` is called only in a terminal that has a process
- `KeepsStacks` — and no load faults

## Main results

- `rows_of_guarded_run` — the rows are stacks all along a run that meets `KeepsStacks`
-/

namespace LinuxLikeKernel
open ByteMemory Transition Kernel

/-- Row `t` of the process table is a stack of `n t` processes. -/
structure Rows (T : Table) (n : TermId → Nat) : Prop where
  total : pcbTotalNumber T.mask ≤ 6
  le : ∀ t, n t ≤ 4
  mask : ∀ t i, T.mask t i = true ↔ i.val < n t
  cur : ∀ t, (T.term t).curPcbId = n t - 1
  number : ∀ t i, i < n t → (T.ident (slotId t i)).processNumber = slotId t i
  parent : ∀ t i, i < n t → (T.ident (slotId t i)).parentProcessNumber =
    if i = 0 then (-1 : Int) else (slotId t i : Int) - 1
  termId : ∀ t i, i < n t → (T.ident (slotId t i)).termId = t.val

/-! ### Slots and ids -/

theorem slotId_inj {t u : TermId} {i j : Nat} (hi : i < 4) (hj : j < 4) :
    slotId t i = slotId u j ↔ t = u ∧ i = j := by
  simp only [slotId, maxPcbMaskLen, Fin.ext_iff]
  omega

/-- The slots in use after a process has been added to row `cur`: the new one, and the old
ones. -/
theorem slot_cases {n : TermId → Nat} (hle : ∀ t, n t ≤ 4) {cur : TermId} {i : Fin 4}
    (hi : i.val = n cur) {t : TermId} {k : Nat}
    (hk : k < Function.update n cur (n cur + 1) t) :
    (slotId t k = slotId cur i.val ∧ t = cur ∧ k = n cur) ∨
      (slotId t k ≠ slotId cur i.val ∧ k < n t) := by
  have hlt := i.isLt
  have hn := hle t
  by_cases ht : t = cur
  · subst ht
    rw [Function.update_self] at hk
    by_cases hkn : k = n t
    · exact .inl ⟨by rw [hi, hkn], rfl, hkn⟩
    · refine .inr ⟨?_, by omega⟩
      rw [ne_eq, slotId_inj (by omega) hlt]
      omega
  · rw [Function.update_of_ne ht] at hk
    refine .inr ⟨?_, hk⟩
    rw [ne_eq, slotId_inj (by omega) hlt]
    exact fun h => ht h.1

theorem slotId_lt (t : TermId) {i : Nat} (hi : i < 4) : slotId t i < 12 := by
  have ht := t.isLt
  simp only [slotId, maxPcbMaskLen]
  omega

/-- A number below 12 names one slot. -/
theorem uint8_slotId (t : TermId) {i : Nat} (hi : i < 4) :
    uint8 (slotId t i : Int) = slotId t i := by
  have hlt := slotId_lt t hi
  simp only [uint8]
  omega

/-- The id of the process at the top of a row. -/
theorem pcbId_eq {s : Kernel} {t : TermId} {m : Nat} (hm : 0 < m) (h4 : m ≤ 4)
    (h : (s.con.term t).curPcbId = m - 1) : s.pcbId t = slotId t (m - 1) := by
  have ht := t.isLt
  simp only [pcbId, h, uint8, slotId, maxPcbMaskLen]
  omega

/-! ### Counting -/

theorem count_of_mask {row : Fin 4 → Bool} {m : Nat} (hm : m ≤ 4)
    (h : ∀ i, row i = true ↔ i.val < m) : ((List.finRange 4).filter row).length = m := by
  have hrow : row = fun i => decide (i.val < m) := by
    funext i
    rw [Bool.eq_iff_iff, h i]
    simp
  have hall : ∀ m : Fin 5,
      ((List.finRange 4).filter fun i => decide (i.val < m.val)).length = m.val := by decide
  rw [hrow]
  exact hall ⟨m, by omega⟩

/-- The total for rows that are prefixes. -/
theorem total_of_mask {mask : TermId → Fin 4 → Bool} {n : TermId → Nat} (hle : ∀ t, n t ≤ 4)
    (hmask : ∀ t i, mask t i = true ↔ i.val < n t) :
    pcbTotalNumber mask = n 0 + n 1 + n 2 := by
  have h3 : List.finRange 3 = [0, 1, 2] := by decide
  simp only [pcbTotalNumber, h3, List.map_cons, List.map_nil, List.sum_cons, List.sum_nil,
    count_of_mask (hle _) (hmask _)]
  omega

theorem sum_update_succ (n : TermId → Nat) (t : TermId) :
    Function.update n t (n t + 1) 0 + Function.update n t (n t + 1) 1 +
      Function.update n t (n t + 1) 2 = n 0 + n 1 + n 2 + 1 := by
  have h012 : ∀ t : TermId, t = 0 ∨ t = 1 ∨ t = 2 := by decide
  obtain rfl | rfl | rfl := h012 t
  · simp [Function.update]
    omega
  · simp [Function.update]
    omega
  · simp [Function.update]
    omega

/-- Marking the slot after a prefix lengthens it. -/
theorem markSlot_iff_lt {mask : TermId → Fin 4 → Bool} {n : TermId → Nat}
    (hmask : ∀ t i, mask t i = true ↔ i.val < n t) {cur : TermId} {i : Fin 4}
    (hi : i.val = n cur) (t : TermId) (j : Fin 4) :
    markSlot mask cur i true t j = true ↔ j.val < Function.update n cur (n cur + 1) t := by
  by_cases ht : t = cur
  · subst ht
    by_cases hj : j = i
    · subst hj
      simp [markSlot]
      omega
    · have hne : j.val ≠ n t := fun h => hj (Fin.ext (h.trans hi.symm))
      simp [markSlot, Function.update_of_ne hj, hmask]
      omega
  · simp [markSlot, Function.update_of_ne ht, hmask]

theorem freeSlot_of_mask {mask : TermId → Fin 4 → Bool} {t : TermId} {m : Nat} (hm : m ≤ 4)
    (h : ∀ i, mask t i = true ↔ i.val < m) :
    freeSlot mask t = if hlt : m < 4 then some ⟨m, hlt⟩ else none := by
  have hrow : mask t = fun i => decide (i.val < m) := by
    funext i
    rw [Bool.eq_iff_iff, h i]
    simp
  have hall : ∀ m : Fin 5, ((List.finRange 4).find? fun i => !decide (i.val < m.val)) =
      if hlt : m.val < 4 then some ⟨m.val, hlt⟩ else none := by decide
  rw [freeSlot, hrow]
  exact hall ⟨m, by omega⟩

namespace Rows

variable {T : Table} {n : TermId → Nat}

theorem total_eq (hr : Rows T n) : pcbTotalNumber T.mask = n 0 + n 1 + n 2 :=
  total_of_mask hr.le hr.mask

theorem sum_le (hr : Rows T n) : n 0 + n 1 + n 2 ≤ 6 := hr.total_eq ▸ hr.total

/-- The slot that `PCB_process_number` hands out is on top of the row, and takes the total to
six at most. -/
theorem slot_eq (hr : Rows T n) {cur : TermId} {i : Fin 4}
    (h : pcbProcessNumber T.mask cur = some i) :
    i.val = n cur ∧ pcbTotalNumber (markSlot T.mask cur i true) ≤ 6 := by
  obtain ⟨hfree, htotal⟩ := Option.filter_eq_some_iff.mp h
  rw [freeSlot_of_mask (hr.le cur) (hr.mask cur)] at hfree
  refine ⟨?_, by simpa using htotal⟩
  split at hfree
  · rw [← Option.some.inj hfree]
  · cases hfree

/-- A slot is handed out in a row that is not full, while there are fewer than six
processes. -/
theorem slot_of_room (hr : Rows T n) {cur : TermId} (h4 : n cur < 4)
    (htotal : n 0 + n 1 + n 2 < 6) : pcbProcessNumber T.mask cur = some ⟨n cur, h4⟩ := by
  have hfree : freeSlot T.mask cur = some ⟨n cur, h4⟩ := by
    rw [freeSlot_of_mask (hr.le cur) (hr.mask cur), dif_pos h4]
  have hle : ∀ t, Function.update n cur (n cur + 1) t ≤ 4 := by
    intro t
    have hn := hr.le t
    by_cases ht : t = cur
    · subst ht
      rw [Function.update_self]
      omega
    · rwa [Function.update_of_ne ht]
  have hcount := total_of_mask hle
    (markSlot_iff_lt hr.mask (show (⟨n cur, h4⟩ : Fin 4).val = n cur from rfl))
  rw [sum_update_succ] at hcount
  rw [pcbProcessNumber, hfree, Option.filter_some, if_pos]
  rw [hcount]
  exact decide_eq_true (by omega)

/-- **Push.** A process started in the slot that is handed out goes on top of its row. -/
theorem start (hr : Rows T n) {cur : TermId} {i : Fin 4} (sp : StackPtr)
    (h : pcbProcessNumber T.mask cur = some i) :
    Rows (T.start cur i sp) (Function.update n cur (n cur + 1)) := by
  obtain ⟨hi, htotal⟩ := hr.slot_eq h
  have hlt := i.isLt
  refine ⟨htotal, ?_, ?_, ?_, ?_, ?_, ?_⟩
  · intro t
    by_cases ht : t = cur
    · subst ht
      rw [Function.update_self]
      omega
    · rw [Function.update_of_ne ht]
      exact hr.le t
  · exact markSlot_iff_lt hr.mask hi
  · intro t
    by_cases ht : t = cur
    · subst ht
      simp [Table.start, hi]
    · simp [Table.start, Function.update_of_ne ht, hr.cur]
  · intro t k hk
    obtain ⟨hs, rfl, rfl⟩ | ⟨hs, hk⟩ := slot_cases hr.le hi hk
    · simp [Table.start, hs]
    · simp only [Table.start, Function.update_of_ne hs]
      exact hr.number t k hk
  · intro t k hk
    obtain ⟨hs, rfl, rfl⟩ | ⟨hs, hk⟩ := slot_cases hr.le hi hk
    · simp [Table.start, hs, hi]
    · simp only [Table.start, Function.update_of_ne hs]
      exact hr.parent t k hk
  · intro t k hk
    obtain ⟨hs, rfl, rfl⟩ | ⟨hs, hk⟩ := slot_cases hr.le hi hk
    · simp [Table.start, hs]
    · simp only [Table.start, Function.update_of_ne hs]
      exact hr.termId t k hk

/-- **Pop.** Unlinking the process at the top of the running terminal's row. -/
theorem unlink (hr : Rows T n) (hpos : 0 < n T.now) {row : TermId} {slot : Fin 4}
    (hslot : slotId row slot.val = slotId T.now (n T.now - 1)) :
    Rows (T.unlink row slot (T.ident (slotId T.now (n T.now - 1))).parentProcessNumber)
      (Function.update n T.now (n T.now - 1)) := by
  have hle := hr.le T.now
  -- the slot is the top of the running terminal's row
  obtain ⟨rfl, hi⟩ := (slotId_inj slot.isLt (by omega)).mp hslot
  have hparent := hr.parent T.now (n T.now - 1) (by omega)
  have hsub : ∀ t k, k < Function.update n T.now (n T.now - 1) t → k < n t := by
    intro t k hk
    by_cases ht : t = T.now
    · subst ht
      rw [Function.update_self] at hk
      omega
    · rwa [Function.update_of_ne ht] at hk
  have hmask : ∀ t i, (T.unlink T.now slot
      (T.ident (slotId T.now (n T.now - 1))).parentProcessNumber).mask t i = true ↔
      i.val < Function.update n T.now (n T.now - 1) t := by
    intro t j
    by_cases ht : t = T.now
    · subst ht
      by_cases hj : j = slot
      · subst hj
        simp [Table.unlink, markSlot, hi]
      · have hne : j.val ≠ n T.now - 1 := fun h => hj (Fin.ext (h.trans hi.symm))
        simp [Table.unlink, markSlot, Function.update_of_ne hj, hr.mask]
        omega
    · simp [Table.unlink, markSlot, Function.update_of_ne ht, hr.mask]
  have hle' : ∀ t, Function.update n T.now (n T.now - 1) t ≤ n t := by
    intro t
    by_cases ht : t = T.now
    · subst ht
      rw [Function.update_self]
      omega
    · rw [Function.update_of_ne ht]
  refine ⟨?_, fun t => (hle' t).trans (hr.le t), hmask, ?_, ?_, ?_, ?_⟩
  · rw [total_of_mask (fun t => (hle' t).trans (hr.le t)) hmask]
    have hsum := hr.sum_le
    have h0 := hle' 0
    have h1 := hle' 1
    have h2 := hle' 2
    omega
  · intro t
    by_cases ht : t = T.now
    · subst ht
      simp only [Table.unlink, Function.update_self, hparent]
      have hnow := T.now.isLt
      simp only [slotId, maxPcbMaskLen]
      split
      · rename_i hbottom
        rw [hbottom]
        rfl
      · rw [Int.tmod_eq_emod_of_nonneg (by omega)]
        omega
    · simp [Table.unlink, Function.update_of_ne ht, hr.cur]
  · exact fun t k hk => hr.number t k (hsub t k hk)
  · exact fun t k hk => hr.parent t k (hsub t k hk)
  · exact fun t k hk => hr.termId t k (hsub t k hk)

end Rows

/-! ### One step -/

/-- `halt` is called only in a terminal that has a process. -/
def HaltsLive (s : Kernel) (e : Event) : Prop :=
  s.callsHalt e = true → 0 ≤ (s.con.term s.con.nowTermId).curPcbId

instance (s : Kernel) (e : Event) : Decidable (HaltsLive s e) :=
  inferInstanceAs (Decidable (_ → _))

/-- The rows stay stacks in the step: `halt` finds a process, and no load faults. -/
def KeepsStacks (img : Image) (s : Kernel) (e : Event) : Prop :=
  HaltsLive s e ∧ s.LoadsReach img e

instance (img : Image) (s : Kernel) (e : Event) : Decidable (KeepsStacks img s e) :=
  inferInstanceAs (Decidable (_ ∧ _))

variable {img : Image} {s s' : Kernel} {n : TermId → Nat}

/-- What `execute` does to the rows. -/
theorem rows_execute (hwf : WellFormed img) (hr : Rows s.table n) {sp : StackPtr}
    {command : List UInt8} {stale : Stale} (hload : s.LoadReaches img command stale) {o : Outcome}
    (h : execute img s sp command stale = some o) :
    (∃ eax r, o = .returned eax r ∧ r.core = s.core) ∨
      ∃ r cur, o = .started r ∧ s.con.curTermId = some cur ∧
        Rows r.table (Function.update n cur (n cur + 1)) := by
  obtain ⟨-, rfl⟩ | ⟨prog, cur, -, hcur, ⟨-, rfl⟩ | ⟨i, mem, hi, ⟨-, rfl⟩ | ⟨-, rfl⟩⟩⟩ :=
    execute_cases hwf h
  · exact .inl ⟨_, _, rfl, rfl⟩
  · exact .inl ⟨_, _, rfl, core_printf ..⟩
  · refine .inr ⟨_, cur, rfl, hcur, ?_⟩
    rw [table_started]
    exact hr.start sp.up hi
  · exact absurd h hload.ne_faulted

/-- `returnToParent` leaves the table alone. -/
theorem table_returnToParent {id : Nat} {sp : StackPtr} {status : UInt8}
    (h : s.returnToParent id sp status = some s') : s'.table = s.table := by
  obtain ⟨-, rfl⟩ | ⟨-, m, hm, -, hres⟩ := returnToParent_cases h
  · rfl
  · rw [table_resume hres]
    exact congrArg Core.toTable hm

/-- The id of the running terminal's process, when it has one. -/
theorem Rows.nowPcbId_eq (hr : Rows s.table n) (hpos : 0 < n s.con.nowTermId) :
    s.nowPcbId = slotId s.con.nowTermId (n s.con.nowTermId - 1) :=
  pcbId_eq hpos (hr.le _) (hr.cur _)

/-- A terminal whose id is -1 has an empty row. -/
theorem Rows.eq_zero_of_empty (hr : Rows s.table n) {t : TermId}
    (h : (s.con.term t).curPcbId = -1) : n t = 0 := by
  have hcur : (s.con.term t).curPcbId = (n t : Int) - 1 := hr.cur t
  omega

/-- A terminal with an id from 0 on has a process. -/
theorem Rows.pos_of_live (hr : Rows s.table n) {t : TermId}
    (h : 0 ≤ (s.con.term t).curPcbId) : 0 < n t := by
  have hcur : (s.con.term t).curPcbId = (n t : Int) - 1 := hr.cur t
  omega

/-- The process at the top of row `t`. -/
def top (n : TermId → Nat) (t : TermId) : Nat := slotId t (n t - 1)

/-- `halt` in a terminal with a process unlinks that process. A root shell is then executed
again, a child returns to its parent. -/
theorem halt_unlinks (hr : Rows s.table n) (hpos : 0 < n s.con.nowTermId) {sp : StackPtr}
    {status : UInt8} {stale : Stale} (h : s.halt img sp status stale = some s') :
    ∃ (row : TermId) (slot : Fin 4) (m : Kernel),
      slotId row slot = top n s.con.nowTermId ∧
      m.core = { s.core with
        toTable := s.table.unlink row slot (s.pcb (top n s.con.nowTermId)).parentProcessNumber } ∧
      m.con.curTermId = s.con.curTermId ∧
      ((n s.con.nowTermId = 1 ∧ ∃ o, execute img m sp shellCommand stale = some o ∧
          ((∃ r, o = .started r ∧ s' = r.push sp .restart) ∨ o = .faulted s' ∨
            ∃ eax r, o = .returned eax r ∧
              r.returnToParent (top n s.con.nowTermId) sp status = some s')) ∨
        (1 < n s.con.nowTermId ∧
          m.returnToParent (top n s.con.nowTermId) sp status = some s')) := by
  have hle : n s.con.nowTermId ≤ 4 := hr.le s.con.nowTermId
  have hnumber : (s.pcb (top n s.con.nowTermId)).processNumber = (top n s.con.nowTermId : Nat) :=
    hr.number s.con.nowTermId (n s.con.nowTermId - 1) (by omega)
  have hparent : (s.pcb (top n s.con.nowTermId)).parentProcessNumber =
      if n s.con.nowTermId - 1 = 0 then (-1 : Int) else (top n s.con.nowTermId : Int) - 1 :=
    hr.parent s.con.nowTermId (n s.con.nowTermId - 1) (by omega)
  have htop : n s.con.nowTermId - 1 ≤ top n s.con.nowTermId := Nat.le_add_right ..
  obtain ⟨row, slot, m, hslot, hcore, hcur, hend⟩ := halt_cases h
  rw [hr.nowPcbId_eq hpos] at hslot hcore hend
  change uint8 (s.pcb (top n s.con.nowTermId)).processNumber = _ at hslot
  rw [hnumber, top, uint8_slotId _ (by omega)] at hslot
  refine ⟨row, slot, m, hslot.symm, hcore, hcur, ?_⟩
  obtain ⟨hroot, hend⟩ | ⟨hchild, hend⟩ := hend
  · refine .inl ⟨?_, hend⟩
    change (s.pcb (top n s.con.nowTermId)).parentProcessNumber = -1 at hroot
    rw [hparent] at hroot
    split at hroot <;> omega
  · refine .inr ⟨?_, hend⟩
    change (s.pcb (top n s.con.nowTermId)).parentProcessNumber ≠ -1 at hchild
    rw [hparent] at hchild
    split at hchild <;> omega

/-- The slot that is free for a new shell once a root shell has been unlinked. -/
theorem slot_of_unlink {T : Table} (hr : Rows T n) (h1 : n T.now = 1) {row : TermId}
    {slot : Fin 4} (hslot : slotId row slot = top n T.now) :
    pcbProcessNumber (T.unlink row slot
      (T.ident (top n T.now)).parentProcessNumber).mask T.now = some 0 := by
  have hrows := hr.unlink (by omega) hslot
  have h0 : Function.update n T.now (n T.now - 1) T.now = 0 := by
    rw [Function.update_self]
    omega
  have hsum : Function.update n T.now (n T.now - 1) 0 + Function.update n T.now (n T.now - 1) 1 +
      Function.update n T.now (n T.now - 1) 2 < 6 := by
    have hback := sum_update_succ (Function.update n T.now (n T.now - 1)) T.now
    have hone : Function.update (Function.update n T.now (n T.now - 1)) T.now
        (Function.update n T.now (n T.now - 1) T.now + 1) = n := by
      have h01 : 0 + 1 = n T.now := by omega
      rw [h0, Function.update_idem, h01, Function.update_eq_self]
    have hle := hr.sum_le
    rw [hone] at hback
    omega
  refine (hrows.slot_of_room (by omega) hsum).trans ?_
  simp only [h0]
  rfl

/-- A root shell that halts while its terminal is displayed is started again in the slot that it
leaves. -/
theorem halt_restarts (hb : Bootable img) (hr : Rows s.table n) (h1 : n s.con.nowTermId = 1)
    (hhome : s.con.curTermId = some s.con.nowTermId) {sp : StackPtr} {status : UInt8}
    {stale : Stale} (h : s.halt img sp status stale = some s') :
    ∃ (row : TermId) (slot : Fin 4) (m : Kernel) (args : List UInt8),
      slotId row slot = top n s.con.nowTermId ∧
      m.core = { s.core with
        toTable := s.table.unlink row slot (s.pcb (top n s.con.nowTermId)).parentProcessNumber } ∧
      pcbProcessNumber m.pcbMask s.con.nowTermId = some 0 ∧
      s' = (m.started sp s.con.nowTermId 0 args).push sp .restart := by
  obtain ⟨row, slot, m, hslot, hcore, hcur, hend⟩ := halt_unlinks hr (by omega) h
  have hmask : m.pcbMask = (s.table.unlink row slot
      (s.pcb (top n s.con.nowTermId)).parentProcessNumber).mask :=
    congrArg (fun c : Core => c.mask) hcore
  have hfree : pcbProcessNumber m.pcbMask s.con.nowTermId = some 0 := by
    rw [hmask]
    exact slot_of_unlink hr h1 hslot
  obtain ⟨-, o, ho, hs⟩ | ⟨h2, -⟩ := hend
  · obtain ⟨args, hexec⟩ := execute_shell hb sp stale (hcur.trans hhome) hfree
    obtain rfl := Option.some.inj (hexec.symm.trans ho)
    obtain ⟨r, hs, rfl⟩ | hs | ⟨eax, r, hs, -⟩ := hs
    · obtain rfl := Outcome.started.inj hs
      exact ⟨row, slot, m, args, hslot, hcore, hfree, rfl⟩
    · cases hs
    · cases hs
  · omega

theorem le_update_succ (n : TermId → Nat) (t u : TermId) :
    n u ≤ Function.update n t (n t + 1) u := by
  by_cases hu : u = t
  · subst hu
    simp
  · rw [Function.update_of_ne hu]

/-- What `halt` does to the rows: it pops the running one, and a new shell may go on top of
the displayed one. -/
theorem rows_halt (hwf : WellFormed img) (hr : Rows s.table n)
    (hlive : 0 ≤ (s.con.term s.con.nowTermId).curPcbId) {sp : StackPtr} {status : UInt8}
    {stale : Stale} (hload : s.LoadReaches img shellCommand stale)
    (h : s.halt img sp status stale = some s') : ∃ n', Rows s'.table n' ∧
      ∀ t, Function.update n s.con.nowTermId (n s.con.nowTermId - 1) t ≤ n' t := by
  have hpos := hr.pos_of_live hlive
  obtain ⟨row, slot, m, hslot, hcore, -, hend⟩ := halt_unlinks hr hpos h
  have hm : m.table = s.table.unlink row slot
      (s.pcb (top n s.con.nowTermId)).parentProcessNumber := congrArg Core.toTable hcore
  have hpop : Rows m.table (Function.update n s.con.nowTermId (n s.con.nowTermId - 1)) :=
    hm ▸ hr.unlink hpos hslot
  replace hload := hload.congr (congrArg (fun c : Core => c.paging) hcore : m.paging = s.paging)
  obtain ⟨-, o, ho, ⟨r, rfl, rfl⟩ | rfl | ⟨eax, r, rfl, hret⟩⟩ | ⟨-, hret⟩ := hend
  · obtain ⟨eax, r', hr', -⟩ | ⟨r', cur, hr', -, hrows⟩ := rows_execute hwf hpop hload ho
    · cases hr'
    · obtain rfl := Outcome.started.inj hr'
      exact ⟨_, hrows, le_update_succ _ cur⟩
  · exact absurd ho hload.ne_faulted
  · obtain ⟨eax', r', hr', hcore'⟩ | ⟨r', cur, hr', -, -⟩ := rows_execute hwf hpop hload ho
    · obtain ⟨-, rfl⟩ := Outcome.returned.inj hr'
      rw [table_returnToParent hret, table_eq_of_core hcore']
      exact ⟨_, hpop, fun t => le_rfl⟩
    · cases hr'
  · rw [table_returnToParent hret]
    exact ⟨_, hpop, fun t => le_rfl⟩

/-- The rows do not depend on which terminal runs or was ever launched. -/
theorem Rows.of_eq {T T' : Table} (hr : Rows T n) (hmask : T'.mask = T.mask)
    (hcur : ∀ t, (T'.term t).curPcbId = (T.term t).curPcbId) (hident : T'.ident = T.ident) :
    Rows T' n := by
  refine ⟨hmask ▸ hr.total, hr.le, hmask ▸ hr.mask, fun t => (hcur t).trans (hr.cur t), ?_, ?_, ?_⟩
  · exact hident ▸ hr.number
  · exact hident ▸ hr.parent
  · exact hident ▸ hr.termId

theorem rows_saveContext (hr : Rows s.table n) : Rows s.saveContext.table n :=
  hr.of_eq rfl (fun _ => rfl) (congrArg (fun c : Core => c.ident) (core_saveContext s))

theorem rows_launchState (hr : Rows s.table n) : Rows s.launchState.table n := by
  rw [show s.launchState.table = _ from congrArg Core.toTable (core_launchState s)]
  refine (rows_saveContext hr).of_eq rfl ?_ rfl
  intro t
  show (Function.update s.core.term (nextTermId s.con.nowTermId)
    { s.core.term (nextTermId s.con.nowTermId) with running := true } t).curPcbId =
      (s.core.term t).curPcbId
  by_cases ht : t = nextTermId s.con.nowTermId
  · subst ht
    rw [Function.update_self]
  · rw [Function.update_of_ne ht]

theorem rows_tick (hwf : WellFormed img) (hr : Rows s.table n) {stale : Stale}
    (hload : s.LoadReaches img shellCommand stale)
    (h : s.pitInterruptHandler img stale = some s') :
    ∃ n', Rows s'.table n' ∧ ∀ t, n t ≤ n' t := by
  have hsave := rows_saveContext hr
  obtain ⟨-, ⟨-, rfl⟩ | ⟨-, -, hcore⟩ | ⟨-, -, o, ho, hs⟩⟩ |
    ⟨-, page, m, -, hcore, -, -, hres⟩ := pitInterruptHandler_cases h
  · exact ⟨n, hsave, fun t => le_rfl⟩
  · exact ⟨n, table_eq_of_core hcore ▸ hsave, fun t => le_rfl⟩
  · have hm := rows_launchState hr
    have hload' : s.launchState.LoadReaches img shellCommand stale :=
      hload.congr ((congrArg Core.paging (core_launchState s)).trans rfl)
    obtain ⟨eax, r, rfl, hcore'⟩ | ⟨r, cur, rfl, -, hrows⟩ := rows_execute hwf hm hload' ho
    · obtain hs | hs | ⟨eax', hs⟩ := hs
      · cases hs
      · cases hs
      · obtain ⟨-, rfl⟩ := Outcome.returned.inj hs
        exact ⟨n, table_eq_of_core hcore' ▸ hm, fun t => le_rfl⟩
    · obtain hs | hs | ⟨eax', hs⟩ := hs
      · obtain rfl := Outcome.started.inj hs
        exact ⟨_, hrows, le_update_succ n cur⟩
      · cases hs
      · cases hs
  · rw [table_resume hres, show m.table = _ from congrArg Core.toTable hcore]
    exact ⟨n, hsave, fun t => le_rfl⟩

/-- **Step lemma.** The rows stay stacks when `halt` is called only where there is a process and
no load faults, and only `halt` takes a process off the running row. -/
theorem rows_step (hwf : WellFormed img) {e : Event} (hr : Rows s.table n)
    (hg : KeepsStacks img s e) (h : step img s e = some s') :
    ∃ n', Rows s'.table n' ∧
      ∀ t, n t ≤ n' t ∨ (s.callsHalt e = true ∧ t = s.con.nowTermId ∧ n t - 1 ≤ n' t) := by
  have hsame : s'.table = s.table → ∃ n', Rows s'.table n' ∧
      ∀ t, n t ≤ n' t ∨ (s.callsHalt e = true ∧ t = s.con.nowTermId ∧ n t - 1 ≤ n' t) :=
    fun htable => ⟨n, htable ▸ hr, fun t => .inl le_rfl⟩
  cases step_kind h with
  | tick hi htick =>
    obtain ⟨n', hr', hle⟩ := rows_tick hwf hr hg.2 htick
    exact ⟨n', hr', fun t => .inl (hle t)⟩
  | execute hcpu hexec ho =>
    obtain ⟨eax, r, rfl, hcore⟩ | ⟨r, cur, rfl, -, hrows⟩ := rows_execute hwf hr hg.2 hexec
    · obtain ho | ho | ⟨eax', r', ho, rfl⟩ := ho
      · cases ho
      · cases ho
      · obtain ⟨-, rfl⟩ := Outcome.returned.inj ho
        exact hsame (table_eq_of_core ((core_ret r eax').trans hcore))
    · obtain ho | ho | ⟨eax', r', ho, rfl⟩ := ho
      · obtain rfl := Outcome.started.inj ho
        exact ⟨_, hrows, fun t => .inl (le_update_succ n cur t)⟩
      · cases ho
      · cases ho
  | halt hcall hcore hcur hload hhalt =>
    rename_i m status stale
    have hfixed : m.con.fixed = s.con.fixed :=
      congrArg Table.toConsoleFixed (table_eq_of_core hcore)
    have hnow : m.con.nowTermId = s.con.nowTermId := congrArg ConsoleFixed.now hfixed
    have hlive : 0 ≤ (m.con.term m.con.nowTermId).curPcbId := by
      rw [hnow, show (m.con.term s.con.nowTermId).curPcbId = (s.con.term s.con.nowTermId).curPcbId
        from congrArg (fun c => (c.term s.con.nowTermId).curPcbId) hfixed]
      exact hg.1 hcall
    have hload' := (hload hg.2).congr (congrArg Core.paging hcore : m.paging = s.paging)
    obtain ⟨n', hr', hle⟩ := rows_halt hwf ((table_eq_of_core hcore).symm ▸ hr) hlive hload' hhalt
    refine ⟨n', hr', fun t => ?_⟩
    specialize hle t
    rw [hnow] at hle
    by_cases ht : t = s.con.nowTermId
    · subst ht
      rw [Function.update_self] at hle
      exact .inr ⟨hcall, rfl, hle⟩
    · rw [Function.update_of_ne ht] at hle
      exact .inl hle
  | light hcall hexec hcore => exact hsame (table_eq_of_core hcore)
  | block hcpu hcore hf => exact hsame ((table_block _ _).trans (table_eq_of_core hcore))
  | fault hcpu => exact hsame rfl
  | video hcore => exact hsame (congrArg Core.toTable hcore)
  | loop hcpu hframe hf₀ hf hcore => exact hsame (congrArg Core.toTable hcore)
  | loopEnd hcpu hframe hf₀ hdepth hcore => exact hsame (congrArg Core.toTable hcore)

/-! ### Whole runs -/

/-- After `term_init` every row is empty. -/
theorem rows_boot (s : Kernel) : Rows (boot s).table fun _ => 0 := by
  refine ⟨?_, fun t => by omega, ?_, fun t => rfl, ?_, ?_, ?_⟩
  · show pcbTotalNumber (fun _ _ => false) ≤ 6
    decide
  · intro t i
    simp [boot, table]
  · intro t i hi
    omega
  · intro t i hi
    omega
  · intro t i hi
    omega

/-- In guarded runs from `term_init` the rows stay stacks. -/
theorem rows_of_guarded_run (hwf : WellFormed img) {s₀ : Kernel} {es : List Event}
    (hg : Guarded (step img) (KeepsStacks img) (boot s₀) es)
    (hrun : run (step img) (boot s₀) es = some s) : ∃ n, Rows s.table n := by
  have hstep : ∀ s e s', (∃ n, Rows s.table n) → KeepsStacks img s e → step img s e = some s' →
      ∃ n, Rows s'.table n := by
    rintro s e s' ⟨n, hr⟩ hg h
    obtain ⟨n', hr', -⟩ := rows_step hwf hr hg h
    exact ⟨n', hr'⟩
  exact Guarded.invariant hstep ⟨_, rows_boot s₀⟩ hg hrun

/-- There are at most six processes. In each row of `PCB_mask` the used slots are a prefix, the
terminal's process is the last of them, and each is numbered by its slot and has the one before
it as its parent. -/
def ProcessStacks (s : Kernel) : Prop :=
  pcbTotalNumber s.pcbMask ≤ 6 ∧ ∀ t, ∃ n : Nat,
    (∀ i, s.pcbMask t i = true ↔ i.val < n) ∧ (s.con.term t).curPcbId = (n : Int) - 1 ∧
    ∀ i, s.pcbMask t i = true →
      (s.pcb (slotId t i)).processNumber = slotId t i ∧
      (s.pcb (slotId t i)).parentProcessNumber =
        if i.val = 0 then (-1 : Int) else (slotId t i : Int) - 1

theorem Rows.processStacks (hr : Rows s.table n) : ProcessStacks s := by
  refine ⟨hr.total, fun t => ⟨n t, hr.mask t, hr.cur t, fun i hi => ?_⟩⟩
  have hlt := (hr.mask t i).mp hi
  exact ⟨hr.number t i hlt, hr.parent t i hlt⟩

/-- **The process table.** In every state of a run from `term_init` that calls `halt` only in
terminals with a process, and in which no load faults, the processes form stacks. -/
theorem processStacks_of_guarded_run (hwf : WellFormed img) {s₀ : Kernel} {es : List Event}
    (hg : Guarded (step img) (KeepsStacks img) (boot s₀) es)
    (hrun : run (step img) (boot s₀) es = some s) : ProcessStacks s := by
  obtain ⟨n, hr⟩ := rows_of_guarded_run hwf hg hrun
  exact hr.processStacks

/-- All three shells start, one runs a second shell and gets it back, one is replaced. -/
theorem processStacks_of_guarded_run_sample : ∃ s, run (step sampleImage) (boot powerOn)
    [.tick noStale, .tick noStale, .tick noStale, .execute shellCommand noStale,
      .halt 0 noStale, .halt 0 noStale] = some s ∧ ProcessStacks s := by
  obtain ⟨s, hs⟩ := Option.isSome_iff_exists.mp
    (show (run (step sampleImage) (boot powerOn)
      [.tick noStale, .tick noStale, .tick noStale, .execute shellCommand noStale,
        .halt 0 noStale, .halt 0 noStale]).isSome = true by decide +kernel)
  exact ⟨s, hs, processStacks_of_guarded_run sampleImage_bootable.toWellFormed
    (show Guarded _ (KeepsStacks sampleImage) _ _ by decide +kernel) hs⟩

/-- With four processes in terminal 0, which is displayed, the shell of terminal 1 halts. There
is no slot for a new shell in row 0; `halt` goes on, faults, and is called again by the page
fault handler with id -1 + 4. That is process 3 of terminal 0. -/
def lastShellEvents : List Event :=
  [.tick noStale, .tick noStale, .tick noStale, .execute shellCommand noStale,
    .execute shellCommand noStale, .execute shellCommand noStale, .tick noStale,
    .halt 0 noStale, .exception [] noStale]

theorem not_processStacks_of_run : ¬ ∀ (img : Image), WellFormed img →
    ∀ (s₀ s : Kernel) (es : List Event), run (step img) (boot s₀) es = some s →
      ProcessStacks s := by
  intro hall
  have hobs : (run (step sampleImage) (boot powerOn) lastShellEvents).map
      (fun s => ((s.con.term 0).curPcbId, s.pcbMask 0 3)) = some (3, false) := by decide +kernel
  obtain ⟨s, hs, hobs⟩ := Option.map_eq_some_iff.mp hobs
  obtain ⟨hcur, hmask⟩ := Prod.mk.inj hobs
  obtain ⟨n, hslots, hn, -⟩ :=
    (hall sampleImage sampleImage_bootable.toWellFormed powerOn s _ hs).2 0
  have hslot : s.pcbMask 0 3 = true := by
    refine (hslots 3).mpr ?_
    show 3 < n
    omega
  rw [hmask] at hslot
  cases hslot

end LinuxLikeKernel
