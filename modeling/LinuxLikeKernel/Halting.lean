import LinuxLikeKernel.ProcessCalls

/-!
# Ending a process

What `halt` leaves of the descriptors. It makes the parent the process of the terminal before its
loop over the descriptors, and `close`, called in that loop, looks the process up again: what it
closes are descriptors of the parent.

## Main definitions

- `HaltsCleanly` — a process that ends closes its own descriptors and no others
- `SparesParent` — no descriptor from 2 on is open both in it and in its parent

## Main results

- `step_halt` — how `halt` is called
- `haltsCleanly_iff` — when a process ends so
-/

namespace LinuxLikeKernel
open Kernel Transition

variable {img : Image} {s s' : Kernel}

/-! ### How `halt` is called -/

/-- The argument of `halt`, for an event whose handling ends in a call of it. -/
def Event.exitStatus : Event → UInt8
  | .halt status _ => status
  | .key .. => 1
  | _ => 0

def Event.isException : Event → Bool
  | .exception .. => true
  | _ => false

/-- When `halt` is called nothing has happened yet but for the flag and what was printed. -/
theorem step_halt {e : Event} (hcall : s.callsHalt e = true) (h : step img s e = some s') :
    ∃ (m : Kernel) (sp : StackPtr) (stale : Stale), m.halt img sp e.exitStatus stale = some s' ∧
      m.pcb = s.pcb ∧ m.nowPcbId = s.nowPcbId ∧ m.con.nowTermId = s.con.nowTermId ∧
      m.pcbMask = s.pcbMask ∧
      m.interruptHaltFlag = (s.interruptHaltFlag || e.isException) := by
  cases e with
  | halt status stale =>
    exact ⟨s, s.entry, stale, (step_call h rfl).2, rfl, rfl, rfl, rfl,
      by simp [Event.isException]⟩
  | exception message stale =>
    exact ⟨_, _, stale, step_exception h, rfl, rfl, rfl, rfl,
      by simp [Event.isException, printf, setCon]⟩
  | key scancode stale =>
    obtain ⟨⟨k, ctrlC⟩, hk, h⟩ := Option.bind_eq_some_iff.mp (step_key h)
    have hflag : ctrlC = true := by simpa [callsHalt, hk] using hcall
    subst hflag
    obtain rfl := Console.ctrlC_eq hk
    exact ⟨_, _, stale, h, rfl, rfl, rfl, rfl, by simp [Event.isException, setCon]⟩
  | _ => cases hcall

/-! ### The descriptors -/

/-- The flags of the process that ends are 0, and all other descriptors are as before. -/
structure HaltsCleanly (s s' : Kernel) : Prop where
  own : ∀ i, ((s'.pcb s.nowPcbId).fds i).flags = 0
  others : ∀ p ≠ s.nowPcbId, (s'.pcb p).fds = (s.pcb p).fds

/-- The id that `close` looks up in the loop of `halt`: that of the parent, by its number in the
row of the running terminal. -/
def Kernel.closeId (s : Kernel) : Nat :=
  uint8 ((s.pcb s.nowPcbId).parentProcessNumber.tmod maxPcbMaskLen +
    s.con.nowTermId.val * maxPcbMaskLen)

/-- Where the rows of the process table are stacks, that is the parent. -/
theorem Rows.closeId_eq {n : TermId → Nat} (hr : Rows s.table n) (h2 : 1 < n s.con.nowTermId) :
    (s.closeId : Int) = (s.pcb s.nowPcbId).parentProcessNumber := by
  have hle := hr.le s.con.nowTermId
  have hid := hr.nowPcbId_eq (by omega)
  have hparent := hr.parent s.con.nowTermId (n s.con.nowTermId - 1) (by omega)
  rw [if_neg (by omega)] at hparent
  have hnumber : (s.pcb s.nowPcbId).parentProcessNumber =
      slotId s.con.nowTermId (n s.con.nowTermId - 1) - 1 := by
    rw [hid]
    exact hparent
  have ht := s.con.nowTermId.isLt
  have hnonneg : (0 : Int) ≤ slotId s.con.nowTermId (n s.con.nowTermId - 1) - 1 := by
    simp only [slotId]
    omega
  rw [closeId, hnumber, Int.tmod_eq_emod_of_nonneg hnonneg]
  simp only [slotId, maxPcbMaskLen, uint8]
  omega

/-- No descriptor from 2 on is open in both processes. The flags of the one that ends are 0 or 1,
as `execute` and `open` make them. -/
def SparesParent (s : Kernel) : Prop :=
  (∀ i, ((s.pcb s.nowPcbId).fds i).flags = 0 ∨ ((s.pcb s.nowPcbId).fds i).flags = 1) ∧
    ∀ i : Fin 8, 2 ≤ i.val → ((s.pcb s.nowPcbId).fds i).flags = 1 → s.closeId ≠ s.nowPcbId →
      ((s.pcb s.closeId).fds i).flags = 0

instance (s : Kernel) : Decidable (SparesParent s) := inferInstanceAs (Decidable (_ ∧ _))

/-- A descriptor of the PCB `p` after the loop of `halt` for the PCB `id`, while `close` looks up
the PCB `now`. -/
def haltedFd (pcb : Nat → Pcb) (id now p : Nat) (i : Fin 8) : FileDesc :=
  let d := (pcb p).fds i
  if p = id then { d with flags := if d.flags = 1 then 0 else d.flags, optable := .error }
  else if p = now ∧ 2 ≤ i.val ∧ ((pcb id).fds i).flags = 1 then { d with flags := 0 }
  else d

theorem fds_setFd (s : Kernel) (id : Nat) (i : Fin 8) (d : FileDesc) (p : Nat) (j : Fin 8) :
    ((s.setFd id i d).pcb p).fds j = if p = id ∧ j = i then d else (s.pcb p).fds j := by
  rw [pcb_setFd]
  by_cases hp : p = id
  · subst hp
    rw [Function.update_self, Pcb.fds_setFd]
    by_cases hj : j = i
    · rw [hj, Function.update_self, if_pos ⟨rfl, rfl⟩]
    · rw [Function.update_of_ne hj, if_neg fun h => hj h.2]
  · rw [Function.update_of_ne hp, if_neg fun h => hp h.1]

theorem fds_close (s : Kernel) (i : Fin 8) (p : Nat) (j : Fin 8) :
    ((s.close i.val).pcb p).fds j =
      if p = s.nowPcbId ∧ j = i ∧ 2 ≤ i.val then { (s.pcb p).fds j with flags := 0 }
      else (s.pcb p).fds j := by
  obtain ⟨hno, heq⟩ | ⟨k, hk, h2, hopen, heq⟩ := close_cases s i.val
  · rw [heq, pcb_ret]
    split
    · -- it was closed already
      rename_i h
      obtain ⟨rfl, rfl, h2⟩ := h
      have hclosed : ((s.pcb s.nowPcbId).fds j).flags = 0 := by
        by_contra hopen
        exact hno ⟨by omega, isOpen_val.mpr hopen⟩
      rw [← hclosed]
    · rfl
  · obtain rfl : k = i := by omega
    have h2' : 2 ≤ k.val := by omega
    rw [heq, pcb_ret, fds_setFd]
    by_cases hpj : p = s.nowPcbId ∧ j = k
    · obtain ⟨rfl, rfl⟩ := hpj
      rw [if_pos ⟨rfl, rfl⟩, if_pos ⟨rfl, rfl, h2'⟩]
    · rw [if_neg hpj, if_neg fun h => hpj ⟨h.1, h.2.1⟩]

/-- A turn of the loop. -/
theorem fds_haltFd (s : Kernel) (id : Nat) (i : Fin 8) (p : Nat) (j : Fin 8) :
    ((s.haltFd id i).pcb p).fds j =
      if j = i then haltedFd s.pcb id s.nowPcbId p i else (s.pcb p).fds j := by
  by_cases hj : j = i
  · subst hj
    rw [if_pos rfl]
    simp only [haltFd, haltedFd]
    by_cases hflag : ((s.pcb id).fds j).flags = 1
    · have hnow : ∀ d, (s.setFd id j d).nowPcbId = s.nowPcbId := fun _ => rfl
      simp only [hflag, if_true, fds_setFd, fds_close, hnow, and_true]
      by_cases hp : p = id
      · subst hp
        simp only [if_true]
        split <;> rfl
      · simp only [hp, if_false, true_and]
    · simp only [hflag, if_false, fds_setFd, and_true, and_false]
      by_cases hp : p = id
      · subst hp
        simp only [if_true, hflag, if_false]
      · simp only [hp, if_false]
  · rw [if_neg hj]
    simp only [haltFd]
    split
    · simp only [fds_setFd, fds_close, hj, and_false, false_and, if_false]
    · simp only [fds_setFd, hj, and_false, if_false]

theorem nowPcbId_haltFd (s : Kernel) (id : Nat) (i : Fin 8) :
    (s.haltFd id i).nowPcbId = s.nowPcbId :=
  haltFd_eq Kernel.nowPcbId (fun _ _ _ => rfl)
    (fun s fd => nowPcbId_eq_of_table (table_eq_of_core (core_close s fd))) s i

/-- The loop. -/
theorem fds_haltFds (s : Kernel) (id p : Nat) (j : Fin 8) :
    ((s.haltFds id).pcb p).fds j = haltedFd s.pcb id s.nowPcbId p j := by
  have hfold : ∀ (l : List (Fin 8)) (s : Kernel), l.Nodup →
      ((l.foldl (fun s i => s.haltFd id i) s).pcb p).fds j =
        if j ∈ l then haltedFd s.pcb id s.nowPcbId p j else (s.pcb p).fds j := by
    intro l
    induction l with
    | nil => exact fun s _ => rfl
    | cons i l ih =>
      intro s hl
      obtain ⟨hi, hl⟩ := List.nodup_cons.mp hl
      rw [List.foldl_cons, ih _ hl, nowPcbId_haltFd]
      by_cases hj : j = i
      · subst hj
        rw [if_neg hi, if_pos List.mem_cons_self, fds_haltFd, if_pos rfl]
      · -- the descriptor is not touched in this turn
        have hkeep : ∀ q, ((s.haltFd id i).pcb q).fds j = (s.pcb q).fds j := by
          intro q
          rw [fds_haltFd, if_neg hj]
        simp only [haltedFd, hkeep, List.mem_cons, hj, false_or]
  rw [haltFds, hfold _ s (List.nodup_finRange 8), if_pos (List.mem_finRange j)]

theorem pcb_unlink {id : Nat} (h : s.unlink id = some s') : s'.pcb = s.pcb := by
  obtain ⟨row, slot, -, rfl⟩ := unlink_eq h
  rfl

theorem nowPcbId_unlink (h : s.unlink s.nowPcbId = some s') : s'.nowPcbId = s.closeId := by
  obtain ⟨row, slot, -, rfl⟩ := unlink_eq h
  simp [nowPcbId, pcbId, setMask, setCurPcbId, setCon, Console.setTerm, Console.bufClear, closeId]

/-- The end of a process with a parent is the loop over its descriptors and a return. -/
theorem halt_of_parent {sp : StackPtr} {status : UInt8} {stale : Stale}
    (hparent : 0 ≤ (s.pcb s.nowPcbId).parentProcessNumber)
    (h : s.halt img sp status stale = some s') :
    ∃ u, s.unlink s.nowPcbId = some u ∧
      (u.haltFds s.nowPcbId).returnToParent s.nowPcbId sp status = some s' ∧
      ((u.haltFds s.nowPcbId).pcb s.nowPcbId).ident = (s.pcb s.nowPcbId).ident := by
  have hident : ∀ {u : Kernel}, s.unlink s.nowPcbId = some u →
      ((u.haltFds s.nowPcbId).pcb s.nowPcbId).ident = (s.pcb s.nowPcbId).ident := by
    intro u hu
    have htable := congrFun (congrArg Table.ident (table_eq_of_core (core_haltFds u s.nowPcbId)))
      s.nowPcbId
    refine htable.trans ?_
    simp only [Kernel.table, pcb_unlink hu]
  have hchild : ∀ {u : Kernel}, s.unlink s.nowPcbId = some u →
      ((u.haltFds s.nowPcbId).pcb s.nowPcbId).parentProcessNumber ≠ -1 := by
    intro u hu
    have hnumber := congrArg Ident.parentProcessNumber (hident hu)
    simp only [Pcb.ident] at hnumber
    omega
  cases halt_exit h with
  | parent hu _ h => exact ⟨_, hu, h, hident hu⟩
  | shell hu hroot => exact absurd hroot (hchild hu)
  | faulted hu hroot => exact absurd hroot (hchild hu)
  | noShell hu hroot => exact absurd hroot (hchild hu)

theorem pcb_returnToParent {id : Nat} {sp : StackPtr} {status : UInt8}
    (h : s.returnToParent id sp status = some s') : s'.pcb = s.pcb := by
  cases returnToParent_exit h with
  | fault => rfl
  | parent _ h =>
    obtain ⟨cpu, rfl⟩ := resume_eq h
    rfl

/-- **Descriptors of a process that ends.** They are closed, and no others, exactly if none of
them from 2 on is open in the parent too. -/
theorem haltsCleanly_iff {e : Event} (hcall : s.callsHalt e = true)
    (hparent : 0 ≤ (s.pcb s.nowPcbId).parentProcessNumber) (h : step img s e = some s') :
    HaltsCleanly s s' ↔ SparesParent s := by
  obtain ⟨m, sp, stale, hhalt, hpcb, hid, hnow, -⟩ := step_halt hcall h
  rw [← hid, ← hpcb] at hparent
  obtain ⟨u, hu, hret, -⟩ := halt_of_parent hparent hhalt
  have hclose : u.nowPcbId = s.closeId := by
    rw [nowPcbId_unlink hu]
    simp only [closeId, hpcb, hid, hnow]
  have hfds : ∀ p i, (s'.pcb p).fds i = haltedFd s.pcb s.nowPcbId s.closeId p i := by
    intro p i
    rw [pcb_returnToParent hret, fds_haltFds, hclose, pcb_unlink hu, hpcb, hid]
  constructor
  · rintro ⟨hown, hothers⟩
    refine ⟨fun i => ?_, fun i h2 hflag hne => ?_⟩
    · have := hown i
      rw [hfds, haltedFd, if_pos rfl] at this
      simp only at this
      split at this
      · exact .inr ‹_›
      · exact .inl this
    · have := congrFun (hothers s.closeId hne) i
      rw [hfds, haltedFd, if_neg hne, if_pos ⟨rfl, h2, hflag⟩] at this
      rw [← this]
  · rintro ⟨hbinary, hspare⟩
    refine ⟨fun i => ?_, fun p hp => funext fun i => ?_⟩
    · rw [hfds, haltedFd, if_pos rfl]
      simp only
      split
      · rfl
      · exact (hbinary i).resolve_right ‹_›
    · rw [hfds, haltedFd, if_neg hp]
      split
      · -- a descriptor that is closed twice
        rename_i hboth
        obtain ⟨rfl, h2, hflag⟩ := hboth
        rw [← hspare i h2 hflag hp]
      · rfl

/-- The shell of terminal 0 runs another one; the second shell opens the directory. -/
def childEvents : List Event :=
  [.tick noStale, .tick noStale, .tick noStale, .execute shellCommand noStale,
    .open (text ['.'])]

theorem haltsCleanly_iff_sample : ∃ s s',
    run (step sampleImage) (boot powerOn) childEvents = some s ∧
    step sampleImage s (.halt 0 noStale) = some s' ∧ HaltsCleanly s s' := by
  have hobs : (run (step sampleImage) (boot powerOn) childEvents).map (fun s =>
      (decide (0 ≤ (s.pcb s.nowPcbId).parentProcessNumber ∧ SparesParent s),
        (step sampleImage s (.halt 0 noStale)).isSome)) = some (true, true) := by decide +kernel
  obtain ⟨s, hs, hobs⟩ := Option.map_eq_some_iff.mp hobs
  obtain ⟨hstate, hstep⟩ := Prod.mk.inj hobs
  obtain ⟨hparent, hspare⟩ := of_decide_eq_true hstate
  obtain ⟨s', hs'⟩ := Option.isSome_iff_exists.mp hstep
  exact ⟨s, s', hs, hs', (haltsCleanly_iff rfl hparent hs').mpr hspare⟩

/-- The first shell has the directory open too, under the same number. -/
def sharedNumberEvents : List Event :=
  [.tick noStale, .tick noStale, .tick noStale, .open (text ['.']),
    .execute shellCommand noStale, .open (text ['.'])]

/-- The descriptor of the first shell is closed with that of the second. -/
theorem not_haltsCleanly : ¬ ∀ (img : Image), Bootable img →
    ∀ (s₀ s s' : Kernel) (es : List Event) (e : Event),
      run (step img) (boot s₀) es = some s → s.callsHalt e = true →
      0 ≤ (s.pcb s.nowPcbId).parentProcessNumber → step img s e = some s' →
        HaltsCleanly s s' := by
  intro hcleanly
  have hobs : (run (step sampleImage) (boot powerOn) sharedNumberEvents).map (fun s =>
      (decide (0 ≤ (s.pcb s.nowPcbId).parentProcessNumber ∧ 0 ≠ s.nowPcbId),
        ((s.pcb 0).fds 2).flags, (step sampleImage s (.halt 0 noStale)).map fun s' =>
          ((s'.pcb 0).fds 2).flags)) = some (true, 1, some 0) := by decide +kernel
  obtain ⟨s, hs, hobs⟩ := Option.map_eq_some_iff.mp hobs
  simp only [Prod.mk.injEq] at hobs
  obtain ⟨hstate, hbefore, hobs⟩ := hobs
  obtain ⟨hparent, hne⟩ := of_decide_eq_true hstate
  obtain ⟨s', hs', hafter⟩ := Option.map_eq_some_iff.mp hobs
  have hclean := hcleanly sampleImage sampleImage_bootable powerOn s s' _ _ hs rfl hparent hs'
  rw [hclean.others 0 hne, hbefore] at hafter
  cases hafter

end LinuxLikeKernel
