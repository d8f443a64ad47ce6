import LinuxLikeKernel.LiveTerminals

/-!
# The running process

Which process runs is said by the kernel stack in use, the user page, `tss.esp0` and the
terminal table. Here are the operations on processes, on the core of the state, for the case
that all four agree before: a launch, a switch, a call, the end of a call and a restart each
lead to a state in which they agree again.

## Main definitions

- `Running`, `Suspended`, `Calls` — the process that runs, one that a tick has put aside, and
  one that waits in `execute` for its child
- `Healthy` — every process is one of the three

## Main results

- `Healthy.launch`, `Healthy.switch`, `Healthy.call`, `Healthy.pop`, `Healthy.restart` — what
  the kernel does to processes keeps them healthy
-/

namespace LinuxLikeKernel
open ByteMemory Transition Kernel

/-! ### Processes and their stacks -/

/-- The frame at index `d` is that of a kernel loop. -/
def WaitsAt (frames : List Frame) (d : Nat) : Prop := ∃ f, frames[d]? = some f ∧ f.IsWait

/-- `Kernel.entry`, which depends on the core only. -/
def Core.entry (c : Core) : StackPtr :=
  match c.cpu with
  | .user => ⟨stackOf c.tssEsp0, 0⟩
  | .kernel sp => sp
  | .fault sp => sp

/-- Process `p` runs: its page is mapped, the TSS has its stack, and the kernel stack in use,
if one is, is its own. -/
structure Running (c : Core) (p : Nat) : Prop where
  page : c.paging.MapsUserPage (processFrame p)
  tss : c.tssEsp0 = processEsp0 p
  cpu : c.cpu = .user ∨ (∃ d, c.cpu = .fault ⟨p, d⟩) ∨
    (c.cpu = .kernel ⟨p, 1⟩ ∧ WaitsAt (c.kstack p) 0)

/-- Process `p` has been put aside by a tick, in user code or in a kernel loop. -/
def Suspended (c : Core) (p : Nat) : Prop :=
  ∃ d, c.kbp p = ⟨p, d + 1⟩ ∧ (c.kstack p)[d]? = some .pit ∧
    (d = 0 ∨ d = 1 ∧ WaitsAt (c.kstack p) 0)

/-- Process `p` waits for its child `q`. -/
structure Calls (c : Core) (p q : Nat) : Prop where
  ksp : (c.ident q).parentKsp = ⟨p, 1⟩
  kbp : (c.ident q).parentKbp = ⟨p, 1⟩
  frame : (c.kstack p)[0]? = some .execute

/-- All is in order but for the process at the top of row `t`. -/
structure Others (c : Core) (n : TermId → Nat) (t : TermId) : Prop where
  rows : Rows c.toTable n
  calls : ∀ u i, i + 1 < n u → Calls c (slotId u i) (slotId u (i + 1))
  suspended : ∀ u, u ≠ t → 0 < n u → Suspended c (top n u)
  idle : ∀ u, u ≠ t → n u = 0 → (c.term u).running = false

/-- Nothing has been launched yet. -/
structure AtBoot (c : Core) (n : TermId → Nat) : Prop where
  empty : ∀ t, n t = 0
  cpu : c.cpu = .kernel ⟨0, 1⟩
  frame : (c.kstack 0)[0]? = some .boot

/-- Every process runs, is suspended or waits for its child. -/
structure Healthy (c : Core) (n : TermId → Nat) : Prop extends Others c n c.now where
  idle_now : n c.now = 0 → (c.term c.now).running = false
  now : AtBoot c n ∨ (0 < n c.now ∧ Running c (top n c.now))

/-! ### Stacks -/

theorem stackOf_processEsp0 {p : Nat} (hp : p < 12) : stackOf (processEsp0 p) = p := by
  simp only [stackOf, processEsp0, uint32]
  omega

theorem Running.entry {c : Core} {p : Nat} (hp : p < 12) (h : Running c p) :
    c.entry.stack = p := by
  obtain hcpu | ⟨d, hcpu⟩ | ⟨hcpu, -⟩ := h.cpu
  · simp only [Core.entry, hcpu, h.tss, stackOf_processEsp0 hp]
  · simp only [Core.entry, hcpu]
  · simp only [Core.entry, hcpu]

/-- A push does not touch what is below it. -/
theorem getElem?_pushFrame {kstack : Nat → List Frame} {sp : StackPtr} {k : Nat} {f g : Frame}
    (hk : k < sp.depth) (h : (kstack sp.stack)[k]? = some g) :
    (pushFrame kstack sp f sp.stack)[k]? = some g := by
  obtain ⟨hlt, rfl⟩ := List.getElem?_eq_some_iff.mp h
  have hlen : k < ((kstack sp.stack).take sp.depth).length := by
    rw [List.length_take]
    omega
  rw [pushFrame, Function.update_self, List.getElem?_append_left hlen,
    List.getElem?_take_of_lt hk, List.getElem?_eq_getElem hlt]

/-- A frame pushed where nothing is left below is the first. -/
theorem pushFrame_zero (kstack : Nat → List Frame) (p : Nat) (f : Frame) :
    (pushFrame kstack ⟨p, 0⟩ f p)[0]? = some f := by
  simp [pushFrame]

theorem pushFrame_of_ne (kstack : Nat → List Frame) {sp : StackPtr} (f : Frame) {p : Nat}
    (h : sp.stack ≠ p) : pushFrame kstack sp f p = kstack p := by
  rw [pushFrame, Function.update_of_ne h.symm]

theorem Suspended.push {c : Core} {p : Nat} (h : Suspended c p) {sp : StackPtr} (f : Frame)
    (hsp : sp.stack = p → (c.kbp p).depth ≤ sp.depth) :
    Suspended { c with kstack := pushFrame c.kstack sp f } p := by
  obtain ⟨d, hkbp, hpit, hd⟩ := h
  refine ⟨d, hkbp, ?_⟩
  by_cases hp : sp.stack = p
  · subst hp
    have hle : d + 1 ≤ sp.depth := by
      have := hsp rfl
      rwa [hkbp] at this
    refine ⟨getElem?_pushFrame (by omega) hpit, ?_⟩
    obtain rfl | ⟨rfl, g, hg, hw⟩ := hd
    · exact .inl rfl
    · exact .inr ⟨rfl, g, getElem?_pushFrame (by omega) hg, hw⟩
  · simp only [pushFrame_of_ne c.kstack f hp]
    exact ⟨hpit, hd⟩

theorem Calls.push {c : Core} {p q : Nat} (h : Calls c p q) {sp : StackPtr} (f : Frame)
    (hsp : sp.stack ≠ p) : Calls { c with kstack := pushFrame c.kstack sp f } p q where
  ksp := h.ksp
  kbp := h.kbp
  frame := by
    simp only [pushFrame_of_ne c.kstack f hsp]
    exact h.frame

/-! ### Starting a process -/

/-- **Start.** With all in order but for the top of row `t`, a process is started on that row:
by the process at its top, or on an empty row. The frame of `execute` may go on any stack that
is not used below it. -/
theorem Others.start {c : Core} {n : TermId → Nat} {t : TermId} (h : Others c n t) {i : Fin 4}
    {sp : StackPtr} (hslot : pcbProcessNumber c.mask t = some i)
    (hcall : 0 < n t → sp = ⟨top n t, 0⟩)
    (hpush : ∀ u j, j < n u → slotId u j = sp.stack → j + 1 = n u ∧
      (u ≠ t → (c.kbp (slotId u j)).depth ≤ sp.depth)) :
    Others (c.start t i sp) (Function.update n t (n t + 1)) t ∧
      Running (c.start t i sp) (slotId t i.val) := by
  obtain ⟨hi, -⟩ := h.rows.slot_eq hslot
  have hlt := i.isLt
  have hident : ∀ p, p ≠ slotId t i.val → (c.start t i sp).ident p = c.ident p :=
    fun p hp => Function.update_of_ne hp _ _
  have hself : (c.start t i sp).ident (slotId t i.val) =
      ⟨slotId t i.val, if i.val = 0 then -1 else slotId t i.val - 1, sp.up, sp.up, t⟩ :=
    Function.update_self ..
  constructor
  · refine ⟨h.rows.start sp.up hslot, ?_, ?_, ?_⟩
    · intro u k hk
      obtain ⟨hs, rfl, hkn⟩ | ⟨hs, hk⟩ := slot_cases h.rows.le hi hk
      · -- the caller of the new process
        have hsp := hcall (by omega)
        have hcaller : slotId u k = top n u := by
          rw [top, ← hkn]
          rfl
        rw [hcaller]
        refine ⟨?_, ?_, ?_⟩
        · rw [hs, hself, hsp]
          rfl
        · rw [hs, hself, hsp]
          rfl
        · rw [hsp]
          exact pushFrame_zero ..
      · have hcalls := h.calls u k hk
        have hne : sp.stack ≠ slotId u k := by
          intro he
          have := (hpush u k (by omega) he.symm).1
          omega
        refine ⟨?_, ?_, ?_⟩
        · rw [hident _ hs]
          exact hcalls.ksp
        · rw [hident _ hs]
          exact hcalls.kbp
        · exact (hcalls.push .execute hne).frame
    · intro u hu hpos
      have htop : top (Function.update n t (n t + 1)) u = top n u := by
        rw [top, top, Function.update_of_ne hu]
      rw [Function.update_of_ne hu] at hpos
      rw [htop]
      refine (h.suspended u hu hpos).push .execute fun hsp => ?_
      exact (hpush u (n u - 1) (by omega) hsp.symm).2 hu
    · intro u hu h0
      rw [Function.update_of_ne hu] at h0
      have hterm : (c.start t i sp).term u = c.term u := Function.update_of_ne hu _ _
      rw [hterm]
      exact h.idle u hu h0
  · exact ⟨c.paging.mapsUserPage_pcbMapping _, rfl, .inl rfl⟩

/-! ### Changes that start nothing -/

theorem Others.of_eq {c c' : Core} {n : TermId → Nat} {t : TermId} (h : Others c n t)
    (htable : c'.toTable = c.toTable) (hkbp : c'.kbp = c.kbp)
    (hkstack : ∀ u j, j < n u → (u ≠ t ∨ j + 1 < n u) →
      c'.kstack (slotId u j) = c.kstack (slotId u j)) : Others c' n t := by
  have hident : c'.ident = c.ident := congrArg Table.ident htable
  refine ⟨htable ▸ h.rows, ?_, ?_, ?_⟩
  · intro u i hi
    have hc := h.calls u i hi
    exact ⟨hident ▸ hc.ksp, hident ▸ hc.kbp, hkstack u i (by omega) (.inr hi) ▸ hc.frame⟩
  · intro u hu hpos
    have hs := h.suspended u hu hpos
    rw [Suspended, top, hkbp, hkstack u (n u - 1) (by omega) (.inl hu)]
    exact hs
  · intro u hu h0
    rw [show c'.term u = c.term u from congrArg (fun T : Table => T.term u) htable]
    exact h.idle u hu h0

namespace Healthy

variable {c c' : Core} {n : TermId → Nat}

theorem pos_of_user (hh : Healthy c n) (hcpu : c.cpu = .user) :
    0 < n c.now ∧ Running c (top n c.now) := by
  obtain hboot | h := hh.now
  · rw [hboot.cpu] at hcpu
    cases hcpu
  · exact h

/-- Once something has been launched a process runs. -/
theorem running (hh : Healthy c n) (hpos : 0 < n c.now) : Running c (top n c.now) := by
  obtain hboot | ⟨-, hrun⟩ := hh.now
  · have := hboot.empty c.now
    omega
  · exact hrun

theorem top_lt (hh : Healthy c n) (hpos : 0 < n c.now) : top n c.now < 12 := by
  have hle := hh.rows.le c.now
  exact slotId_lt c.now (by omega)

/-- A change of the running process's own stack and of the processor's state. -/
theorem of_running (hh : Healthy c n) (hpos : 0 < n c.now) (htable : c'.toTable = c.toTable)
    (hkbp : c'.kbp = c.kbp) (hkstack : ∀ p, p ≠ top n c.now → c'.kstack p = c.kstack p)
    (hrun : Running c' (top n c.now)) : Healthy c' n := by
  have hnow : c'.now = c.now := congrArg (fun T : Table => T.now) htable
  have hle := hh.rows.le
  have hothers : Others c' n c.now := by
    refine hh.toOthers.of_eq htable hkbp fun u j hj hu => hkstack _ ?_
    have hu4 := hle u
    have hn4 := hle c.now
    rw [top, ne_eq, slotId_inj (by omega) (by omega)]
    rintro ⟨rfl, rfl⟩
    obtain hu | hu := hu
    · exact hu rfl
    · omega
  refine ⟨hnow ▸ hothers, fun h0 => ?_, .inr ?_⟩
  · rw [hnow] at h0
    omega
  · rw [hnow]
    exact ⟨hpos, hrun⟩

/-- In user code nothing depends on the running process's own stack. -/
theorem push (hh : Healthy c n) (hcpu : c.cpu = .user) {sp : StackPtr}
    (hsp : sp.stack = top n c.now) (f : Frame) :
    Healthy { c with kstack := pushFrame c.kstack sp f } n := by
  obtain ⟨hpos, hrun⟩ := hh.pos_of_user hcpu
  refine hh.of_running hpos rfl rfl (fun p hp => pushFrame_of_ne _ _ ?_)
    ⟨hrun.page, hrun.tss, .inl hcpu⟩
  rw [hsp]
  exact hp.symm

theorem block (hh : Healthy c n) (hcpu : c.cpu = .user) {f : Frame} (hf : f.IsWait) :
    Healthy { c with kstack := pushFrame c.kstack c.entry f, cpu := .kernel c.entry.up } n := by
  obtain ⟨hpos, hrun⟩ := hh.pos_of_user hcpu
  have hentry : c.entry = ⟨top n c.now, 0⟩ := by
    have hstack := hrun.entry (hh.top_lt hpos)
    simp only [Core.entry, hcpu] at hstack ⊢
    rw [hstack]
  rw [hentry]
  refine hh.of_running hpos rfl rfl (fun p hp => pushFrame_of_ne _ _ hp.symm) ⟨hrun.page, hrun.tss,
    .inr (.inr ⟨rfl, f, pushFrame_zero .., hf⟩)⟩

theorem fault (hh : Healthy c n) (hcpu : c.cpu = .user) :
    Healthy { c with cpu := .fault c.entry } n := by
  obtain ⟨hpos, hrun⟩ := hh.pos_of_user hcpu
  refine hh.of_running hpos rfl rfl (fun p _ => rfl) ⟨hrun.page, hrun.tss, .inr (.inl ⟨0, ?_⟩)⟩
  have hstack := hrun.entry (hh.top_lt hpos)
  simp only [Core.entry, hcpu] at hstack ⊢
  rw [hstack]

theorem video (hh : Healthy c n) (page : Nat) :
    Healthy { c with paging := c.paging.syscallVideoMapping page } n := by
  obtain hboot | ⟨hpos, hrun⟩ := hh.now
  · exact ⟨hh.toOthers.of_eq rfl rfl fun _ _ _ _ => rfl, hh.idle_now,
      .inl ⟨hboot.empty, hboot.cpu, hboot.frame⟩⟩
  · exact hh.of_running hpos rfl rfl (fun p _ => rfl)
      ⟨hrun.page.syscallVideoMapping page, hrun.tss, hrun.cpu⟩

/-- In a kernel loop that is not that of `entry`, the running process is blocked there. -/
theorem blocked (hh : Healthy c n) {sp : StackPtr} (hcpu : c.cpu = .kernel sp) {f : Frame}
    (hframe : (c.kstack sp.stack)[sp.depth - 1]? = some f) (hf : f.IsWait) :
    0 < n c.now ∧ Running c (top n c.now) ∧ sp = ⟨top n c.now, 1⟩ := by
  obtain hboot | ⟨hpos, hrun⟩ := hh.now
  · rw [hboot.cpu] at hcpu
    obtain rfl := Cpu.kernel.inj hcpu
    obtain rfl := Option.some.inj (hboot.frame.symm.trans hframe)
    cases hf
  · refine ⟨hpos, hrun, ?_⟩
    obtain hc | ⟨d, hc⟩ | ⟨hc, -⟩ := hrun.cpu
    · rw [hc] at hcpu
      cases hcpu
    · rw [hc] at hcpu
      cases hcpu
    · rw [hc] at hcpu
      exact (Cpu.kernel.inj hcpu).symm

theorem loop (hh : Healthy c n) {sp : StackPtr} (hcpu : c.cpu = .kernel sp) {f₀ f : Frame}
    (hframe : (c.kstack sp.stack)[sp.depth - 1]? = some f₀) (hf₀ : f₀.IsWait) (hf : f.IsWait) :
    Healthy { c with kstack := pushFrame c.kstack ⟨sp.stack, sp.depth - 1⟩ f } n := by
  obtain ⟨hpos, hrun, rfl⟩ := hh.blocked hcpu hframe hf₀
  exact hh.of_running hpos rfl rfl (fun p hp => pushFrame_of_ne _ _ hp.symm)
    ⟨hrun.page, hrun.tss, .inr (.inr ⟨hcpu, f, pushFrame_zero .., hf⟩)⟩

theorem loopEnd (hh : Healthy c n) {sp : StackPtr} (hcpu : c.cpu = .kernel sp) {f₀ : Frame}
    (hframe : (c.kstack sp.stack)[sp.depth - 1]? = some f₀) (hf₀ : f₀.IsWait) :
    Healthy { c with cpu := .user } n := by
  obtain ⟨hpos, hrun, -⟩ := hh.blocked hcpu hframe hf₀
  exact hh.of_running hpos rfl rfl (fun p _ => rfl) ⟨hrun.page, hrun.tss, .inl rfl⟩

end Healthy

/-! ### Ticks -/

/-- What `saveContext` changes, for the PCB with the given id. -/
def Core.save (c : Core) (id : Nat) : Core :=
  { c with
    now := nextTermId c.now
    ksp := Function.update c.ksp id c.entry.up
    kbp := Function.update c.kbp id c.entry.up
    kstack := pushFrame c.kstack c.entry .pit }

theorem core_saveContext_eq (s : Kernel) : s.saveContext.core = s.core.save s.nowPcbId :=
  core_saveContext s

/-- The id of the process that is saved, when there is one. -/
def SavesTop (c : Core) (n : TermId → Nat) (id : Nat) : Prop := 0 < n c.now → id = top n c.now

theorem savesTop_nowPcbId {s : Kernel} {n : TermId → Nat} (hr : Rows s.table n) :
    SavesTop s.core n s.nowPcbId := fun hpos => hr.nowPcbId_eq hpos

namespace Healthy

variable {c : Core} {n : TermId → Nat} {id : Nat}

/-- Every stack that is in use is that of a process at the top of its row. -/
theorem entry_stack (hh : Healthy c n) {u : TermId} {j : Nat} (hj : j < n u)
    (h : slotId u j = c.entry.stack) : 0 < n c.now ∧ u = c.now ∧ j + 1 = n u := by
  obtain hboot | ⟨hpos, hrun⟩ := hh.now
  · have := hboot.empty u
    omega
  · have hu := hh.rows.le u
    have hn := hh.rows.le c.now
    rw [hrun.entry (hh.top_lt hpos), top, slotId_inj (by omega) (by omega)] at h
    obtain ⟨rfl, rfl⟩ := h
    exact ⟨hpos, rfl, by omega⟩

/-- **Save.** After a tick has saved the context every process at the top of a row is
suspended. -/
theorem save_suspended (hh : Healthy c n) (hi : ∀ sp, c.cpu ≠ .fault sp) (hid : SavesTop c n id)
    {u : TermId} (hpos : 0 < n u) : Suspended (c.save id) (top n u) := by
  have hle := hh.rows.le u
  by_cases hu : u = c.now
  · subst hu
    obtain hboot | ⟨-, hrun⟩ := hh.now
    · have := hboot.empty c.now
      omega
    · have hkbp : (c.save id).kbp (top n c.now) = c.entry.up := by
        rw [← hid hpos]
        exact Function.update_self ..
      have hstack := hrun.entry (hh.top_lt hpos)
      obtain hcpu | ⟨d, hcpu⟩ | ⟨hcpu, g, hg, hw⟩ := hrun.cpu
      · have hentry : c.entry = ⟨top n c.now, 0⟩ := by
          simp only [Core.entry, hcpu] at hstack ⊢
          rw [hstack]
        refine ⟨0, by rw [hkbp, hentry]; rfl, ?_, .inl rfl⟩
        simp only [Core.save, hentry]
        exact pushFrame_zero ..
      · exact absurd hcpu (hi _)
      · have hentry : c.entry = ⟨top n c.now, 1⟩ := by simp only [Core.entry, hcpu]
        have hlen : 0 < (c.kstack (top n c.now)).length := by
          obtain ⟨hlt, -⟩ := List.getElem?_eq_some_iff.mp hg
          exact hlt
        refine ⟨1, by rw [hkbp, hentry]; rfl, ?_, .inr ⟨rfl, g, ?_, hw⟩⟩
        · simp only [Core.save, hentry, pushFrame, Function.update_self]
          rw [List.getElem?_append_right (by rw [List.length_take]; omega), List.length_take]
          simp [Nat.min_eq_left hlen]
        · simp only [Core.save, hentry]
          exact getElem?_pushFrame Nat.one_pos hg
  · have hsusp := hh.suspended u hu hpos
    have hne : c.entry.stack ≠ top n u := fun h => hu (hh.entry_stack (by omega) h.symm).2.1
    have hkbp : (c.save id).kbp (top n u) = c.kbp (top n u) := by
      refine Function.update_of_ne ?_ _ _
      rintro rfl
      obtain hboot | ⟨hnow, hrun⟩ := hh.now
      · have := hboot.empty u
        omega
      · exact hne ((hrun.entry (hh.top_lt hnow)).trans (hid hnow).symm)
    obtain ⟨d, hd, hrest⟩ := hsusp
    refine ⟨d, hkbp.trans hd, ?_⟩
    simp only [Core.save, pushFrame_of_ne c.kstack .pit hne]
    exact hrest

theorem save (hh : Healthy c n) (hi : ∀ sp, c.cpu ≠ .fault sp) (hid : SavesTop c n id)
    (t : TermId) : Others (c.save id) n t where
  rows := hh.rows.of_eq rfl (fun _ => rfl) rfl
  calls := fun u j hj => by
    have hne : c.entry.stack ≠ slotId u j := by
      intro h
      have := (hh.entry_stack (by omega) h.symm).2.2
      omega
    have hcalls := (hh.calls u j hj).push .pit hne
    exact ⟨hcalls.ksp, hcalls.kbp, hcalls.frame⟩
  suspended := fun u _ hpos => hh.save_suspended hi hid hpos
  idle := fun u _ h0 => by
    by_cases hu : u = c.now
    · subst hu
      exact hh.idle_now h0
    · exact hh.idle u hu h0

/-- **Launch.** The core after a tick has started a shell in the next terminal. -/
theorem launch (hh : Healthy c n) (hi : ∀ sp, c.cpu ≠ .fault sp) (hid : SavesTop c n id)
    (h0 : n (nextTermId c.now) = 0) {c' : Core}
    (hc' : c' = { c.save id with
      term := Function.update c.term (nextTermId c.now)
        { c.term (nextTermId c.now) with running := true } })
    (hslot : pcbProcessNumber c.mask (nextTermId c.now) = some 0) :
    Healthy (c'.start (nextTermId c.now) 0 c.entry.up)
      (Function.update n (nextTermId c.now) (n (nextTermId c.now) + 1)) := by
  have hsave := hh.save hi hid (nextTermId c.now)
  have hterm : ∀ u, u ≠ nextTermId c.now → c'.term u = c.term u := by
    intro u hu
    subst hc'
    exact Function.update_of_ne hu _ _
  -- up to the start, only the flag of the next terminal is new
  have hothers : Others c' n (nextTermId c.now) := by
    refine ⟨?_, ?_, ?_, ?_⟩
    · refine hsave.rows.of_eq (by subst hc'; rfl) (fun u => ?_) (by subst hc'; rfl)
      by_cases hu : u = nextTermId c.now
      · subst hu hc'
        simp only [Function.update_self]
        rfl
      · rw [hterm u hu]
        rfl
    · subst hc'
      exact fun u j hj => ⟨(hsave.calls u j hj).ksp, (hsave.calls u j hj).kbp,
        (hsave.calls u j hj).frame⟩
    · subst hc'
      exact hsave.suspended
    · intro u hu hempty
      rw [hterm u hu]
      exact hsave.idle u hu hempty
  have hkbp : c'.kbp = (c.save id).kbp := by subst hc'; rfl
  -- the frame of `execute` goes on the stack of the process that the tick has interrupted
  have hpush : ∀ u j, j < n u → slotId u j = c.entry.up.stack → j + 1 = n u ∧
      (u ≠ nextTermId c.now → (c'.kbp (slotId u j)).depth ≤ c.entry.up.depth) := by
    intro u j hj he
    obtain ⟨hpos, rfl, htop⟩ := hh.entry_stack hj he
    refine ⟨htop, fun _ => ?_⟩
    have hj' : slotId c.now j = id := by
      rw [hid hpos, top, ← htop]
      rfl
    have hself : (c.save id).kbp id = c.entry.up := Function.update_self ..
    rw [hkbp, hj', hself]
  obtain ⟨hothers', hrun⟩ := hothers.start (by subst hc'; exact hslot)
    (fun hpos => absurd hpos (by omega)) hpush
  have hnow : (c'.start (nextTermId c.now) 0 c.entry.up).now = nextTermId c.now := by
    subst hc'
    rfl
  have htop : top (Function.update n (nextTermId c.now) (n (nextTermId c.now) + 1))
      (nextTermId c.now) = slotId (nextTermId c.now) (0 : Fin 4).val := by
    rw [top, Function.update_self, h0]
    rfl
  refine ⟨?_, fun h => ?_, .inr ?_⟩
  · rw [hnow]
    exact hothers'
  · rw [hnow, Function.update_self] at h
    omega
  · rw [hnow, htop, Function.update_self]
    exact ⟨by omega, hrun⟩

end Healthy

/-! ### Switches, calls and halts -/

namespace Healthy

variable {c c' : Core} {n : TermId → Nat} {id : Nat}

/-- **Switch.** The core after a tick has resumed the process of the next terminal. -/
theorem switch (hh : Healthy c n) (hi : ∀ sp, c.cpu ≠ .fault sp) (hid : SavesTop c n id)
    (hpos : 0 < n (nextTermId c.now)) (htable : c'.toTable = (c.save id).toTable)
    (hkbp : c'.kbp = (c.save id).kbp) (hkstack : c'.kstack = (c.save id).kstack)
    (hrun : Running c' (top n (nextTermId c.now))) : Healthy c' n := by
  have hnow : c'.now = nextTermId c.now := congrArg (fun T : Table => T.now) htable
  refine ⟨?_, fun h0 => ?_, .inr ?_⟩
  · rw [hnow]
    exact (hh.save hi hid (nextTermId c.now)).of_eq htable hkbp fun _ _ _ _ => by rw [hkstack]
  · rw [hnow] at h0
    omega
  · rw [hnow]
    exact ⟨hpos, hrun⟩

/-- **Call.** The core after the running process has executed a program in its own
terminal. -/
theorem call (hh : Healthy c n) (hcpu : c.cpu = .user) {i : Fin 4}
    (hslot : pcbProcessNumber c.mask c.now = some i) :
    Healthy (c.start c.now i c.entry) (Function.update n c.now (n c.now + 1)) := by
  obtain ⟨hpos, hrun⟩ := hh.pos_of_user hcpu
  obtain ⟨hi, -⟩ := hh.rows.slot_eq hslot
  have hentry : c.entry = ⟨top n c.now, 0⟩ := by
    have hstack := hrun.entry (hh.top_lt hpos)
    simp only [Core.entry, hcpu] at hstack ⊢
    rw [hstack]
  have hpush : ∀ u j, j < n u → slotId u j = c.entry.stack → j + 1 = n u ∧
      (u ≠ c.now → (c.kbp (slotId u j)).depth ≤ c.entry.depth) := by
    intro u j hj he
    obtain ⟨-, rfl, htop⟩ := hh.entry_stack hj he
    exact ⟨htop, fun hne => absurd rfl hne⟩
  obtain ⟨hothers, hrun'⟩ := hh.toOthers.start hslot (fun _ => hentry) hpush
  have htop : top (Function.update n c.now (n c.now + 1)) c.now = slotId c.now i.val := by
    rw [top, Function.update_self, hi]
    rfl
  refine ⟨hothers, fun h0 => ?_, .inr ?_⟩
  · have h1 : Function.update n c.now (n c.now + 1) c.now = 0 := h0
    rw [Function.update_self] at h1
    omega
  · show 0 < Function.update n c.now (n c.now + 1) c.now ∧ _
    rw [Function.update_self]
    exact ⟨by omega, htop ▸ hrun'⟩

/-- The core after `halt` has unlinked the running process. -/
theorem unlink (hh : Healthy c n) (hpos : 0 < n c.now) {row : TermId} {slot : Fin 4}
    (hslot : slotId row slot.val = top n c.now) (hc' : c' = { c with
      toTable := c.toTable.unlink row slot (c.ident (top n c.now)).parentProcessNumber }) :
    Others c' (Function.update n c.now (n c.now - 1)) c.now := by
  have hsub : ∀ u j, j < Function.update n c.now (n c.now - 1) u → j < n u := by
    intro u j hj
    by_cases hu : u = c.now
    · subst hu
      rw [Function.update_self] at hj
      omega
    · rwa [Function.update_of_ne hu] at hj
  have hother : ∀ u, u ≠ c.now → Function.update n c.now (n c.now - 1) u = n u :=
    fun u hu => Function.update_of_ne hu _ _
  subst hc'
  refine ⟨hh.rows.unlink hpos hslot, ?_, ?_, ?_⟩
  · intro u j hj
    have hcalls := hh.calls u j (hsub u (j + 1) hj)
    exact ⟨hcalls.ksp, hcalls.kbp, hcalls.frame⟩
  · intro u hu hpos'
    have htop : top (Function.update n c.now (n c.now - 1)) u = top n u := by
      rw [top, top, hother u hu]
    rw [hother u hu] at hpos'
    rw [htop]
    exact hh.suspended u hu hpos'
  · intro u hu h0
    rw [hother u hu] at h0
    have hterm : (Table.unlink c.toTable row slot
        (c.ident (top n c.now)).parentProcessNumber).term u = c.term u :=
      Function.update_of_ne hu _ _
    exact hterm ▸ hh.idle u hu h0

/-- **Pop.** The core after a child has halted and its parent runs. -/
theorem pop (hh : Healthy c n) (h2 : 1 < n c.now) {row : TermId} {slot : Fin 4}
    (hslot : slotId row slot.val = top n c.now)
    (htable : c'.toTable =
      c.toTable.unlink row slot (c.ident (top n c.now)).parentProcessNumber)
    (hkbp : c'.kbp = c.kbp) (hkstack : c'.kstack = c.kstack)
    (hrun : Running c' (top (Function.update n c.now (n c.now - 1)) c.now)) :
    Healthy c' (Function.update n c.now (n c.now - 1)) := by
  have hothers := (hh.unlink (by omega) hslot rfl).of_eq htable hkbp fun _ _ _ _ => by rw [hkstack]
  have hnow : c'.now = c.now := (congrArg (fun T : Table => T.now) htable).trans rfl
  refine ⟨?_, fun h0 => ?_, .inr ?_⟩
  · rw [hnow]
    exact hothers
  · rw [hnow, Function.update_self] at h0
    omega
  · rw [hnow]
    refine ⟨?_, hrun⟩
    rw [Function.update_self]
    omega

/-- **Restart.** The core after a root shell has been replaced in its own terminal. -/
theorem restart (hh : Healthy c n) (h1 : n c.now = 1) {row : TermId} {slot : Fin 4}
    (hslot : slotId row slot.val = top n c.now) (hc' : c' = { c with
      toTable := c.toTable.unlink row slot (c.ident (top n c.now)).parentProcessNumber })
    (hfree : pcbProcessNumber c'.mask c.now = some 0) :
    Healthy (c'.start c.now 0 c.entry) n := by
  have hothers := hh.unlink (by omega) hslot hc'
  have hn : Function.update n c.now (n c.now - 1) c.now = 0 := by
    rw [Function.update_self]
    omega
  have hback : Function.update (Function.update n c.now (n c.now - 1)) c.now
      (Function.update n c.now (n c.now - 1) c.now + 1) = n := by
    have hone : 0 + 1 = n c.now := by omega
    rw [hn, Function.update_idem, hone, Function.update_eq_self]
  have hpush : ∀ u j, j < Function.update n c.now (n c.now - 1) u →
      slotId u j = c.entry.stack → j + 1 = Function.update n c.now (n c.now - 1) u ∧
        (u ≠ c.now → (c'.kbp (slotId u j)).depth ≤ c.entry.depth) := by
    intro u j hj he
    by_cases hu : u = c.now
    · subst hu
      rw [hn] at hj
      omega
    · rw [Function.update_of_ne hu] at hj
      exact absurd (hh.entry_stack hj he).2.1 hu
  obtain ⟨hothers', hrun⟩ := hothers.start hfree (fun hpos => by omega) hpush
  rw [hback] at hothers'
  have hnow : (c'.start c.now 0 c.entry).now = c.now := by subst hc'; rfl
  have htop : top n c.now = slotId c.now (0 : Fin 4).val := by
    rw [top, h1]
    rfl
  refine ⟨?_, fun h0 => ?_, .inr ?_⟩
  · rw [hnow]
    exact hothers'
  · rw [hnow] at h0
    omega
  · rw [hnow, htop]
    exact ⟨by omega, hrun⟩

end Healthy

end LinuxLikeKernel
