import LinuxLikeKernel.OwnTerminal

/-!
# Calls and returns

A log records what each caller of `execute` looked like. With new processes in their caller's
terminal, `halt` gives the caller back what the log says it had.

## Main definitions

- `logStep` — a step, with a record of each call of `execute` that starts a process
- `PlacesChild`, `Restores`, `ReplacesShell` — what `execute` and `halt` should do

## Main results

- `calls_return` — along guarded runs they do it
-/

namespace LinuxLikeKernel
open ByteMemory Transition Kernel

/-! ### The log -/

/-- A caller of `execute`: its PCB, its page, its TSS, its place in `execute`, its terminal and
that terminal's process id. -/
structure CallRecord where
  caller : Nat
  frame : Option Nat
  tssEsp0 : Nat
  sp : StackPtr
  now : TermId
  curPcbId : Int

def Kernel.callRecord (s : Kernel) : CallRecord where
  caller := s.getCurPcb
  frame := s.paging.userFrame
  tssEsp0 := s.tssEsp0
  sp := s.entry.up
  now := s.con.nowTermId
  curPcbId := (s.con.term s.con.nowTermId).curPcbId

/-- The caller of each process that was started by `execute`. -/
abbrev CallLog : Type := Nat → Option CallRecord

/-- The caller of the process that a step starts goes under the number of that process. -/
def logCall (img : Image) (s : Kernel) (e : Event) (s' : Kernel) (log : CallLog) : CallLog :=
  if s.startsProcess img e then Function.update log s'.getCurPcb (some s.callRecord) else log

/-- A step that records the caller of the process it starts. -/
def logStep (img : Image) : Kernel × CallLog → Event → Option (Kernel × CallLog) :=
  logged (step img) (logCall img)

/-- The log only watches: a logged run goes through the states of the run. -/
theorem fst_run_logStep (img : Image) (x : Kernel × CallLog) (es : List Event) :
    (run (logStep img) x es).map Prod.fst = run (step img) x.1 es := fst_run_logged ..

/-- The guard of a logged run. -/
def LoggedGuard (img : Image) (x : Kernel × CallLog) (e : Event) : Prop := OwnTerminal img x.1 e

instance (img : Image) (x : Kernel × CallLog) (e : Event) : Decidable (LoggedGuard img x e) :=
  inferInstanceAs (Decidable (OwnTerminal img x.1 e))

/-! ### What should happen -/

/-- The process that runs in `s'` was placed in the terminal of the caller in `s`, in a free
slot, with the caller as its parent. -/
structure PlacesChild (s s' : Kernel) : Prop where
  slot : ∃ i : Fin 4, s'.getCurPcb = slotId s.con.nowTermId i ∧
    s.pcbMask s.con.nowTermId i = false ∧ s'.pcbMask s.con.nowTermId i = true ∧
    (s'.con.term s.con.nowTermId).curPcbId = i.val
  termId : (s'.pcb s'.getCurPcb).termId = s.con.nowTermId.val
  parent : (s'.pcb s'.getCurPcb).parentProcessNumber = (s.pcb s.getCurPcb).processNumber

/-- The step from `s` to `s'` ends the running process and gives its caller back what the
record says. -/
structure Restores (r : CallRecord) (s s' : Kernel) : Prop where
  ksp : (s.pcb s.getCurPcb).parentKsp = r.sp
  kbp : (s.pcb s.getCurPcb).parentKbp = r.sp
  returnsTo : s.frameAt r.sp = some .execute
  cpu : s'.cpu = .user
  caller : s'.getCurPcb = r.caller
  frame : s'.paging.userFrame = r.frame
  tss : s'.tssEsp0 = r.tssEsp0
  now : s'.con.nowTermId = r.now
  cur : (s'.con.term r.now).curPcbId = r.curPcbId

/-- The step from `s` to `s'` starts a new shell in the running terminal. -/
structure ReplacesShell (s s' : Kernel) : Prop where
  now : s'.con.nowTermId = s.con.nowTermId
  shell : ShellStarted s' s.con.nowTermId
  termId : (s'.pcb (slotId s.con.nowTermId 0)).termId = s.con.nowTermId.val
  root : (s'.pcb (slotId s.con.nowTermId 0)).parentProcessNumber = -1

/-- A halt goes back to the recorded caller. A process that no one has called is a root
shell. -/
def HaltReturns (log : CallLog) (s s' : Kernel) : Prop :=
  match log s.getCurPcb with
  | some r => Restores r s s'
  | none => ReplacesShell s s'

/-! ### The log fits the rows -/

/-- The log has the caller of each process that is not the first of its row: the process below
it. -/
structure LogFits (n : TermId → Nat) (log : CallLog) : Prop where
  root : ∀ u, log (slotId u 0) = none
  call : ∀ u i, i + 1 < n u → log (slotId u (i + 1)) = some {
    caller := slotId u i
    frame := some (processFrame (slotId u i))
    tssEsp0 := processEsp0 (slotId u i)
    sp := ⟨slotId u i, 1⟩
    now := u
    curPcbId := i }

variable {img : Image} {s s' : Kernel} {n n' : TermId → Nat} {log : CallLog}

theorem LogFits.of_le (hl : LogFits n log) (h : ∀ u i, i + 1 < n' u → i + 1 < n u) :
    LogFits n' log where
  root := hl.root
  call := fun u i hi => hl.call u i (h u i hi)

/-- The record of a healthy caller. -/
theorem callRecord_eq (hh : Healthy s.core n) (hcpu : s.cpu = .user) :
    0 < n s.con.nowTermId ∧ s.callRecord = {
      caller := top n s.con.nowTermId
      frame := some (processFrame (top n s.con.nowTermId))
      tssEsp0 := processEsp0 (top n s.con.nowTermId)
      sp := ⟨top n s.con.nowTermId, 1⟩
      now := s.con.nowTermId
      curPcbId := (n s.con.nowTermId - 1 : Nat) } := by
  obtain ⟨hpos, hrun⟩ := hh.pos_of_user hcpu
  have hstack : s.entry.stack = top n s.con.nowTermId := hrun.entry (hh.top_lt hpos)
  have hentry : s.entry.up = ⟨top n s.con.nowTermId, 1⟩ := by
    rw [← hstack]
    simp only [entry, hcpu]
    rfl
  have hframe : s.paging.userFrame = some (processFrame (top n s.con.nowTermId)) :=
    hrun.page.userFrame (processFrame_aligned _)
  have htss : s.tssEsp0 = processEsp0 (top n s.con.nowTermId) := hrun.tss
  have hcur : (s.con.term s.con.nowTermId).curPcbId = (n s.con.nowTermId : Int) - 1 :=
    hh.rows.cur s.con.nowTermId
  have hpos' : 0 < n s.con.nowTermId := hpos
  refine ⟨hpos, ?_⟩
  simp only [callRecord, getCurPcb, hentry, hstack, hframe, htss, CallRecord.mk.injEq, true_and]
  omega

/-- The process that has just been started is the one that runs. -/
theorem getCurPcb_started (s : Kernel) (sp : StackPtr) (t : TermId) (i : Fin 4)
    (args : List UInt8) : (s.started sp t i args).getCurPcb = slotId t i :=
  stackOf_processEsp0 (slotId_lt t i.isLt)

/-- **Step lemma.** The log keeps fitting. -/
theorem LogFits.step {e : Event} (hh : Healthy s.core n) (hl : LogFits n log)
    (hp : ProcessStep img s n e s' n') :
    LogFits n' (if s.startsProcess img e then
      Function.update log s'.getCurPcb (some s.callRecord) else log) := by
  cases hp with
  | other hstart hcall hn =>
    rw [hstart, if_neg Bool.false_ne_true]
    refine hl.of_le fun u i hi => ?_
    obtain hu | ⟨-, hu, hu'⟩ := hn u
    · omega
    · omega
  | execute args hstart hcpu hslot hs =>
    rename_i i mem
    obtain ⟨hpos, hrecord⟩ := callRecord_eq hh hcpu
    have hi : i.val = n s.con.nowTermId := (hh.rows.slot_eq hslot).1
    have hlt := i.isLt
    rw [hstart, if_pos rfl, hs, getCurPcb_started]
    refine ⟨fun u => ?_, fun u k hk => ?_⟩
    · rw [Function.update_of_ne]
      · exact hl.root u
      · rw [ne_eq, slotId_inj (by decide) hlt]
        omega
    · -- the new call is the one on top of the row, the others are below it
      obtain ⟨hslot, rfl, hkn⟩ | ⟨hne, hk⟩ := slot_cases hh.rows.le hi hk
      · have hk' : n s.con.nowTermId - 1 = k := by omega
        rw [hslot, Function.update_self, hrecord, top, hk']
      · rw [Function.update_of_ne hne]
        exact hl.call u k hk
  | halt hcall hcpu hnow =>
    rw [startsProcess_of_callsHalt hcall, if_neg Bool.false_ne_true]
    refine hl.of_le fun u i hi => ?_
    rw [haltRows] at hi
    split at hi
    · exact hi
    · by_cases hu : u = s.con.nowTermId
      · subst hu
        rw [Function.update_self] at hi
        omega
      · rwa [Function.update_of_ne hu] at hi

/-! ### One step -/

/-- What `execute` does in a healthy state. -/
theorem placesChild_of_started (hh : Healthy s.core n) (hcpu : s.cpu = .user) {i : Fin 4}
    (hslot : pcbProcessNumber s.pcbMask s.con.nowTermId = some i) (mem : Mem)
    (args : List UInt8) :
    PlacesChild s ((s.withMem mem).started s.entry s.con.nowTermId i args) := by
  obtain ⟨hpos, hrun⟩ := hh.pos_of_user hcpu
  obtain ⟨hi, -⟩ := hh.rows.slot_eq hslot
  have htable := table_started (s.withMem mem) s.entry s.con.nowTermId i args
  have hident : (((s.withMem mem).started s.entry s.con.nowTermId i args).pcb
      (slotId s.con.nowTermId i)).ident = ⟨slotId s.con.nowTermId i,
        if i.val = 0 then -1 else slotId s.con.nowTermId i - 1, s.entry.up, s.entry.up,
        s.con.nowTermId⟩ :=
    (congrFun (congrArg Table.ident htable) _).trans (Function.update_self ..)
  have hcur := getCurPcb_started (s.withMem mem) s.entry s.con.nowTermId i args
  have hfree : s.pcbMask s.con.nowTermId i = false := by
    rw [Bool.eq_false_iff]
    intro hused
    have := (hh.rows.mask s.con.nowTermId i).mp hused
    omega
  have hpos' : 0 < n s.con.nowTermId := hpos
  have hi' : i.val = n s.con.nowTermId := hi
  refine ⟨⟨i, hcur, hfree, ?_, ?_⟩, ?_, ?_⟩
  · refine (congrFun (congrFun (congrArg Table.mask htable) _) _).trans ?_
    simp [Table.start, markSlot]
  · refine (congrArg (fun T : Table => (T.term s.con.nowTermId).curPcbId) htable).trans ?_
    simp [Table.start]
  · rw [hcur]
    exact congrArg Ident.termId hident
  · have hcaller : s.getCurPcb = top n s.con.nowTermId := hrun.entry (hh.top_lt hpos)
    have hnumber : (s.pcb (top n s.con.nowTermId)).processNumber =
        (top n s.con.nowTermId : Nat) :=
      hh.rows.number s.con.nowTermId (n s.con.nowTermId - 1) (by
        show n s.con.nowTermId - 1 < n s.con.nowTermId
        omega)
    rw [hcur, hcaller, hnumber]
    refine (congrArg Ident.parentProcessNumber hident).trans ?_
    rw [if_neg (by omega)]
    simp only [slotId, top, maxPcbMaskLen]
    omega

/-- What `halt` does in a healthy state. -/
theorem haltReturns_of_healthy (hh : Healthy s.core n) (hl : LogFits n log)
    (hpos : 0 < n s.con.nowTermId) (hcpu : s'.cpu = .user)
    (hnow : s'.con.nowTermId = s.con.nowTermId)
    (hh' : Healthy s'.core (haltRows n s.con.nowTermId)) : HaltReturns log s s' := by
  have hle : n s.con.nowTermId ≤ 4 := hh.rows.le s.con.nowTermId
  have hcur : s.getCurPcb = top n s.con.nowTermId := (hh.running hpos).entry (hh.top_lt hpos)
  obtain ⟨hpos', hrun'⟩ := hh'.pos_of_user hcpu
  have htop' := hh'.top_lt hpos'
  have hnow' : s'.core.now = s.con.nowTermId := hnow
  rw [hnow'] at hpos' hrun' htop'
  have hstack' : s'.getCurPcb = top (haltRows n s.con.nowTermId) s.con.nowTermId :=
    hrun'.entry htop'
  have hframe' := hrun'.page.userFrame (processFrame_aligned _)
  have hcur' : (s'.con.term s.con.nowTermId).curPcbId =
      (haltRows n s.con.nowTermId s.con.nowTermId : Int) - 1 := hh'.rows.cur _
  rw [HaltReturns, hcur]
  by_cases h1 : n s.con.nowTermId = 1
  · -- the root shell, which another one takes the place of
    have hrows : haltRows n s.con.nowTermId = n := by rw [haltRows, if_pos h1]
    have htop : top n s.con.nowTermId = slotId s.con.nowTermId 0 := by rw [top, h1]
    rw [hrows] at hh' hcur' hframe' hrun'
    rw [htop] at hframe' hrun' ⊢
    simp only [hl.root]
    refine ⟨hnow, ⟨?_, ?_, ?_, hrun'.tss, hframe', hcpu⟩, ?_, ?_⟩
    · rw [hcur', h1]
      rfl
    · exact (hh'.rows.mask s.con.nowTermId 0).mpr hpos
    · exact hh'.rows.number s.con.nowTermId 0 hpos
    · exact hh'.rows.termId s.con.nowTermId 0 hpos
    · exact hh'.rows.parent s.con.nowTermId 0 hpos
  · -- a child, whose parent is the one below it
    obtain ⟨i, hi⟩ : ∃ i, n s.con.nowTermId = i + 2 := ⟨n s.con.nowTermId - 2, by omega⟩
    have hrows : haltRows n s.con.nowTermId s.con.nowTermId = i + 1 := by
      rw [haltRows, if_neg h1, Function.update_self, hi]
      rfl
    have htop : top n s.con.nowTermId = slotId s.con.nowTermId (i + 1) := by rw [top, hi]; rfl
    have htop' : top (haltRows n s.con.nowTermId) s.con.nowTermId = slotId s.con.nowTermId i := by
      rw [top, hrows]
      rfl
    have hlog := hl.call s.con.nowTermId i (by omega)
    have hcalls := hh.calls s.con.nowTermId i (by omega)
    rw [htop'] at hstack' hframe' hrun'
    rw [htop]
    simp only [hlog]
    rw [htop] at hcur
    refine ⟨?_, ?_, hcalls.frame, hcpu, hstack', hframe', hrun'.tss, hnow, ?_⟩
    · rw [hcur]
      exact hcalls.ksp
    · rw [hcur]
      exact hcalls.kbp
    · rw [hcur', hrows]
      simp

/-- A halt that the guard allows goes back to the recorded caller. -/
theorem haltReturns_step (hb : Bootable img) (hh : Healthy s.core n) (hl : LogFits n log)
    {e : Event} (hown : OwnTerminal img s e) (hcall : s.callsHalt e = true)
    (h : step img s e = some s') : HaltReturns log s s' := by
  obtain ⟨n', hh', hp⟩ := healthy_step hb hh hown h
  cases hp with
  | other hstart hno hn =>
    rw [hno] at hcall
    cases hcall
  | execute args hstart hcpu hslot hs =>
    rw [startsProcess_of_callsHalt hcall] at hstart
    cases hstart
  | halt _ hcpu hnow =>
    have hpos := Rows.pos_of_live hh.rows (hown.2.2.1 hcall).1
    exact haltReturns_of_healthy hh hl hpos hcpu hnow hh'

/-! ### Whole runs -/

/-- Guarded logged runs from boot end in a healthy state that the log fits. -/
theorem logFits_of_guarded_run (hb : Bootable img) {s₀ : Kernel} {es : List Event}
    (hg : Guarded (logStep img) (LoggedGuard img) (boot s₀, fun _ => none) es)
    (hrun : run (logStep img) (boot s₀, fun _ => none) es = some (s, log)) :
    ∃ n, Healthy s.core n ∧ LogFits n log := by
  have hstep : ∀ (x : Kernel × CallLog) (e : Event) (x' : Kernel × CallLog),
      (∃ n, Healthy x.1.core n ∧ LogFits n x.2) → LoggedGuard img x e →
      logStep img x e = some x' → ∃ n, Healthy x'.1.core n ∧ LogFits n x'.2 := by
    rintro ⟨s, log⟩ e x' ⟨n, hh, hl⟩ hg h
    obtain ⟨s', hs', rfl⟩ := Option.map_eq_some_iff.mp h
    obtain ⟨n', hh', hp⟩ := healthy_step hb hh hg hs'
    exact ⟨n', hh', hl.step hh hp⟩
  have hboot : LogFits (fun _ => 0) fun _ => none := ⟨fun _ => rfl, fun u i hi => by omega⟩
  exact Guarded.invariant hstep ⟨_, healthy_boot s₀, hboot⟩ hg hrun

/-- **Calls and returns.** After every guarded run, a step that the guard allows places the
process that it starts in the caller's terminal, with the caller as its parent, and a step that
halts gives the caller back its page, TSS, stack position and terminal id, or replaces a root
shell in its terminal. -/
theorem calls_return (hb : Bootable img) {s₀ : Kernel} {es : List Event}
    (hg : Guarded (logStep img) (LoggedGuard img) (boot s₀, fun _ => none) es)
    (hrun : run (logStep img) (boot s₀, fun _ => none) es = some (s, log)) {e : Event}
    (hown : OwnTerminal img s e) (h : step img s e = some s') :
    (s.startsProcess img e = true → PlacesChild s s') ∧
      (s.callsHalt e = true → HaltReturns log s s') := by
  obtain ⟨n, hh, hl⟩ := logFits_of_guarded_run hb hg hrun
  refine ⟨fun hstart => ?_, fun hcall => haltReturns_step hb hh hl hown hcall h⟩
  obtain ⟨n', hh', hp⟩ := healthy_step hb hh hown h
  cases hp with
  | other hno hcall hn =>
    rw [hno] at hstart
    cases hstart
  | execute args _ hcpu hslot hs =>
    subst hs
    exact placesChild_of_started hh hcpu hslot _ args
  | halt hcall hcpu hnow =>
    rw [startsProcess_of_callsHalt hcall] at hstart
    cases hstart

/-- A shell is executed in terminal 0, terminal 1 is displayed, and the child halts. -/
theorem calls_return_sample : ∃ s log s',
    run (logStep sampleImage) (boot powerOn, fun _ => none)
      [.tick noStale, .tick noStale, .tick noStale, .execute shellCommand noStale,
        .key 0x38 noStale, .key 0x3C noStale] = some (s, log) ∧
    step sampleImage s (.halt 0 noStale) = some s' ∧ HaltReturns log s s' := by
  have hobs : (run (logStep sampleImage) (boot powerOn, fun _ => none)
      [.tick noStale, .tick noStale, .tick noStale, .execute shellCommand noStale,
        .key 0x38 noStale, .key 0x3C noStale]).map (fun x =>
      (decide (OwnTerminal sampleImage x.1 (.halt 0 noStale)),
        (step sampleImage x.1 (.halt 0 noStale)).isSome)) = some (true, true) := by
    decide +kernel
  obtain ⟨⟨s, log⟩, hs, hobs⟩ := Option.map_eq_some_iff.mp hobs
  obtain ⟨hown, hsome⟩ := Prod.mk.inj hobs
  obtain ⟨s', hs'⟩ := Option.isSome_iff_exists.mp hsome
  exact ⟨s, log, s', hs, hs', (calls_return sampleImage_bootable
    (show Guarded _ (LoggedGuard sampleImage) _ _ by decide +kernel) hs
    (of_decide_eq_true hown) hs').2 rfl⟩

/-- After a switch to terminal 1 the shell of terminal 0 calls `execute`: the child is put in
terminal 1. -/
theorem not_calls_return : ¬ ∀ (img : Image), Bootable img →
    ∀ (s₀ s s' : Kernel) (log : CallLog) (es : List Event) (e : Event),
      run (logStep img) (boot s₀, fun _ => none) es = some (s, log) →
      step img s e = some s' →
      (s.startsProcess img e = true → PlacesChild s s') ∧
        (s.callsHalt e = true → HaltReturns log s s') := by
  intro hcallsReturn
  have hobs : (run (logStep sampleImage) (boot powerOn, fun _ => none)
      [.tick noStale, .tick noStale, .tick noStale, .key 0x38 noStale,
        .key 0x3C noStale]).map (fun x =>
      (x.1.con.nowTermId, x.1.startsProcess sampleImage (.execute shellCommand noStale),
        (step sampleImage x.1 (.execute shellCommand noStale)).map fun s' =>
          (s'.pcb s'.getCurPcb).termId)) = some (0, true, some 1) := by decide +kernel
  obtain ⟨⟨s, log⟩, hs, hobs⟩ := Option.map_eq_some_iff.mp hobs
  simp only [Prod.mk.injEq] at hobs
  obtain ⟨hnow, hstart, hterm⟩ := hobs
  obtain ⟨s', hs', hterm⟩ := Option.map_eq_some_iff.mp hterm
  have hplaced :=
    (hcallsReturn sampleImage sampleImage_bootable powerOn s s' log _ _ hs hs').1 hstart
  have h10 := hterm.symm.trans hplaced.termId
  rw [hnow] at h10
  cases h10

end LinuxLikeKernel
