import LinuxLikeKernel.CallReturn
import LinuxLikeKernel.CommandLine
import LinuxLikeKernel.PcbChanges

/-!
# Arguments of a process

The argument text of a command goes to the PCB of the process that it starts, and `getargs` hands
it back for as long as the process holds its slot.

## Main definitions

- `ReturnsArgs` — what `getargs` should do
- `KeepsSlot` — the process in a slot does not halt

## Main results

- `mask_step` — a slot stays taken until its process halts
- `getargs_of_started` — the text comes back
-/

namespace LinuxLikeKernel
open ByteMemory Kernel Transition

variable {img : Image} {s s' : Kernel} {e : Event}

/-- The result of `getargs` for an argument text and a length: the text with a NUL, if it is not
empty and there is room for both. -/
def ReturnsArgs (args : List UInt8) (nbytes : Int) (r : Effect) : Prop :=
  if 0 < args.length ∧ (args.length : Int) < nbytes then r = ⟨0, args ++ [0]⟩ else r = ⟨-1, []⟩

/-- The process in slot `id` does not halt. -/
def KeepsSlot (id : Nat) (s : Kernel) (e : Event) : Prop :=
  s.callsHalt e = true → uint8 (s.pcb s.nowPcbId).processNumber ≠ id

instance (id : Nat) (s : Kernel) (e : Event) : Decidable (KeepsSlot id s e) :=
  inferInstanceAs (Decidable (_ → _))

/-! ### Slots -/

theorem markSlot_true {mask : TermId → Fin 4 → Bool} {t row : TermId} {j slot : Fin 4}
    (h : mask t j = true) : markSlot mask row slot true t j = true := by
  by_cases hsame : row = t ∧ slot = j
  · obtain ⟨rfl, rfl⟩ := hsame
    simp [markSlot]
  · rw [markSlot_of_ne hsame, h]

variable {t : TermId} {j : Fin 4}

/-- `execute` frees no slot. -/
theorem mask_execute {sp : StackPtr} {command : List UInt8} {stale : Stale} {o : Outcome}
    (h : execute img s sp command stale = some o) (hmask : s.pcbMask t j = true) :
    o.state.pcbMask t j = true := by
  cases execute_exit h with
  | refused => exact hmask
  | full => exact hmask
  | failed => exact markSlot_true hmask
  | faulted => exact markSlot_true hmask
  | started => exact markSlot_true hmask

/-- `halt` frees the slot of the process that halts, and no other. -/
theorem mask_halt {sp : StackPtr} {status : UInt8} {stale : Stale}
    (hne : uint8 (s.pcb s.nowPcbId).processNumber ≠ slotId t j) (hmask : s.pcbMask t j = true)
    (h : s.halt img sp status stale = some s') : s'.pcbMask t j = true := by
  have hreturn : ∀ {m : Kernel} {id : Nat}, m.returnToParent id sp status = some s' →
      m.pcbMask t j = true → s'.pcbMask t j = true := by
    intro m id hm hmask
    exact (congrFun (congrFun (congrArg Table.mask (table_returnToParent hm)) t) j).trans hmask
  obtain ⟨row, slot, m, hslot, hcore, -, hend⟩ := halt_cases h
  have hm : m.pcbMask t j = true := by
    have hmarked : m.pcbMask = markSlot s.pcbMask row slot false :=
      congrArg (fun c : Core => c.mask) hcore
    rw [hmarked, markSlot_of_ne, hmask]
    rintro ⟨rfl, rfl⟩
    exact hne hslot
  obtain ⟨-, o, ho, ⟨r, rfl, rfl⟩ | rfl | ⟨eax, r, rfl, hr⟩⟩ | ⟨-, hr⟩ := hend
  · exact mask_execute ho hm
  · exact mask_execute ho hm
  · exact hreturn hr (mask_execute ho hm)
  · exact hreturn hr hm

/-- **Step lemma.** A slot stays taken unless its process halts. -/
theorem mask_step (hmask : s.pcbMask t j = true) (hkeep : KeepsSlot (slotId t j) s e)
    (h : step img s e = some s') : s'.pcbMask t j = true := by
  by_cases hcall : s.callsHalt e = true
  · -- `halt` frees the slot whose number is in its PCB, which is another one
    obtain ⟨m, sp, stale, hhalt, hpcb, hnow, -, hmask', -⟩ := step_halt hcall h
    refine mask_halt ?_ ?_ hhalt
    · rw [hpcb, hnow]
      exact hkeep hcall
    · rw [hmask', hmask]
  · have hcall : s.callsHalt e = false := Bool.eq_false_iff.mpr hcall
    have hsame : s'.table = s.table → s'.pcbMask t j = true := by
      intro htable
      exact (congrFun (congrFun (congrArg Table.mask htable) t) j).trans hmask
    cases e with
    | tick stale =>
      have hsaved : s.saveContext.pcbMask t j = true := hmask
      cases pitInterruptHandler_exit (step_tick h) with
      | displayed => exact hsaved
      | shows => exact hsaved
      | launches _ _ _ ho => exact mask_execute ho hsaved
      | switches _ _ hresume =>
        obtain ⟨cpu, rfl⟩ := resume_eq hresume
        exact hsaved
    | execute command stale =>
      obtain ⟨o, ho, rfl⟩ := Option.map_eq_some_iff.mp (step_call h rfl).2
      have ho' := mask_execute ho hmask
      cases o with
      | returned eax r => exact ho'
      | faulted r => exact ho'
      | started r => exact ho'
    | _ => exact hsame (table_step ⟨rfl, rfl, hcall⟩ h)

/-- Among stacks of processes the one that halts is the one that runs. -/
theorem keepsSlot_iff {n : TermId → Nat} (hr : Rows s.table n) (hlive : HaltsLive s e) {id : Nat} :
    KeepsSlot id s e ↔ (s.callsHalt e = true → s.nowPcbId ≠ id) := by
  refine forall_congr' fun hcall => ?_
  have hpos := hr.pos_of_live (hlive hcall)
  have hle := hr.le s.con.nowTermId
  have hnow : s.nowPcbId = slotId s.con.nowTermId (n s.con.nowTermId - 1) :=
    pcbId_eq hpos hle (hr.cur _)
  have hnumber : (s.pcb (slotId s.con.nowTermId (n s.con.nowTermId - 1))).processNumber =
      slotId s.con.nowTermId (n s.con.nowTermId - 1) := hr.number _ _ (by omega)
  have hlt := slotId_lt s.con.nowTermId (i := n s.con.nowTermId - 1) (by omega)
  have hbyte : uint8 (s.pcb s.nowPcbId).processNumber = s.nowPcbId := by
    rw [hnow, hnumber]
    simp only [uint8]
    omega
  rw [hbyte]

/-! ### The text -/

/-- A program that is found gets the rest of the command, which has room in the PCB. -/
theorem args_lookup {command : List UInt8} {stale : Stale} {prog : Program}
    (h : lookup img command stale = .found prog) :
    prog.args = argText command ∧ prog.args.length ≤ maxArgLength := by
  obtain ⟨st, dentry, hst, ⟨-, hargs⟩, -, -, rfl⟩ := lookup_eq_found_iff.mp h
  exact ⟨(parseCommand_eq_some hst).2, hargs⟩

theorem zero_not_mem_argText {command : List UInt8} (h : 0 ∉ command) : 0 ∉ argText command := by
  intro hmem
  refine h ?_
  exact (List.dropWhile_sublist _).subset ((List.dropWhile_sublist _).subset
    ((List.dropWhile_sublist _).subset hmem))

/-- `strlen` of the text in the PCB. -/
theorem argLength_eq {p : Pcb} {args : List UInt8} (hbuf : p.argbuf = cstr args)
    (hnul : 0 ∉ args) (hlen : args.length ≤ maxArgLength) : p.argLength = args.length := by
  have hsplit : (List.range maxArgLength).map p.argbuf =
      args ++ List.replicate (maxArgLength - args.length) 0 := by
    apply List.ext_getElem
    · simp only [List.length_map, List.length_range, List.length_append, List.length_replicate]
      omega
    · intro k hk _
      simp only [List.length_map, List.length_range] at hk
      simp only [List.getElem_map, List.getElem_range, hbuf, cstr]
      by_cases hk' : k < args.length
      · rw [List.getElem_append_left hk', List.getD_eq_getElem _ _ hk']
      · rw [List.getElem_append_right (Nat.not_lt.mp hk'), List.getElem_replicate,
          List.getD_eq_default _ _ (Nat.not_lt.mp hk')]
  rw [Pcb.argLength, hsplit]
  have hall : ∀ c ∈ args, decide (c ≠ 0) = true := fun c hc =>
    decide_eq_true fun h0 => hnul (h0 ▸ hc)
  rw [List.takeWhile_append_of_pos hall]
  have hrest :
      (List.replicate (maxArgLength - args.length) (0 : UInt8)).takeWhile (· ≠ 0) = [] := by
    cases maxArgLength - args.length <;> rfl
  rw [hrest, List.append_nil]

/-- `getargs` copies the text out. -/
theorem returnsArgs_getargs {p : Pcb} {args : List UInt8} (hbuf : p.argbuf = cstr args)
    (hnul : 0 ∉ args) (hlen : args.length ≤ maxArgLength) (nbytes : Int) :
    ReturnsArgs args nbytes (getargs p nbytes) := by
  have hargs := argLength_eq hbuf hnul hlen
  by_cases hroom : 0 < args.length ∧ (args.length : Int) < nbytes
  · have hno : ¬(p.argLength = 0 ∨ nbytes ≤ p.argLength) := by omega
    have hcopy : (List.range args.length).map p.argbuf = args := by
      apply List.ext_getElem
      · simp
      · intro k hk hk'
        simp [hbuf, cstr, hk']
    rw [ReturnsArgs, if_pos hroom, getargs, if_neg hno, hargs, hcopy]
  · have hyes : p.argLength = 0 ∨ nbytes ≤ p.argLength := by omega
    rw [ReturnsArgs, if_neg hroom, getargs, if_pos hyes]

/-! ### The whole life of a process -/

/-- Slot `j` of terminal `t` is taken, by a process with these arguments. -/
structure HasArgs (t : TermId) (j : Fin 4) (args : List UInt8) (s : Kernel) : Prop where
  mask : s.pcbMask t j = true
  argbuf : (s.pcb (slotId t j)).argbuf = cstr args

/-- **Step lemma.** The arguments stay while the process does not halt, whatever other processes
do. -/
theorem HasArgs.step {args : List UInt8} (hargs : HasArgs t j args s)
    (hkeep : KeepsSlot (slotId t j) s e) (h : LinuxLikeKernel.step img s e = some s') :
    HasArgs t j args s' := by
  refine ⟨mask_step hargs.mask hkeep h, ?_⟩
  have hchange := pcbChange (slotId t j) h
  have hold := hargs.argbuf
  generalize s'.pcb (slotId t j) = q at hchange
  cases hchange with
  | keeps hq => exact (congrArg Prod.snd hq).trans hold
  | opens _ _ _ _ hq => exact hq.trans hold
  | closes => exact hold
  | reads => exact hold
  | halts _ _ hq => exact hq.trans hold
  | @starts _ cur i hid hfree =>
    obtain ⟨rfl, hij⟩ := (slotId_inj j.isLt i.isLt).mp hid
    obtain rfl : j = i := Fin.ext hij
    obtain hfree | ⟨hcall, hslot⟩ := hfree
    · rw [hargs.mask] at hfree
      cases hfree
    · exact absurd hslot (hkeep hcall)

/-- **Arguments.** From the start of a process until it halts, `getargs` gives it the rest of the
command that started it. -/
theorem getargs_of_started {sp : StackPtr} {command : List UInt8} {stale : Stale} {s₁ m : Kernel}
    {es : List Event} (hnul : 0 ∉ command)
    (hstart : execute img s sp command stale = some (.started s₁))
    (hkeep : Guarded (step img) (KeepsSlot s₁.getCurPcb) s₁ es)
    (hrun : run (step img) s₁ es = some m) (hnow : m.nowPcbId = s₁.getCurPcb) (nbytes : Int) :
    ReturnsArgs (argText command) nbytes (getargs (m.pcb m.nowPcbId) nbytes) ∧
      ∀ buf m', step img m (.getargs buf nbytes) = some m' →
        m'.eax = (getargs (m.pcb m.nowPcbId) nbytes).ret := by
  refine ⟨?_, fun buf m' h => ?_⟩
  · obtain ⟨prog, cur, i, mem, hl, -, -, -, -, rfl⟩ := execute_started_cases hstart
    obtain ⟨hprog, hlen⟩ := args_lookup hl
    rw [getCurPcb_started] at hkeep hnow
    have h0 : HasArgs cur i prog.args ((s.withMem mem).started sp cur i prog.args) := by
      refine ⟨?_, ?_⟩
      · change markSlot s.pcbMask cur i true cur i = true
        simp [markSlot]
      · rw [pcb_started, Function.update_self]
        rfl
    have hend := Guarded.invariant (fun _ _ _ hP hg h => HasArgs.step hP hg h) h0 hkeep hrun
    rw [hnow, ← hprog]
    exact returnsArgs_getargs hend.argbuf (hprog ▸ zero_not_mem_argText hnul) hlen nbytes
  · obtain ⟨-, h⟩ := step_call h rfl
    rw [syscall_getargs h]
    rfl

/-- A shell with arguments asks for them after a child of its own has come and gone. -/
theorem getargs_of_started_sample : ∃ s s₁ m,
    run (step sampleImage) (boot powerOn) [.tick noStale] = some s ∧
    execute sampleImage s s.entry (shellCommand ++ text [' ', ' ', 'a', ' ', 'b']) noStale =
      some (.started s₁) ∧
    run (step sampleImage) s₁ [.execute (shellCommand ++ text [' ', 'c']) noStale,
      .halt 0 noStale] = some m ∧
    getargs (m.pcb m.nowPcbId) 4 = ⟨0, text ['a', ' ', 'b'] ++ [0]⟩ := by
  have hobs : ((run (step sampleImage) (boot powerOn) [.tick noStale]).bind fun s =>
      (execute sampleImage s s.entry (shellCommand ++ text [' ', ' ', 'a', ' ', 'b'])
        noStale).bind fun o =>
      (run (step sampleImage) o.state [.execute (shellCommand ++ text [' ', 'c']) noStale,
        .halt 0 noStale]).map fun m =>
      (o.isStarted, decide (m.nowPcbId = o.state.getCurPcb),
        decide (Guarded (step sampleImage) (KeepsSlot o.state.getCurPcb) o.state
          [.execute (shellCommand ++ text [' ', 'c']) noStale, .halt 0 noStale]))) =
      some (true, true, true) := by decide +kernel
  obtain ⟨s, hs, hobs⟩ := Option.bind_eq_some_iff.mp hobs
  obtain ⟨o, ho, hobs⟩ := Option.bind_eq_some_iff.mp hobs
  obtain ⟨m, hm, hobs⟩ := Option.map_eq_some_iff.mp hobs
  simp only [Prod.mk.injEq, decide_eq_true_eq] at hobs
  obtain ⟨hstarted, hnow, hkeep⟩ := hobs
  cases o with
  | returned eax r => cases hstarted
  | faulted r => cases hstarted
  | started s₁ =>
    exact ⟨s, s₁, m, hs, ho, hm,
      (getargs_of_started (by decide) ho hkeep hm hnow 4).1⟩

end LinuxLikeKernel
