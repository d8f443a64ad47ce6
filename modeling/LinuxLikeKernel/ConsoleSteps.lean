import LinuxLikeKernel.Core

/-!
# The console in a step

Everything that the kernel does to the console is one of a few operations of `lib.c`,
`terminal.c` and `keyboard.c`. What they preserve is preserved by steps.

## Main definitions

- `KeptBesideLines`, `KeptBesideKeys`, `Kept` — a property of consoles that the operations preserve:
  those that leave the lines alone, all but keys, and all

## Main results

- `KeptBesideLines.call`, `KeptBesideKeys.step`, `Kept.step` — steps preserve it
-/

namespace LinuxLikeKernel
open Kernel Transition

variable {img : Image} {s s' : Kernel}

/-! ### Operations that leave the console alone -/

theorem con_resume {sp : StackPtr} {kind : Frame} (h : s.resume sp kind = some s') :
    s'.con = s.con := by
  obtain ⟨cpu, rfl⟩ := resume_eq h
  rfl

theorem con_returnToParent {id : Nat} {sp : StackPtr} {status : UInt8}
    (h : s.returnToParent id sp status = some s') : s'.con = s.con := by
  cases returnToParent_exit h with
  | fault => rfl
  | parent _ h => exact (con_resume h).trans rfl

theorem con_read {fd nbytes : Int} {buf : Nat} (h : s.read img fd buf nbytes = some s') :
    s'.con = s.con := by
  cases read_exit h <;> rfl

theorem con_open (img : Image) (s : Kernel) (filename : List UInt8) :
    (s.open img filename).con = s.con := by
  simp only [Kernel.open, Kernel.bindFd]
  repeat' split
  all_goals rfl

theorem con_rtcInterruptHandler (s : Kernel) : s.rtcInterruptHandler.con = s.con := by
  have htick : ∀ (s : Kernel) t, (s.rtcTick t).con = s.con := by
    intro s t
    simp only [rtcTick]
    split <;> rfl
  simp only [rtcInterruptHandler, htick]

/-! ### Properties of the console -/

/-- What the kernel does to the console beside its lines preserves the property. -/
structure KeptBesideLines (P : Console → Prop) : Prop where
  now : ∀ {k} t, P k → P { k with nowTermId := t }
  vidmem : ∀ {k} page, P k → P (k.setScreen (setVidmem k.screen page))
  /-- A program is loaded past the end of its page. -/
  mem : ∀ {k} mem, P k → P (k.setScreen { k.screen with mem := mem })
  puts : ∀ {k} str, P k → P (k.puts str)
  multiPuts : ∀ {k} str, P k → P (k.multiPuts str)
  curPcbId : ∀ {k} t id, P k → P (k.setTerm t { k.term t with curPcbId := id })

/-- So does all else that it does on its own. -/
structure KeptBesideKeys (P : Console → Prop) : Prop extends KeptBesideLines P where
  bufClear : ∀ {k}, P k → P k.bufClear
  launchTerm : ∀ {k} t, P k → P (k.launchTerm t)
  termSwitch : ∀ {k k'} t, P k → k.termSwitch k.curTermId t = some k' → P k'
  readTurn : ∀ {k} length phase, P k → P (k.termReadTurn length phase).con

/-- So do keys. -/
structure Kept (P : Console → Prop) : Prop extends KeptBesideKeys P where
  key : ∀ {k k' scancode ctrlC}, P k →
    k.keyboardInterruptHandler scancode = some (k', ctrlC) → P k'

namespace KeptBesideLines

variable {P : Console → Prop} (hP : KeptBesideLines P)
include hP

theorem execute {sp : StackPtr} {command : List UInt8} {stale : Stale} {o : Outcome}
    (hs : P s.con) (h : s.execute img sp command stale = some o) : P o.state.con := by
  cases execute_exit h with
  | refused => exact hs
  | full => exact hP.puts _ hs
  | failed => exact hP.mem _ hs
  | faulted => exact hP.mem _ hs
  | started => exact hP.curPcbId _ _ (hP.mem _ hs)

theorem halt {sp : StackPtr} {status : UInt8} {stale : Stale} (hs : P s.con.bufClear)
    (h : s.halt img sp status stale = some s') : P s'.con := by
  have hfds : ∀ {u : Kernel}, s.unlink s.nowPcbId = some u →
      P (u.haltFds s.nowPcbId).con := by
    intro u hu
    obtain ⟨row, slot, -, rfl⟩ := unlink_eq hu
    rw [con_haltFds]
    exact hP.curPcbId _ _ hs
  cases halt_exit h with
  | parent hu _ h =>
    rw [con_returnToParent h]
    exact hfds hu
  | shell hu _ ho hs =>
    rw [hs]
    exact hP.execute (hP.puts _ (hfds hu)) ho
  | faulted hu _ ho => exact hP.execute (hP.puts _ (hfds hu)) ho
  | noShell hu _ ho h =>
    rw [con_returnToParent h]
    exact hP.execute (hP.puts _ (hfds hu)) ho

/-- **Step lemma**, for the system calls but `halt`. -/
theorem call {e : Event} (he : e.isCall = true) (hne : ∀ status stale, e ≠ .halt status stale)
    (hs : P s.con) (h : step img s e = some s') : P s'.con := by
  have h := (step_call h he).2
  cases e with
  | execute command stale =>
    obtain ⟨o, ho, rfl⟩ := Option.map_eq_some_iff.mp h
    have hstate : P o.state.con := hP.execute hs ho
    cases o with
    | started r => exact hstate
    | faulted r => exact hstate
    | returned eax r => exact hstate
  | halt status stale => exact absurd rfl (hne status stale)
  | «open» filename =>
    rw [← Option.some.inj h, con_open]
    exact hs
  | close fd =>
    rw [← Option.some.inj h, con_close]
    exact hs
  | read fd buf nbytes =>
    rw [con_read h]
    exact hs
  | write fd buf content nbytes =>
    obtain ⟨eax, rfl⟩ | ⟨out, eax, rfl⟩ | ⟨i, -, -, rfl⟩ := write_cases h
    · exact hs
    · simp only [print, ret, setCon]
      split
      · exact hP.puts _ hs
      · exact hP.multiPuts _ hs
    · exact hs
  | getargs buf nbytes =>
    rw [syscall_getargs h]
    exact hs
  | vidmap screenStart =>
    rw [syscall_vidmap h]
    exact hs
  | tick stale => cases he
  | key scancode stale => cases he
  | rtc => cases he
  | exception message stale => cases he
  | run => cases he

end KeptBesideLines

namespace KeptBesideKeys

variable {P : Console → Prop} (hP : KeptBesideKeys P)
include hP

theorem halt {sp : StackPtr} {status : UInt8} {stale : Stale} (hs : P s.con)
    (h : s.halt img sp status stale = some s') : P s'.con :=
  hP.toKeptBesideLines.halt (hP.bufClear hs) h

theorem pitInterruptHandler {stale : Stale} (hs : P s.con)
    (h : s.pitInterruptHandler img stale = some s') : P s'.con := by
  have hsaved : P s.saveContext.con := hP.now _ hs
  cases pitInterruptHandler_exit h with
  | displayed => exact hsaved
  | shows _ _ _ hk => exact hP.termSwitch _ hsaved hk
  | launches _ _ _ ho => exact hP.execute (hP.launchTerm _ hsaved) ho
  | switches _ _ h =>
    rw [con_resume h]
    exact hP.vidmem _ hsaved

theorem runLoop {sp : StackPtr} (hs : P s.con) (h : s.runLoop sp = some s') : P s'.con := by
  cases runLoop_exit h with
  | boot => exact hs
  | reads => exact hP.readTurn _ _ hs
  | readEnds => exact hP.readTurn _ _ hs
  | waits => exact hs
  | rtcEnds => exact hs

/-- **Step lemma**, for what is not a key. -/
theorem step {e : Event} (hne : ∀ scancode stale, e ≠ .key scancode stale) (hs : P s.con)
    (h : step img s e = some s') : P s'.con := by
  cases e with
  | tick stale => exact hP.pitInterruptHandler hs (step_tick h)
  | key scancode stale => exact absurd rfl (hne scancode stale)
  | rtc =>
    rw [step_rtc h, con_rtcInterruptHandler]
    exact hs
  | run =>
    obtain ⟨sp, -, h⟩ := step_run h
    exact hP.runLoop hs h
  | exception message stale =>
    have h : ({ s with interruptHaltFlag := true }.printf message).halt img s.entry 0 stale =
        some s' := step_exception h
    exact hP.halt (hP.puts _ hs) h
  | halt status stale => exact hP.halt hs (step_call h rfl).2
  | _ => exact hP.toKeptBesideLines.call rfl (fun _ _ => Event.noConfusion) hs h

/-- What follows the handler of a key. -/
theorem key {scancode : UInt8} {stale : Stale}
    (hkey : ∀ k ctrlC, s.con.keyboardInterruptHandler scancode = some (k, ctrlC) → P k)
    (h : LinuxLikeKernel.step img s (.key scancode stale) = some s') : P s'.con := by
  obtain ⟨⟨k, ctrlC⟩, hk, h⟩ := Option.bind_eq_some_iff.mp (step_key h)
  have hk := hkey k ctrlC hk
  have hhalt : ∀ {status}, (s.setCon k).halt img s.entry status stale = some s' → P s'.con :=
    fun h => hP.halt hk h
  dsimp only at h
  split at h
  · exact hhalt h
  · rw [← Option.some.inj h]
    exact hk

end KeptBesideKeys

namespace Kept

variable {P : Console → Prop} (hP : Kept P)
include hP

/-- **Step lemma.** -/
theorem step {e : Event} (hs : P s.con) (h : step img s e = some s') : P s'.con := by
  cases e with
  | key scancode stale => exact hP.toKeptBesideKeys.key (fun k ctrlC hk => hP.key hs hk) h
  | _ => exact hP.toKeptBesideKeys.step (fun _ _ => Event.noConfusion) hs h

/-- **Run lemma.** -/
theorem run {s₀ : Kernel} {es : List Event} (h₀ : P s₀.con)
    (h : run (LinuxLikeKernel.step img) s₀ es = some s) : P s.con :=
  run_invariant (P := fun s : Kernel => P s.con) (fun _ _ _ hs h => hP.step hs h) h₀ h

end Kept

end LinuxLikeKernel
