import LinuxLikeKernel.ConsoleSteps
import LinuxLikeKernel.LineBuffer
import LinuxLikeKernel.OwnTerminal

/-!
# The kernel as a system of terminals

What `LineBuffer` says of the terminals is a view of the machine: its console, and for each
terminal the `term_read` that its process is in, which is found on the kernel stacks. As long as
every process runs in its own terminal a step of the machine is a step of the terminals, or nothing
to them.

## Main definitions

- `Core.readOf` — the `term_read` that the process of a terminal is in
- `Kernel.terminals`, `Kernel.termEvent` — the terminals of the machine, and its events to them
- `Terminals.Agrees` — two systems differ at most on the screen and in the process table

## Main results

- `readOf_tick`, `readOf_step_of_ne` — reads go on as they were while their process is put aside
- `terminals_step` — the terminals simulate the machine
-/

namespace LinuxLikeKernel
open ByteMemory Transition Kernel

/-! ### Reads in progress -/

/-- A call of `term_read`, and how far it has got. -/
structure ReadCall where
  buf : Nat
  length : Int
  phase : ReadPhase

def Frame.readCall : Frame → Option ReadCall
  | .termRead buf length phase => some ⟨buf, length, phase⟩
  | _ => none

namespace Core

/-- The read whose frame is the top one at `sp`. -/
def readAt (c : Core) (sp : StackPtr) : Option ReadCall :=
  (c.kstack sp.stack)[sp.depth - 1]?.bind Frame.readCall

/-- The read that the running process is in. -/
def nowRead (c : Core) : Option ReadCall :=
  match c.cpu with
  | .kernel sp => c.readAt sp
  | _ => none

/-- The read that a tick has interrupted whose frame is the top one at `sp`. -/
def readUnder (c : Core) (sp : StackPtr) : Option ReadCall :=
  match sp.depth with
  | d + 2 => c.readAt ⟨sp.stack, d + 1⟩
  | _ => none

/-- The read that the process of a terminal is in. -/
def readOf (c : Core) (t : TermId) : Option ReadCall :=
  if (c.term t).curPcbId < 0 then none
  else if t = c.now then c.nowRead
  else c.readUnder (c.kbp (uint8 ((c.term t).curPcbId + t.val * maxPcbMaskLen)))

theorem readAt_congr {c c' : Core} {sp : StackPtr}
    (h : c'.kstack sp.stack = c.kstack sp.stack) : c'.readAt sp = c.readAt sp := by
  rw [readAt, readAt, h]

theorem readUnder_congr {c c' : Core} {sp : StackPtr}
    (h : c'.kstack sp.stack = c.kstack sp.stack) : c'.readUnder sp = c.readUnder sp := by
  rw [readUnder, readUnder]
  split
  · exact readAt_congr h
  · rfl

/-- A tick that interrupted user code has no read under it. -/
theorem readUnder_of_one {c : Core} {sp : StackPtr} (h : sp.depth = 1) :
    c.readUnder sp = none := by
  rw [readUnder, h]

theorem readUnder_of_loop {c : Core} {sp : StackPtr} {d : Nat} (h : sp.depth = d + 2) :
    c.readUnder sp = c.readAt ⟨sp.stack, d + 1⟩ := by
  rw [readUnder, h]

/-- Only a kernel loop reads. -/
theorem nowRead_of_ne {c : Core} (h : ∀ sp, c.cpu ≠ .kernel sp) : c.nowRead = none := by
  rw [nowRead]
  split
  · rename_i sp hcpu
    exact absurd hcpu (h sp)
  · rfl

/-- A kernel loop that user code has called is the first frame on its stack. -/
theorem nowRead_of_frame {c : Core} {p : Nat} {f : Frame} (hcpu : c.cpu = .kernel ⟨p, 1⟩)
    (hframe : (c.kstack p)[0]? = some f) : c.nowRead = f.readCall := by
  rw [nowRead, hcpu]
  simp only [readAt, Nat.sub_self, hframe, Option.bind_some]

end Core

section reads

variable {c c' : Core} {n n' : TermId → Nat} {t : TermId}

theorem readOf_of_empty (hr : Rows c.toTable n) (h0 : n t = 0) : c.readOf t = none := by
  have hcur := hr.cur t
  rw [Core.readOf, if_pos (by omega)]

theorem readOf_of_pos (hr : Rows c.toTable n) (hpos : 0 < n t) :
    c.readOf t = if t = c.now then c.nowRead else c.readUnder (c.kbp (top n t)) := by
  have hcur := hr.cur t
  have hle := hr.le t
  have hid : uint8 ((c.term t).curPcbId + t.val * maxPcbMaskLen) = top n t := by
    rw [hcur, top, slotId, uint8]
    simp only [maxPcbMaskLen]
    omega
  rw [Core.readOf, if_neg (by omega), hid]

/-- The read of the running terminal is that of the processor. -/
theorem Healthy.readOf_now (hh : Healthy c n) : c.readOf c.now = c.nowRead := by
  obtain hboot | ⟨hpos, -⟩ := hh.now
  · rw [readOf_of_empty hh.rows (hboot.empty _), Core.nowRead, hboot.cpu]
    simp only [Core.readAt, Nat.sub_self, hboot.frame, Option.bind_some, Frame.readCall]
  · rw [readOf_of_pos hh.rows hpos, if_pos rfl]

/-- A process whose read goes on runs. -/
theorem Healthy.pos_of_nowRead (hh : Healthy c n) {r : ReadCall} (h : c.nowRead = some r) :
    0 < n c.now ∧ c.cpu = .kernel ⟨top n c.now, 1⟩ ∧
      (c.kstack (top n c.now))[0]? = some (.termRead r.buf r.length r.phase) := by
  rw [Core.nowRead] at h
  split at h
  · rename_i sp hcpu
    obtain ⟨f, hframe, hf⟩ := Option.bind_eq_some_iff.mp h
    obtain rfl : f = .termRead r.buf r.length r.phase := by
      cases f with
      | termRead buf length phase =>
        obtain rfl := Option.some.inj hf
        rfl
      | _ => cases hf
    obtain ⟨hpos, -, rfl⟩ := hh.blocked hcpu hframe trivial
    exact ⟨hpos, hcpu, hframe⟩
  · cases h

end reads

/-! ### Ticks -/

section ticks

variable {c c' : Core} {n n' : TermId → Nat} {t u : TermId} {id : Nat}

/-- Where the processes that a tick puts aside, or leaves aside, have their reads. -/
theorem Healthy.readUnder_save (hh : Healthy c n) (hi : ∀ sp, c.cpu ≠ .fault sp)
    (hid : SavesTop c n id) (hpos : 0 < n t) :
    (c.save id).readUnder ((c.save id).kbp (top n t)) = c.readOf t := by
  by_cases ht : t = c.now
  · subst ht
    have hrun := hh.running hpos
    have hkbp : (c.save id).kbp (top n c.now) = c.entry.up := by
      rw [← hid hpos]
      exact Function.update_self ..
    rw [hkbp, hh.readOf_now]
    obtain hcpu | ⟨d, hcpu⟩ | ⟨hcpu, f, hf, -⟩ := hrun.cpu
    · have hentry : c.entry = ⟨stackOf c.tssEsp0, 0⟩ := by simp only [Core.entry, hcpu]
      rw [hentry, Core.nowRead_of_ne (by simp [hcpu])]
      rfl
    · exact absurd hcpu (hi _)
    · have hentry : c.entry = ⟨top n c.now, 1⟩ := by simp only [Core.entry, hcpu]
      -- the frame of the loop is under that of the tick
      have hframe : ((c.save id).kstack (top n c.now))[0]? = some f := by
        simp only [Core.save, hentry]
        exact getElem?_pushFrame Nat.one_pos hf
      rw [hentry, Core.nowRead, hcpu]
      simp only [StackPtr.up, Core.readUnder, Core.readAt, Nat.reduceAdd, Nat.sub_self, hframe, hf]
  · obtain ⟨d, hkbp, -⟩ := hh.suspended t ht hpos
    have hne : c.entry.stack ≠ top n t := fun h => ht (hh.entry_stack (by omega) h.symm).2.1
    have hkbp' : (c.save id).kbp (top n t) = c.kbp (top n t) := by
      refine Function.update_of_ne ?_ _ _
      rintro rfl
      obtain hboot | ⟨hnow, hrun⟩ := hh.now
      · have := hboot.empty t
        omega
      · exact hne ((hrun.entry (hh.top_lt hnow)).trans (hid hnow).symm)
    rw [hkbp', readOf_of_pos hh.rows hpos, if_neg ht]
    refine Core.readUnder_congr ?_
    rw [hkbp]
    exact pushFrame_of_ne c.kstack .pit hne

/-- A frame that is pushed above leaves the read of a process that has been put aside. -/
theorem Suspended.readUnder_push {p : Nat} (h : Suspended c p) {sp : StackPtr} (f : Frame)
    (hsp : sp.stack = p → 0 < sp.depth) :
    Core.readUnder { c with kstack := pushFrame c.kstack sp f } (c.kbp p) =
      c.readUnder (c.kbp p) := by
  obtain ⟨d, hkbp, -, rfl | ⟨rfl, g, hg, -⟩⟩ := h
  · rw [hkbp]
    rfl
  · have hframe : (pushFrame c.kstack sp f p)[0]? = some g := by
      by_cases hp : sp.stack = p
      · subst hp
        exact getElem?_pushFrame (hsp rfl) hg
      · rw [pushFrame_of_ne _ _ hp]
        exact hg
    rw [hkbp]
    simp only [Core.readUnder, Core.readAt, Nat.sub_self, hframe, hg]

/-- What a tick leaves of the stacks and the saved pointers: it launches the next terminal, or
resumes its process. -/
inductive TickStacks (c : Core) (n : TermId → Nat) (id : Nat) (c' : Core) : Prop
  | launch (h0 : n (nextTermId c.now) = 0) (hcpu : c'.cpu = .user)
      (hkstack : c'.kstack = pushFrame (c.save id).kstack c.entry.up .execute) :
      TickStacks c n id c'
  | switch (hpos : 0 < n (nextTermId c.now)) (hkstack : c'.kstack = (c.save id).kstack)
      (hread : c'.nowRead = c'.readUnder (c'.kbp (top n (nextTermId c.now)))) :
      TickStacks c n id c'

/-- A tick does not disturb the reads. -/
theorem readOf_of_tickStacks (hh : Healthy c n) (hh' : Healthy c' n')
    (hi : ∀ sp, c.cpu ≠ .fault sp) (hid : SavesTop c n id)
    (hn : ∀ u, n' u = n u ∨ (u = nextTermId c.now ∧ n u = 0 ∧ n' u = 1))
    (hnow : c'.now = nextTermId c.now) (hkbp : c'.kbp = (c.save id).kbp)
    (h : TickStacks c n id c') (t : TermId) : c'.readOf t = c.readOf t := by
  by_cases h0 : n t = 0
  · rw [readOf_of_empty hh.rows h0]
    obtain hsame | ⟨rfl, -, h1⟩ := hn t
    · exact readOf_of_empty hh'.rows (hsame.trans h0)
    · -- the shell that has been launched
      rw [← hnow, hh'.readOf_now]
      cases h with
      | launch _ hcpu => exact Core.nowRead_of_ne (by simp [hcpu])
      | switch hpos => omega
  · have hpos : 0 < n t := Nat.pos_of_ne_zero h0
    have hsame : n' t = n t := (hn t).resolve_right fun h => h0 h.2.1
    have hsaved := hh.readUnder_save hi hid hpos
    rw [← hkbp] at hsaved
    by_cases ht : t = nextTermId c.now
    · subst ht
      rw [← hsaved, ← hnow, hh'.readOf_now, hnow]
      cases h with
      | launch h0' => exact absurd h0' h0
      | switch _ hkstack hread => exact hread.trans (Core.readUnder_congr (by rw [hkstack]))
    · have htop : top n' t = top n t := by rw [top, top, hsame]
      rw [readOf_of_pos hh'.rows (hsame ▸ hpos), if_neg (hnow ▸ ht), htop, ← hsaved]
      cases h with
      | launch _ _ hkstack =>
        have hpush : Core.readUnder { c.save id with
              kstack := pushFrame (c.save id).kstack c.entry.up .execute }
            ((c.save id).kbp (top n t)) = _ :=
          (hh.save_suspended hi hid hpos).readUnder_push .execute fun _ => Nat.succ_pos _
        rw [← hkbp] at hpush
        exact (Core.readUnder_congr (by rw [hkstack])).trans hpush
      | switch _ hkstack => exact Core.readUnder_congr (by rw [hkstack])

end ticks

variable {img : Image} {s s' : Kernel} {n n' : TermId → Nat} {stale : Stale}

/-- **Ticks.** A read goes on where it was when its process runs again. -/
theorem readOf_tick (hb : Bootable img) (hh : Healthy s.core n) (hh' : Healthy s'.core n')
    (hi : s.Interruptible) (hg : CanLaunch s)
    (hn : ∀ u, n' u = n u ∨ (u = nextTermId s.con.nowTermId ∧ n u = 0 ∧ n' u = 1))
    (h : s.pitInterruptHandler img stale = some s') (t : TermId) :
    s'.core.readOf t = s.core.readOf t := by
  have hid := savesTop_nowPcbId hh.rows
  have hcur : (s.con.term (nextTermId s.con.nowTermId)).curPcbId =
      (n (nextTermId s.con.nowTermId) : Int) - 1 := hh.rows.cur _
  by_cases hempty : (s.con.term (nextTermId s.con.nowTermId)).curPcbId = -1
  · obtain ⟨h0, -, args, rfl⟩ := hh.tick_launches hb hg hempty h
    have hcore := core_started s.launchState s.entry.up (nextTermId s.con.nowTermId) 0 args
    rw [core_launchState, core_saveContext_eq] at hcore
    refine readOf_of_tickStacks hh hh' hi hid hn ?_ ?_ (.launch h0 rfl ?_) t
    · exact (congrArg (fun c : Core => c.now) hcore).trans rfl
    · exact (congrArg Core.kbp hcore).trans rfl
    · exact (congrArg Core.kstack hcore).trans rfl
  · have hpos : 0 < n (nextTermId s.con.nowTermId) := by omega
    obtain ⟨hempty', -⟩ | ⟨-, page, m, -, hcore, -, -, hres⟩ := pitInterruptHandler_cases h
    · exact absurd hempty' hempty
    rw [nowPcbId_saveContext hh.rows hpos] at hres
    rw [core_saveContext_eq] at hcore
    have hkbp : m.core.kbp = (s.core.save s.nowPcbId).kbp := by rw [hcore]
    have hkstack : m.core.kstack = (s.core.save s.nowPcbId).kstack := by rw [hcore]
    have hres' : m.resume (m.core.kbp (top n (nextTermId s.con.nowTermId))) .pit = some s' := by
      rw [hkbp, ← core_saveContext_eq]
      exact hres
    obtain ⟨-, ⟨hdepth, rfl⟩ | ⟨d, hdepth, rfl⟩⟩ := resume_pit_cases hres'
    · refine readOf_of_tickStacks hh hh' hi hid hn ?_ hkbp (.switch hpos hkstack ?_) t
      · exact (congrArg (fun c : Core => c.now) hcore).trans rfl
      · exact (Core.readUnder_of_one hdepth).symm
    · refine readOf_of_tickStacks hh hh' hi hid hn ?_ hkbp (.switch hpos hkstack ?_) t
      · exact (congrArg (fun c : Core => c.now) hcore).trans rfl
      · exact (Core.readUnder_of_loop hdepth).symm

/-! ### Other steps -/

/-- The saved stack pointers, and all stacks but `p`, are the same. -/
structure OthersKept (c : Core) (p : Nat) (c' : Core) : Prop where
  kbp : c'.kbp = c.kbp
  kstack : ∀ q, q ≠ p → c'.kstack q = c.kstack q

namespace OthersKept

variable {c c' c'' : Core} {p : Nat}

theorem refl (c : Core) (p : Nat) : OthersKept c p c := ⟨rfl, fun _ _ => rfl⟩

theorem trans (h : OthersKept c p c') (h' : OthersKept c' p c'') : OthersKept c p c'' :=
  ⟨h'.kbp.trans h.kbp, fun q hq => (h'.kstack q hq).trans (h.kstack q hq)⟩

/-- The stacks do not depend on the rest of the core. -/
theorem of_eq (hkbp : c'.kbp = c.kbp) (hkstack : c'.kstack = c.kstack) : OthersKept c p c' :=
  ⟨hkbp, fun _ _ => by rw [hkstack]⟩

theorem push (hkbp : c'.kbp = c.kbp) {sp : StackPtr} {f : Frame} (hsp : sp.stack = p)
    (hkstack : c'.kstack = pushFrame c.kstack sp f) : OthersKept c p c' := by
  refine ⟨hkbp, fun q hq => ?_⟩
  rw [hkstack]
  exact pushFrame_of_ne _ _ (hsp.trans_ne hq.symm)

end OthersKept

theorem othersKept_execute {sp : StackPtr} {command : List UInt8} {o : Outcome}
    (h : execute img s sp command stale = some o) :
    OthersKept s.core sp.stack o.state.core := by
  cases execute_exit h with
  | refused => exact .refl ..
  | full =>
    rw [Outcome.state, core_printf]
    exact .refl ..
  | failed => exact .of_eq rfl rfl
  | faulted => exact .of_eq rfl rfl
  | started =>
    rw [Outcome.state, core_started]
    exact .push rfl rfl rfl

theorem othersKept_returnToParent {p id : Nat} {sp : StackPtr} {status : UInt8}
    (h : s.returnToParent id sp status = some s') : OthersKept s.core p s'.core := by
  obtain ⟨-, rfl⟩ | ⟨-, m, hcore, -, hres⟩ := returnToParent_cases h
  · exact .of_eq rfl rfl
  · obtain ⟨cpu, rfl⟩ := resume_eq hres
    exact .of_eq ((congrArg Core.kbp hcore).trans rfl) ((congrArg Core.kstack hcore).trans rfl)

theorem othersKept_halt {sp : StackPtr} {status : UInt8}
    (h : s.halt img sp status stale = some s') : OthersKept s.core sp.stack s'.core := by
  obtain ⟨row, slot, m, -, hcore, -, hend⟩ := halt_cases h
  have hm : OthersKept s.core sp.stack m.core :=
    .of_eq ((congrArg Core.kbp hcore).trans rfl) ((congrArg Core.kstack hcore).trans rfl)
  obtain ⟨-, o, ho, ⟨r, rfl, rfl⟩ | rfl | ⟨eax, r, rfl, hret⟩⟩ | ⟨-, hret⟩ := hend
  · exact (hm.trans (othersKept_execute ho)).trans (.push rfl rfl rfl)
  · exact hm.trans (othersKept_execute ho)
  · exact (hm.trans (othersKept_execute ho)).trans (othersKept_returnToParent hret)
  · exact hm.trans (othersKept_returnToParent hret)

/-- What is not a tick happens on the stack of the running process. -/
theorem othersKept_step {e : Event} (he : e.isTick = false) (h : step img s e = some s') :
    OthersKept s.core s.entry.stack s'.core := by
  cases step_kind h with
  | tick => cases he
  | execute hcpu hexec ho =>
    have hkept := othersKept_execute hexec
    obtain rfl | rfl | ⟨eax, r, rfl, rfl⟩ := ho
    · exact hkept
    · exact hkept
    · exact hkept
  | halt hcall hcore hcur hload hhalt =>
    rw [← hcore, ← entry_eq_of_core hcore]
    exact othersKept_halt hhalt
  | light hcall hexec hcore =>
    rw [hcore]
    exact .refl ..
  | block hcpu hcore hf =>
    rw [← hcore, ← entry_eq_of_core hcore]
    exact .push rfl rfl rfl
  | fault hcpu => exact .of_eq rfl rfl
  | video hcore =>
    rw [hcore]
    exact .of_eq rfl rfl
  | loop hcpu hframe hf₀ hf hcore =>
    rw [hcore]
    exact .push rfl (by simp only [entry, hcpu]) rfl
  | loopEnd hcpu hframe hf₀ hdepth hcore =>
    rw [hcore]
    exact .of_eq rfl rfl

/-- The reads of the processes that do not run go on. -/
theorem readOf_step_of_ne {e : Event} (he : e.isTick = false) (hh : Healthy s.core n)
    (hh' : Healthy s'.core n') (h : step img s e = some s') {t : TermId} (hn : n' t = n t)
    (ht : t ≠ s.core.now) : s'.core.readOf t = s.core.readOf t := by
  have hkept := othersKept_step he h
  have hnow : s'.core.now = s.core.now := congrArg Prod.fst (phase_step he h)
  by_cases h0 : n t = 0
  · rw [readOf_of_empty hh.rows h0, readOf_of_empty hh'.rows (hn.trans h0)]
  · have hpos : 0 < n t := Nat.pos_of_ne_zero h0
    have htop : top n' t = top n t := by rw [top, top, hn]
    obtain ⟨d, hkbp, -⟩ := hh.suspended t ht hpos
    have hne : top n t ≠ s.entry.stack := fun h => ht (hh.entry_stack (by omega) h).2.1
    rw [readOf_of_pos hh.rows hpos, readOf_of_pos hh'.rows (hn ▸ hpos), if_neg (hnow ▸ ht),
      if_neg ht, htop, hkept.kbp]
    refine Core.readUnder_congr (hkept.kstack _ ?_)
    rwa [hkbp]

/-! ### The console -/

/-- The console without its screen and its part of the process table: what the lines and the
handler of the keyboard go by. -/
structure Typing where
  curTermId : Option TermId
  keyBuf : Nat → UInt8
  keyBufIdx : Nat
  saved : TermId → (Nat → UInt8) × Nat × Bool
  modifiers : UInt8 × Bool × Bool

def Term.saved (tm : Term) : (Nat → UInt8) × Nat × Bool :=
  (tm.keyBuf, tm.keyBufIdx, tm.enterState)

def Console.typing (k : Console) : Typing where
  curTermId := k.curTermId
  keyBuf := k.keyBuf
  keyBufIdx := k.keyBufIdx
  saved t := (k.term t).saved
  modifiers := (k.scancodeState, k.ctrlState, k.altState)

namespace Console

variable {k k' : Console}

theorem line_of_typing (h : k'.typing = k.typing) (t : TermId) : k'.line t = k.line t := by
  have hcur : k'.curTermId = k.curTermId := congrArg Typing.curTermId h
  have hbuf : k'.keyBuf = k.keyBuf := congrArg Typing.keyBuf h
  have hidx : k'.keyBufIdx = k.keyBufIdx := congrArg Typing.keyBufIdx h
  obtain ⟨hsaved, hrest⟩ := Prod.mk.inj (congrFun (congrArg Typing.saved h) t)
  obtain ⟨hsavedIdx, henter⟩ := Prod.mk.inj hrest
  rw [line, line, hcur, hbuf, hidx, hsaved, hsavedIdx, henter]

theorem typing_setTerm (k : Console) (t : TermId) {tm : Term} (h : tm.saved = (k.term t).saved) :
    (k.setTerm t tm).typing = k.typing := by
  simp only [typing, setTerm, Typing.mk.injEq, true_and, and_true]
  funext u
  by_cases hu : u = t
  · subst hu
    simpa using h
  · simp only [Function.update_of_ne hu]

theorem typing_multiPlaceCursor (k : Console) (x y : Nat) :
    (k.multiPlaceCursor x y).typing = k.typing := by
  simp only [multiPlaceCursor]
  split
  · refine (typing_setTerm _ _ ?_).trans (typing_setTerm _ _ ?_)
    · rfl
    · rfl
  · refine (typing_setTerm _ _ ?_).trans (typing_setTerm k k.nowTermId ?_)
    · rfl
    · rfl

theorem typing_multiPuts (k : Console) (str : List UInt8) :
    (k.multiPuts str).typing = k.typing := by
  induction str generalizing k with
  | nil => rfl
  | cons c str ih =>
    refine (ih (k.multiPutc c)).trans ?_
    simp only [multiPutc]
    split
    · exact typing_multiPlaceCursor ..
    · simp only [multiSetScreenCursor]
      split
      · refine (typing_multiPlaceCursor ..).trans (typing_setTerm _ _ ?_)
        rfl
      · refine (typing_multiPlaceCursor ..).trans (typing_setTerm _ _ ?_)
        rfl

/-- Only keys, switches, reads and `halt` touch it. -/
theorem keptBesideLines_typing (x : Typing) : KeptBesideLines fun k => k.typing = x where
  now _ h := h
  vidmem _ h := h
  mem _ h := h
  puts _ h := h
  multiPuts str h := (typing_multiPuts _ str).trans h
  curPcbId t _ h := by
    refine (typing_setTerm _ t ?_).trans h
    rfl

end Console

/-! ### The terminals of the machine -/

namespace Kernel

/-- The terminals, `got` being what the reads that go on have stored. -/
def terminals (s : Kernel) (got : TermId → List UInt8) : Terminals where
  con := s.con
  reading t := (s.core.readOf t).map fun r => ⟨r.length, r.phase, got t⟩

/-- The terminal of the process whose stack is in use. -/
def home (s : Kernel) : TermId := ⟨s.getCurPcb / maxPcbMaskLen % 3, Nat.mod_lt _ (by decide)⟩

/-- What an event is to the terminals, if it is anything to them. -/
def termEvent (s : Kernel) : Event → Option TermEvent
  | .tick _ =>
    if (s.con.term (nextTermId s.con.nowTermId)).curPcbId = -1 then some .launch else some .tick
  | .key scancode _ => some (.key scancode)
  | .halt .. => some .halt
  | .exception .. => some .halt
  | .read fd buf nbytes =>
    match s.readDriver fd buf with
    | some (_, .stdin) => some (.read nbytes)
    | _ => none
  | .run => s.core.nowRead.map fun _ => .turn
  | _ => none

/-- What the reads have stored after an event. -/
def gotAfter (s : Kernel) (e : Event) (got : TermId → List UInt8) : TermId → List UInt8 :=
  match s.termEvent e with
  | some (.read _) => Function.update got s.home []
  | some .turn =>
    match s.core.nowRead with
    | some r => Function.update got s.home
        (got s.home ++ (s.con.termReadTurn r.length r.phase).stored.toList.map Prod.snd)
    | none => got
  | _ => got

end Kernel

/-- The systems differ at most on the screen and in the process table. -/
structure Terminals.Agrees (u v : Terminals) : Prop where
  typing : v.con.typing = u.con.typing
  now : v.con.nowTermId = u.con.nowTermId
  reading : v.reading = u.reading

theorem Terminals.Agrees.line {u v : Terminals} (h : u.Agrees v) (t : TermId) :
    v.con.line t = u.con.line t := Console.line_of_typing h.typing t

/-- An event takes a system to what agrees with the other one, or is nothing to it. -/
def Terminals.Does (u : Terminals) : Option TermEvent → Terminals → Prop
  | some e, v => ∃ m, u.step e = some m ∧ m.Agrees v
  | none, v => u.Agrees v

section simulation

variable {got got' : TermId → List UInt8} {e : Event}

/-- The processes that do not run stay where they are in their rows. -/
theorem ProcessStep.rows_eq (h : ProcessStep img s n e s' n') (he : e.isTick = false) {t : TermId}
    (ht : t ≠ s.con.nowTermId) : n' t = n t := by
  cases h with
  | other _ _ hn => exact (hn t).resolve_right fun h => by simp [he] at h
  | execute => exact Function.update_of_ne ht ..
  | halt =>
    rw [haltRows]
    split
    · rfl
    · exact Function.update_of_ne ht ..

theorem Healthy.home_eq (hh : Healthy s.core n) (hpos : 0 < n s.con.nowTermId) :
    s.home = s.con.nowTermId := by
  have hle := hh.rows.le s.con.nowTermId
  have hstack : s.getCurPcb = top n s.con.nowTermId := (hh.running hpos).entry (hh.top_lt hpos)
  refine Fin.ext ?_
  have hnow := s.con.nowTermId.isLt
  have hn : n s.con.nowTermId ≤ 4 := hle
  simp only [home, hstack, top, slotId, maxPcbMaskLen]
  omega

theorem Healthy.nowReading (hh : Healthy s.core n) (got : TermId → List UInt8) :
    (s.terminals got).nowReading =
      s.core.nowRead.map fun r => ⟨r.length, r.phase, got s.con.nowTermId⟩ := by
  rw [← hh.readOf_now]
  rfl

/-- What is not a tick changes the read of the running process only. -/
theorem reading_step (got : TermId → List UInt8) (he : e.isTick = false)
    (hh : Healthy s.core n) (hh' : Healthy s'.core n')
    (hp : ProcessStep img s n e s' n') (h : step img s e = some s')
    (hgot : ∀ t, t ≠ s.con.nowTermId → got' t = got t) :
    (s'.terminals got').reading = Function.update (s.terminals got).reading s.con.nowTermId
      (s'.core.nowRead.map fun r => ⟨r.length, r.phase, got' s.con.nowTermId⟩) := by
  have hnow : s'.core.now = s.con.nowTermId := congrArg Prod.fst (phase_step he h)
  funext t
  by_cases ht : t = s.con.nowTermId
  · subst ht
    rw [Function.update_self, ← hh'.readOf_now, hnow]
    rfl
  · rw [Function.update_of_ne ht]
    simp only [terminals, hgot t ht, readOf_step_of_ne he hh hh' h (hp.rows_eq he ht) ht]

/-- An event that is nothing to the terminals. -/
theorem agrees_of_step (he : e.isTick = false) (hh : Healthy s.core n) (hh' : Healthy s'.core n')
    (hp : ProcessStep img s n e s' n') (h : step img s e = some s')
    (hcon : s'.con.typing = s.con.typing) (hread : s.core.nowRead = none)
    (hread' : s'.core.nowRead = none) : (s.terminals got).Agrees (s'.terminals got) where
  typing := hcon
  now := congrArg Prod.fst (phase_step he h)
  reading := by
    have hnone : (s.terminals got).reading s.con.nowTermId = none := by
      have hr := hh.nowReading got
      rw [hread] at hr
      exact hr
    rw [reading_step got he hh hh' hp h fun _ _ => rfl, hread', Option.map_none, ← hnone,
      Function.update_eq_self]

/-- **Ticks.** A tick launches the next terminal or goes to its process. -/
theorem tick_does (hb : Bootable img) (hh : Healthy s.core n) (hi : s.Interruptible)
    (hg : CanLaunch s) (h : s.pitInterruptHandler img stale = some s') :
    (s.terminals got).Does (s.termEvent (.tick stale)) (s'.terminals got) := by
  obtain ⟨n', hh', hn⟩ := healthy_tick hb hh hi hg h
  have hreading : (s'.terminals got).reading = (s.terminals got).reading := by
    funext t
    simp only [terminals, readOf_tick hb hh hh' hi hg hn h t]
  cases pitInterruptHandler_exit h with
  | displayed hempty hcur => exact absurd hcur (hg hempty).1
  | shows hempty hcur hrun =>
    -- a terminal without a process has never been launched
    have hcur' : (s.con.term (nextTermId s.con.nowTermId)).curPcbId =
        (n (nextTermId s.con.nowTermId) : Int) - 1 := hh.rows.cur _
    have hidle : (s.con.term (nextTermId s.con.nowTermId)).running = false :=
      hh.idle (nextTermId s.core.now) (nextTermId_ne _) (by
        show n (nextTermId s.con.nowTermId) = 0
        omega)
    rw [hidle] at hrun
    cases hrun
  | launches hempty hcur hrun ho =>
    have hevent : s.termEvent (.tick stale) = some .launch := if_pos hempty
    rw [hevent]
    have hcon := (Console.keptBesideLines_typing s.con.launchNext.typing).execute
      (s := s.launchState) rfl ho
    have hnow := congrArg Prod.fst (phase_execute ho)
    exact ⟨_, rfl, hcon, hnow, hreading⟩
  | switches hne hpage hres =>
    have hevent : s.termEvent (.tick stale) = some .tick := if_neg hne
    rw [hevent]
    have hcon := con_resume hres
    exact ⟨_, rfl, (congrArg Console.typing hcon).trans rfl,
      (congrArg Console.nowTermId hcon).trans rfl, hreading⟩

/-- **Halts.** The line buffer is cleared, and what runs next is in no read. -/
theorem halt_agrees (he : e.isTick = false) (hh : Healthy s.core n) (hh' : Healthy s'.core n')
    (hp : ProcessStep img s n e s' n') (h : step img s e = some s')
    (hcall : s.callsHalt e = true) {k : Console} (hk : k.nowTermId = s.con.nowTermId)
    (hcon : s'.con.typing = k.bufClear.typing) :
    ({ s.terminals got with con := k } : Terminals).halt.Agrees (s'.terminals got) := by
  have hcpu : s'.cpu = .user := by
    cases hp with
    | halt _ hcpu => exact hcpu
    | other _ hno =>
      rw [hno] at hcall
      cases hcall
    | execute _ hstart =>
      rw [startsProcess_of_callsHalt hcall] at hstart
      cases hstart
  refine ⟨hcon, (congrArg Prod.fst (phase_step he h)).trans hk.symm, ?_⟩
  rw [reading_step got he hh hh' hp h fun _ _ => rfl,
    Core.nowRead_of_ne (fun sp hsp => by cases hcpu.symm.trans hsp), ← hk]
  rfl

/-- **Keys.** -/
theorem key_does {scancode : UInt8} (hh : Healthy s.core n) (hh' : Healthy s'.core n')
    (hp : ProcessStep img s n (.key scancode stale) s' n')
    (h : step img s (.key scancode stale) = some s') :
    (s.terminals got).Does (some (.key scancode)) (s'.terminals got) := by
  obtain ⟨⟨k, ctrlC⟩, hk, hkey⟩ := Option.bind_eq_some_iff.mp (step_key h)
  have hstep : ∀ u, (if ctrlC then ({ s.terminals got with con := k } : Terminals).halt
      else { s.terminals got with con := k }) = u →
      (s.terminals got).step (.key scancode) = some u := by
    rintro u rfl
    exact Option.map_eq_some_iff.mpr ⟨_, hk, rfl⟩
  cases ctrlC with
  | true =>
    obtain rfl := Console.ctrlC_eq hk
    have hcall : s.callsHalt (.key scancode stale) = true := by simp [callsHalt, hk]
    have hcon : s'.con.typing = s.con.bufClear.bufClear.typing :=
      (Console.keptBesideLines_typing _).halt (s := s.setCon s.con.bufClear) rfl hkey
    exact ⟨_, hstep _ rfl, halt_agrees rfl hh hh' hp h hcall rfl hcon⟩
  | false =>
    obtain rfl := Option.some.inj hkey
    have hcore : (s.setCon k).core = s.core :=
      core_setCon (Console.fixed_keyboardInterruptHandler hk)
    refine ⟨_, hstep _ rfl, rfl, rfl, ?_⟩
    funext t
    simp only [terminals, hcore, Bool.false_eq_true, if_false]

/-- **Calls of `halt`**, by a process or by an exception handler. -/
theorem callsHalt_does (he : e.isTick = false) (hh : Healthy s.core n) (hh' : Healthy s'.core n')
    (hp : ProcessStep img s n e s' n') (h : step img s e = some s')
    (hcall : s.callsHalt e = true) (hcpu : ∀ sp, s.cpu ≠ .kernel sp)
    (hcon : s'.con.typing = s.con.bufClear.typing) :
    (s.terminals got).Does (some .halt) (s'.terminals got) := by
  refine ⟨_, ?_, halt_agrees he hh hh' hp h hcall rfl hcon⟩
  have hnone : (s.terminals got).nowReading = none := by
    rw [hh.nowReading, Core.nowRead_of_ne hcpu]
    rfl
  simp only [Terminals.step, hnone, Option.isSome_none, Bool.false_eq_true, if_false]
  rfl

/-- A call that has just gone into a kernel loop. -/
theorem nowRead_block {m : Kernel} (hcpu : m.cpu = .user) (f : Frame) :
    (m.block f).core.nowRead = f.readCall := by
  have hentry : m.entry = ⟨stackOf m.tssEsp0, 0⟩ := by simp only [entry, hcpu]
  rw [block, hentry]
  exact Core.nowRead_of_frame rfl (pushFrame_zero ..)

/-- **Calls of `term_read`.** -/
theorem read_does {fd nbytes : Int} {buf : Nat} {i : Fin 8} (hh : Healthy s.core n)
    (hh' : Healthy s'.core n') (hp : ProcessStep img s n (.read fd buf nbytes) s' n')
    (h : step img s (.read fd buf nbytes) = some s')
    (hdriver : s.readDriver fd buf = some (i, .stdin)) :
    (s.terminals got).Does (some (.read nbytes))
      (s'.terminals (Function.update got s.home [])) := by
  obtain ⟨hcpu, hread⟩ := step_call h rfl
  obtain ⟨hpos, hrun⟩ := hh.pos_of_user hcpu
  have hnone : (s.terminals got).nowReading = none := by
    rw [hh.nowReading, Core.nowRead_of_ne (fun sp hsp => by cases hcpu.symm.trans hsp)]
    rfl
  have hs' : s' = s.block (.termRead buf nbytes .wait) := by
    cases read_exit hread with
    | term => rfl
    | refused hno => cases hno.symm.trans hdriver
    | rtcFault hno => cases hno.symm.trans hdriver
    | rtc hno => cases hno.symm.trans hdriver
    | dir hno => cases hno.symm.trans hdriver
    | file hno => cases hno.symm.trans hdriver
    | error hno hdriver' =>
      rw [hdriver] at hno
      obtain ⟨-, rfl⟩ := Prod.mk.inj (Option.some.inj hno)
      obtain hno | hno := hdriver'
      · cases hno
      · cases hno
  have hstep : (s.terminals got).step (.read nbytes) =
      some ((s.terminals got).setReading s.con.nowTermId (some ⟨nbytes, .wait, []⟩)) := by
    simp only [Terminals.step, hnone, Option.isSome_none, Bool.false_eq_true, if_false]
    rfl
  refine ⟨_, hstep, ?_⟩
  have hhome := hh.home_eq hpos
  rw [hhome]
  have hread' : s'.core.nowRead = some ⟨buf, nbytes, .wait⟩ := by
    rw [hs']
    exact nowRead_block hcpu _
  refine ⟨?_, ?_, ?_⟩
  · rw [hs']
    rfl
  · rw [hs']
    rfl
  · rw [reading_step got rfl hh hh' hp h fun t ht => Function.update_of_ne ht .., hread',
      Function.update_self]
    rfl

/-- The turn of a read. -/
theorem run_read {r : ReadCall} (hh : Healthy s.core n) (h : step img s .run = some s')
    (hread : s.core.nowRead = some r) :
    s'.con = (s.con.termReadTurn r.length r.phase).con ∧
      s'.core.nowRead = (s.con.termReadTurn r.length r.phase).next.map
        fun phase => ⟨r.buf, r.length, phase⟩ := by
  obtain ⟨hpos, hcpu, hframe⟩ := hh.pos_of_nowRead hread
  obtain ⟨sp, hsp, hrun⟩ := step_run h
  obtain rfl := Cpu.kernel.inj (hsp.symm.trans hcpu)
  cases runLoop_exit hrun with
  | boot hf => cases hf.symm.trans hframe
  | @reads _ _ _ next hf hpage hnext =>
    obtain ⟨rfl, rfl, rfl⟩ := Frame.termRead.inj (Option.some.inj (hf.symm.trans hframe))
    refine ⟨rfl, ?_⟩
    rw [hnext]
    have hpushed := pushFrame_zero s.kstack (top n s.con.nowTermId)
      (.termRead r.buf r.length next)
    exact Core.nowRead_of_frame (p := top n s.con.nowTermId)
      (f := .termRead r.buf r.length next) hsp hpushed
  | readEnds hf hpage hnext hdepth =>
    obtain ⟨rfl, rfl, hphase⟩ := Frame.termRead.inj (Option.some.inj (hf.symm.trans hframe))
    rw [← hphase, hnext]
    exact ⟨rfl, rfl⟩
  | waits hf => cases hf.symm.trans hframe
  | rtcEnds hf => cases hf.symm.trans hframe

theorem run_does {r : ReadCall} (hh : Healthy s.core n) (hh' : Healthy s'.core n')
    (hp : ProcessStep img s n .run s' n') (h : step img s .run = some s')
    (hread : s.core.nowRead = some r) :
    (s.terminals got).Does (some .turn) (s'.terminals (Function.update got s.home
      (got s.home ++ (s.con.termReadTurn r.length r.phase).stored.toList.map Prod.snd))) := by
  obtain ⟨hpos, -⟩ := hh.pos_of_nowRead hread
  obtain ⟨hcon, hread'⟩ := run_read hh h hread
  have hnowReading : (s.terminals got).nowReading =
      some ⟨r.length, r.phase, got s.con.nowTermId⟩ := by
    rw [hh.nowReading, hread]
    rfl
  refine ⟨_, step_turn hnowReading, congrArg Console.typing hcon,
    congrArg Console.nowTermId hcon, ?_⟩
  rw [hh.home_eq hpos, reading_step got rfl hh hh' hp h fun t ht => Function.update_of_ne ht ..,
    hread', Function.update_self, Option.map_map]
  rfl

/-- After other calls the process is in no read. -/
theorem nowRead_call {e : Event} (hcall : e.isCall = true)
    (hread : ∀ fd buf nbytes, e = .read fd buf nbytes → ∀ i,
      s.readDriver fd buf ≠ some (i, .stdin))
    (hhalt : ∀ status stale, e ≠ .halt status stale)
    (h : step img s e = some s') : s'.core.nowRead = none := by
  obtain ⟨hcpu, hsys⟩ := step_call h hcall
  have huser : ∀ {m : Kernel}, m.core = s.core → m.core.nowRead = none := by
    intro m hm
    rw [hm]
    exact Core.nowRead_of_ne fun sp hsp => by cases hcpu.symm.trans hsp
  cases e with
  | execute command stale =>
    obtain ⟨o, ho, rfl⟩ := Option.map_eq_some_iff.mp hsys
    cases execute_exit ho with
    | refused => exact huser rfl
    | full => exact huser ((core_ret ..).trans (core_printf ..))
    | failed => exact Core.nowRead_of_ne fun sp hsp => by cases hcpu.symm.trans hsp
    | faulted => exact Core.nowRead_of_ne fun sp hsp => by cases hsp
    | started => exact Core.nowRead_of_ne fun sp hsp => by cases hsp
  | halt status stale => exact absurd rfl (hhalt status stale)
  | «open» filename => exact huser (by rw [← Option.some.inj hsys, core_open])
  | close fd => exact huser (by rw [← Option.some.inj hsys, core_close])
  | read fd buf nbytes =>
    cases read_exit hsys with
    | refused => exact huser rfl
    | term hdriver => exact absurd hdriver (hread fd buf nbytes rfl _)
    | rtcFault => exact Core.nowRead_of_ne fun sp hsp => by cases hsp
    | rtc => exact nowRead_block hcpu _
    | dir => exact huser rfl
    | file => exact huser (by rw [core_ret, core_setFd])
    | error => exact huser rfl
  | write fd buf content nbytes => exact huser (core_write hsys)
  | getargs buf nbytes => exact huser (by rw [syscall_getargs hsys, core_ret])
  | vidmap screenStart =>
    rw [syscall_vidmap hsys]
    exact Core.nowRead_of_ne fun sp hsp => by cases hcpu.symm.trans hsp
  | tick stale => cases hcall
  | key scancode stale => cases hcall
  | rtc => cases hcall
  | exception message stale => cases hcall
  | run => cases hcall

/-- What happens besides keys, reads and halts is nothing to the terminals. -/
theorem call_agrees (hh : Healthy s.core n) (hh' : Healthy s'.core n')
    (hp : ProcessStep img s n e s' n') (h : step img s e = some s') (hcall : e.isCall = true)
    (hread : ∀ fd buf nbytes, e = .read fd buf nbytes → ∀ i,
      s.readDriver fd buf ≠ some (i, .stdin))
    (hhalt : ∀ status stale, e ≠ .halt status stale) :
    (s.terminals got).Agrees (s'.terminals got) := by
  have hcpu := (step_call h hcall).1
  have he : e.isTick = false := by
    cases e with
    | tick stale => cases hcall
    | _ => rfl
  refine agrees_of_step he hh hh' hp h ?_ ?_ (nowRead_call hcall hread hhalt h)
  · exact (Console.keptBesideLines_typing _).call hcall hhalt rfl h
  · exact Core.nowRead_of_ne fun sp hsp => by cases hcpu.symm.trans hsp

/-- A turn of a loop that is not that of `term_read`. -/
theorem run_agrees (hh : Healthy s.core n) (hh' : Healthy s'.core n')
    (hp : ProcessStep img s n .run s' n') (h : step img s .run = some s')
    (hread : s.core.nowRead = none) : (s.terminals got).Agrees (s'.terminals got) := by
  obtain ⟨sp, hsp, hrun⟩ := step_run h
  have hframe : ∀ {buf length phase}, s.frameAt sp ≠ some (.termRead buf length phase) := by
    intro buf length phase hf
    rw [Core.nowRead, show s.core.cpu = .kernel sp from hsp] at hread
    cases hread.symm.trans (congrArg (Option.bind · Frame.readCall) hf)
  cases runLoop_exit hrun with
  | boot => exact ⟨rfl, rfl, rfl⟩
  | reads hf => exact absurd hf hframe
  | readEnds hf => exact absurd hf hframe
  | waits => exact ⟨rfl, rfl, rfl⟩
  | rtcEnds hf =>
    exact agrees_of_step rfl hh hh' hp h rfl hread
      (Core.nowRead_of_ne fun sp hsp => by cases hsp)

/-- **Step lemma.** As long as every process runs in its own terminal, the terminals simulate the
machine. -/
theorem terminals_step (got : TermId → List UInt8) (hb : Bootable img) (hh : Healthy s.core n)
    (hg : OwnTerminal img s e) (h : step img s e = some s') :
    (s.terminals got).Does (s.termEvent e) (s'.terminals (s.gotAfter e got)) := by
  obtain ⟨n', hh', hp⟩ := healthy_step hb hh hg h
  cases e with
  | tick stale =>
    have hgot : s.gotAfter (.tick stale) got = got := by
      by_cases hempty : (s.con.term (nextTermId s.con.nowTermId)).curPcbId = -1
      · simp only [gotAfter, termEvent, if_pos hempty]
      · simp only [gotAfter, termEvent, if_neg hempty]
    rw [hgot]
    exact tick_does hb hh (interruptible_of_tick h) (hg.1 rfl) (step_tick h)
  | key scancode stale => exact key_does hh hh' hp h
  | rtc =>
    have hcore : s'.core = s.core := by rw [step_rtc h, core_rtcInterruptHandler]
    have hcon : s'.con = s.con := by rw [step_rtc h, con_rtcInterruptHandler]
    refine ⟨congrArg Console.typing hcon, congrArg Console.nowTermId hcon, ?_⟩
    simp only [terminals, hcore]
    rfl
  | run =>
    cases hread : s.core.nowRead with
    | none =>
      simp only [gotAfter, termEvent, hread, Option.map_none]
      exact run_agrees hh hh' hp h hread
    | some r =>
      simp only [gotAfter, termEvent, hread, Option.map_some]
      exact run_does hh hh' hp h hread
  | exception message stale =>
    have hhalt : ({ s with interruptHaltFlag := true }.printf message).halt img s.entry 0 stale =
        some s' := step_exception h
    have hcpu : ∀ sp, s.cpu ≠ .kernel sp := by
      intro sp hsp
      unfold LinuxLikeKernel.step at h
      rw [hsp] at h
      cases h
    refine callsHalt_does rfl hh hh' hp h rfl hcpu ?_
    exact (Console.keptBesideLines_typing s.con.bufClear.typing).halt (by rfl) hhalt
  | halt status stale =>
    obtain ⟨hcpu, hhalt⟩ := step_call h rfl
    exact callsHalt_does rfl hh hh' hp h rfl (fun sp hsp => by cases hcpu.symm.trans hsp)
      ((Console.keptBesideLines_typing _).halt rfl hhalt)
  | read fd buf nbytes =>
    by_cases hdriver : ∃ i, s.readDriver fd buf = some (i, .stdin)
    · obtain ⟨i, hdriver⟩ := hdriver
      simp only [gotAfter, termEvent, hdriver]
      exact read_does hh hh' hp h hdriver
    · have hevent : s.termEvent (.read fd buf nbytes) = none := by
        simp only [termEvent]
        split
        · rename_i i hi
          exact absurd ⟨i, hi⟩ hdriver
        · rfl
      simp only [gotAfter, hevent]
      refine call_agrees hh hh' hp h rfl ?_ nofun
      rintro fd' buf' nbytes' heq i hi
      obtain ⟨rfl, rfl, rfl⟩ := Event.read.inj heq
      exact hdriver ⟨i, hi⟩
  | execute command stale => exact call_agrees hh hh' hp h rfl nofun nofun
  | «open» filename => exact call_agrees hh hh' hp h rfl nofun nofun
  | close fd => exact call_agrees hh hh' hp h rfl nofun nofun
  | write fd buf content nbytes => exact call_agrees hh hh' hp h rfl nofun nofun
  | getargs buf nbytes => exact call_agrees hh hh' hp h rfl nofun nofun
  | vidmap screenStart => exact call_agrees hh hh' hp h rfl nofun nofun

end simulation

end LinuxLikeKernel
