import LinuxLikeKernel.ConsoleSteps
import LinuxLikeKernel.LiveTerminals
import LinuxLikeKernel.Page

/-!
# The user video page

A process switch maps the visible screen for the displayed terminal and the backing page for
the others. A terminal switch does not remap, and `vidmap` always maps the visible screen.

## Main definitions

- `VideoRight` — the user video page is the one the running terminal should draw on
- `VideoGuard` — the terminal switches and `vidmap` calls that leave it so

## Main results

- `videoRight_along_iff` — it stays so in exactly the runs that meet the guard
-/

namespace LinuxLikeKernel
open ByteMemory Transition Kernel

/-! ### The relation -/

/-- The page at the user video address is the visible screen exactly when the running terminal
is displayed, and otherwise the running terminal's backing page. -/
structure VideoRight (s : Kernel) : Prop where
  visible : s.paging.userVideoPage = some video ↔ s.con.curTermId = some s.con.nowTermId
  backing : s.con.curTermId ≠ some s.con.nowTermId →
    s.paging.userVideoPage = some (s.con.term s.con.nowTermId).videoMem

/-- The terminal that a scan code switches to. -/
def Console.switchTarget (k : Console) (scancode : UInt8) : Option TermId :=
  match decodeKey scancode with
  | .fn id => if k.altState then some id else none
  | _ => none

/-- `vidmap` with a pointer that it accepts is called only while the running terminal is
displayed, and a terminal switch does not change whether it is. -/
def VideoGuard (s : Kernel) : Event → Prop
  | .vidmap screenStart => userStart ≤ screenStart ∧ screenStart < userEnd →
      s.con.curTermId = some s.con.nowTermId
  | .key scancode _ => ∀ t, s.con.switchTarget scancode = some t →
      (t = s.con.nowTermId ↔ s.con.curTermId = some s.con.nowTermId)
  | _ => True

instance (s : Kernel) : ∀ e, Decidable (VideoGuard s e)
  | .vidmap _ => inferInstanceAs (Decidable (_ → _))
  | .key _ _ => inferInstanceAs (Decidable (∀ _, _ → _))
  | .tick _ | .rtc | .execute .. | .halt .. | .exception .. | .open _ | .close _ | .read ..
  | .write ..
  | .getargs .. | .run => isTrue trivial

/-! ### What the relation depends on -/

/-- The page at the user video address, the running terminal, and the backing pages. -/
structure VideoView where
  page : Option Nat
  now : TermId
  backing : TermId → Nat

def Core.videoView (c : Core) : VideoView :=
  ⟨c.paging.userVideoPage, c.now, fun t => (c.term t).videoMem⟩

theorem of_videoView {s s' : Kernel} (hview : s'.core.videoView = s.core.videoView) :
    s'.paging.userVideoPage = s.paging.userVideoPage ∧ s'.con.nowTermId = s.con.nowTermId ∧
      (s'.con.term s.con.nowTermId).videoMem = (s.con.term s.con.nowTermId).videoMem :=
  ⟨congrArg VideoView.page hview, congrArg VideoView.now hview,
    congrFun (congrArg VideoView.backing hview) s.con.nowTermId⟩

theorem VideoRight.of_eq {s s' : Kernel} (h : VideoRight s)
    (hview : s'.core.videoView = s.core.videoView) (hcur : s'.con.curTermId = s.con.curTermId) :
    VideoRight s' := by
  obtain ⟨hpage, hnow, hback⟩ := of_videoView hview
  constructor
  · rw [hpage, hcur, hnow]
    exact h.visible
  · rw [hpage, hcur, hnow, hback]
    exact h.backing

theorem videoView_start (c : Core) (cur : TermId) (i : Fin 4) (sp : StackPtr) :
    (c.start cur i sp).videoView = c.videoView := by
  simp only [Core.videoView, Core.start, Table.start, VideoView.mk.injEq, true_and,
    PageTables.userVideoPage_pcbMapping]
  funext t
  by_cases ht : t = cur
  · subst ht
    rw [Function.update_self]
  · rw [Function.update_of_ne ht]

theorem videoView_unlink (c : Core) (row : TermId) (slot : Fin 4) (parent : Int) :
    ({ c with toTable := c.toTable.unlink row slot parent } : Core).videoView = c.videoView := by
  simp only [Core.videoView, Table.unlink, VideoView.mk.injEq, true_and]
  funext t
  by_cases ht : t = c.now
  · subst ht
    rw [Function.update_self]
  · rw [Function.update_of_ne ht]

variable {img : Image} {s s' : Kernel} {n : TermId → Nat}

/-- Neither the view nor the displayed terminal changes. -/
def SameView (s s' : Kernel) : Prop :=
  s'.core.videoView = s.core.videoView ∧ s'.con.curTermId = s.con.curTermId

theorem SameView.trans {s'' : Kernel} (h : SameView s s') (h' : SameView s' s'') :
    SameView s s'' := ⟨h'.1.trans h.1, h'.2.trans h.2⟩

theorem sameView_placed (s : Kernel) (cur : TermId) (i : Fin 4) (mem : Mem) :
    SameView s (s.placed cur i mem) := by
  refine ⟨?_, rfl⟩
  simp only [Core.videoView, placed, core, mapProcess, PageTables.userVideoPage_pcbMapping]
  rfl

theorem sameView_execute {sp : StackPtr} {command : List UInt8} {stale : Stale} {o : Outcome}
    (h : execute img s sp command stale = some o) : SameView s o.state := by
  cases execute_exit h with
  | refused => exact ⟨rfl, rfl⟩
  | full => exact ⟨congrArg Core.videoView (core_printf ..), curTermId_printf ..⟩
  | failed => exact sameView_placed ..
  | faulted => exact sameView_placed ..
  | started => exact ⟨by rw [Outcome.state, core_started, videoView_start, core_withMem], rfl⟩

theorem videoView_resume {sp : StackPtr} {kind : Frame} (h : s.resume sp kind = some s') :
    s'.core.videoView = s.core.videoView := by
  obtain ⟨cpu, rfl⟩ := resume_eq h
  rfl

theorem sameView_returnToParent {id : Nat} {sp : StackPtr} {status : UInt8}
    (h : s.returnToParent id sp status = some s') : SameView s s' := by
  obtain ⟨-, rfl⟩ | ⟨-, m, hm, hcon, hres⟩ := returnToParent_cases h
  · exact ⟨rfl, rfl⟩
  · refine ⟨(videoView_resume hres).trans ?_, ?_⟩
    · rw [hm]
      simp only [Core.videoView, PageTables.userVideoPage_pcbMapping]
      rfl
    · rw [con_resume hres, hcon]

theorem sameView_halt {sp : StackPtr} {status : UInt8} {stale : Stale}
    (h : s.halt img sp status stale = some s') : SameView s s' := by
  obtain ⟨row, slot, m, -, hcore, hcur, hend⟩ := halt_cases h
  have hm : SameView s m := ⟨by rw [hcore]; exact videoView_unlink .., hcur⟩
  obtain ⟨-, o, ho, hs⟩ | ⟨-, hret⟩ := hend
  · have hexec := hm.trans (sameView_execute ho)
    obtain ⟨r, rfl, rfl⟩ | rfl | ⟨eax, r, rfl, hret⟩ := hs
    · exact hexec
    · exact hexec
    · exact hexec.trans (sameView_returnToParent hret)
  · exact hm.trans (sameView_returnToParent hret)

/-! ### Keys -/

theorem switchTarget_of_ne_fn {k : Console} {scancode : UInt8}
    (h : ∀ id, decodeKey scancode ≠ .fn id) : k.switchTarget scancode = none := by
  rw [Console.switchTarget]
  cases hkey : decodeKey scancode with
  | fn id => exact absurd hkey (h id)
  | _ => rfl

/-- After a key the displayed terminal is the one switched to, if there is one. -/
theorem curTermId_key {k k' : Console} {scancode : UInt8} {ctrlC : Bool}
    (h : k.keyboardInterruptHandler scancode = some (k', ctrlC)) :
    k'.curTermId = (k.switchTarget scancode).or k.curTermId := by
  have hother : (∀ id, decodeKey scancode ≠ .fn id) → k'.curTermId = k.curTermId →
      k'.curTermId = (k.switchTarget scancode).or k.curTermId := by
    intro hne heq
    rw [switchTarget_of_ne_fn hne, heq]
    rfl
  cases keyStep h with
  | modifier _ _ _ hkey =>
    refine hother (fun id he => ?_) rfl
    rw [he] at hkey
    cases hkey
  | enter hkey hk =>
    refine hother (by simp [hkey]) ?_
    simp only [Console.keyEnter] at hk
    split at hk
    · obtain ⟨cur, -, rfl⟩ := Option.map_eq_some_iff.mp hk
      rfl
    · rw [← Option.some.inj hk]
  | backspace hkey =>
    refine hother (by simp [hkey]) ?_
    simp only [Console.keyBackspace]
    split <;> rfl
  | switch hkey halt hk =>
    obtain ⟨old, -, rfl⟩ := Option.map_eq_some_iff.mp hk
    simp only [Console.switchTarget, hkey, if_pos halt]
    rfl
  | fn hkey halt =>
    simp only [Console.switchTarget, hkey, halt, Bool.false_eq_true, if_false]
    rfl
  | noChar hkey => exact hother (by simp [hkey]) rfl
  | char hkey hchar hk =>
    refine hother (by simp [hkey]) ?_
    cases hk <;> rfl

theorem keyboardInterrupt_view {scancode : UInt8} {stale : Stale}
    (h : s.keyboardInterrupt img scancode stale = some s') :
    s'.core.videoView = s.core.videoView ∧
      s'.con.curTermId = (s.con.switchTarget scancode).or s.con.curTermId := by
  obtain ⟨⟨k, ctrlC⟩, hk, h⟩ := Option.bind_eq_some_iff.mp h
  have hcur := curTermId_key hk
  have hview : (s.setCon k).core.videoView = s.core.videoView :=
    congrArg Core.videoView (core_setCon (Console.fixed_keyboardInterruptHandler hk))
  cases ctrlC with
  | true =>
    obtain ⟨hview', hcur'⟩ := sameView_halt h
    exact ⟨hview'.trans hview, hcur'.trans hcur⟩
  | false =>
    rw [← Option.some.inj h]
    exact ⟨hview, hcur⟩

/-! ### Other events -/

theorem curTermId_runLoop {sp : StackPtr} (h : s.runLoop sp = some s') :
    s'.con.curTermId = s.con.curTermId := by
  have hturn : ∀ length phase, (s.con.termReadTurn length phase).con.curTermId =
      s.con.curTermId := by
    intro length phase
    cases phase with
    | wait => rfl
    | woken => rfl
    | copy i => simp only [Console.termReadTurn]; split <;> rfl
    | clear j count => simp only [Console.termReadTurn]; split <;> rfl
  cases runLoop_exit h with
  | boot => rfl
  | reads => exact hturn _ _
  | readEnds => exact hturn _ _
  | waits => rfl
  | rtcEnds => rfl

theorem curTermId_multiPuts (k : Console) (str : List UInt8) :
    (k.multiPuts str).curTermId = k.curTermId := by
  have hcursor : ∀ (k : Console) x y, (k.multiPlaceCursor x y).curTermId = k.curTermId := by
    intro k x y
    simp only [Console.multiPlaceCursor]
    split <;> rfl
  have hputc : ∀ (k : Console) c, (k.multiPutc c).curTermId = k.curTermId := by
    intro k c
    simp only [Console.multiPutc, Console.multiSetScreenCursor, Console.multiEnter]
    split
    · exact hcursor ..
    · split
      · exact hcursor ..
      · exact hcursor ..
  induction str generalizing k with
  | nil => rfl
  | cons c cs ih => exact (ih (k.multiPutc c)).trans (hputc k c)

theorem curTermId_print (s : Kernel) (out : List UInt8) :
    (s.print out).con.curTermId = s.con.curTermId := by
  simp only [print, setCon]
  split
  · rfl
  · exact curTermId_multiPuts ..

theorem curTermId_syscall {e : Event} (h : s.syscall img e = some s') :
    s'.con.curTermId = s.con.curTermId := by
  cases e with
  | execute command stale =>
    obtain ⟨o, ho, hs⟩ := Option.map_eq_some_iff.mp h
    have hcur := (sameView_execute ho).2
    cases o with
    | started r => exact hs ▸ hcur
    | faulted r => exact hs ▸ hcur
    | returned eax r => exact hs ▸ hcur
  | halt status stale => exact (sameView_halt h).2
  | «open» filename =>
    rw [← Option.some.inj h, con_open]
  | close fd =>
    rw [← Option.some.inj h, con_close]
  | read fd buf nbytes => rw [con_read h]
  | write fd buf content nbytes =>
    obtain ⟨eax, rfl⟩ | ⟨out, eax, rfl⟩ | ⟨i, -, -, rfl⟩ := write_cases h
    · rfl
    · exact curTermId_print ..
    · rfl
  | getargs buf nbytes =>
    rw [syscall_getargs h]
    rfl
  | vidmap screenStart =>
    rw [syscall_vidmap h]
    rfl
  | tick stale => cases h
  | key scancode stale => cases h
  | rtc => cases h
  | exception message stale => cases h
  | run => cases h

/-- Only ticks and keys change the displayed terminal. -/
theorem curTermId_step {e : Event} (htick : e.isTick = false)
    (hkey : ∀ scancode stale, e ≠ .key scancode stale) (h : step img s e = some s') :
    s'.con.curTermId = s.con.curTermId := by
  have hexc : ∀ {message : List UInt8} {stale : Stale},
      s.exceptionHandler img message stale = some s' → s'.con.curTermId = s.con.curTermId :=
    fun h => (sameView_halt h).2
  simp only [step] at h
  split at h
  · exact hexc h
  · cases h
  · cases htick
  · exact absurd rfl (hkey _ _)
  · rw [← Option.some.inj h, con_rtcInterruptHandler]
  · exact hexc h
  · cases h
  · exact curTermId_syscall h
  · exact curTermId_runLoop h
  · cases h

theorem videoView_step {e : Event} (htick : e.isTick = false)
    (hvidmap : ∀ screenStart, e ≠ .vidmap screenStart) (h : step img s e = some s') :
    s'.core.videoView = s.core.videoView := by
  cases step_kind h with
  | tick hi h' => cases htick
  | execute hcpu hexec ho =>
    have hview := (sameView_execute hexec).1
    obtain rfl | rfl | ⟨eax, r, rfl, rfl⟩ := ho
    · exact hview
    · exact hview
    · exact hview
  | halt hcall hcore hcur hload hhalt => rw [(sameView_halt hhalt).1, hcore]
  | light hcall hexec hcore => rw [hcore]
  | block hcpu hcore hf => rw [← hcore]; rfl
  | fault hcpu => rfl
  | video hcore => exact absurd rfl (hvidmap _)
  | loop hcpu hframe hf₀ hf hcore => rw [hcore]; rfl
  | loopEnd hcpu hframe hf₀ hdepth hcore => rw [hcore]; rfl

/-- `vidmap` refuses the pointer or maps the visible screen. -/
theorem step_vidmap {screenStart : Nat} (h : step img s (.vidmap screenStart) = some s') :
    s'.con = s.con ∧
      ((¬(userStart ≤ screenStart ∧ screenStart < userEnd) ∧ s'.paging = s.paging) ∨
        ((userStart ≤ screenStart ∧ screenStart < userEnd) ∧
          s'.paging = s.paging.syscallVideoMapping video)) := by
  cases hcpu : s.cpu with
  | kernel sp => simp [step, hcpu] at h
  | fault sp => simp [step, hcpu] at h
  | user =>
    simp only [step, hcpu, syscall] at h
    split at h
    · obtain rfl := Option.some.inj h
      refine ⟨rfl, ?_⟩
      by_cases hrefused : screenStart = 0 ∨ screenStart < userStart ∨ userEnd ≤ screenStart
      · refine .inl ⟨?_, ?_⟩
        · simp only [userStart, userEnd] at hrefused ⊢
          omega
        · simp only [vidmap, if_pos hrefused]
          rfl
      · refine .inr ⟨?_, ?_⟩
        · simp only [userStart, userEnd] at hrefused ⊢
          omega
        · simp only [vidmap, if_neg hrefused]
          rfl
    · cases h

/-! ### Backing pages -/

/-- Every terminal has its page. -/
def BackingPages (s : Kernel) : Prop := ∀ t, (s.con.term t).videoMem = backingPage t

theorem BackingPages.of_eq (h : BackingPages s)
    (hview : s'.core.videoView.backing = s.core.videoView.backing) : BackingPages s' :=
  fun t => (congrFun hview t).trans (h t)

theorem backingPages_boot (s : Kernel) : BackingPages (boot s) := fun _ => rfl

theorem backing_tick {stale : Stale}
    (h : s.pitInterruptHandler img stale = some s') :
    s'.core.videoView.backing = s.core.videoView.backing := by
  have hsave : s.saveContext.core.videoView.backing = s.core.videoView.backing := by
    rw [core_saveContext]
    rfl
  have hlaunch : s.launchState.core.videoView.backing = s.core.videoView.backing := by
    rw [core_launchState]
    funext t
    simp only [Core.videoView]
    by_cases ht : t = nextTermId s.con.nowTermId
    · subst ht
      rw [Function.update_self]
    · rw [Function.update_of_ne ht]
  obtain ⟨-, ⟨-, rfl⟩ | ⟨-, -, hcore⟩ | ⟨-, -, o, ho, hs⟩⟩ |
    ⟨-, page, m, -, hcore, -, -, hres⟩ := pitInterruptHandler_cases h
  · exact hsave
  · rw [hcore, hsave]
  · have hview := (congrArg VideoView.backing (sameView_execute ho).1).trans hlaunch
    obtain rfl | rfl | ⟨eax, rfl⟩ := hs
    · exact hview
    · exact hview
    · exact hview
  · rw [videoView_resume hres, hcore]
    exact hsave

theorem backingPages_step {e : Event} (hp : BackingPages s)
    (h : step img s e = some s') : BackingPages s' := by
  by_cases htick : e.isTick = true
  · cases e with
    | tick stale => exact hp.of_eq (backing_tick (step_tick h))
    | _ => cases htick
  · by_cases hvidmap : ∃ screenStart, e = .vidmap screenStart
    · obtain ⟨screenStart, rfl⟩ := hvidmap
      intro t
      rw [(step_vidmap h).1]
      exact hp t
    · refine hp.of_eq (congrArg VideoView.backing ?_)
      exact videoView_step (Bool.eq_false_iff.mpr htick)
        (fun p he => hvidmap ⟨p, he⟩) h

/-! ### Process switches -/

/-- **Switch.** A tick that finds a process leaves the user video page right. -/
theorem videoRight_tick (hr : Rows s.table n) (hp : BackingPages s)
    (hpos : 0 < n (nextTermId s.con.nowTermId)) {stale : Stale}
    (h : s.pitInterruptHandler img stale = some s') : VideoRight s' := by
  have hcur : (s.con.term (nextTermId s.con.nowTermId)).curPcbId =
      (n (nextTermId s.con.nowTermId) : Int) - 1 := hr.cur (nextTermId s.con.nowTermId)
  obtain ⟨hempty, -⟩ | ⟨-, page, m, hpage, hcore, hcurTerm, hterm, hres⟩ :=
    pitInterruptHandler_cases h
  · omega
  -- the next process is on the row of its terminal
  have hid : s.saveContext.nowPcbId =
      slotId (nextTermId s.con.nowTermId) (n (nextTermId s.con.nowTermId) - 1) :=
    pcbId_eq hpos (hr.le _) (hr.cur _)
  have htermId : (s.saveContext.pcb s.saveContext.nowPcbId).termId =
      (nextTermId s.con.nowTermId).val := by
    rw [hid]
    exact (rows_saveContext hr).termId _ _ (by omega)
  -- so the `term_id` that `switch_video` looks at is that of the terminal that runs next
  have hpage' : page = if s.con.curTermId = some (nextTermId s.con.nowTermId) then video
      else backingPage (nextTermId s.con.nowTermId) := by
    rw [switchVideo] at hpage
    split at hpage
    · rename_i hshown
      exact (Option.some.inj hpage).symm.trans (if_pos hshown).symm
    · rename_i hshown
      refine Eq.trans ?_ (if_neg hshown).symm
      split at hpage
      · refine (Option.some.inj hpage).symm.trans ((hp _).trans ?_)
        simp only [htermId]
      · cases hpage
  have haligned : page % 0x1000 = 0 := by
    rw [hpage']
    split
    · rfl
    · exact backingPage_aligned _
  have hshown : s'.paging.userVideoPage = some page := by
    refine (congrArg VideoView.page (videoView_resume hres)).trans ?_
    rw [hcore]
    exact PageTables.userVideoPage_syscallVideoMapping _ haligned
  have hcur' : s'.con.curTermId = s.con.curTermId := by rw [con_resume hres, hcurTerm]
  have hnow' : s'.con.nowTermId = nextTermId s.con.nowTermId := by
    refine (congrArg VideoView.now (videoView_resume hres)).trans ?_
    rw [hcore]
    rfl
  have hback' : (s'.con.term (nextTermId s.con.nowTermId)).videoMem =
      backingPage (nextTermId s.con.nowTermId) := by
    rw [con_resume hres, hterm]
    exact hp _
  rw [hpage'] at hshown
  constructor
  · rw [hshown, hcur', hnow']
    split
    · rename_i hdisplayed
      simp [hdisplayed]
    · rename_i hdisplayed
      simp [hdisplayed, backingPage_ne_video]
  · rw [hshown, hcur', hnow', hback']
    intro hdisplayed
    rw [if_neg hdisplayed]

/-! ### Exactly when the relation is kept -/

/-- What the runs considered preserve: the rows are stacks with a process in each, and the
terminals have their pages. -/
def ShellsRun (s : Kernel) : Prop := ∃ n, Rows s.table n ∧ (∀ t, 0 < n t) ∧ BackingPages s

theorem shellsRun_step (hwf : WellFormed img) {e : Event} (hs : ShellsRun s)
    (hg : KeepsShells img s e) (h : step img s e = some s') : ShellsRun s' := by
  obtain ⟨n, hr, hpos, hp⟩ := hs
  obtain ⟨n', hr', hpos'⟩ := rows_step_pos hwf hr hg h
  exact ⟨n', hr', fun t => hpos' t (hpos t), backingPages_step hp h⟩

/-- A terminal switch keeps the page right exactly when it does not change whether the running
terminal is displayed. -/
theorem videoRight_switch_iff (hv : VideoRight s) {scancode : UInt8} {stale : Stale} {t : TermId}
    (htarget : s.con.switchTarget scancode = some t)
    (hview : s'.core.videoView = s.core.videoView) (hcur : s'.con.curTermId = some t) :
    VideoRight s' ↔ VideoGuard s (.key scancode stale) := by
  obtain ⟨hpage, hnow, hback⟩ := of_videoView hview
  constructor
  · intro hv' u hu
    obtain rfl : t = u := Option.some.inj (htarget.symm.trans hu)
    have hvisible := hv'.visible
    rw [hpage, hcur, hnow, hv.visible, Option.some.injEq] at hvisible
    exact hvisible.symm
  · intro hguard
    have hiff := hguard t htarget
    constructor
    · rw [hpage, hcur, hnow, hv.visible, Option.some.injEq]
      exact hiff.symm
    · rw [hpage, hcur, hnow, hback, ne_eq, Option.some.injEq, hiff]
      exact hv.backing

/-- **Step lemma.** A step keeps the page right exactly when the guard allows it. -/
theorem videoRight_step_iff {e : Event} (hs : ShellsRun s)
    (hv : VideoRight s) (h : step img s e = some s') : VideoRight s' ↔ VideoGuard s e := by
  obtain ⟨n, hr, hpos, hp⟩ := hs
  have hsame : e.isTick = false → (∀ scancode stale, e ≠ .key scancode stale) →
      (∀ p, e ≠ .vidmap p) → VideoRight s' := fun htick hkey hvidmap =>
    hv.of_eq (videoView_step htick hvidmap h) (curTermId_step htick hkey h)
  cases e with
  | tick stale => exact iff_of_true (videoRight_tick hr hp (hpos _) (step_tick h)) trivial
  | vidmap screenStart =>
    obtain ⟨hcon, ⟨hrefused, hpaging⟩ | ⟨hvalid, hpaging⟩⟩ := step_vidmap h
    · refine iff_of_true ?_ fun hvalid => absurd hvalid hrefused
      constructor
      · rw [hcon, hpaging]
        exact hv.visible
      · rw [hcon, hpaging]
        exact hv.backing
    · -- `vidmap` maps the screen itself, whoever calls it
      have hpage : s'.paging.userVideoPage = some video := by
        rw [hpaging]
        exact PageTables.userVideoPage_syscallVideoMapping _ (by decide)
      constructor
      · intro hv' _
        rw [← hcon]
        exact hv'.visible.mp hpage
      · intro hshown
        have hcur := hshown hvalid
        constructor
        · rw [hcon, hpage]
          exact iff_of_true rfl hcur
        · rw [hcon]
          exact fun hne => absurd hcur hne
  | key scancode stale =>
    obtain ⟨hview, hcur⟩ := keyboardInterrupt_view (step_key h)
    cases htarget : s.con.switchTarget scancode with
    | none =>
      rw [htarget, Option.none_or] at hcur
      exact iff_of_true (hv.of_eq hview hcur) fun t ht => by rw [htarget] at ht; cases ht
    | some t =>
      rw [htarget, Option.some_or] at hcur
      exact videoRight_switch_iff hv htarget hview hcur
  | rtc => exact iff_of_true (hsame rfl (by simp) (by simp)) trivial
  | execute command stale => exact iff_of_true (hsame rfl (by simp) (by simp)) trivial
  | halt status stale => exact iff_of_true (hsame rfl (by simp) (by simp)) trivial
  | exception message stale => exact iff_of_true (hsame rfl (by simp) (by simp)) trivial
  | «open» filename => exact iff_of_true (hsame rfl (by simp) (by simp)) trivial
  | close fd => exact iff_of_true (hsame rfl (by simp) (by simp)) trivial
  | read fd buf nbytes => exact iff_of_true (hsame rfl (by simp) (by simp)) trivial
  | write fd buf content nbytes => exact iff_of_true (hsame rfl (by simp) (by simp)) trivial
  | getargs buf nbytes => exact iff_of_true (hsame rfl (by simp) (by simp)) trivial
  | run => exact iff_of_true (hsame rfl (by simp) (by simp)) trivial

/-- After every run from boot the terminals have their pages. -/
theorem backingPages_of_run {s₀ : Kernel} {es : List Event}
    (hrun : run (step img) (boot s₀) es = some s) : BackingPages s :=
  run_invariant (fun _ _ _ hp h => backingPages_step hp h) (backingPages_boot s₀) hrun

/-- **The user video page.** From the first process switch after all three terminals have been
launched, in runs in which no root shell halts and no load faults, the page is the right one in
every state exactly when every step meets the guard. -/
theorem videoRight_along_iff (hwf : WellFormed img) {s₀ s₁ : Kernel} {es fs : List Event}
    {stale : Stale} (hg : Guarded (step img) (KeepsStacks img) (boot s₀) es)
    (hrun : run (step img) (boot s₀) es = some s₁) (hall : ∀ t, s₁.HasProcess t)
    (htick : step img s₁ (.tick stale) = some s) (hdom : Guarded (step img) (KeepsShells img) s fs)
    (hfs : (run (step img) s fs).isSome) :
    Along (step img) VideoRight s fs ↔ Guarded (step img) VideoGuard s fs := by
  obtain ⟨n, hr⟩ := rows_of_guarded_run hwf hg hrun
  have hp := backingPages_of_run hrun
  have hpos : ∀ t, 0 < n t := by
    intro t
    obtain ⟨i, hi, -⟩ := hall t
    have hcur : (s₁.con.term t).curPcbId = (n t : Int) - 1 := hr.cur t
    omega
  -- the tick finds a process, so it changes no row
  have hne : (s₁.con.term (nextTermId s₁.con.nowTermId)).curPcbId ≠ -1 := by
    obtain ⟨i, hi, -⟩ := hall (nextTermId s₁.con.nowTermId)
    omega
  have htable := table_switch hne (step_tick htick)
  have hs : ShellsRun s :=
    ⟨n, htable ▸ rows_saveContext hr, hpos, backingPages_step hp htick⟩
  exact along_iff_guarded (fun _ _ _ hs hd h => shellsRun_step hwf hs hd h)
    (fun _ _ _ hs hv _ h => videoRight_step_iff hs hv h) hs
    (videoRight_tick hr hp (hpos _) (step_tick htick)) hdom hfs

/-- Two more ticks bring the displayed terminal back, which calls `vidmap`. -/
theorem videoRight_along_iff_sample : ∃ s₁ s,
    run (step sampleImage) (boot powerOn) [.tick noStale, .tick noStale, .tick noStale] = some s₁ ∧
    step sampleImage s₁ (.tick noStale) = some s ∧
    Along (step sampleImage) VideoRight s [.tick noStale, .tick noStale, .vidmap 0x8000000] := by
  have hobs : (run (step sampleImage) (boot powerOn)
      [.tick noStale, .tick noStale, .tick noStale]).map (fun s =>
      (decide (∀ t, s.HasProcess t), (step sampleImage s (.tick noStale)).map fun s =>
        (decide (Guarded (step sampleImage) (KeepsShells sampleImage) s
            [.tick noStale, .tick noStale, .vidmap 0x8000000]),
          decide (Guarded (step sampleImage) VideoGuard s
            [.tick noStale, .tick noStale, .vidmap 0x8000000]),
          (run (step sampleImage) s [.tick noStale, .tick noStale, .vidmap 0x8000000]).isSome))) =
      some (true, some (true, true, true)) := by decide +kernel
  obtain ⟨s₁, hs₁, hobs⟩ := Option.map_eq_some_iff.mp hobs
  obtain ⟨hall, hobs⟩ := Prod.mk.inj hobs
  obtain ⟨s, hs, hobs⟩ := Option.map_eq_some_iff.mp hobs
  simp only [Prod.mk.injEq, decide_eq_true_eq] at hobs
  obtain ⟨hdom, hguard, hsome⟩ := hobs
  exact ⟨s₁, s, hs₁, hs, (videoRight_along_iff sampleImage_bootable.toWellFormed
    (show Guarded _ (KeepsStacks sampleImage) _ _ by decide +kernel) hs₁ (of_decide_eq_true hall)
    hs hdom hsome).mpr hguard⟩

/-- The fourth tick runs terminal 1 in the background; its shell calls `vidmap` and gets the
visible screen. -/
theorem not_videoRight_of_run : ¬ ∀ (img : Image), Bootable img →
    ∀ (s₀ s : Kernel) (es : List Event), run (step img) (boot s₀) es = some s →
      (∀ t, s.HasProcess t) → VideoRight s := by
  intro hvideo
  have hobs : (run (step sampleImage) (boot powerOn)
      [.tick noStale, .tick noStale, .tick noStale, .tick noStale, .vidmap 0x8000000]).map (fun s =>
      (decide (∀ t, s.HasProcess t), s.paging.userVideoPage, s.con.curTermId, s.con.nowTermId)) =
      some (true, some video, some 0, 1) := by decide +kernel
  obtain ⟨s, hs, hobs⟩ := Option.map_eq_some_iff.mp hobs
  simp only [Prod.mk.injEq, decide_eq_true_eq] at hobs
  obtain ⟨hall, hpage, hcur, hnow⟩ := hobs
  have hright := hvideo sampleImage sampleImage_bootable powerOn s _ hs hall
  have hdisplayed := hright.visible.mp hpage
  rw [hcur, hnow] at hdisplayed
  cases hdisplayed

end LinuxLikeKernel
