import LinuxLikeKernel.ProcessCalls

/-!
# Descriptor tables

The table of a process as a partial map on the descriptors 0 to 7, and what a descriptor that
`open` has returned is bound to. `open` marks its descriptor before it looks at the type of the
entry, and a type with no `case` leaves in the descriptor what was there.

## Main definitions

- `ActsAsMap` — a call does to the table what it should do to a partial map
- `ClosesDriver` — `close` finds no open descriptor with the operations of `error_fop`
- `bindStep` — a step, with a record of the entry each descriptor was opened for
- `ServedBy` — a descriptor is bound to the entry it was opened for
- `OpensDriver` — `open` takes a descriptor only for an entry whose type has a driver

## Main results

- `actsAsMap_iff` — when all the calls of a process act so
- `servedRight_along_iff` — when all the descriptors are bound so
-/

namespace LinuxLikeKernel
open ByteMemory Kernel Transition

variable {img : Image} {s s' : Kernel}

/-! ### A partial map -/

/-- The descriptors of the running process, as the system calls find them. -/
def Kernel.nowFds (s : Kernel) : Fin 8 → FileDesc := (s.pcb s.nowPcbId).fds

/-- No descriptor but this one changes. -/
def OnlyChanges (fds fds' : Fin 8 → FileDesc) (fd : Int) : Prop :=
  ∀ i : Fin 8, (i.val : Int) ≠ fd → fds' i = fds i

/-- What a call on descriptors should do: `open` takes the smallest closed descriptor and starts
it at position 0, `close` closes an open one from 2 on, `read` and `write` of a closed one do
nothing, and no other descriptor is touched. -/
def ActsAsMap (img : Image) (s : Kernel) (e : Event) (s' : Kernel) : Prop :=
  match e with
  | .open filename =>
    (readDentryByName img filename = none ∨ (∀ i : Fin 8, IsOpen s.nowFds i.val) →
      s' = s.ret (-1)) ∧
    (readDentryByName img filename ≠ none → ∀ fd : Fin 8, ¬ IsOpen s.nowFds fd.val →
      (∀ j < fd, IsOpen s.nowFds j.val) →
        2 ≤ fd.val ∧ s'.eax = fd.val ∧ IsOpen s'.nowFds fd.val ∧
          (s'.nowFds fd).filePosition = 0 ∧ OnlyChanges s.nowFds s'.nowFds fd.val)
  | .close fd =>
    (2 ≤ fd ∧ IsOpen s.nowFds fd →
      s'.eax = 0 ∧ ¬ IsOpen s'.nowFds fd ∧ OnlyChanges s.nowFds s'.nowFds fd) ∧
    (¬ (2 ≤ fd ∧ IsOpen s.nowFds fd) → s'.eax ≠ 0 ∧ s'.nowFds = s.nowFds)
  | .read fd _ _ =>
    (¬ IsOpen s.nowFds fd → s' = s.ret (-1)) ∧ OnlyChanges s.nowFds s'.nowFds fd ∧
      ∀ j, IsOpen s'.nowFds j ↔ IsOpen s.nowFds j
  | .write fd _ _ _ =>
    (¬ IsOpen s.nowFds fd → s' = s.ret (-1)) ∧ OnlyChanges s.nowFds s'.nowFds fd ∧
      ∀ j, IsOpen s'.nowFds j ↔ IsOpen s.nowFds j
  | _ => s'.nowFds = s.nowFds

/-- Descriptors 0 and 1 are open. -/
def StdOpen (s : Kernel) : Prop := IsOpen s.nowFds 0 ∧ IsOpen s.nowFds 1

/-- A `close` that closes something does not find `error_fop` there. -/
def ClosesDriver (s : Kernel) : Event → Prop
  | .close fd => 2 ≤ fd → ∀ i : Fin 8, (i.val : Int) = fd → (s.nowFds i).flags ≠ 0 →
      (s.nowFds i).optable ≠ .error
  | _ => True

instance (s : Kernel) : ∀ e, Decidable (ClosesDriver s e)
  | .close _ => inferInstanceAs (Decidable (_ → ∀ _ : Fin 8, _ → _ → _))
  | .open _ | .read .. | .write .. | .tick _ | .key .. | .rtc | .execute .. | .halt ..
  | .exception .. | .getargs .. | .vidmap _ | .run => inferInstanceAs (Decidable True)

/-! ### The smallest closed descriptor -/

theorem freeFd_eq_none_iff {p : Pcb} :
    freeFd p = none ↔ ∀ i : Fin 8, IsOpen p.fds i.val := by
  simp only [freeFd, List.find?_eq_none, List.mem_finRange, true_implies, decide_eq_true_eq,
    isOpen_val, ne_eq]

theorem freeFd_eq_some_iff {p : Pcb} {fd : Fin 8} :
    freeFd p = some fd ↔ ¬ IsOpen p.fds fd.val ∧ ∀ j < fd, IsOpen p.fds j.val := by
  simp only [freeFd, List.find?_eq_some_iff_getElem, decide_eq_true_eq, isOpen_val, ne_eq, not_not]
  refine and_congr_right fun _ => ⟨?_, fun h => ⟨fd.val, ?_, ?_, ?_⟩⟩
  · rintro ⟨k, hk, hfd, hbefore⟩ j hj
    have hval : k = fd.val := by simpa using congrArg Fin.val hfd
    simpa using hbefore j.val (by omega)
  · rw [List.length_finRange]
    exact fd.isLt
  · simp
  · intro j hj
    simpa using h ⟨j, by omega⟩ hj

/-! ### What a step does to the table -/

/-- The descriptor that `read` or `write` is called on. -/
def Event.accessed : Event → Option Int
  | .read fd _ _ => some fd
  | .write fd _ _ _ => some fd
  | _ => none

/-- The table after a step of one process. -/
inductive FdsStep (img : Image) (s s' : Kernel) : Event → Prop
  | openFails {filename : List UInt8}
      (hno : readDentryByName img filename = none ∨ freeFd (s.pcb s.nowPcbId) = none)
      (h : s' = s.ret (-1)) : FdsStep img s s' (.open filename)
  | opens {filename : List UInt8} {dentry : Dentry} {fd : Fin 8}
      (hd : readDentryByName img filename = some dentry)
      (hfree : freeFd (s.pcb s.nowPcbId) = some fd) (heax : s'.eax = fd.val)
      (h : s'.nowFds = Function.update s.nowFds fd ((s.nowFds fd).bind dentry)) :
      FdsStep img s s' (.open filename)
  | closeFails {fd : Int} (hno : ¬ (2 ≤ fd ∧ IsOpen s.nowFds fd)) (h : s' = s.ret (-1)) :
      FdsStep img s s' (.close fd)
  | closes {fd : Int} {i : Fin 8} (hi : (i.val : Int) = fd) (h2 : 2 ≤ fd)
      (hopen : (s.nowFds i).flags ≠ 0) (heax : s'.eax = FileOptable.close (s.nowFds i).optable)
      (h : s'.nowFds = Function.update s.nowFds i { s.nowFds i with flags := 0 }) :
      FdsStep img s s' (.close fd)
  | reads {fd nbytes position : Int} {buf : Nat} {i : Fin 8} (hi : (i.val : Int) = fd)
      (hopen : (s.nowFds i).flags ≠ 0)
      (h : s'.nowFds = Function.update s.nowFds i
        { s.nowFds i with filePosition := position }) :
      FdsStep img s s' (.read fd buf nbytes)
  | keeps {e : Event} (hopen : ∀ filename, e ≠ .open filename) (hclose : ∀ fd, e ≠ .close fd)
      (hno : ∀ fd, e.accessed = some fd → ¬ IsOpen s.nowFds fd → s' = s.ret (-1))
      (h : s'.nowFds = s.nowFds) : FdsStep img s s' e

theorem fds_rtcTick (s : Kernel) (t : TermId) (id : Nat) :
    ((s.rtcTick t).pcb id).fds = (s.pcb id).fds := by
  simp only [rtcTick]
  split
  · rw [pcb_setPcb]
    by_cases hid : id = s.pcbId t
    · rw [hid, Function.update_self]
    · rw [Function.update_of_ne hid]
  · rfl

/-- A call on a descriptor that is closed, or out of range. -/
theorem readDriver_of_not_isOpen {fd : Int} (buf : Nat) (h : ¬ IsOpen s.nowFds fd) :
    s.readDriver fd buf = none := by
  obtain ⟨-, hnone⟩ | ⟨i, hi, -, hopen, -⟩ := readDriver_cases s fd buf
  · exact hnone
  · exact absurd ⟨i, hi, hopen⟩ h

/-- A `read` or `write` that leaves the table alone, and does nothing on a closed descriptor. -/
theorem FdsStep.of_accessed {e : Event} {fd : Int} (he : e.accessed = some fd)
    (hclosed : ¬ IsOpen s.nowFds fd → s' = s.ret (-1)) (h : s'.nowFds = s.nowFds) :
    FdsStep img s s' e := by
  refine .keeps ?_ ?_ ?_ h
  · rintro filename rfl
    cases he
  · rintro fd' rfl
    cases he
  · intro fd' hfd'
    obtain rfl := Option.some.inj (he.symm.trans hfd')
    exact hclosed

/-- **Step lemma.** What the steps of one process do to its table. -/
theorem fds_step {e : Event} (hdom : OneProcess s e) (h : step img s e = some s') :
    FdsStep img s s' e := by
  have hid := nowPcbId_step hdom h
  have hfds : ∀ p, s'.pcb = Function.update s.pcb s.nowPcbId p → s'.nowFds = p.fds := by
    intro p hp
    rw [Kernel.nowFds, hid, hp, Function.update_self]
  have hkeep : s'.pcb = s.pcb → s'.nowFds = s.nowFds := by
    intro hp
    rw [Kernel.nowFds, hid, hp]
    rfl
  cases e with
  | «open» filename =>
    obtain rfl := Option.some.inj (step_call h rfl).2
    obtain ⟨hno, heq⟩ | ⟨dentry, fd, hd, hfree, heax, hpcb⟩ := open_cases img s filename
    · exact .openFails hno heq
    · exact .opens hd hfree heax ((hfds _ hpcb).trans (Pcb.fds_opened ..))
  | close fd =>
    obtain rfl := Option.some.inj (step_call h rfl).2
    obtain ⟨hno, heq⟩ | ⟨i, hi, h2, hopen, heq⟩ := close_cases s fd
    · exact .closeFails hno heq
    · have hpcb : (s.close fd).pcb = Function.update s.pcb s.nowPcbId
          ((s.pcb s.nowPcbId).setFd i { (s.pcb s.nowPcbId).fds i with flags := 0 }) := by
        rw [heq]
        rfl
      exact .closes hi h2 hopen (by rw [heq]; rfl) (hfds _ hpcb)
  | read fd buf nbytes =>
    obtain ⟨hcpu, h⟩ := step_call h rfl
    have hkeeps : s'.nowFds = s.nowFds → FdsStep img s s' (.read fd buf nbytes) := by
      refine .of_accessed rfl fun hclosed => ?_
      simp only [syscall, Kernel.read, readDriver_of_not_isOpen buf hclosed, Option.some.injEq] at h
      exact h.symm
    have hpcb := pcb_read hcpu h
    generalize hp : s'.pcb = pcb' at hpcb
    cases hpcb with
    | same => exact hkeeps (hkeep hp)
    | read hdriver =>
      -- the descriptor that `file_read` moves is in the PCB at the bottom of the stack
      obtain ⟨hi, hopen, -⟩ := readDriver_eq_some hdriver
      by_cases hcur : s.getCurPcb = s.nowPcbId
      · rw [hcur] at hp
        exact .reads hi hopen (hfds _ hp)
      · refine hkeeps ?_
        rw [Kernel.nowFds, hid, hp, Function.update_of_ne (Ne.symm hcur)]
        rfl
    | rtcRead => exact hkeeps ((hfds _ hp).trans rfl)
  | write fd buf content nbytes =>
    have h := (step_call h rfl).2
    have hkeeps : s'.nowFds = s.nowFds → FdsStep img s s' (.write fd buf content nbytes) := by
      refine .of_accessed rfl fun hclosed => ?_
      simp only [syscall, Kernel.write, readDriver_of_not_isOpen buf hclosed,
        Option.some.injEq] at h
      exact h.symm
    have hpcb : PcbStep img s (.write fd buf content nbytes) s'.pcb := pcb_write h
    generalize hp : s'.pcb = pcb' at hpcb
    cases hpcb with
    | same => exact hkeeps (hkeep hp)
    | rtcWrite => exact hkeeps ((hfds _ hp).trans rfl)
  | rtc =>
    refine .keeps (fun _ he => by cases he) (fun _ he => by cases he) (fun _ he => by cases he) ?_
    have hrtc : s' = s.rtcInterruptHandler := step_rtc h
    rw [Kernel.nowFds, hid, hrtc, rtcInterruptHandler, fds_rtcTick, fds_rtcTick, fds_rtcTick]
    rfl
  | _ =>
    refine .keeps (fun _ he => by cases he) (fun _ he => by cases he) (fun _ he => by cases he)
      (hkeep ?_)
    have hpcb := pcb_step hdom h
    generalize hp : s'.pcb = pcb' at hpcb
    cases hpcb
    rfl

/-! ### The table of a process -/

/-- An update of one descriptor changes no other. -/
theorem onlyChanges_update {fds : Fin 8 → FileDesc} {i : Fin 8} {fd : Int}
    (hi : (i.val : Int) = fd) (d : FileDesc) : OnlyChanges fds (Function.update fds i d) fd := by
  intro j hj
  refine Function.update_of_ne (fun h => hj ?_) _ _
  rw [h]
  exact hi

/-- What is open after an update of one descriptor. -/
theorem isOpen_update {fds : Fin 8 → FileDesc} {i : Fin 8} {d : FileDesc} {fd : Int} :
    IsOpen (Function.update fds i d) fd ↔
      if (i.val : Int) = fd then d.flags ≠ 0 else IsOpen fds fd := by
  by_cases hi : (i.val : Int) = fd
  · subst hi
    rw [if_pos rfl, isOpen_val, Function.update_self]
  · rw [if_neg hi]
    have hne : ∀ j : Fin 8, (j.val : Int) = fd → j ≠ i := by
      rintro j hj rfl
      exact hi hj
    constructor
    · rintro ⟨j, hj, hopen⟩
      rw [Function.update_of_ne (hne j hj)] at hopen
      exact ⟨j, hj, hopen⟩
    · rintro ⟨j, hj, hopen⟩
      refine ⟨j, hj, ?_⟩
      rw [Function.update_of_ne (hne j hj)]
      exact hopen

/-- **Step lemma.** Descriptors 0 and 1 stay open. -/
theorem stdOpen_step {e : Event} (hstd : StdOpen s) (hdom : OneProcess s e)
    (h : step img s e = some s') : StdOpen s' := by
  have hkeep : (∀ fd : Int, fd < 2 → IsOpen s.nowFds fd → IsOpen s'.nowFds fd) → StdOpen s' :=
    fun hall => ⟨hall 0 (by decide) hstd.1, hall 1 (by decide) hstd.2⟩
  refine hkeep fun fd hlow hopen => ?_
  cases fds_step hdom h with
  | openFails hno heq => rwa [heq]
  | opens hd hfree heax hfds =>
    rw [hfds, isOpen_update]
    split
    · rw [FileDesc.flags_bind]
      decide
    · exact hopen
  | closeFails hno heq => rwa [heq]
  | closes hi h2 hclosed heax hfds =>
    rw [hfds, isOpen_update, if_neg (by omega)]
    exact hopen
  | reads hi hread hfds =>
    rw [hfds, isOpen_update]
    split
    · exact hread
    · exact hopen
  | keeps hopens hcloses hno hfds => rwa [hfds]

theorem close_eq_zero_iff {driver : FileOptable} :
    FileOptable.close driver = 0 ↔ driver ≠ .error := by
  cases driver <;> simp [FileOptable.close]

/-- A closed descriptor is none of the first two. -/
theorem StdOpen.two_le (hstd : StdOpen s) {fd : Fin 8} (hclosed : ¬ IsOpen s.nowFds fd.val) :
    2 ≤ fd.val := by
  by_contra hlow
  have hval : fd.val = 0 ∨ fd.val = 1 := by omega
  rcases hval with h0 | h1
  · exact hclosed (by rw [h0]; exact hstd.1)
  · exact hclosed (by rw [h1]; exact hstd.2)

/-- An `open` that takes the smallest closed descriptor. -/
theorem actsAsMap_opens {filename : List UInt8} {dentry : Dentry} {fd : Fin 8} (hstd : StdOpen s)
    (hd : readDentryByName img filename = some dentry)
    (hfree : freeFd (s.pcb s.nowPcbId) = some fd) (heax : s'.eax = fd.val)
    (hfds : s'.nowFds = Function.update s.nowFds fd ((s.nowFds fd).bind dentry)) :
    ActsAsMap img s (.open filename) s' := by
  have hclosed := (freeFd_eq_some_iff.mp hfree).1
  refine ⟨?_, fun _ fd' hclosed' hbefore' => ?_⟩
  · rintro (hnone | hfull)
    · rw [hd] at hnone
      cases hnone
    · exact absurd (hfull fd) hclosed
  · obtain rfl : fd' = fd := by
      have hfree' := freeFd_eq_some_iff.mpr ⟨hclosed', hbefore'⟩
      exact Option.some.inj (hfree'.symm.trans hfree)
    refine ⟨hstd.two_le hclosed, heax, ?_, ?_, ?_⟩
    · rw [hfds, isOpen_update, if_pos rfl, FileDesc.flags_bind]
      decide
    · rw [hfds, Function.update_self, FileDesc.filePosition_bind]
    · rw [hfds]
      exact onlyChanges_update rfl _

/-- A `close` of an open descriptor acts so if the driver has a `close` that returns 0. -/
theorem actsAsMap_closes_iff {fd : Int} {i : Fin 8} (hi : (i.val : Int) = fd) (h2 : 2 ≤ fd)
    (hopen : (s.nowFds i).flags ≠ 0) (heax : s'.eax = FileOptable.close (s.nowFds i).optable)
    (hfds : s'.nowFds = Function.update s.nowFds i { s.nowFds i with flags := 0 }) :
    ActsAsMap img s (.close fd) s' ↔ ClosesDriver s (.close fd) := by
  have hclosed : ¬ IsOpen s'.nowFds fd := by
    rw [hfds, isOpen_update, if_pos hi]
    exact not_not.mpr rfl
  have honly : OnlyChanges s.nowFds s'.nowFds fd := by
    rw [hfds]
    exact onlyChanges_update hi _
  constructor
  · rintro ⟨hyes, -⟩ - j hj -
    obtain rfl : j = i := by omega
    rw [← close_eq_zero_iff, ← heax]
    exact (hyes ⟨h2, j, hj, hopen⟩).1
  · intro hdriver
    refine ⟨fun _ => ⟨?_, hclosed, honly⟩, fun hno => absurd ⟨h2, i, hi, hopen⟩ hno⟩
    rw [heax]
    exact close_eq_zero_iff.mpr (hdriver h2 i hi hopen)

/-- **Step lemma.** A step acts as on a partial map exactly if a close finds a driver. -/
theorem actsAsMap_step_iff {e : Event} (hstd : StdOpen s) (hdom : OneProcess s e)
    (h : step img s e = some s') : ActsAsMap img s e s' ↔ ClosesDriver s e := by
  cases fds_step hdom h with
  | openFails hno heq =>
    refine iff_of_true ⟨fun _ => heq, fun hfound fd hclosed _ => ?_⟩ trivial
    have hfull := freeFd_eq_none_iff.mp (hno.resolve_left hfound)
    exact absurd (hfull fd) hclosed
  | opens hd hfree heax hfds =>
    exact iff_of_true (actsAsMap_opens hstd hd hfree heax hfds) trivial
  | @closeFails fd hno heq =>
    refine iff_of_true ⟨fun hyes => absurd hyes hno, fun _ => ?_⟩ fun h2 i hi hopen =>
      absurd ⟨h2, i, hi, hopen⟩ hno
    rw [heq]
    exact ⟨(by decide : (-1 : Int) ≠ 0), rfl⟩
  | closes hi h2 hopen heax hfds => exact actsAsMap_closes_iff hi h2 hopen heax hfds
  | @reads fd nbytes position buf i hi hopen hfds =>
    refine iff_of_true ⟨fun hno => absurd ⟨i, hi, hopen⟩ hno, ?_, fun j => ?_⟩ trivial
    · rw [hfds]
      exact onlyChanges_update hi _
    · rw [hfds, isOpen_update]
      split
      · rename_i hj
        exact iff_of_true hopen ⟨i, hj, hopen⟩
      · exact Iff.rfl
  | keeps hopens hcloses hno hfds =>
    have honly : ∀ fd, OnlyChanges s.nowFds s'.nowFds fd := fun fd i _ => by rw [hfds]
    have hsame : ∀ j, IsOpen s'.nowFds j ↔ IsOpen s.nowFds j := fun j => by rw [hfds]
    cases e with
    | «open» filename => exact absurd rfl (hopens filename)
    | close fd => exact absurd rfl (hcloses fd)
    | read fd buf nbytes => exact iff_of_true ⟨hno fd rfl, honly fd, hsame⟩ trivial
    | write fd buf content nbytes => exact iff_of_true ⟨hno fd rfl, honly fd, hsame⟩ trivial
    | _ => exact iff_of_true hfds trivial

theorem stdOpen_of_fresh (h : s.nowFds = freshFds) : StdOpen s := by
  rw [StdOpen, h]
  exact ⟨⟨0, rfl, by decide⟩, ⟨1, rfl, by decide⟩⟩

/-- **The table of a process.** In a run of one process from the table that `execute` sets up,
descriptors 0 and 1 stay open, and all steps act as on a partial map exactly if every close
finds a driver. -/
theorem actsAsMap_iff {es : List Event} (hfresh : s.nowFds = freshFds)
    (hdom : Guarded (step img) OneProcess s es) (hrun : run (step img) s es = some s') :
    (Along (step img) StdOpen s es ∧
      Guarded (step img) (fun s e => ∀ s', step img s e = some s' → ActsAsMap img s e s') s es) ↔
      Guarded (step img) ClosesDriver s es := by
  have hstd := stdOpen_of_fresh hfresh
  have hstep : ∀ s e s', StdOpen s → OneProcess s e → step img s e = some s' → StdOpen s' :=
    fun _ _ _ hs hd h => stdOpen_step hs hd h
  have halong : Along (step img) StdOpen s es := Guarded.along hstep hstd hdom
  rw [and_iff_right halong]
  refine guarded_iff_guarded hstep (fun s e m hs hd h => ?_) hstd hdom (by rw [hrun]; rfl)
  rw [← actsAsMap_step_iff hs hd h]
  constructor
  · exact fun hall => hall m h
  · intro hm m' hm'
    rwa [← Option.some.inj (h.symm.trans hm')]

/-- The ticks that launch the three shells; terminal 0 is displayed and runs. -/
def launchEvents : List Event := [.tick noStale, .tick noStale, .tick noStale]

/-- The shell of terminal 0 opens, reads and closes the directory. -/
def directoryEvents : List Event :=
  [.open (text ['.']), .read 2 0x8000000 32, .close 2, .close 2, .close 0]

theorem actsAsMap_iff_sample : ∃ s, run (step sampleImage) (boot powerOn) launchEvents = some s ∧
    Along (step sampleImage) StdOpen s directoryEvents ∧
    Guarded (step sampleImage)
      (fun s e => ∀ s', step sampleImage s e = some s' → ActsAsMap sampleImage s e s') s
      directoryEvents := by
  have hobs : (run (step sampleImage) (boot powerOn) launchEvents).map (fun s =>
      (decide ((∀ i, s.nowFds i = freshFds i) ∧
        Guarded (step sampleImage) OneProcess s directoryEvents ∧
        Guarded (step sampleImage) ClosesDriver s directoryEvents),
        (run (step sampleImage) s directoryEvents).isSome)) = some (true, true) := by
    decide +kernel
  obtain ⟨s, hs, hobs⟩ := Option.map_eq_some_iff.mp hobs
  simp only [Prod.mk.injEq, decide_eq_true_eq] at hobs
  obtain ⟨⟨hfresh, hdom, hguard⟩, hrun⟩ := hobs
  obtain ⟨s', hs'⟩ := Option.isSome_iff_exists.mp hrun
  exact ⟨s, hs, (actsAsMap_iff (funext hfresh) hdom hs').mpr hguard⟩

/-- The sample image with an entry `x` of a type that has no driver. -/
def typelessImage : Image := fun a =>
  (([(0, 3), (192, 120), (224, 3)] ++ sampleBytes).find? fun w : Store => w.1 = a).elim 0 Prod.snd

/-- `open` of `x` returns 2, and the close of it returns -1. -/
theorem not_actsAsMap : ¬ ∀ (img : Image) (s₀ s s' : Kernel) (es fs : List Event),
    run (step img) (boot s₀) es = some s → s.nowFds = freshFds →
    Guarded (step img) OneProcess s fs → run (step img) s fs = some s' →
      Along (step img) StdOpen s fs ∧
      Guarded (step img) (fun s e => ∀ s', step img s e = some s' → ActsAsMap img s e s')
        s fs := by
  intro hactsAsMap
  let events : List Event := [.open (text ['x']), .close 2]
  have hobs : (run (step typelessImage) (boot powerOn) launchEvents).map (fun s =>
      (decide ((∀ i, s.nowFds i = freshFds i) ∧ Guarded (step typelessImage) OneProcess s events),
        (step typelessImage s (.open (text ['x']))).map fun m =>
          ((m.nowFds 2).flags, (step typelessImage m (.close 2)).map fun s' => s'.eax))) =
      some (true, some (1, some (-1))) := by decide +kernel
  obtain ⟨s, hs, hobs⟩ := Option.map_eq_some_iff.mp hobs
  obtain ⟨hstart, hobs⟩ := Prod.mk.inj hobs
  obtain ⟨hfresh, hdom⟩ := of_decide_eq_true hstart
  obtain ⟨m, hm, hobs⟩ := Option.map_eq_some_iff.mp hobs
  obtain ⟨hflags, hobs⟩ := Prod.mk.inj hobs
  obtain ⟨s', hs', heax⟩ := Option.map_eq_some_iff.mp hobs
  have hrun : run (step typelessImage) s events = some s' := by
    rw [run, hm, Option.bind_some, run, hs', Option.bind_some, run]
  obtain ⟨-, -, hrest⟩ :=
    hactsAsMap typelessImage powerOn s s' _ events hs (funext hfresh) hdom hrun
  have hopen : IsOpen m.nowFds 2 := ⟨2, rfl, by rw [hflags]; decide⟩
  have hzero := (((hrest m hm).1 s' hs').1 ⟨by decide, hopen⟩).1
  rw [heax] at hzero
  cases hzero

/-! ### What a descriptor is bound to -/

/-- The driver of a type of entries. -/
def driverOf : Nat → Option FileOptable
  | 0 => some .rtc
  | 1 => some .dir
  | 2 => some .file
  | _ => none

/-- The entry that a descriptor was opened for, and that it has not been read since. -/
structure Binding where
  dentry : Dentry
  unread : Bool

abbrev Bindings := Fin 8 → Option Binding

/-- `open` binds the descriptor it returns, `close` ends that. -/
def logBinding (img : Image) (_ : Kernel) (e : Event) (s' : Kernel) (log : Bindings) : Bindings :=
  fun i =>
    match e with
    | .open filename =>
      if s'.eax = i.val then (readDentryByName img filename).map fun dentry => ⟨dentry, true⟩
      else log i
    | .close fd => if 2 ≤ fd ∧ (i.val : Int) = fd then none else log i
    | .read fd _ _ =>
      if (i.val : Int) = fd then (log i).map fun b => { b with unread := false } else log i
    | _ => log i

/-- A step, with a record of what the descriptors were opened for. -/
def bindStep (img : Image) : Kernel × Bindings → Event → Option (Kernel × Bindings) :=
  logged (step img) (logBinding img)

/-- Reads and writes go to the driver of the entry's type, and those of a file to the entry's
inode, from position 0 on. -/
structure ServedBy (s : Kernel) (i : Fin 8) (b : Binding) : Prop where
  dispatch : ∃ driver, driverOf b.dentry.filetype = some driver ∧
    ∀ buf ≠ 0, s.readDriver i.val buf = some (i, driver)
  inode : b.dentry.filetype = 2 → (s.nowFds i).inode = b.dentry.inode
  position : b.dentry.filetype = 2 → b.unread = true → (s.nowFds i).filePosition = 0

/-- Every descriptor that is open is served so. -/
def ServedRight (x : Kernel × Bindings) : Prop := ∀ i b, x.2 i = some b → ServedBy x.1 i b

/-- `open` takes a descriptor only for an entry whose type has a driver. -/
def OpensDriver (img : Image) (x : Kernel × Bindings) : Event → Prop
  | .open filename => ∀ dentry ∈ readDentryByName img filename,
      (freeFd (x.1.pcb x.1.nowPcbId)).isSome → dentry.filetype ≤ 2
  | _ => True

instance (img : Image) (x : Kernel × Bindings) : ∀ e, Decidable (OpensDriver img x e)
  | .open _ => Option.decidableForallMem _
  | .close _ | .read .. | .write .. | .tick _ | .key .. | .rtc | .execute .. | .halt ..
  | .exception .. | .getargs .. | .vidmap _ | .run => inferInstanceAs (Decidable True)

/-- What the record of a descriptor says about its entry of the table. -/
structure Serves (d : FileDesc) (b : Binding) : Prop where
  flags : d.flags ≠ 0
  driver : driverOf b.dentry.filetype = some d.optable
  inode : b.dentry.filetype = 2 → d.inode = b.dentry.inode
  position : b.dentry.filetype = 2 → b.unread = true → d.filePosition = 0

theorem servedBy_iff {i : Fin 8} {b : Binding} : ServedBy s i b ↔ Serves (s.nowFds i) b := by
  constructor
  · rintro ⟨⟨driver, hdriver, hall⟩, hinode, hposition⟩
    obtain ⟨-, hopen, hoptable⟩ := readDriver_eq_some (hall 1 (by decide))
    refine ⟨hopen, ?_, hinode, hposition⟩
    rw [hdriver, ← hoptable]
    rfl
  · rintro ⟨hopen, hdriver, hinode, hposition⟩
    refine ⟨⟨_, hdriver, fun buf hbuf => ?_⟩, hinode, hposition⟩
    obtain ⟨hno, -⟩ | ⟨j, hj, -, -, hsome⟩ := readDriver_cases s i.val buf
    · exact absurd ⟨hbuf, isOpen_val.mpr hopen⟩ hno
    · obtain rfl : j = i := by omega
      exact hsome

/-- A read of a file that has been opened and not read yet. -/
theorem read_of_servedBy {i : Fin 8} {b : Binding} {buf : Nat} {nbytes : Int}
    (hs : ServedBy s i b) (hfile : b.dentry.filetype = 2) (hunread : b.unread = true)
    (hcur : s.getCurPcb = s.nowPcbId) (hi : i ≠ 0) (hbuf : buf ≠ 0)
    (h : s.read img i.val buf nbytes = some s') :
    s'.eax = (readData img b.dentry.inode 0 buf (uint32 nbytes)).ret := by
  obtain ⟨driver, hdriver, hall⟩ := hs.dispatch
  rw [hfile] at hdriver
  obtain rfl := Option.some.inj hdriver
  have hinode := hs.inode hfile
  have hposition := hs.position hfile hunread
  simp only [Kernel.nowFds] at hinode hposition
  have hval : i.val ≠ 0 := fun h0 => hi (Fin.ext h0)
  simp only [Kernel.read, hall buf hbuf, hcur, fileRead, ne_eq, hval, hbuf, not_false_eq_true,
    and_self, if_true, hinode, hposition] at h
  split at h
  · rw [← Option.some.inj h]
    rfl
  · cases h

theorem driverOf_isSome_iff {filetype : Nat} : (driverOf filetype).isSome ↔ filetype ≤ 2 := by
  by_cases hle : filetype ≤ 2
  · have htype : filetype = 0 ∨ filetype = 1 ∨ filetype = 2 := by omega
    rcases htype with rfl | rfl | rfl <;> decide
  · have hnone : driverOf filetype = none := by
      simp only [driverOf]
      split
      · omega
      · omega
      · omega
      · rfl
    simp [hnone, hle]

/-- A descriptor that has just been opened for an entry is bound to it alone exactly if its type
has a driver. -/
theorem serves_bind_iff {d : FileDesc} {dentry : Dentry} :
    Serves (d.bind dentry) ⟨dentry, true⟩ ↔ dentry.filetype ≤ 2 := by
  constructor
  · intro h
    apply driverOf_isSome_iff.mp
    rw [h.driver]
    rfl
  · intro hle
    have htype : dentry.filetype = 0 ∨ dentry.filetype = 1 ∨ dentry.filetype = 2 := by omega
    refine ⟨by simp, ?_, ?_, fun _ _ => FileDesc.filePosition_bind ..⟩
    · rcases htype with h | h | h <;> simp [FileDesc.bind, driverOf, h]
    · rcases htype with h | h | h <;> simp [FileDesc.bind, h]

/-- After a read nothing is said about the position any more. -/
theorem Serves.read {d : FileDesc} {b : Binding} (h : Serves d b) (position : Int) :
    Serves { d with filePosition := position } { b with unread := false } :=
  ⟨h.flags, h.driver, h.inode, fun _ hunread => by cases hunread⟩

/-- A table and its record that change in one place. -/
theorem serves_update_iff {fds : Fin 8 → FileDesc} {log : Bindings} {i : Fin 8} {d : FileDesc}
    {l : Option Binding} (h : ∀ j b, log j = some b → Serves (fds j) b) :
    (∀ j b, Function.update log i l j = some b → Serves (Function.update fds i d j) b) ↔
      ∀ b, l = some b → Serves d b := by
  constructor
  · intro hall b hb
    have hi := hall i b ((Function.update_self ..).trans hb)
    rwa [Function.update_self] at hi
  · intro hi j b hb
    by_cases hj : j = i
    · subst hj
      rw [Function.update_self] at hb ⊢
      exact hi b hb
    · rw [Function.update_of_ne hj] at hb ⊢
      exact h j b hb

theorem logBinding_open {filename : List UInt8} {dentry : Dentry} {fd : Fin 8} (log : Bindings)
    (hd : readDentryByName img filename = some dentry) (heax : s'.eax = fd.val) :
    logBinding img s (.open filename) s' log = Function.update log fd (some ⟨dentry, true⟩) := by
  funext i
  simp only [logBinding, heax, hd, Option.map_some]
  by_cases hi : i = fd
  · rw [if_pos (by rw [hi]), hi, Function.update_self]
  · rw [if_neg (by omega), Function.update_of_ne hi]

theorem logBinding_close {fd : Int} {i : Fin 8} (log : Bindings) (hi : (i.val : Int) = fd)
    (h2 : 2 ≤ fd) : logBinding img s (.close fd) s' log = Function.update log i none := by
  funext j
  simp only [logBinding]
  by_cases hj : j = i
  · rw [if_pos ⟨h2, by omega⟩, hj, Function.update_self]
  · rw [if_neg (by omega), Function.update_of_ne hj]

theorem logBinding_read {fd nbytes : Int} {buf : Nat} {i : Fin 8} (log : Bindings)
    (hi : (i.val : Int) = fd) : logBinding img s (.read fd buf nbytes) s' log =
      Function.update log i ((log i).map fun b => { b with unread := false }) := by
  funext j
  simp only [logBinding]
  by_cases hj : j = i
  · rw [if_pos (by omega), hj, Function.update_self]
  · rw [if_neg (by omega), Function.update_of_ne hj]

/-- The record of a call that leaves the table alone says nothing new. -/
theorem serves_of_keeps {fds : Fin 8 → FileDesc} {log : Bindings} {e : Event}
    (hopen : ∀ filename, e ≠ .open filename) (h : ∀ i b, log i = some b → Serves (fds i) b)
    {i : Fin 8} {b : Binding} (hb : logBinding img s e s' log i = some b) : Serves (fds i) b := by
  cases e with
  | «open» filename => exact absurd rfl (hopen filename)
  | close fd =>
    simp only [logBinding] at hb
    split at hb
    · cases hb
    · exact h i b hb
  | read fd buf nbytes =>
    simp only [logBinding] at hb
    split at hb
    · obtain ⟨b', hb', rfl⟩ := Option.map_eq_some_iff.mp hb
      exact (h i b' hb').read (fds i).filePosition
    · exact h i b hb
  | _ => exact h i b hb

/-- **Step lemma.** The descriptors stay bound right exactly if `open` has a driver for the
entry. -/
theorem servedRight_step_iff {x x' : Kernel × Bindings} {e : Event} (hright : ServedRight x)
    (hdom : OneProcess x.1 e) (h : bindStep img x e = some x') :
    ServedRight x' ↔ OpensDriver img x e := by
  obtain ⟨s, log⟩ := x
  obtain ⟨s', log'⟩ := x'
  obtain ⟨hs, hlog⟩ := logged_eq_some.mp h
  simp only at hs hlog hdom
  subst hlog
  simp only [ServedRight, servedBy_iff] at hright ⊢
  cases fds_step hdom hs with
  | @openFails filename hno heq =>
    have hsame : logBinding img s (.open filename) s' log = log := by
      funext i
      simp only [logBinding, heq, Kernel.ret]
      exact if_neg (by omega)
    rw [hsame, heq]
    refine iff_of_true hright fun dentry hd hfree => ?_
    rcases hno with hnone | hnone
    · rw [hnone] at hd
      cases hd
    · rw [hnone] at hfree
      cases hfree
  | @opens filename dentry fd hd hfree heax hfds =>
    have hguard : OpensDriver img (s, log) (.open filename) ↔ dentry.filetype ≤ 2 := by
      constructor
      · exact fun hall => hall dentry hd (by rw [hfree]; rfl)
      · rintro hle dentry' hd' -
        rw [hd] at hd'
        rwa [← Option.some.inj hd']
    rw [hguard, logBinding_open log hd heax, hfds, serves_update_iff hright, ← serves_bind_iff]
    constructor
    · exact fun hall => hall _ rfl
    · rintro hserves b hb
      rwa [← Option.some.inj hb]
  | closeFails hno heq =>
    refine iff_of_true (fun i b hb => ?_) trivial
    rw [heq]
    exact serves_of_keeps (fun _ he => by cases he) hright hb
  | closes hi h2 hopen heax hfds =>
    rw [logBinding_close log hi h2, hfds, serves_update_iff hright]
    refine iff_of_true (fun b hb => ?_) trivial
    cases hb
  | reads hi hopen hfds =>
    rw [logBinding_read log hi, hfds, serves_update_iff hright]
    refine iff_of_true (fun b hb => ?_) trivial
    obtain ⟨b', hb', rfl⟩ := Option.map_eq_some_iff.mp hb
    exact (hright _ b' hb').read _
  | keeps hopens hcloses hno hfds =>
    refine iff_of_true (fun i b hb => ?_) ?_
    · rw [hfds]
      exact serves_of_keeps hopens hright hb
    · cases e with
      | «open» filename => exact absurd rfl (hopens filename)
      | _ => trivial

/-- The log only watches: a logged run goes through the states of the run. -/
theorem fst_run_bindStep (img : Image) (x : Kernel × Bindings) (es : List Event) :
    (run (bindStep img) x es).map Prod.fst = run (step img) x.1 es := fst_run_logged ..

/-- **What a descriptor is bound to.** All along a run of one process, whatever its table was
before, every descriptor is bound to the entry it was opened for alone exactly if `open` takes
descriptors only for entries whose types have drivers. -/
theorem servedRight_along_iff {es : List Event}
    (hdom : Guarded (bindStep img) (fun x e => OneProcess x.1 e) (s, fun _ => none) es)
    (hrun : (run (bindStep img) (s, fun _ => none) es).isSome) :
    Along (bindStep img) ServedRight (s, fun _ => none) es ↔
      Guarded (bindStep img) (OpensDriver img) (s, fun _ => none) es := by
  refine along_iff_guarded (I := fun _ => True) (fun _ _ _ _ _ _ => trivial)
    (fun x e x' _ hP hd h => servedRight_step_iff hP hd h) trivial ?_ hdom hrun
  intro i b hb
  cases hb

/-- A slot that is used again. -/
def reopenEvents : List Event :=
  [.open (text ['s', 'h', 'e', 'l', 'l']), .read 2 0x8000000 8, .close 2, .open (text ['.'])]

theorem servedRight_along_iff_sample : ∃ s,
    run (step sampleImage) (boot powerOn) launchEvents = some s ∧
      Along (bindStep sampleImage) ServedRight (s, fun _ => none) reopenEvents := by
  have hobs : (run (step sampleImage) (boot powerOn) launchEvents).map (fun s =>
      (decide (Guarded (bindStep sampleImage) (fun x e => OneProcess x.1 e) (s, fun _ => none)
          reopenEvents ∧
        Guarded (bindStep sampleImage) (OpensDriver sampleImage) (s, fun _ => none)
          reopenEvents),
        (run (bindStep sampleImage) (s, fun _ => none) reopenEvents).isSome)) =
      some (true, true) := by decide +kernel
  obtain ⟨s, hs, hobs⟩ := Option.map_eq_some_iff.mp hobs
  obtain ⟨hguards, hrun⟩ := Prod.mk.inj hobs
  obtain ⟨hdom, hguard⟩ := of_decide_eq_true hguards
  exact ⟨s, hs, (servedRight_along_iff hdom hrun).mpr hguard⟩

/-- The entry `x`, which has no driver, is served by the driver of the file that was open in its
slot before. -/
theorem not_servedRight : ¬ ∀ (img : Image) (s₀ s : Kernel) (x : Kernel × Bindings)
    (es fs : List Event), run (step img) (boot s₀) es = some s → s.nowFds = freshFds →
      Guarded (bindStep img) (fun x e => OneProcess x.1 e) (s, fun _ => none) fs →
      run (bindStep img) (s, fun _ => none) fs = some x → ServedRight x := by
  intro hserved
  let events : List Event :=
    [.open (text ['s', 'h', 'e', 'l', 'l']), .close 2, .open (text ['x'])]
  have hobs : (run (step typelessImage) (boot powerOn) launchEvents).map (fun s =>
      (decide ((∀ i, s.nowFds i = freshFds i) ∧
          Guarded (bindStep typelessImage) (fun x e => OneProcess x.1 e) (s, fun _ => none)
            events),
        (run (bindStep typelessImage) (s, fun _ => none) events).map fun x =>
          (x.2 2).map fun b => b.dentry.filetype)) = some (true, some (some 3)) := by
    decide +kernel
  obtain ⟨s, hs, hobs⟩ := Option.map_eq_some_iff.mp hobs
  obtain ⟨hstart, hobs⟩ := Prod.mk.inj hobs
  obtain ⟨hfresh, hdom⟩ := of_decide_eq_true hstart
  obtain ⟨x, hx, hobs⟩ := Option.map_eq_some_iff.mp hobs
  obtain ⟨b, hb, htype⟩ := Option.map_eq_some_iff.mp hobs
  obtain ⟨driver, hdriver, -⟩ :=
    (hserved typelessImage powerOn s x _ events hs (funext hfresh) hdom hx 2 b hb).dispatch
  rw [htype] at hdriver
  cases hdriver

end LinuxLikeKernel
