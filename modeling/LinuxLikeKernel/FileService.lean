import LinuxLikeKernel.Descriptors
import LinuxLikeKernel.Library.Client
import LinuxLikeKernel.SequentialReads

/-!
# The file service of a process

What a process can rely on when it opens, reads and closes files and asks for its arguments: a
table of handles of its own, over a volume that maps names to files. Nothing in it depends on what
other processes do. The kernel provides this service to each of its processes, in whatever order
their calls, the interrupts and the switches come.

## Main definitions

- `Volume`, `Session`, `FileService` — the service, without processes and images
- `logReplies` — a step that records the calls of one process
- `SparesFiles` — a step that leaves the files of a process to it

## Main results

- `fileService_step` — a step is a call to the service, or the session is as before
- `refines_fileService` — the calls of a process, in any run
-/

namespace LinuxLikeKernel
open ByteMemory Kernel Transition

/-! ### The service -/

/-- What a descriptor stands for. A file is given by its contents and the position of the next
read. -/
inductive Handle
  | keyboard
  | screen
  | clock
  | directory
  | file (contents : List UInt8) (position : Nat)
  deriving DecidableEq

/-- What there is to open under a name. -/
abbrev Volume := List UInt8 → Option Handle

/-- What a process has of the service. -/
@[ext] structure Session where
  handles : Fin 8 → Option Handle
  args : List UInt8

namespace Session

def set (σ : Session) (fd : Fin 8) (h : Option Handle) : Session :=
  { σ with handles := Function.update σ.handles fd h }

/-- The first descriptor that is closed. -/
def free (σ : Session) : Option (Fin 8) :=
  (List.finRange 8).find? fun fd => (σ.handles fd).isNone

theorem toNat_lt_eight {fd : Int} (h : 0 ≤ fd ∧ fd < 8) : fd.toNat < 8 :=
  (Int.toNat_lt h.1).mpr h.2

/-- The open descriptor with this number. -/
def find (σ : Session) (fd : Int) : Option (Fin 8 × Handle) :=
  if h : 0 ≤ fd ∧ fd < 8 then
    (σ.handles ⟨fd.toNat, toNat_lt_eight h⟩).map fun x => (⟨fd.toNat, toNat_lt_eight h⟩, x)
  else none

end Session

/-- The next bytes of a file. -/
def chunkAt (contents : List UInt8) (position : Nat) (nbytes : Int) : List UInt8 :=
  (contents.drop position).take (uint32 nbytes)

/-- The reply of the service to a call, and the session after it. Nothing is said of what comes
from the keyboard, the clock and the directory, which all processes share. -/
def FileService (vol : Volume) (σ : Session) (e : Event) (r : Effect) (τ : Session) : Prop :=
  match e with
  | .open filename =>
    match vol filename, σ.free with
    | some h, some fd => r = ⟨fd.val, []⟩ ∧ τ = σ.set fd (some h)
    | _, _ => r = ⟨-1, []⟩ ∧ τ = σ
  | .close fd =>
    match σ.find fd with
    | some (i, _) => if 2 ≤ fd then r = ⟨0, []⟩ ∧ τ = σ.set i none else r = ⟨-1, []⟩ ∧ τ = σ
    | none => r = ⟨-1, []⟩ ∧ τ = σ
  | .read fd buf nbytes =>
    match σ.find fd with
    | some (i, .file contents position) =>
      if buf = 0 then r = ⟨-1, []⟩ ∧ τ = σ
      else
        r = ⟨(chunkAt contents position nbytes).length, chunkAt contents position nbytes⟩ ∧
          τ = σ.set i (some (.file contents
            (position + (chunkAt contents position nbytes).length)))
    | some (_, .screen) => r = ⟨-1, []⟩ ∧ τ = σ
    | some _ => τ = σ
    | none => r = ⟨-1, []⟩ ∧ τ = σ
  | .write fd buf content nbytes =>
    τ = σ ∧ match σ.find fd with
      | some (_, .screen) =>
        r = if buf = 0 then ⟨-1, []⟩ else ⟨(writeText content nbytes).length, []⟩
      | some (_, .clock) => r.bytes = []
      | _ => r = ⟨-1, []⟩
  | .getargs _ nbytes => τ = σ ∧ ReturnsArgs σ.args nbytes r
  | _ => τ = σ

/-! ### The session of a process -/

variable {img : Image} {s s' : Kernel} {e : Event}

/-- What an entry of the directory stands for. -/
def Dentry.handle (img : Image) (dentry : Dentry) : Option Handle :=
  match dentry.filetype with
  | 0 => some .clock
  | 1 => some .directory
  | 2 => some (.file (img.contents dentry.inode) 0)
  | _ => none

def Image.volume (img : Image) : Volume := fun filename =>
  (readDentryByName img filename).bind (Dentry.handle img)

/-- What an open descriptor stands for. -/
def FileDesc.handle (img : Image) (d : FileDesc) : Option Handle :=
  if d.flags = 0 then none
  else match d.optable with
    | .stdin => some .keyboard
    | .stdout => some .screen
    | .rtc => some .clock
    | .dir => some .directory
    | .file => some (.file (img.contents d.inode) d.filePosition.toNat)
    | .error => none

def Pcb.session (img : Image) (p : Pcb) : Session :=
  ⟨fun fd => (p.fds fd).handle img, ((List.range maxArgLength).map p.argbuf).takeWhile (· ≠ 0)⟩

/-- An image whose entries all have a driver, and whose files can be read to their ends: one that
fills its last block has the number of a block in the entry after it. -/
structure Tidy (img : Image) : Prop extends WellFormed img where
  filetype_le : ∀ i < maxFileDentries, img.filename i 0 ≠ 0 → img.filetype i ≤ 2
  ends : ∀ n < img.numInodes, ¬ BadEnd img n

/-- An open descriptor has a driver, and a position inside its file. -/
structure DescSound (img : Image) (d : FileDesc) : Prop where
  driver : d.optable ≠ .error
  file : d.optable = .file → GoodInode img d.inode ∧ ¬ BadEnd img d.inode ∧
    0 ≤ d.filePosition ∧ d.filePosition ≤ img.inodeSize d.inode

/-- The open descriptors of a process are sound, and the first two stay with the terminal. -/
structure FdsSound (img : Image) (fds : Fin 8 → FileDesc) : Prop where
  keyboard : (fds 0).flags = 1 ∧ (fds 0).optable = .stdin
  screen : (fds 1).flags = 1 ∧ (fds 1).optable = .stdout
  sound : ∀ i, (fds i).flags ≠ 0 → DescSound img (fds i)

/-- The descriptors of a new process are sound. -/
theorem fdsSound_freshFds (img : Image) : FdsSound img freshFds where
  keyboard := ⟨rfl, rfl⟩
  screen := ⟨rfl, rfl⟩
  sound i hi := by
    have hstd : i = 0 ∨ i = 1 := by
      revert i
      decide
    obtain rfl | rfl := hstd
    · exact ⟨by decide, fun h => by cases h⟩
    · exact ⟨by decide, fun h => by cases h⟩

/-! ### Sessions and descriptors -/

variable {p : Pcb} {fd : Int}

theorem FileDesc.handle_of_closed {d : FileDesc} (h : d.flags = 0) : d.handle img = none :=
  if_pos h

theorem DescSound.handle_isSome {d : FileDesc} (hd : DescSound img d) (h : d.flags ≠ 0) :
    ∃ x, d.handle img = some x := by
  have hdriver := hd.driver
  simp only [FileDesc.handle, if_neg h]
  cases hopt : d.optable with
  | error => exact absurd hopt hdriver
  | stdin => exact ⟨_, rfl⟩
  | stdout => exact ⟨_, rfl⟩
  | rtc => exact ⟨_, rfl⟩
  | dir => exact ⟨_, rfl⟩
  | file => exact ⟨_, rfl⟩

theorem FdsSound.isNone_iff (hsound : FdsSound img p.fds) (i : Fin 8) :
    ((p.session img).handles i).isNone ↔ (p.fds i).flags = 0 := by
  constructor
  · intro hnone
    by_contra hopen
    obtain ⟨x, hx⟩ := (hsound.sound i hopen).handle_isSome hopen
    have hx' : (p.session img).handles i = some x := hx
    rw [hx'] at hnone
    cases hnone
  · intro hclosed
    have hnone : (p.session img).handles i = none := FileDesc.handle_of_closed hclosed
    rw [hnone]
    rfl

/-- `open` and the service take the same descriptor. -/
theorem FdsSound.free_eq (hsound : FdsSound img p.fds) : (p.session img).free = freeFd p := by
  simp only [Session.free, freeFd]
  congr 1
  funext i
  exact Bool.eq_iff_iff.mpr ((hsound.isNone_iff i).trans decide_eq_true_iff.symm)

/-- The service finds the descriptors that are open. -/
theorem FdsSound.find_cases (hsound : FdsSound img p.fds) (fd : Int) :
    (¬ IsOpen p.fds fd ∧ (p.session img).find fd = none) ∨
      ∃ i x, (i.val : Int) = fd ∧ (p.fds i).flags ≠ 0 ∧ (p.fds i).handle img = some x ∧
        (p.session img).find fd = some (i, x) := by
  by_cases hfd : 0 ≤ fd ∧ fd < 8
  · simp only [Session.find, dif_pos hfd]
    have hval : (((⟨fd.toNat, by omega⟩ : Fin 8).val : Nat) : Int) = fd := by
      simp only
      omega
    generalize (⟨fd.toNat, by omega⟩ : Fin 8) = i at hval
    by_cases hopen : (p.fds i).flags = 0
    · refine .inl ⟨?_, ?_⟩
      · rw [← hval, isOpen_val, not_not]
        exact hopen
      · have hnone : (p.session img).handles i = none := FileDesc.handle_of_closed hopen
        rw [hnone]
        rfl
    · obtain ⟨x, hx⟩ := (hsound.sound i hopen).handle_isSome hopen
      refine .inr ⟨i, x, hval, hopen, hx, ?_⟩
      have hx' : (p.session img).handles i = some x := hx
      rw [hx']
      rfl
  · refine .inl ⟨?_, dif_neg hfd⟩
    rintro ⟨i, hi, -⟩
    omega

theorem session_setFd (p : Pcb) (i : Fin 8) (d : FileDesc) :
    (p.setFd i d).session img = (p.session img).set i (d.handle img) := by
  refine Session.ext (funext fun j => ?_) rfl
  change (Function.update p.fds i d j).handle img =
    Function.update (fun fd => (p.fds fd).handle img) i (d.handle img) j
  by_cases hj : j = i
  · rw [hj, Function.update_self, Function.update_self]
  · rw [Function.update_of_ne hj, Function.update_of_ne hj]

theorem session_eq_of_files (img : Image) {q : Pcb} (h : q.files = p.files) :
    q.session img = p.session img := by
  obtain ⟨hfds, hargs⟩ := Prod.mk.inj h
  simp only [Pcb.session, hfds, hargs]

theorem FdsSound.of_files {q : Pcb} (hsound : FdsSound img p.fds) (h : q.files = p.files) :
    FdsSound img q.fds := by
  have hfds : q.fds = p.fds := congrArg Prod.fst h
  rwa [hfds]

/-- A descriptor from 2 on may be replaced by a sound one, or one that is closed. -/
theorem FdsSound.update {fds : Fin 8 → FileDesc} (hsound : FdsSound img fds) {i : Fin 8}
    {d : FileDesc} (hi : 2 ≤ i.val) (hd : d.flags ≠ 0 → DescSound img d) :
    FdsSound img (Function.update fds i d) := by
  have h0 : Function.update fds i d 0 = fds 0 := by
    refine Function.update_of_ne ?_ ..
    rintro rfl
    exact absurd hi (by decide)
  have h1 : Function.update fds i d 1 = fds 1 := by
    refine Function.update_of_ne ?_ ..
    rintro rfl
    exact absurd hi (by decide)
  refine ⟨h0 ▸ hsound.keyboard, h1 ▸ hsound.screen, fun j hj => ?_⟩
  by_cases hji : j = i
  · subst hji
    rw [Function.update_self] at hj ⊢
    exact hd hj
  · rw [Function.update_of_ne hji] at hj ⊢
    exact hsound.sound j hj

/-! ### The arguments -/

theorem length_args (p : Pcb) : (p.session img).args.length = p.argLength := rfl

/-- The text in the PCB up to its NUL. -/
theorem map_argbuf (img : Image) (p : Pcb) :
    (List.range p.argLength).map p.argbuf = (p.session img).args := by
  have hprefix := List.takeWhile_prefix (p := fun c : UInt8 => decide (c ≠ 0))
    (l := (List.range maxArgLength).map p.argbuf)
  have htake := List.prefix_iff_eq_take.mp hprefix
  have hle : p.argLength ≤ maxArgLength := by
    have := hprefix.length_le
    rwa [List.length_map, List.length_range] at this
  have hmin : List.range (min p.argLength maxArgLength) = List.range p.argLength := by
    rw [Nat.min_eq_left hle]
  rw [← List.map_take, List.take_range] at htake
  exact (htake.trans (congrArg _ hmin)).symm

/-- `getargs` is the service's. -/
theorem returnsArgs_session (p : Pcb) (nbytes : Int) :
    ReturnsArgs (p.session img).args nbytes (getargs p nbytes) := by
  rw [ReturnsArgs, getargs, length_args, map_argbuf img]
  by_cases hroom : 0 < p.argLength ∧ (p.argLength : Int) < nbytes
  · rw [if_pos hroom, if_neg (by omega)]
  · rw [if_neg hroom, if_pos (by omega)]

/-! ### Calls of a process -/

/-- The calls of the service. -/
def Event.onFiles : Event → Bool
  | .open _ => true
  | .close _ => true
  | .read .. => true
  | .write .. => true
  | .getargs .. => true
  | _ => false

/-- The bytes that a call stores at its pointer. -/
def Kernel.storedBytes (img : Image) (s : Kernel) : Event → List UInt8
  | .read fd buf nbytes =>
    match s.readDriver fd buf with
    | some (_, .dir) => (dirRead img s.numFileRead buf).1.bytes
    | some (i, .file) => (fileRead img ((s.pcb s.getCurPcb).fds i) i buf nbytes).1.bytes
    | _ => []
  | .getargs _ nbytes => (getargs (s.pcb s.nowPcbId) nbytes).bytes
  | _ => []

/-- Process `id` has made a call and has its reply. -/
def Replies (id : Nat) (s : Kernel) (e : Event) (s' : Kernel) : Prop :=
  e.onFiles = true ∧ s.nowPcbId = id ∧ s'.cpu = .user

instance decidableReplies (id : Nat) (s : Kernel) (e : Event) (s' : Kernel) :
    Decidable (Replies id s e s') := inferInstanceAs (Decidable (_ ∧ _ ∧ _))

/-- Calls and their replies. -/
abbrev ServiceLog := List (Event × Effect)

/-- A call of process `id` is appended to its log with the reply. -/
def logReply (img : Image) (id : Nat) (s : Kernel) (e : Event) (s' : Kernel) (log : ServiceLog) :
    ServiceLog :=
  if Replies id s e s' then log ++ [(e, ⟨s'.eax, s.storedBytes img e⟩)] else log

/-- A step that records the calls of process `id`. -/
def logReplies (img : Image) (id : Nat) :
    Kernel × ServiceLog → Event → Option (Kernel × ServiceLog) :=
  logged (step img) (logReply img id)

/-- The files of process `id` are left to it: `get_cur_pcb` finds it just when it runs, and a
process that halts is another one, and none whose loop over the descriptors goes to this one. -/
def SparesFiles (id : Nat) (s : Kernel) (e : Event) : Prop :=
  (e.accessed.isSome → (s.getCurPcb = id ↔ s.nowPcbId = id)) ∧
    (s.callsHalt e = true → s.nowPcbId ≠ id ∧ s.closeId ≠ id ∧
      uint8 (s.pcb s.nowPcbId).processNumber ≠ id)

instance (id : Nat) (s : Kernel) (e : Event) : Decidable (SparesFiles id s e) :=
  inferInstanceAs (Decidable (_ ∧ _))

/-! ### The other steps -/

variable {t : TermId} {j : Fin 4}

theorem SparesFiles.keepsSlot {id : Nat} (h : SparesFiles id s e) : KeepsSlot id s e :=
  fun hcall => (h.2 hcall).2.2

/-- The end of another process. -/
theorem files_halt {sp : StackPtr} {status : UInt8} {stale : Stale}
    (hmask : s.pcbMask t j = true) (hnow : s.nowPcbId ≠ slotId t j)
    (hclose : s.closeId ≠ slotId t j)
    (hnumber : uint8 (s.pcb s.nowPcbId).processNumber ≠ slotId t j)
    (h : s.halt img sp status stale = some s') :
    (s'.pcb (slotId t j)).files = (s.pcb (slotId t j)).files := by
  have hloop : ∀ {u : Kernel}, s.unlink s.nowPcbId = some u →
      ((u.haltFds s.nowPcbId).pcb (slotId t j)).files = (s.pcb (slotId t j)).files := by
    intro u hu
    refine Prod.ext (funext fun i => ?_) ?_
    · change ((u.haltFds s.nowPcbId).pcb (slotId t j)).fds i = (s.pcb (slotId t j)).fds i
      rw [fds_haltFds, haltedFd, if_neg hnow.symm, nowPcbId_unlink hu,
        if_neg fun hp => hclose hp.1.symm, pcb_unlink hu]
    · change ((u.haltFds s.nowPcbId).pcb (slotId t j)).argbuf = (s.pcb (slotId t j)).argbuf
      rw [argbuf_haltFds, pcb_unlink hu]
  -- the call of `execute` for a new shell
  have hcalled : ∀ {u : Kernel} {o : Outcome}, s.unlink s.nowPcbId = some u →
      execute img ((u.haltFds s.nowPcbId).printf lastShellText) sp shellCommand stale = some o →
      (o.state.pcb (slotId t j)).files = (s.pcb (slotId t j)).files := by
    intro u o hu ho
    obtain ⟨-, hpcb⟩ | ⟨cur, i, mem, args, hfree, rfl⟩ := pcb_execute ho
    · rw [hpcb, pcb_printf]
      exact hloop hu
    · -- the shell starts in a slot that is free, or that has just been freed
      have hne : slotId t j ≠ slotId cur i := by
        intro hid
        obtain ⟨rfl, hij⟩ := (slotId_inj j.isLt i.isLt).mp hid
        obtain rfl : j = i := Fin.ext hij
        obtain ⟨row, slot, hslot, hcore, -⟩ := unlink_cases hu
        have hmask' : (u.haltFds s.nowPcbId).pcbMask = markSlot s.pcbMask row slot false :=
          (congrArg (fun c : Core => c.mask) (core_haltFds ..)).trans
            (congrArg (fun c : Core => c.mask) hcore)
        have hfree' : (u.haltFds s.nowPcbId).pcbMask t j = false := hfree
        rw [hmask', markSlot_of_ne, hmask] at hfree'
        · cases hfree'
        · rintro ⟨rfl, rfl⟩
          exact hnumber hslot
      simp only [Outcome.state]
      rw [pcb_started, Function.update_of_ne hne, pcb_withMem, pcb_printf]
      exact hloop hu
  cases halt_exit h with
  | parent hu _ hret => rw [pcb_returnToParent hret, hloop hu]
  | shell hu _ ho hs =>
    rw [hs]
    exact hcalled hu ho
  | faulted hu _ ho => exact hcalled hu ho
  | noShell hu _ ho hret =>
    rw [pcb_returnToParent hret]
    exact hcalled hu ho

/-- A step that is not a call of the process on its files leaves them as they are. -/
theorem files_step (hmask : s.pcbMask t j = true) (hspare : SparesFiles (slotId t j) s e)
    (hno : e.onFiles = true → s.nowPcbId ≠ slotId t j) (h : step img s e = some s') :
    (s'.pcb (slotId t j)).files = (s.pcb (slotId t j)).files := by
  by_cases hcall : s.callsHalt e = true
  · obtain ⟨hnow, hclose, hnumber⟩ := hspare.2 hcall
    obtain ⟨m, sp, stale, hhalt, hpcb, hid, hterm, hmask', -⟩ := step_halt hcall h
    rw [← hpcb]
    refine files_halt ?_ ?_ ?_ ?_ hhalt
    · rw [hmask', hmask]
    · rw [hid]
      exact hnow
    · rw [closeId, hpcb, hid, hterm]
      exact hclose
    · rw [hpcb, hid]
      exact hnumber
  · have hchange := pcbChange (slotId t j) h
    generalize s'.pcb (slotId t j) = q at hchange
    cases hchange with
    | keeps hq => exact hq
    | opens he hid =>
      subst he
      exact absurd hid.symm (hno rfl)
    | closes he hid =>
      subst he
      exact absurd hid.symm (hno rfl)
    | reads he hid =>
      subst he
      exact absurd ((hspare.1 rfl).mp hid.symm) (hno rfl)
    | halts hcall' => exact absurd hcall' hcall
    | @starts _ cur i hid hfree =>
      obtain ⟨rfl, hij⟩ := (slotId_inj j.isLt i.isLt).mp hid
      obtain rfl : j = i := Fin.ext hij
      obtain hfree | ⟨hcall', -⟩ := hfree
      · rw [hmask] at hfree
        cases hfree
      · exact absurd hcall' hcall

/-! ### The calls -/

/-- What a call of the process that runs is to the service, and what stays true of its
descriptors. A call that waits has not changed the session. -/
structure Provides (img : Image) (s : Kernel) (e : Event) (s' : Kernel) : Prop where
  replies : s'.cpu = .user → FileService img.volume ((s.pcb s.nowPcbId).session img) e
    ⟨s'.eax, s.storedBytes img e⟩ ((s'.pcb s.nowPcbId).session img)
  waits : s'.cpu ≠ .user →
    (s'.pcb s.nowPcbId).session img = (s.pcb s.nowPcbId).session img
  sound : FdsSound img (s'.pcb s.nowPcbId).fds

/-- A call that leaves the files as they are. -/
theorem Provides.of_files (hsound : FdsSound img (s.pcb s.nowPcbId).fds)
    (hfiles : (s'.pcb s.nowPcbId).files = (s.pcb s.nowPcbId).files)
    (hreply : s'.cpu = .user → FileService img.volume ((s.pcb s.nowPcbId).session img) e
      ⟨s'.eax, s.storedBytes img e⟩ ((s.pcb s.nowPcbId).session img)) : Provides img s e s' where
  replies hcpu := session_eq_of_files img hfiles ▸ hreply hcpu
  waits _ := session_eq_of_files img hfiles
  sound := hsound.of_files hfiles

/-- `open` binds its descriptor to what the name stands for. -/
theorem handle_bind (d : FileDesc) {dentry : Dentry} (hle : dentry.filetype ≤ 2) :
    ∃ x, dentry.handle img = some x ∧ (d.bind dentry).handle img = some x := by
  have htype : dentry.filetype = 0 ∨ dentry.filetype = 1 ∨ dentry.filetype = 2 := by omega
  obtain h | h | h := htype
  · exact ⟨.clock, by simp [Dentry.handle, h], by simp [FileDesc.handle, FileDesc.bind, h]⟩
  · exact ⟨.directory, by simp [Dentry.handle, h], by simp [FileDesc.handle, FileDesc.bind, h]⟩
  · exact ⟨.file (img.contents dentry.inode) 0, by simp [Dentry.handle, h],
      by simp [FileDesc.handle, FileDesc.bind, h]⟩

theorem Tidy.entry (htidy : Tidy img) {filename : List UInt8} {dentry : Dentry}
    (hd : readDentryByName img filename = some dentry) :
    dentry.filetype ≤ 2 ∧ ¬ BadEnd img dentry.inode := by
  obtain ⟨index, hfind, rfl⟩ := Option.map_eq_some_iff.mp hd
  have hlt : index < maxFileDentries := List.mem_range.mp (List.mem_of_find?_eq_some hfind)
  have hmatch : nameMatches img index filename = true := by simpa using List.find?_some hfind
  have hname := filename_ne_zero hmatch
  exact ⟨htidy.filetype_le index hlt hname, htidy.ends _ (htidy.inode_lt index hlt hname)⟩

theorem descSound_bind (htidy : Tidy img) {filename : List UInt8} {dentry : Dentry}
    (hd : readDentryByName img filename = some dentry) (d : FileDesc) :
    DescSound img (d.bind dentry) := by
  obtain ⟨hle, hend⟩ := htidy.entry hd
  have htype : dentry.filetype = 0 ∨ dentry.filetype = 1 ∨ dentry.filetype = 2 := by omega
  obtain h | h | h := htype
  · exact ⟨by simp [FileDesc.bind, h], by simp [FileDesc.bind, h]⟩
  · exact ⟨by simp [FileDesc.bind, h], by simp [FileDesc.bind, h]⟩
  · refine ⟨by simp [FileDesc.bind, h], fun _ => ?_⟩
    simp only [FileDesc.bind, h]
    exact ⟨htidy.goodInode hd, hend, Int.le_refl 0, Int.natCast_nonneg _⟩

/-- A descriptor that is closed is none of the first two. -/
theorem FdsSound.two_le {fds : Fin 8 → FileDesc} (hsound : FdsSound img fds) {i : Fin 8}
    (h : (fds i).flags = 0) : 2 ≤ i.val := by
  have h0 := hsound.keyboard.1
  have h1 := hsound.screen.1
  by_contra hlow
  have hstd : i = 0 ∨ i = 1 := by omega
  obtain rfl | rfl := hstd
  · rw [h] at h0
    cases h0
  · rw [h] at h1
    cases h1

theorem provides_open (htidy : Tidy img) (hsound : FdsSound img (s.pcb s.nowPcbId).fds)
    (hcpu : s.cpu = .user) (filename : List UInt8) :
    Provides img s (.open filename) (s.open img filename) := by
  obtain ⟨hno, heq⟩ | ⟨dentry, fd, hd, hfree, heax, hpcb⟩ := open_cases img s filename
  · rw [heq]
    refine .of_files hsound rfl fun _ => ?_
    unfold FileService
    dsimp only
    split
    · rename_i x fd hx hfd
      obtain hnone | hfull := hno
      · rw [Image.volume, hnone, Option.bind_none] at hx
        cases hx
      · rw [hsound.free_eq.trans hfull] at hfd
        cases hfd
    · exact ⟨rfl, rfl⟩
  · obtain ⟨x, hx, hbind⟩ :=
      @handle_bind img ((s.pcb s.nowPcbId).fds fd) dentry (htidy.entry hd).1
    have hvol : img.volume filename = some x := by rw [Image.volume, hd, Option.bind_some, hx]
    have hself : (s.open img filename).pcb s.nowPcbId = (s.pcb s.nowPcbId).opened fd dentry := by
      rw [hpcb, Function.update_self]
    have hfiles : ((s.pcb s.nowPcbId).opened fd dentry).files =
        ((s.pcb s.nowPcbId).setFd fd (((s.pcb s.nowPcbId).fds fd).bind dentry)).files := by
      simp only [Pcb.opened]
      split <;> rfl
    have hsession : ((s.open img filename).pcb s.nowPcbId).session img =
        ((s.pcb s.nowPcbId).session img).set fd (some x) := by
      rw [hself, session_eq_of_files img hfiles, session_setFd, hbind]
    have hclosed : ((s.pcb s.nowPcbId).fds fd).flags = 0 := by
      simpa using List.find?_some hfree
    refine ⟨fun _ => ?_, fun hwait => ?_, ?_⟩
    · have hfree' := hsound.free_eq.trans hfree
      simp only [FileService, hvol, hfree', heax]
      exact ⟨rfl, hsession⟩
    · exact absurd ((congrArg Core.cpu (core_open img s filename)).trans hcpu) hwait
    · rw [hself, Pcb.fds_opened]
      exact hsound.update (hsound.two_le hclosed) fun _ => descSound_bind htidy hd _

theorem provides_close (hsound : FdsSound img (s.pcb s.nowPcbId).fds) (hcpu : s.cpu = .user)
    (fd : Int) : Provides img s (.close fd) (s.close fd) := by
  obtain ⟨hno, heq⟩ | ⟨i, hi, h2, hopen, heq⟩ := close_cases s fd
  · rw [heq]
    refine .of_files hsound rfl fun _ => ?_
    obtain ⟨-, hfind⟩ | ⟨i, x, hi, hopen, -, hfind⟩ := hsound.find_cases fd
    · simp only [FileService, hfind]
      exact ⟨rfl, trivial⟩
    · have hlow : ¬ 2 ≤ fd := fun h2 => hno ⟨h2, i, hi, hopen⟩
      simp only [FileService, hfind, if_neg hlow]
      exact ⟨rfl, trivial⟩
  · have hdriver : FileOptable.close ((s.pcb s.nowPcbId).fds i).optable = 0 :=
      close_eq_zero_iff.mpr (hsound.sound i hopen).driver
    have hself : (s.close fd).pcb s.nowPcbId =
        (s.pcb s.nowPcbId).setFd i { (s.pcb s.nowPcbId).fds i with flags := 0 } := by
      rw [heq, pcb_ret, pcb_setFd, Function.update_self]
    refine ⟨fun _ => ?_, fun hwait => ?_, ?_⟩
    · obtain ⟨hclosed, -⟩ | ⟨k, x, hk, -, -, hfind⟩ := hsound.find_cases fd
      · exact absurd ⟨i, hi, hopen⟩ hclosed
      · obtain rfl : k = i := by omega
        have heax : (s.close fd).eax = 0 := by
          rw [heq]
          exact hdriver
        simp only [FileService, hfind, if_pos h2, heax, hself, session_setFd]
        exact ⟨rfl, by rw [FileDesc.handle_of_closed rfl]⟩
    · exact absurd ((congrArg Core.cpu (core_close s fd)).trans hcpu) hwait
    · rw [hself, Pcb.fds_setFd]
      refine hsound.update (by omega) fun h => absurd rfl h

/-! ### Reads and writes -/

/-- A read through a sound descriptor is that of its file. -/
theorem fileRead_sound {d : FileDesc} {i buf : Nat} {nbytes : Int} (hd : DescSound img d)
    (hfile : d.optable = .file) (hi : i ≠ 0) (hbuf : buf ≠ 0) :
    (fileRead img d i buf nbytes).1 =
        ⟨(chunkAt (img.contents d.inode) d.filePosition.toNat nbytes).length,
          chunkAt (img.contents d.inode) d.filePosition.toNat nbytes⟩ ∧
      (fileRead img d i buf nbytes).2 = { d with filePosition :=
        ((d.filePosition.toNat +
          (chunkAt (img.contents d.inode) d.filePosition.toNat nbytes).length : Nat) : Int) } ∧
      d.filePosition.toNat +
        (chunkAt (img.contents d.inode) d.filePosition.toNat nbytes).length ≤
          img.inodeSize d.inode := by
  obtain ⟨hg, hend, hpos, hle⟩ := hd.file hfile
  have hsize := hg.size_lt
  have hoff : uint32 d.filePosition = d.filePosition.toNat := by
    simp only [uint32]
    omega
  obtain ⟨hbytes, hret⟩ :=
    @readData_ret img d.inode d.filePosition.toNat buf (uint32 nbytes) hg hbuf (by omega)
  rw [if_neg fun hstop : StopsShort .. => hend hstop.2.2] at hret
  have hchunk := hbytes.trans (contents_chunk img d.inode d.filePosition.toNat (uint32 nbytes))
  have hlen : (chunkAt (img.contents d.inode) d.filePosition.toNat nbytes).length =
      min (uint32 nbytes) (img.inodeSize d.inode - d.filePosition.toNat) := by
    rw [chunkAt, List.length_take, List.length_drop, Image.length_contents]
  have heffect : readData img d.inode d.filePosition.toNat buf (uint32 nbytes) =
      ⟨(chunkAt (img.contents d.inode) d.filePosition.toNat nbytes).length,
        chunkAt (img.contents d.inode) d.filePosition.toNat nbytes⟩ := by
    rw [hlen, ← hret]
    exact congrArg (Effect.mk _) hchunk
  simp only [fileRead, if_pos (And.intro hi hbuf), hoff, heffect]
  refine ⟨trivial, ?_, by omega⟩
  congr 1
  simp only [int32]
  omega

/-- The service finds the descriptor that a `read` or `write` goes to. -/
theorem FdsSound.find_of_driver (hsound : FdsSound img (s.pcb s.nowPcbId).fds) {fd : Int}
    {buf : Nat} {i : Fin 8} {driver : FileOptable}
    (hdriver : s.readDriver fd buf = some (i, driver)) :
    ∃ x, ((s.pcb s.nowPcbId).fds i).handle img = some x ∧ buf ≠ 0 ∧
      ((s.pcb s.nowPcbId).fds i).flags ≠ 0 ∧ ((s.pcb s.nowPcbId).fds i).optable = driver ∧
      ((s.pcb s.nowPcbId).session img).find fd = some (i, x) := by
  obtain ⟨hi, hopen, hopt⟩ := readDriver_eq_some hdriver
  obtain ⟨hclosed, -⟩ | ⟨k, x, hk, -, hx, hfind⟩ := hsound.find_cases fd
  · exact absurd ⟨i, hi, hopen⟩ hclosed
  · obtain rfl : k = i := by omega
    exact ⟨x, hx, readDriver_buf hdriver, hopen, hopt, hfind⟩

/-- A `read` or `write` that is refused has no descriptor, or no buffer. -/
theorem FdsSound.find_of_refused (hsound : FdsSound img (s.pcb s.nowPcbId).fds) {fd : Int}
    {buf : Nat} (hdriver : s.readDriver fd buf = none) :
    ((s.pcb s.nowPcbId).session img).find fd = none ∨ buf = 0 := by
  obtain ⟨hno, -⟩ | ⟨i, -, -, -, hsome⟩ := readDriver_cases s fd buf
  · obtain ⟨-, hfind⟩ | ⟨i, x, hi, hopen, -, -⟩ := hsound.find_cases fd
    · exact .inl hfind
    · refine .inr ?_
      by_contra hbuf
      exact hno ⟨hbuf, i, hi, hopen⟩
  · rw [hdriver] at hsome
    cases hsome

/-- A file is open in a descriptor that is none of the first two. -/
theorem FdsSound.two_le_of_file {fds : Fin 8 → FileDesc} (hsound : FdsSound img fds) {i : Fin 8}
    (h : (fds i).optable = .file) : 2 ≤ i.val := by
  have h0 := hsound.keyboard.2
  have h1 := hsound.screen.2
  by_contra hlow
  have hstd : i = 0 ∨ i = 1 := by omega
  obtain rfl | rfl := hstd
  · rw [h] at h0
    cases h0
  · rw [h] at h1
    cases h1

/-- A `read` that goes to `file_read`. -/
theorem provides_fileRead (hsound : FdsSound img (s.pcb s.nowPcbId).fds) (hcpu : s.cpu = .user)
    {fd nbytes : Int} {buf : Nat} {i : Fin 8} (hcur : s.getCurPcb = s.nowPcbId)
    (hdriver : s.readDriver fd buf = some (i, .file)) :
    Provides img s (.read fd buf nbytes) ((s.setFd s.getCurPcb i
      (fileRead img ((s.pcb s.getCurPcb).fds i) i buf nbytes).2).ret
        (fileRead img ((s.pcb s.getCurPcb).fds i) i buf nbytes).1.ret) := by
  obtain ⟨x, hx, hbuf, hopen, hopt, hfind⟩ := hsound.find_of_driver hdriver
  obtain rfl : x = .file (img.contents ((s.pcb s.nowPcbId).fds i).inode)
      ((s.pcb s.nowPcbId).fds i).filePosition.toNat := by
    simp only [FileDesc.handle, if_neg hopen, hopt, Option.some.injEq] at hx
    exact hx.symm
  have hi := hsound.two_le_of_file hopt
  have hd := hsound.sound i hopen
  obtain ⟨heffect, hdesc, hle⟩ := @fileRead_sound img _ i.val buf nbytes hd hopt (by omega) hbuf
  have hself : ((s.setFd s.getCurPcb i
      (fileRead img ((s.pcb s.getCurPcb).fds i) i buf nbytes).2).ret
        (fileRead img ((s.pcb s.getCurPcb).fds i) i buf nbytes).1.ret).pcb s.nowPcbId =
      (s.pcb s.nowPcbId).setFd i (fileRead img ((s.pcb s.nowPcbId).fds i) i buf nbytes).2 := by
    rw [hcur, pcb_ret, pcb_setFd, Function.update_self]
  refine ⟨fun _ => ?_, fun hwait => absurd hcpu hwait, ?_⟩
  · have hbytes : s.storedBytes img (.read fd buf nbytes) =
        (fileRead img ((s.pcb s.nowPcbId).fds i) i buf nbytes).1.bytes := by
      simp only [storedBytes, hdriver, hcur]
    rw [hself, session_setFd, hbytes, hcur, hdesc]
    simp only [FileService, hfind, if_neg hbuf]
    refine ⟨heffect, ?_⟩
    simp only [FileDesc.handle, if_neg hopen, hopt, Int.toNat_natCast]
  · rw [hself, Pcb.fds_setFd]
    refine hsound.update hi fun _ => ?_
    rw [hdesc]
    obtain ⟨hg, hend, -, -⟩ := hd.file hopt
    exact ⟨hd.driver, fun _ => ⟨hg, hend, Int.natCast_nonneg _, Int.ofNat_le.mpr hle⟩⟩

/-- A `read` of the process that runs. -/
theorem provides_read (hsound : FdsSound img (s.pcb s.nowPcbId).fds) (hcpu : s.cpu = .user)
    {fd nbytes : Int} {buf : Nat} (hcur : s.getCurPcb = s.nowPcbId)
    (h : s.read img fd buf nbytes = some s') : Provides img s (.read fd buf nbytes) s' := by
  cases read_exit h with
  | refused hdriver =>
    refine .of_files hsound rfl fun _ => ?_
    have hbytes : s.storedBytes img (.read fd buf nbytes) = [] := by
      simp only [storedBytes, hdriver]
    have hrefused := hsound.find_of_refused hdriver
    unfold FileService
    rw [hbytes]
    dsimp only
    split
    · rename_i hfind
      have hbuf : buf = 0 := by simpa [hfind] using hrefused
      rw [if_pos hbuf]
      exact ⟨rfl, rfl⟩
    · exact ⟨rfl, rfl⟩
    · rfl
    · exact ⟨rfl, rfl⟩
  | term => exact .of_files hsound rfl fun hwait => by cases hwait
  | rtcFault => exact .of_files hsound rfl fun hwait => by cases hwait
  | rtc =>
    refine .of_files hsound ?_ fun hwait => by cases hwait
    change (Function.update s.pcb s.nowPcbId _ s.nowPcbId).files = _
    rw [Function.update_self]
    rfl
  | dir hdriver =>
    refine .of_files hsound rfl fun _ => ?_
    obtain ⟨x, hx, -, hopen, hopt, hfind⟩ := hsound.find_of_driver hdriver
    obtain rfl : x = .directory := by
      simp only [FileDesc.handle, if_neg hopen, hopt, Option.some.injEq] at hx
      exact hx.symm
    simp only [FileService, hfind]
  | file hdriver => exact provides_fileRead hsound hcpu hcur hdriver
  | @error i driver hdriver hno =>
    obtain ⟨x, hx, -, hopen, hopt, hfind⟩ := hsound.find_of_driver hdriver
    refine .of_files hsound rfl fun _ => ?_
    obtain rfl | rfl := hno
    · obtain rfl : x = .screen := by
        simp only [FileDesc.handle, if_neg hopen, hopt, Option.some.injEq] at hx
        exact hx.symm
      have hbytes : s.storedBytes img (.read fd buf nbytes) = [] := by
        simp only [storedBytes, hdriver]
      simp only [FileService, hfind, hbytes, and_true]
      rfl
    · exact absurd hopt (hsound.sound i hopen).driver

/-- A `write` of the process that runs. -/
theorem provides_write (hsound : FdsSound img (s.pcb s.nowPcbId).fds) {fd nbytes : Int}
    {buf : Nat} {content : Nat → UInt8} (h : s.write fd buf content nbytes = some s') :
    Provides img s (.write fd buf content nbytes) s' := by
  have hfiles : (s'.pcb s.nowPcbId).files = (s.pcb s.nowPcbId).files := by
    obtain ⟨eax, rfl⟩ | ⟨out, eax, rfl⟩ | ⟨i, -, -, rfl⟩ := write_cases h
    · rfl
    · rfl
    · exact files_setPcb (Pcb.files_clock ..) _
  refine .of_files hsound hfiles fun _ => ?_
  unfold FileService
  refine ⟨rfl, ?_⟩
  simp only [Kernel.write] at h
  split at h
  · rename_i hdriver
    obtain rfl := Option.some.inj h
    have hrefused := hsound.find_of_refused hdriver
    dsimp only
    split
    · rename_i hfind
      have hbuf : buf = 0 := by simpa [hfind] using hrefused
      rw [if_pos hbuf]
      rfl
    · rfl
    · rfl
  · rename_i i hdriver
    obtain ⟨x, hx, hbuf, hopen, hopt, hfind⟩ := hsound.find_of_driver hdriver
    obtain rfl : x = .screen := by
      simp only [FileDesc.handle, if_neg hopen, hopt, Option.some.injEq] at hx
      exact hx.symm
    simp only [termWrite] at h
    split at h
    · cases h
    · obtain ⟨out, -, rfl⟩ := Option.map_eq_some_iff.mp h
      simp only [hfind, if_neg hbuf]
      rfl
  · rename_i i hdriver
    obtain ⟨x, hx, hbuf, hopen, hopt, hfind⟩ := hsound.find_of_driver hdriver
    obtain rfl : x = .clock := by
      simp only [FileDesc.handle, if_neg hopen, hopt, Option.some.injEq] at hx
      exact hx.symm
    simp only [hfind]
    rfl
  · rename_i i driver hout hrtc hdriver
    obtain rfl := Option.some.inj h
    obtain ⟨x, hx, -, hopen, hopt, hfind⟩ := hsound.find_of_driver hdriver
    simp only [hfind]
    cases x with
    | screen =>
      simp only [FileDesc.handle, if_neg hopen, hopt] at hx
      cases driver with
      | stdout => exact absurd rfl hout
      | _ => cases hx
    | clock =>
      simp only [FileDesc.handle, if_neg hopen, hopt] at hx
      cases driver with
      | rtc => exact absurd rfl hrtc
      | _ => cases hx
    | keyboard => rfl
    | directory => rfl
    | file contents position => rfl

/-- What a call of the process that runs is to the service. -/
theorem provides_step (htidy : Tidy img) (hsound : FdsSound img (s.pcb s.nowPcbId).fds)
    (hcur : e.accessed.isSome → s.getCurPcb = s.nowPcbId) (hfiles : e.onFiles = true)
    (h : step img s e = some s') : Provides img s e s' := by
  cases e with
  | «open» filename =>
    obtain ⟨hcpu, h⟩ := step_call h rfl
    obtain rfl := Option.some.inj h
    exact provides_open htidy hsound hcpu filename
  | close fd =>
    obtain ⟨hcpu, h⟩ := step_call h rfl
    obtain rfl := Option.some.inj h
    exact provides_close hsound hcpu fd
  | read fd buf nbytes =>
    obtain ⟨hcpu, h⟩ := step_call h rfl
    exact provides_read hsound hcpu (hcur rfl) h
  | write fd buf content nbytes => exact provides_write hsound (step_call h rfl).2
  | getargs buf nbytes =>
    obtain ⟨-, h⟩ := step_call h rfl
    rw [syscall_getargs h]
    refine .of_files hsound rfl fun _ => ?_
    exact ⟨rfl, returnsArgs_session ..⟩
  | _ => cases hfiles

/-! ### Whole runs -/

/-- The session of the process in slot `j` of terminal `t`, which has made the calls of the log to
the service. -/
structure InSession (img : Image) (t : TermId) (j : Fin 4) (σ : Session)
    (x : Kernel × ServiceLog) : Prop where
  mask : x.1.pcbMask t j = true
  sound : FdsSound img (x.1.pcb (slotId t j)).fds
  serves : Client.Serves (FileService img.volume) σ x.2
    ((x.1.pcb (slotId t j)).session img)

/-- **Step lemma.** A step is a call to the service, or it leaves the session as it is. -/
theorem fileService_step (htidy : Tidy img) {σ : Session} {x x' : Kernel × ServiceLog}
    (hx : InSession img t j σ x) (hspare : SparesFiles (slotId t j) x.1 e)
    (h : logReplies img (slotId t j) x e = some x') : InSession img t j σ x' := by
  obtain ⟨hstep, hlog⟩ := logged_eq_some.mp h
  have hmask := mask_step hx.mask hspare.keepsSlot hstep
  by_cases hcall : e.onFiles = true ∧ x.1.nowPcbId = slotId t j
  · obtain ⟨hfiles, hnow⟩ := hcall
    have hsound := hx.sound
    rw [← hnow] at hsound
    have hprovides := provides_step htidy hsound
      (fun haccess => ((hspare.1 haccess).mpr hnow).trans hnow.symm) hfiles hstep
    have hsound' := hprovides.sound
    rw [hnow] at hsound'
    refine ⟨hmask, hsound', ?_⟩
    by_cases hcpu : x'.1.cpu = .user
    · have hreply := hprovides.replies hcpu
      have hreplies : Replies (slotId t j) x.1 e x'.1 := ⟨hfiles, hnow, hcpu⟩
      rw [hnow] at hreply
      rw [hlog, logReply, if_pos hreplies]
      exact hx.serves.concat hreply
    · have hwait := hprovides.waits hcpu
      have hno : ¬ Replies (slotId t j) x.1 e x'.1 := fun hr => hcpu hr.2.2
      rw [hnow] at hwait
      rw [hlog, logReply, if_neg hno, hwait]
      exact hx.serves
  · have hfiles := files_step hx.mask hspare (fun hf hnow => hcall ⟨hf, hnow⟩) hstep
    have hno : ¬ Replies (slotId t j) x.1 e x'.1 := fun hr => hcall ⟨hr.1, hr.2.1⟩
    refine ⟨hmask, hx.sound.of_files hfiles, ?_⟩
    rw [hlog, logReply, if_neg hno, session_eq_of_files img hfiles]
    exact hx.serves

/-- A run that leaves the files of a process to it keeps the process in a session of the service. -/
theorem inSession_run {m : Kernel} {es : List Event} {log : ServiceLog} (htidy : Tidy img)
    (hmask : s.pcbMask t j = true) (hsound : FdsSound img (s.pcb (slotId t j)).fds)
    (hspare : Guarded (logReplies img (slotId t j))
      (fun x e => SparesFiles (slotId t j) x.1 e) (s, []) es)
    (hrun : run (logReplies img (slotId t j)) (s, []) es = some (m, log)) :
    InSession img t j ((s.pcb (slotId t j)).session img) (m, log) := by
  have hstart : InSession img t j ((s.pcb (slotId t j)).session img) (s, []) :=
    ⟨hmask, hsound, .nil⟩
  exact Guarded.invariant (fun _ _ _ hx hg h => fileService_step htidy hx hg h) hstart hspare hrun

/-- **The service.** In any run that leaves the files of a process to it, the calls of the process
are calls to the service, in which no other process has a part. -/
theorem refines_fileService {m : Kernel} {es : List Event} {log : ServiceLog} (htidy : Tidy img)
    (hmask : s.pcbMask t j = true) (hsound : FdsSound img (s.pcb (slotId t j)).fds)
    (hspare : Guarded (logReplies img (slotId t j))
      (fun x e => SparesFiles (slotId t j) x.1 e) (s, []) es)
    (hrun : run (logReplies img (slotId t j)) (s, []) es = some (m, log)) :
    Client.Serves (FileService img.volume) ((s.pcb (slotId t j)).session img) log
      ((m.pcb (slotId t j)).session img) ∧ FdsSound img (m.pcb (slotId t j)).fds := by
  have hend := inSession_run htidy hmask hsound hspare hrun
  exact ⟨hend.serves, hend.sound⟩

theorem sampleImage_tidy : Tidy sampleImage where
  toWellFormed := sampleImage_bootable.toWellFormed
  filetype_le := by decide +kernel
  ends := by decide +kernel

/-- The shell of terminal 1 reads its file while that of terminal 2 reads it too. -/
theorem refines_fileService_sample : ∃ s m log,
    run (step sampleImage) (boot powerOn) [.tick noStale] = some s ∧
    run (logReplies sampleImage (slotId 1 0)) (s, []) (.open shellCommand :: readingEvents) =
      some (m, log) ∧
    log.map (fun x => x.2.ret) = [2, 16, 24, 0] ∧
    Client.Serves (FileService sampleImage.volume) ((s.pcb (slotId 1 0)).session sampleImage) log
      ((m.pcb (slotId 1 0)).session sampleImage) := by
  have hobs : ((run (step sampleImage) (boot powerOn) [.tick noStale]).bind fun s =>
      (run (logReplies sampleImage (slotId 1 0)) (s, [])
        (.open shellCommand :: readingEvents)).map fun x =>
      (s.pcbMask 1 0, decide (∀ i, (s.pcb (slotId 1 0)).fds i = freshFds i),
        decide (Guarded (logReplies sampleImage (slotId 1 0))
          (fun x e => SparesFiles (slotId 1 0) x.1 e) (s, [])
          (.open shellCommand :: readingEvents)),
        x.2.map (fun x => x.2.ret))) = some (true, true, true, [2, 16, 24, 0]) := by
    decide +kernel
  obtain ⟨s, hs, hobs⟩ := Option.bind_eq_some_iff.mp hobs
  obtain ⟨⟨m, log⟩, hm, hobs⟩ := Option.map_eq_some_iff.mp hobs
  simp only [Prod.mk.injEq, decide_eq_true_eq] at hobs
  obtain ⟨hmask, hfresh, hspare, hrets⟩ := hobs
  have hsound : FdsSound sampleImage (s.pcb (slotId 1 0)).fds := by
    rw [funext hfresh]
    exact fdsSound_freshFds sampleImage
  exact ⟨s, m, log, hs, hm, hrets,
    (refines_fileService sampleImage_tidy hmask hsound hspare hm).1⟩

end LinuxLikeKernel
