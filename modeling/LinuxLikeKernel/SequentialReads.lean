import LinuxLikeKernel.Arguments
import LinuxLikeKernel.FilePosition
import LinuxLikeKernel.Library.Chunks

/-!
# Reading a file to its end

A process that has opened a file reads it in chunks of any size, while it reads other descriptors
and other processes run. The chunks make up the file up to its position.

## Main definitions

- `logReads` — a step that records the reads of one descriptor
- `KeepsOpen` — the steps that leave a descriptor open
- `ReadsInOrder` — what the reads of a file should give

## Main results

- `openReads_step` — a step keeps `OpenReads`
- `reads_in_order` — a file that is opened and read
-/

namespace LinuxLikeKernel
open ByteMemory Kernel Transition

variable {img : Image} {s s' : Kernel} {e : Event} {inode offset : Nat}

/-! ### Reads of one descriptor -/

/-- The length that a `file_read` is asked for, and its effect. -/
abbrev ReadLog := List (Int × Effect)

/-- The reads as chunks of a file. -/
def ReadLog.chunks (log : ReadLog) : List (Nat × List UInt8) :=
  log.map fun x => (x.1.toNat, x.2.bytes)

/-- The call reads descriptor `fd` of process `id`. -/
def ReadsFd (id : Nat) (fd : Fin 8) (s : Kernel) (i : Int) (buf : Nat) : Prop :=
  s.getCurPcb = id ∧ s.readDriver i buf = some (fd, .file)

instance (id : Nat) (fd : Fin 8) (s : Kernel) (i : Int) (buf : Nat) :
    Decidable (ReadsFd id fd s i buf) := inferInstanceAs (Decidable (_ ∧ _))

/-- A call of `file_read` for the descriptor is appended to its log. -/
def logRead (img : Image) (id : Nat) (fd : Fin 8) (s : Kernel) (e : Event) (_ : Kernel)
    (log : ReadLog) : ReadLog :=
  match e with
  | .read i buf nbytes =>
    if ReadsFd id fd s i buf then
      log ++ [(nbytes, (fileRead img ((s.pcb s.getCurPcb).fds fd) fd buf nbytes).1)]
    else log
  | _ => log

/-- A step that records the reads of descriptor `fd` of process `id`. -/
def logReads (img : Image) (id : Nat) (fd : Fin 8) :
    Kernel × ReadLog → Event → Option (Kernel × ReadLog) :=
  logged (step img) (logRead img id fd)

/-- Descriptor `fd` of process `id` stays open: no process halts, this one does not close it, and
`get_cur_pcb` finds the process that reads. -/
def KeepsOpen (id : Nat) (fd : Fin 8) (s : Kernel) : Event → Prop
  | .close i => ¬(s.nowPcbId = id ∧ i = fd.val)
  | .read .. => s.getCurPcb = s.nowPcbId
  | e => s.callsHalt e = false

instance (id : Nat) (fd : Fin 8) (s : Kernel) : DecidablePred (KeepsOpen id fd s)
  | .close _ => inferInstanceAs (Decidable (¬ _))
  | .read .. => inferInstanceAs (Decidable (_ = _))
  | .tick _ | .key .. | .rtc | .exception .. | .execute .. | .halt .. | .open _
  | .write .. | .getargs .. | .vidmap _ | .run => inferInstanceAs (Decidable (_ = false))

theorem KeepsOpen.callsHalt {id : Nat} {fd : Fin 8} (h : KeepsOpen id fd s e) :
    s.callsHalt e = false := by
  cases e with
  | close => rfl
  | read => rfl
  | _ => exact h

/-! ### The other steps -/

variable {t : TermId} {j : Fin 4} {fd : Fin 8}

/-- A step that does not read the descriptor leaves it as it is. -/
theorem fds_step_of_not_read (hmask : s.pcbMask t j = true)
    (hopen : ((s.pcb (slotId t j)).fds fd).flags = 1) (hkeep : KeepsOpen (slotId t j) fd s e)
    (hno : ∀ i buf nbytes, e = .read i buf nbytes → ¬ ReadsFd (slotId t j) fd s i buf)
    (h : step img s e = some s') :
    (s'.pcb (slotId t j)).fds fd = (s.pcb (slotId t j)).fds fd := by
  have hchange := pcbChange (slotId t j) h
  generalize s'.pcb (slotId t j) = q at hchange
  cases hchange with
  | keeps hq => exact congrFun (congrArg Prod.fst hq) fd
  | @opens _ _ i _ _ hid hfree hfds =>
    -- `open` takes a descriptor that is closed
    rw [hfds]
    refine Function.update_of_ne ?_ ..
    rintro rfl
    have hzero : ((s.pcb (slotId t j)).fds fd).flags = 0 := by
      simpa using List.find?_some hfree
    rw [hopen] at hzero
    cases hzero
  | @closes c i he hid hi =>
    subst he
    refine Function.update_of_ne ?_ ..
    rintro rfl
    exact hkeep ⟨hid.symm, hi.symm⟩
  | @reads c nbytes buf i he hid hdriver =>
    refine Function.update_of_ne ?_ ..
    rintro rfl
    exact hno c buf nbytes he ⟨hid.symm, hdriver⟩
  | halts hcall =>
    rw [hkeep.callsHalt] at hcall
    cases hcall
  | @starts _ cur i hid hfree =>
    -- a start takes a slot that is free
    obtain ⟨rfl, hij⟩ := (slotId_inj j.isLt i.isLt).mp hid
    obtain rfl : j = i := Fin.ext hij
    obtain hfree | ⟨hcall, -⟩ := hfree
    · rw [hmask] at hfree
      cases hfree
    · rw [hkeep.callsHalt] at hcall
      cases hcall

/-! ### A read of the descriptor -/

/-- A read of the descriptor is a `file_read` for it. -/
theorem fds_step_of_read {id : Nat} {i nbytes : Int} {buf : Nat} (hread : ReadsFd id fd s i buf)
    (h : step img s (.read i buf nbytes) = some s') :
    (s'.pcb id).fds fd = (fileRead img ((s.pcb id).fds fd) fd buf nbytes).2 := by
  obtain ⟨rfl, hdriver⟩ := hread
  obtain ⟨-, h⟩ := step_call h rfl
  simp only [syscall, Kernel.read, hdriver] at h
  split at h
  · rw [← Option.some.inj h]
    simp [Kernel.ret, setFd, setPcb, Pcb.setFd]
  · cases h

/-- A chunk of the file. -/
theorem contents_chunk (img : Image) (inode offset n : Nat) :
    (List.range (min n (img.inodeSize inode - offset))).map
        (fun k => img.fileByte inode (offset + k)) = ((img.contents inode).drop offset).take n := by
  apply List.ext_getElem
  · simp only [List.length_map, List.length_range, List.length_take, List.length_drop,
      Image.length_contents]
  · intro k hk hk'
    simp [Image.contents]

/-- A read of a good file that does not fail returns the next chunk, and moves past it. -/
theorem fileRead_chunk {desc : FileDesc} {nbytes : Int} {buf p : Nat}
    (hg : GoodInode img desc.inode) (hposition : desc.filePosition = p)
    (hle : p ≤ img.inodeSize desc.inode) (hpos : 0 < nbytes) (hlt : nbytes < 2 ^ 31)
    (hok : (fileRead img desc fd buf nbytes).1.ret ≠ -1) :
    (fileRead img desc fd buf nbytes).1.bytes =
        ((img.contents desc.inode).drop p).take nbytes.toNat ∧
      (fileRead img desc fd buf nbytes).1.ret =
        (fileRead img desc fd buf nbytes).1.bytes.length ∧
      (fileRead img desc fd buf nbytes).2 =
        { desc with filePosition := (p : Int) +
          (fileRead img desc fd buf nbytes).1.bytes.length } := by
  have hsize := hg.size_lt
  by_cases hcall : (fd : Nat) ≠ 0 ∧ buf ≠ 0
  · have hlen : uint32 nbytes = nbytes.toNat := by
      simp only [uint32]
      omega
    have hoff : uint32 desc.filePosition = p := by
      rw [hposition, uint32]
      omega
    obtain ⟨hbytes, hret⟩ := @readData_ret img desc.inode p buf nbytes.toNat hg hcall.2 (by omega)
    simp only [fileRead, if_pos hcall, hlen, hoff] at hok ⊢
    -- the entry behind the last block can only make the read fail
    have hstop : ¬ StopsShort img desc.inode p nbytes.toNat := by
      intro hstop
      rw [if_pos hstop] at hret
      exact hok hret
    rw [if_neg hstop] at hret
    have hcount : (readData img desc.inode p buf nbytes.toNat).bytes.length =
        min nbytes.toNat (img.inodeSize desc.inode - p) := by
      rw [hbytes, List.length_map, List.length_range]
    rw [← hcount] at hret
    refine ⟨hbytes.trans (contents_chunk ..), hret, ?_⟩
    have hint : int32 (desc.filePosition + (readData img desc.inode p buf nbytes.toNat).ret) =
        (p : Int) + (readData img desc.inode p buf nbytes.toNat).bytes.length := by
      rw [hret, hposition, hcount, int32]
      omega
    rw [hint]
  · refine absurd ?_ hok
    simp only [fileRead, if_neg hcall]

/-! ### A whole file -/

/-- The reads that the log is about are for some bytes, and do not fail. -/
def ReadLog.Ok (log : ReadLog) : Prop := ∀ x ∈ log, 0 < x.1 ∧ x.1 < 2 ^ 31 ∧ x.2.ret ≠ -1

instance (log : ReadLog) : Decidable log.Ok := inferInstanceAs (Decidable (∀ x ∈ log, _))

/-- A descriptor of the process in slot `j` of terminal `t` is open for a file, and its log is
about reads from the start of the file up to the position. -/
structure OpenReads (img : Image) (t : TermId) (j : Fin 4) (fd : Fin 8) (inode : Nat)
    (x : Kernel × ReadLog) : Prop where
  mask : x.1.pcbMask t j = true
  flags : ((x.1.pcb (slotId t j)).fds fd).flags = 1
  inode_eq : ((x.1.pcb (slotId t j)).fds fd).inode = inode
  chunks : x.2.Ok → Chunks.ReadsFrom (img.contents inode) 0 x.2.chunks ∧
    (∀ r ∈ x.2, r.2.ret = r.2.bytes.length) ∧
    ((x.1.pcb (slotId t j)).fds fd).filePosition = Chunks.total x.2.chunks

/-- The read of a good file that has just been made is added to its log. -/
theorem OpenReads.of_read {x x' : Kernel × ReadLog} {i nbytes : Int} {buf : Nat}
    (hg : GoodInode img inode) (hr : OpenReads img t j fd inode x)
    (hread : ReadsFd (slotId t j) fd x.1 i buf) (hmask : x'.1.pcbMask t j = true)
    (h : logReads img (slotId t j) fd x (.read i buf nbytes) = some x') :
    OpenReads img t j fd inode x' := by
  obtain ⟨hs, hlog⟩ := logged_eq_some.mp h
  have hdesc := fds_step_of_read hread hs
  have hlog' : x'.2 = x.2 ++ [(nbytes,
      (fileRead img ((x.1.pcb (slotId t j)).fds fd) fd buf nbytes).1)] := by
    rw [hlog]
    simp only [logRead, if_pos hread, hread.1]
  have hkept : ∀ (d : FileDesc), (fileRead img d fd buf nbytes).2.flags = d.flags ∧
      (fileRead img d fd buf nbytes).2.inode = d.inode := by
    intro d
    simp only [fileRead]
    split <;> exact ⟨rfl, rfl⟩
  refine ⟨hmask, ?_, ?_, fun hok => ?_⟩
  · rw [hdesc, (hkept _).1, hr.flags]
  · rw [hdesc, (hkept _).2, hr.inode_eq]
  · rw [hlog'] at hok ⊢
    obtain ⟨hchunks, hrets, hposition⟩ := hr.chunks fun y hy => hok y (List.mem_append_left _ hy)
    obtain ⟨hpos, hlt, hne⟩ := hok _ (List.mem_append_right _ (List.mem_singleton_self _))
    have hle := Chunks.total_le hchunks
    rw [Image.length_contents] at hle
    have hinode := hr.inode_eq
    obtain ⟨hbytes, hret, hdesc'⟩ :=
      fileRead_chunk (hinode ▸ hg) hposition (hinode ▸ hle) hpos hlt hne
    rw [hinode] at hbytes
    simp only [ReadLog.chunks, List.map_append, List.map_cons, List.map_nil] at hchunks ⊢
    -- the position before the read is the total of the log, so the chunk starts there
    refine ⟨hchunks.concat ?_, ?_, ?_⟩
    · rw [hbytes, Nat.zero_add]
      rfl
    · intro r hr'
      obtain hr' | hr' := List.mem_append.mp hr'
      · exact hrets r hr'
      · rw [List.mem_singleton.mp hr']
        exact hret
    · rw [hdesc, hdesc', Chunks.total_append]
      simp [ReadLog.chunks]

/-- **Step lemma.** A step that keeps the descriptor open keeps its log true. -/
theorem openReads_step {x x' : Kernel × ReadLog} (hg : GoodInode img inode)
    (hr : OpenReads img t j fd inode x) (hkeep : KeepsOpen (slotId t j) fd x.1 e)
    (h : logReads img (slotId t j) fd x e = some x') : OpenReads img t j fd inode x' := by
  obtain ⟨hs, hlog⟩ := logged_eq_some.mp h
  have hslot : KeepsSlot (slotId t j) x.1 e := by
    intro hcall
    rw [hkeep.callsHalt] at hcall
    cases hcall
  have hmask := mask_step hr.mask hslot hs
  by_cases hread : ∃ i buf nbytes, e = .read i buf nbytes ∧ ReadsFd (slotId t j) fd x.1 i buf
  · obtain ⟨i, buf, nbytes, rfl, hread⟩ := hread
    exact hr.of_read hg hread hmask h
  · have hno : ∀ i buf nbytes, e = .read i buf nbytes → ¬ ReadsFd (slotId t j) fd x.1 i buf :=
      fun i buf nbytes he hi => hread ⟨i, buf, nbytes, he, hi⟩
    have hlog' : x'.2 = x.2 := by
      rw [hlog]
      cases e with
      | read i buf nbytes => exact if_neg (hno i buf nbytes rfl)
      | _ => rfl
    have hdesc := fds_step_of_not_read hr.mask hr.flags hkeep hno hs
    refine ⟨hmask, ?_, ?_, ?_⟩
    · rw [hdesc, hr.flags]
    · rw [hdesc, hr.inode_eq]
    · rw [hlog', hdesc]
      exact hr.chunks

/-- The reads of a file up to a position: their bytes one after the other are the file up to
there, a read before the end gets what is asked for or what is left, and after a read that got
nothing no other gets anything. -/
structure ReadsInOrder (img : Image) (inode : Nat) (position : Int) (log : ReadLog) : Prop where
  bytes : log.flatMap (fun x => x.2.bytes) = (img.contents inode).take position.toNat
  position_eq : position = (log.flatMap fun x => x.2.bytes).length
  ret : ∀ (before : ReadLog) (n : Int) (r : Effect) (after : ReadLog),
    log = before ++ (n, r) :: after → r.ret = r.bytes.length ∧
      ((before.flatMap fun x => x.2.bytes).length < img.inodeSize inode →
        r.ret = min n (img.inodeSize inode - (before.flatMap fun x => x.2.bytes).length) ∧
          0 < r.ret)
  ended : ∀ (before : ReadLog) (n : Int) (r : Effect) (after : ReadLog),
    log = before ++ (n, r) :: after → r.ret = 0 → ∀ x ∈ after, x.2.ret = 0

theorem flatMap_chunks (log : ReadLog) :
    log.chunks.flatMap Prod.snd = log.flatMap fun x => x.2.bytes := by
  simp only [ReadLog.chunks, List.flatMap_map]

/-- What the invariant says about the log. -/
theorem OpenReads.readsInOrder {x : Kernel × ReadLog} (hr : OpenReads img t j fd inode x)
    (hok : x.2.Ok) :
    ReadsInOrder img inode ((x.1.pcb (slotId t j)).fds fd).filePosition x.2 := by
  obtain ⟨hchunks, hrets, hposition⟩ := hr.chunks hok
  have hconcat := Chunks.flatMap_snd hchunks
  rw [flatMap_chunks, List.drop_zero] at hconcat
  have hsplit : ∀ {before n r after}, x.2 = before ++ (n, r) :: after → Chunks.ReadsFrom
      (img.contents inode) 0 (ReadLog.chunks before ++ (n.toNat, r.bytes) ::
        ReadLog.chunks after) := by
    intro before n r after hlog
    rw [hlog] at hchunks
    simpa [ReadLog.chunks] using hchunks
  refine ⟨?_, ?_, fun before n r after hlog => ?_, fun before n r after hlog hzero y hy => ?_⟩
  · rw [hposition, hconcat, Int.toNat_natCast]
  · rw [hposition, Chunks.total, flatMap_chunks]
  · have hmem : (n, r) ∈ x.2 := hlog ▸ List.mem_append_right _ List.mem_cons_self
    have hret := hrets _ hmem
    have hlen := Chunks.length_eq (hsplit hlog)
    rw [Chunks.total, flatMap_chunks, Image.length_contents] at hlen
    have hpos := (hok _ hmem).1
    refine ⟨hret, fun hleft => ?_⟩
    simp only at hret hpos
    omega
  · have hmem : ∀ {z}, z ∈ (n, r) :: after → z ∈ x.2 := fun hz =>
      hlog ▸ List.mem_append_right _ hz
    have hnil : r.bytes = [] := by
      have hret := hrets _ (hmem List.mem_cons_self)
      simp only at hret
      exact List.eq_nil_of_length_eq_zero (by omega)
    have hpos := (hok _ (hmem List.mem_cons_self)).1
    have hrest := Chunks.nil_of_nil (hnil ▸ hsplit hlog) (by simp only at hpos; omega)
    have hy' := hrest _ (List.mem_map_of_mem hy)
    rw [hrets y (hmem (List.mem_cons_of_mem _ hy))]
    simp only at hy'
    rw [hy']
    rfl

/-- An `open` of a regular file is the start of reading it. -/
theorem openReads_open {filename : List UInt8} {dentry : Dentry} (hmask : s.pcbMask t j = true)
    (hnow : s.nowPcbId = slotId t j) (hdentry : readDentryByName img filename = some dentry)
    (hregular : dentry.filetype = 2) (hfree : freeFd (s.pcb (slotId t j)) = some fd)
    (h : step img s (.open filename) = some s') :
    OpenReads img t j fd dentry.inode (s', []) := by
  have hmask' := mask_step hmask (fun hcall => by cases hcall) h
  obtain rfl := Option.some.inj (step_call h rfl).2
  obtain ⟨hno | hno, -⟩ | ⟨d, i, hd, hi, -, hpcb⟩ := open_cases img s filename
  · rw [hdentry] at hno
    cases hno
  · rw [hnow, hfree] at hno
    cases hno
  · obtain rfl := Option.some.inj (hdentry.symm.trans hd)
    rw [hnow] at hi hpcb
    obtain rfl := Option.some.inj (hfree.symm.trans hi)
    have hdesc : ((s.open img filename).pcb (slotId t j)).fds fd =
        ((s.pcb (slotId t j)).fds fd).bind dentry := by
      rw [hpcb, Function.update_self, Pcb.fds_opened, Function.update_self]
    refine ⟨hmask', ?_, ?_, fun _ => ⟨trivial, ?_, ?_⟩⟩
    · rw [hdesc, FileDesc.flags_bind]
    · simp only [hdesc, FileDesc.bind, hregular]
    · intro r hr
      cases hr
    · rw [hdesc, FileDesc.filePosition_bind]
      rfl

/-- **Reading a file.** From the `open` of a regular file on, whatever is read between, the reads
of the descriptor that do not fail give the file in order. -/
theorem reads_in_order {filename : List UInt8} {dentry : Dentry} {s₁ m : Kernel}
    {es : List Event} {log : ReadLog} (hwf : WellFormed img) (hmask : s.pcbMask t j = true)
    (hnow : s.nowPcbId = slotId t j) (hdentry : readDentryByName img filename = some dentry)
    (hregular : dentry.filetype = 2) (hfree : freeFd (s.pcb (slotId t j)) = some fd)
    (hopen : step img s (.open filename) = some s₁)
    (hkeep : Guarded (logReads img (slotId t j) fd)
      (fun x e => KeepsOpen (slotId t j) fd x.1 e) (s₁, []) es)
    (hrun : run (logReads img (slotId t j) fd) (s₁, []) es = some (m, log)) (hok : log.Ok) :
    ReadsInOrder img dentry.inode ((m.pcb (slotId t j)).fds fd).filePosition log := by
  have hstart := openReads_open hmask hnow hdentry hregular hfree hopen
  have hend := Guarded.invariant
    (fun _ _ _ hr hg h => openReads_step (hwf.goodInode hdentry) hr hg h) hstart hkeep hrun
  exact hend.readsInOrder hok

/-- The shell of terminal 1 reads its file to the end, while that of terminal 2 reads it too. -/
def readingEvents : List Event :=
  [.read 2 0x8000000 16, .tick noStale, .open shellCommand, .read 2 0x8000000 7, .tick noStale,
    .tick noStale, .read 2 0x8000000 30, .read 2 0x8000000 30]

theorem reads_in_order_sample : ∃ s s₁ m log,
    run (step sampleImage) (boot powerOn) [.tick noStale] = some s ∧
    step sampleImage s (.open shellCommand) = some s₁ ∧
    run (logReads sampleImage (slotId 1 0) 2) (s₁, []) readingEvents = some (m, log) ∧
    log.map (fun x => x.2.ret) = [16, 24, 0] ∧
    ReadsInOrder sampleImage 0 ((m.pcb (slotId 1 0)).fds 2).filePosition log := by
  have hobs : ((run (step sampleImage) (boot powerOn) [.tick noStale]).bind fun s =>
      (step sampleImage s (.open shellCommand)).bind fun s₁ =>
      (run (logReads sampleImage (slotId 1 0) 2) (s₁, []) readingEvents).map fun x =>
      ((s.pcbMask 1 0, s.nowPcbId, freeFd (s.pcb (slotId 1 0))),
        decide (Guarded (logReads sampleImage (slotId 1 0) 2)
          (fun x e => KeepsOpen (slotId 1 0) 2 x.1 e) (s₁, []) readingEvents),
        x.2.map (fun x => x.2.ret), decide x.2.Ok)) =
      some ((true, slotId 1 0, some 2), true, [16, 24, 0], true) := by decide +kernel
  obtain ⟨s, hs, hobs⟩ := Option.bind_eq_some_iff.mp hobs
  obtain ⟨s₁, hs₁, hobs⟩ := Option.bind_eq_some_iff.mp hobs
  obtain ⟨⟨m, log⟩, hm, hobs⟩ := Option.map_eq_some_iff.mp hobs
  simp only [Prod.mk.injEq, decide_eq_true_eq] at hobs
  obtain ⟨⟨hmask, hnow, hfree⟩, hkeep, hrets, hok⟩ := hobs
  have hdentry : readDentryByName sampleImage shellCommand = some ⟨shellCommand, 2, 0⟩ := by
    decide +kernel
  exact ⟨s, s₁, m, log, hs, hs₁, hm, hrets, reads_in_order sampleImage_bootable.toWellFormed hmask
    hnow hdentry rfl hfree hs₁ hkeep hm hok⟩

end LinuxLikeKernel
