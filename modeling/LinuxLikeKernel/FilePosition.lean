import LinuxLikeKernel.CallReturn
import LinuxLikeKernel.FailedStart
import LinuxLikeKernel.PcbChanges

/-!
# File positions

`file_read` adds what `read_data` returns to the position of the descriptor, also where that is
the -1 of an error. An error in the middle of a read moves the position back by one, and a position
0 becomes negative.

## Main definitions

- `ReadFails` — `read_data` returns -1
- `PositionsSafe` — the file reads of a run neither fail nor get past what an `int32_t` can hold

## Main results

- `readData_ret_eq_neg_one_iff` — where -1 comes from
- `fileRead_keeps_iff` — a failing `file_read` leaves its descriptor alone if it has not read
- `fileRead_failures` — the same, and the positions along a run
-/

namespace LinuxLikeKernel
open ByteMemory Kernel Transition

variable {img : Image} {inode offset : Nat}

/-! ### When `read_data` fails -/

/-- A block number out of range stops the read, or it copies so many bytes that their number is
-1 as an `int32_t`. -/
def ReadFails (img : Image) (inode offset length : Nat) : Prop :=
  (∃ k < length, (∀ j < k, HasByte img inode offset j) ∧ Blocked img inode offset k) ∨
    length = 2 ^ 32 - 1 ∧ ∀ j < length, HasByte img inode offset j

instance (img : Image) (inode offset length : Nat) :
    Decidable (ReadFails img inode offset length) := inferInstanceAs (Decidable (_ ∨ _))

theorem int32_eq_neg_one_iff {n : Nat} (hn : n < 2 ^ 32) : int32 n = -1 ↔ n = 2 ^ 32 - 1 := by
  simp only [int32]
  omega

/-- The value of the loop is -1 where a block number stops it, or at the largest count. -/
theorem readDataLoop_ret_eq_neg_one_iff {n copied : Nat} {cur : BlockCursor}
    (hc : cur.At offset copied) (hn : copied + n < 2 ^ 32) :
    (readDataLoop img inode offset n copied cur).ret = -1 ↔
      (∃ k < n, (∀ j < k, HasByte img inode offset (copied + j)) ∧
        Blocked img inode offset (copied + k)) ∨
      copied + n = 2 ^ 32 - 1 ∧ ∀ j < n, HasByte img inode offset (copied + j) := by
  induction n generalizing copied cur with
  | zero =>
    refine (int32_eq_neg_one_iff (by omega)).trans ⟨fun h => .inr ⟨h, fun j hj => ?_⟩, ?_⟩
    · omega
    · rintro (⟨k, hk, -⟩ | ⟨h, -⟩)
      · omega
      · exact h
  | succ n ih =>
    obtain ⟨hyes, hno⟩ := @readDataLoop_turn img inode offset n copied cur hc
    by_cases hbyte : HasByte img inode offset copied
    · obtain ⟨cur', b, hat, -, heq⟩ := hyes hbyte
      -- the bytes of the rest of the loop are those of the whole but the first
      have hshift : ∀ j, copied + 1 + j = copied + (j + 1) := fun j => by omega
      rw [heq]
      refine (ih hat (by omega)).trans (or_congr ⟨?_, ?_⟩ (and_congr (by omega) ⟨?_, ?_⟩))
      · rintro ⟨k, hk, hall, hbad⟩
        refine ⟨k + 1, by omega, fun j hj => ?_, hshift k ▸ hbad⟩
        cases j with
        | zero => exact hbyte
        | succ j => exact hshift j ▸ hall j (by omega)
      · rintro ⟨k, hk, hall, hbad⟩
        cases k with
        | zero => exact absurd hbad hbyte.not_blocked
        | succ k =>
          refine ⟨k, by omega, fun j hj => ?_, (hshift k).symm ▸ hbad⟩
          exact (hshift j).symm ▸ hall (j + 1) (by omega)
      · intro hall j hj
        cases j with
        | zero => exact hbyte
        | succ j => exact hshift j ▸ hall j (by omega)
      · intro hall j hj
        exact (hshift j).symm ▸ hall (j + 1) (by omega)
    · -- the loop ends here, with a bad block or at the end of the file
      rw [hno hbyte]
      by_cases hbad : Blocked img inode offset copied
      · rw [if_pos hbad]
        exact iff_of_true rfl (.inl ⟨0, by omega, fun j hj => absurd hj (Nat.not_lt_zero j), hbad⟩)
      · rw [if_neg hbad]
        refine iff_of_false (fun h => ?_) ?_
        · have := (int32_eq_neg_one_iff (by omega)).mp h
          omega
        · rintro (⟨k, hk, hall, hk'⟩ | ⟨-, hall⟩)
          · cases k with
            | zero => exact hbad hk'
            | succ k => exact hbyte (hall 0 (by omega))
          · exact hbyte (hall 0 (by omega))

theorem readData_ret_eq_neg_one_iff {buf length : Nat} (hbuf : buf ≠ 0) (hlen : length < 2 ^ 32) :
    (readData img inode offset buf length).ret = -1 ↔ ReadFails img inode offset length := by
  rw [readData, if_neg hbuf]
  simpa only [ReadFails, Nat.zero_add] using
    readDataLoop_ret_eq_neg_one_iff (at_start img inode offset) (by omega)

/-! ### `file_read` -/

theorem uint32_lt (n : Int) : uint32 n < 2 ^ 32 := by
  simp only [uint32]
  omega

/-- The position after an error is another one. -/
theorem int32_add_neg_one_ne (n : Int) : int32 (n + -1) ≠ n := by
  simp only [int32]
  omega

/-- A `file_read` that returns -1 leaves its descriptor as it is, exactly if it has not called
`read_data`, or that has not failed. -/
theorem fileRead_keeps_iff (img : Image) (desc : FileDesc) (fd buf : Nat) (nbytes : Int) :
    ((fileRead img desc fd buf nbytes).1.ret = -1 → (fileRead img desc fd buf nbytes).2 = desc) ↔
      ¬(fd ≠ 0 ∧ buf ≠ 0 ∧
        ReadFails img desc.inode (uint32 desc.filePosition) (uint32 nbytes)) := by
  by_cases hcall : fd ≠ 0 ∧ buf ≠ 0
  · have hret := @readData_ret_eq_neg_one_iff img desc.inode (uint32 desc.filePosition) buf
      (uint32 nbytes) hcall.2 (uint32_lt nbytes)
    simp only [fileRead, if_pos hcall]
    refine ⟨fun hkeep hfails => ?_, fun hno hneg => ?_⟩
    · have hneg := hret.mpr hfails.2.2
      have hposition := congrArg FileDesc.filePosition (hkeep hneg)
      simp only [hneg] at hposition
      exact int32_add_neg_one_ne _ hposition
    · exact absurd ⟨hcall.1, hcall.2, hret.mp hneg⟩ hno
  · simp only [fileRead, if_neg hcall]
    exact iff_of_true (fun _ => trivial) fun h => hcall ⟨h.1, h.2.1⟩

/-! ### Positions along a run -/

/-- The bytes that the file has for the read end before position 2^31, up to a multiple of
2^32. -/
def EndsInRange (img : Image) (desc : FileDesc) (length : Nat) : Prop :=
  ∀ count ≤ length, (∀ j < count, HasByte img desc.inode (uint32 desc.filePosition) j) →
    (count = length ∨ ¬ HasByte img desc.inode (uint32 desc.filePosition) count) →
    (desc.filePosition + count) % 2 ^ 32 < 2 ^ 31

instance (img : Image) (desc : FileDesc) (length : Nat) :
    Decidable (EndsInRange img desc length) :=
  inferInstanceAs (Decidable (∀ count ≤ length, _))

/-- A `file_read` that does not fail, and ends at a position that is an `int32_t`. -/
def PositionsSafe (img : Image) (s : Kernel) : Event → Prop
  | .read fd buf nbytes => ∀ i, s.readDriver fd buf = some (i, .file) → i ≠ 0 →
      ¬ ReadFails img ((s.pcb s.getCurPcb).fds i).inode
          (uint32 ((s.pcb s.getCurPcb).fds i).filePosition) (uint32 nbytes) ∧
        EndsInRange img ((s.pcb s.getCurPcb).fds i) (uint32 nbytes)
  | _ => True

instance (img : Image) (s : Kernel) : DecidablePred (PositionsSafe img s)
  | .read fd buf _ => inferInstanceAs (Decidable (∀ i, s.readDriver fd buf = some (i, .file) →
      i ≠ 0 → _))
  | .tick _ | .key .. | .rtc | .exception .. | .execute .. | .halt .. | .open _ | .close _
  | .write .. | .getargs .. | .vidmap _ | .run => inferInstanceAs (Decidable True)

/-- A read that does not fail returns the number of bytes that the file has for it. -/
theorem readData_ret_of_not_fails {buf length : Nat} (hbuf : buf ≠ 0) (hlen : length < 2 ^ 32)
    (h : ¬ ReadFails img inode offset length) : ∃ count ≤ length,
      (∀ j < count, HasByte img inode offset j) ∧
      (count = length ∨ ¬ HasByte img inode offset count) ∧
      (readData img inode offset buf length).ret = int32 count := by
  have hneg := mt (readData_ret_eq_neg_one_iff hbuf hlen).mp h
  rw [readData, if_neg hbuf] at hneg ⊢
  have hat := at_start img inode offset
  have hreach : ∀ k, k < (readDataLoop img inode offset length 0
      (BlockCursor.start img inode offset)).bytes.length ↔
        k < length ∧ ∀ j ≤ k, HasByte img inode offset (0 + j) := fun k =>
    lt_length_readDataLoop hat
  obtain ⟨hret, -⟩ | hret := readDataLoop_ret_cases hat rfl
  · exact absurd hret hneg
  rw [Nat.zero_add] at hret
  simp only [Nat.zero_add] at hreach
  refine ⟨_, readDataLoop_length_le .., fun j hj => ((hreach j).mp hj).2 j le_rfl, ?_, hret⟩
  by_contra hno
  obtain ⟨hne, hbyte⟩ := not_or.mp hno
  refine Nat.lt_irrefl _ ((hreach _).mpr ⟨?_, fun j hj => ?_⟩)
  · exact Nat.lt_of_le_of_ne (readDataLoop_length_le ..) hne
  · obtain hlt | rfl := Nat.lt_or_eq_of_le hj
    · exact ((hreach j).mp hlt).2 j le_rfl
    · exact not_not.mp hbyte

theorem nonneg_int32_iff (n : Int) : 0 ≤ int32 n ↔ n % 2 ^ 32 < 2 ^ 31 := by
  simp only [int32]
  omega

theorem int32_add_int32 (n m : Int) : int32 (n + int32 m) = int32 (n + m) := by
  simp only [int32]
  omega

/-- **Step lemma** for one read: the position stays an `int32_t` that is not negative. -/
theorem filePosition_fileRead_nonneg {desc : FileDesc} {fd buf : Nat} {nbytes : Int}
    (hold : 0 ≤ desc.filePosition)
    (hsafe : fd ≠ 0 → ¬ ReadFails img desc.inode (uint32 desc.filePosition) (uint32 nbytes) ∧
      EndsInRange img desc (uint32 nbytes)) :
    0 ≤ (fileRead img desc fd buf nbytes).2.filePosition := by
  by_cases hcall : fd ≠ 0 ∧ buf ≠ 0
  · obtain ⟨hno, hend⟩ := hsafe hcall.1
    obtain ⟨count, hle, hall, hstop, hret⟩ :=
      readData_ret_of_not_fails hcall.2 (uint32_lt nbytes) hno
    simp only [fileRead, if_pos hcall, hret, int32_add_int32, nonneg_int32_iff]
    exact hend count hle hall hstop
  · simpa only [fileRead, if_neg hcall] using hold

/-- No descriptor of the PCB has a negative position. -/
def PositionsNonneg (id : Nat) (s : Kernel) : Prop :=
  ∀ fd, 0 ≤ ((s.pcb id).fds fd).filePosition

theorem freshFds_filePosition : ∀ fd, (freshFds fd).filePosition = 0 := by decide

/-- **Step lemma.** Positions stay 0 or more, whichever process runs. -/
theorem positionsNonneg_step {s s' : Kernel} {e : Event} {id : Nat}
    (hold : PositionsNonneg id s) (hsafe : PositionsSafe img s e) (h : step img s e = some s') :
    PositionsNonneg id s' := by
  have hchange := pcbChange id h
  simp only [PositionsNonneg] at hold ⊢
  generalize s'.pcb id = q at hchange
  intro fd
  cases hchange with
  | keeps hq =>
    have hfds : q.fds = (s.pcb id).fds := congrArg Prod.fst hq
    rw [hfds]
    exact hold fd
  | @opens filename dentry i _ _ _ _ hfds =>
    rw [hfds]
    by_cases hi : fd = i
    · rw [hi, Function.update_self]
      exact Int.le_of_eq (FileDesc.filePosition_bind ..).symm
    · rw [Function.update_of_ne hi]
      exact hold fd
  | @closes _ i =>
    by_cases hi : fd = i
    · rw [hi]
      simpa [Pcb.setFd] using hold i
    · simpa [Pcb.setFd, Function.update_of_ne hi] using hold fd
  | @reads _ nbytes buf i he hid hdriver =>
    -- the only change of a position that the guard is about
    subst he hid
    by_cases hi : fd = i
    · rw [hi]
      simp only [Pcb.setFd, Function.update_self]
      refine filePosition_fileRead_nonneg (hold i) fun hne => hsafe i hdriver ?_
      exact fun h0 => hne (congrArg Fin.val h0)
    · simpa [Pcb.setFd, Function.update_of_ne hi] using hold fd
  | halts _ hposition =>
    rw [hposition fd]
    exact hold fd
  | starts _ _ hfds =>
    rw [hfds]
    exact Int.le_of_eq (freshFds_filePosition fd).symm

/-- **File positions.** A `file_read` that returns -1 keeps its descriptor exactly if it has not
read, or has not failed to. In a run whose file reads do not fail and end in range, no process has
a negative position from its start on. -/
theorem fileRead_failures (img : Image) :
    (∀ (desc : FileDesc) (fd buf : Nat) (nbytes : Int),
      ((fileRead img desc fd buf nbytes).1.ret = -1 →
          (fileRead img desc fd buf nbytes).2 = desc) ↔
        ¬(fd ≠ 0 ∧ buf ≠ 0 ∧
          ReadFails img desc.inode (uint32 desc.filePosition) (uint32 nbytes))) ∧
      ∀ (s s₁ : Kernel) (sp : StackPtr) (command : List UInt8) (stale : Stale)
        (es : List Event), execute img s sp command stale = some (.started s₁) →
          Guarded (step img) (PositionsSafe img) s₁ es →
          Along (step img) (PositionsNonneg s₁.getCurPcb) s₁ es := by
  refine ⟨fileRead_keeps_iff img, fun s s₁ sp command stale es hstart hsafe => ?_⟩
  refine Guarded.along (fun _ _ _ hP hg h => positionsNonneg_step hP hg h) ?_ hsafe
  obtain ⟨prog, cur, i, mem, -, -, -, -, -, rfl⟩ := execute_started_cases hstart
  intro fd
  rw [getCurPcb_started, pcb_started, Function.update_self]
  exact Int.le_of_eq (freshFds_filePosition fd).symm

/-- A shell reads the first bytes of its own file. -/
theorem fileRead_failures_sample : ∃ s s₁,
    run (step sampleImage) (boot powerOn) [.tick noStale] = some s ∧
    execute sampleImage s s.entry shellCommand noStale = some (.started s₁) ∧
    Along (step sampleImage) (PositionsNonneg s₁.getCurPcb) s₁
      [.open shellCommand, .read 2 0x8000000 4] := by
  have hobs : ((run (step sampleImage) (boot powerOn) [.tick noStale]).bind fun s =>
      (execute sampleImage s s.entry shellCommand noStale).map fun o =>
      (o.isStarted, decide (Guarded (step sampleImage) (PositionsSafe sampleImage) o.state
        [.open shellCommand, .read 2 0x8000000 4]))) = some (true, true) := by decide +kernel
  obtain ⟨s, hs, hobs⟩ := Option.bind_eq_some_iff.mp hobs
  obtain ⟨o, ho, hobs⟩ := Option.map_eq_some_iff.mp hobs
  simp only [Prod.mk.injEq, decide_eq_true_eq] at hobs
  obtain ⟨hstarted, hsafe⟩ := hobs
  cases o with
  | returned eax r => cases hstarted
  | faulted r => cases hstarted
  | started s₁ => exact ⟨s, s₁, hs, ho, (fileRead_failures _).2 _ _ _ _ _ _ ho hsafe⟩

/-- A read of `b` from its start on runs into the bad number of its second block. -/
theorem readFails_badBlockImage : ReadFails badBlockImage 1 0 5000 := by
  have hsize : badBlockImage.inodeSize 1 = 4097 := by decide +kernel
  refine .inl ⟨4096, by decide, fun j hj => ⟨?_, fun hpos hmod => ?_⟩, by decide +kernel⟩
  · rw [hsize]
    omega
  · simp only [fsBlockSize] at hmod
    omega

/-- The first read of `b` moves the position from 0 to -1. -/
theorem not_fileRead_failures : ¬ ∀ (img : Image) (s₀ s s' : Kernel) (es : List Event)
    (fd nbytes : Int) (buf : Nat), run (step img) (boot s₀) es = some s →
      step img s (.read fd buf nbytes) = some s' → s'.eax = -1 →
        ∀ i, (s'.pcb s.getCurPcb).fds i = (s.pcb s.getCurPcb).fds i ∧
          (0 ≤ ((s.pcb s.getCurPcb).fds i).filePosition →
            0 ≤ ((s'.pcb s.getCurPcb).fds i).filePosition) := by
  intro hfailures
  have hobs : (run (step badBlockImage) (boot powerOn) [.tick noStale, .open (text ['b'])]).map
      (fun s => (s.cpu, s.readDriver 2 0x8000000, (s.pcb s.getCurPcb).fds 2)) =
      some (.user, some (2, .file), ⟨.file, 1, 0, 1⟩) := by decide +kernel
  obtain ⟨s, hs, hobs⟩ := Option.map_eq_some_iff.mp hobs
  simp only [Prod.mk.injEq] at hobs
  obtain ⟨hcpu, hdriver, hdesc⟩ := hobs
  have hret : (readData badBlockImage 1 0 0x8000000 5000).ret = -1 :=
    (readData_ret_eq_neg_one_iff (by decide) (by decide)).mpr readFails_badBlockImage
  have hread : fileRead badBlockImage ⟨.file, 1, 0, 1⟩ 2 0x8000000 5000 =
      (readData badBlockImage 1 0 0x8000000 5000, ⟨.file, 1, -1, 1⟩) := by
    have hcall : (2 : Nat) ≠ 0 ∧ (0x8000000 : Nat) ≠ 0 := by decide
    have hzero : uint32 0 = 0 := rfl
    have hlen : uint32 5000 = 5000 := rfl
    simp only [fileRead, if_pos hcall, hzero, hlen, hret]
    rfl
  have hpage : InUserPage ((readData badBlockImage 1 0 0x8000000 5000).stores 0x8000000) := by
    have hlen := readData_length_le badBlockImage 1 0 0x8000000 5000
    intro w hw
    obtain ⟨k, hk, haddr⟩ := Effect.mem_stores (by omega) hw
    simp only [userStart, userEnd, haddr]
    omega
  have hstep : step badBlockImage s (.read 2 0x8000000 5000) =
      some ((s.setFd s.getCurPcb 2 ⟨.file, 1, -1, 1⟩).ret (-1)) := by
    simp only [step, hcpu, syscall, Kernel.read, hdriver, hdesc]
    rw [show ((2 : Fin 8) : Nat) = 2 from rfl, hread]
    simp only [if_pos hpage, hret]
  have hneg := (hfailures badBlockImage powerOn s _ _ _ _ _ hs hstep rfl 2).2
  simp [hdesc, Kernel.ret, setFd, setPcb, Pcb.setFd] at hneg

end LinuxLikeKernel
