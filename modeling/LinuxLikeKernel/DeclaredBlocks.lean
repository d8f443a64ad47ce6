import LinuxLikeKernel.FilePosition

/-!
# What `read_data` looks at

Each place of the image that `read_data` reads. It checks the number of a block when it moves on
to it, but not that of the first block, not the inode, and not that the inode has another entry.

## Main definitions

- `DiskAccess`, `readDataReads` — the places that a read looks at, in order
- `StaysDeclared` — what should hold of them, and of the value that is returned
- `LeavesEntries` — a read goes on behind the 1023 entries of an inode

## Main results

- `mem_readDataReads_iff` — a read looks at what its turns look at
- `staysDeclared_iff` — when it looks only at what the image declares
-/

namespace LinuxLikeKernel
open ByteMemory

variable {img : Image} {inode offset : Nat}

/-! ### Accesses -/

/-- A place in the image: `inodeblk[inode].size`, `inodeblk[inode].data_blocks[k]`, and a byte of
a data block. -/
inductive DiskAccess
  | size (inode : Nat)
  | entry (inode k : Nat)
  | byte (block place : Nat)
  deriving DecidableEq, Repr

/-- The number of entries in an inode. -/
abbrev inodeEntries : Nat := 1023

/-- The place is in one of the inodes or data blocks that the boot block counts. -/
def DiskAccess.Declared (img : Image) : DiskAccess → Prop
  | .size inode => inode < img.numInodes
  | .entry inode k => inode < img.numInodes ∧ k < inodeEntries
  | .byte block place => block < img.numDatablocks ∧ place < fsBlockSize

instance (img : Image) : DecidablePred (DiskAccess.Declared img)
  | .size _ => inferInstanceAs (Decidable (_ < _))
  | .entry .. | .byte .. => inferInstanceAs (Decidable (_ ∧ _))

/-- The entry that the block advance looks at. -/
def BlockCursor.settleReads (inode : Nat) (cur : BlockCursor) : List DiskAccess :=
  if fsBlockSize ≤ cur.byteInBlk then [.entry inode (cur.datablk + 1)] else []

/-- The accesses of `readDataLoop`. -/
def readDataLoopReads (img : Image) (inode offset : Nat) : Nat → Nat → BlockCursor → List DiskAccess
  | 0, _, _ => []
  | n + 1, copied, cur =>
    cur.settleReads inode ++
      match cur.settle img inode with
      | none => []
      | some cur =>
        .size inode ::
          if img.inodeSize inode ≤ (copied + offset) % 2 ^ 32 then []
          else .byte (img.dataBlock inode cur.datablk) cur.byteInBlk ::
            readDataLoopReads img inode offset n (copied + 1) cur.next

/-- The accesses of `readData`. The first entry is looked at whatever the length is. -/
def readDataReads (img : Image) (inode offset buf length : Nat) : List DiskAccess :=
  if buf = 0 then []
  else .entry inode (offset / fsBlockSize) ::
    readDataLoopReads img inode offset length 0 (BlockCursor.start img inode offset)

/-- The accesses of the turn that is about byte `k` from the offset on. -/
def turnReads (img : Image) (inode offset k : Nat) : List DiskAccess :=
  (if 0 < k ∧ (offset + k) % fsBlockSize = 0 then [.entry inode ((offset + k) / fsBlockSize)]
    else []) ++
  (if Blocked img inode offset k then [] else [.size inode]) ++
  if HasByte img inode offset k then
    [.byte (img.dataBlock inode ((offset + k) / fsBlockSize)) ((offset + k) % fsBlockSize)]
  else []

theorem settleReads_eq {copied : Nat} {cur : BlockCursor} (hc : cur.At offset copied) :
    cur.settleReads inode = if 0 < copied ∧ (offset + copied) % fsBlockSize = 0 then
      [.entry inode ((offset + copied) / fsBlockSize)] else [] := by
  obtain ⟨hpos, hle, hlate, hearly⟩ := hc
  rw [BlockCursor.settleReads]
  by_cases hb : fsBlockSize ≤ cur.byteInBlk
  · have hcopied := hlate (Nat.le_antisymm hle hb)
    have hfull : cur.byteInBlk = fsBlockSize := Nat.le_antisymm hle hb
    simp only [fsBlockSize] at hpos hfull
    have hdiv : cur.datablk + 1 = (offset + copied) / fsBlockSize := by
      simp only [fsBlockSize]
      omega
    have hmod : (offset + copied) % fsBlockSize = 0 := by
      simp only [fsBlockSize]
      omega
    rw [if_pos hb, if_pos ⟨hcopied, hmod⟩, hdiv]
  · rw [if_neg hb, if_neg]
    rintro ⟨hcopied, hmod⟩
    have := hearly hcopied
    simp only [fsBlockSize] at hpos hb hmod
    omega

/-- The accesses of one turn, and those of the rest. -/
theorem readDataLoopReads_turn {n copied : Nat} {cur : BlockCursor} (hc : cur.At offset copied) :
    ∃ rest, readDataLoopReads img inode offset (n + 1) copied cur =
        turnReads img inode offset copied ++ rest ∧
      (HasByte img inode offset copied → ∃ cur', BlockCursor.At cur' offset (copied + 1) ∧
        rest = readDataLoopReads img inode offset n (copied + 1) cur') ∧
      (¬ HasByte img inode offset copied → rest = []) := by
  rw [readDataLoopReads, settleReads_eq hc, turnReads]
  obtain ⟨hbad, hs⟩ | ⟨hfree, cur', hs, hblock, hplace, -⟩ :=
    @settle_cases img inode offset copied cur hc
  · refine ⟨[], ?_, fun hbyte => absurd hbad hbyte.not_blocked, fun _ => rfl⟩
    have hno : ¬ HasByte img inode offset copied := fun hbyte => hbyte.not_blocked hbad
    rw [hs, if_pos hbad, if_neg hno]
    simp only [List.append_nil]
  · rw [hs, if_neg hfree]
    by_cases hbyte : HasByte img inode offset copied
    · refine ⟨_, ?_, fun _ => ⟨cur'.next, at_next hblock hplace, rfl⟩, fun hno => absurd hbyte hno⟩
      rw [if_pos hbyte]
      simp only [if_neg (Nat.not_le.mpr hbyte.lt_size), hblock, hplace, List.append_assoc,
        List.cons_append, List.nil_append]
    · refine ⟨[], ?_, fun h => absurd h hbyte, fun _ => rfl⟩
      have hge : img.inodeSize inode ≤ (copied + offset) % 2 ^ 32 :=
        Nat.le_of_not_lt fun hlt => hbyte (hasByte_of_not_blocked hlt hfree)
      rw [if_neg hbyte]
      simp only [if_pos hge, List.append_nil]

/-- The loop looks at what its turns look at, up to the first one without a byte. -/
theorem mem_readDataLoopReads_iff {n copied : Nat} {cur : BlockCursor} {a : DiskAccess}
    (hc : cur.At offset copied) : a ∈ readDataLoopReads img inode offset n copied cur ↔
      ∃ k < n, (∀ j < k, HasByte img inode offset (copied + j)) ∧
        a ∈ turnReads img inode offset (copied + k) := by
  induction n generalizing copied cur with
  | zero => simp [readDataLoopReads]
  | succ n ih =>
    obtain ⟨rest, heq, hyes, hno⟩ := @readDataLoopReads_turn img inode offset n copied cur hc
    have hshift : ∀ j, copied + 1 + j = copied + (j + 1) := fun j => by omega
    rw [heq, List.mem_append]
    constructor
    · rintro (hturn | hrest)
      · exact ⟨0, Nat.succ_pos n, fun j hj => absurd hj (Nat.not_lt_zero j), hturn⟩
      · by_cases hbyte : HasByte img inode offset copied
        · obtain ⟨cur', hat, rfl⟩ := hyes hbyte
          obtain ⟨k, hk, hall, hmem⟩ := (ih hat).mp hrest
          refine ⟨k + 1, Nat.succ_lt_succ hk, fun j hj => ?_, hshift k ▸ hmem⟩
          cases j with
          | zero => exact hbyte
          | succ j => exact hshift j ▸ hall j (by omega)
        · rw [hno hbyte] at hrest
          cases hrest
    · rintro ⟨k, hk, hall, hmem⟩
      cases k with
      | zero => exact .inl hmem
      | succ k =>
        obtain ⟨cur', hat, rfl⟩ := hyes (hall 0 (Nat.succ_pos k))
        refine .inr ((ih hat).mpr ⟨k, by omega, fun j hj => ?_, (hshift k).symm ▸ hmem⟩)
        exact (hshift j).symm ▸ hall (j + 1) (by omega)

theorem mem_readDataReads_iff {buf length : Nat} (hbuf : buf ≠ 0) {a : DiskAccess} :
    a ∈ readDataReads img inode offset buf length ↔
      a = .entry inode (offset / fsBlockSize) ∨
        ∃ k < length, (∀ j < k, HasByte img inode offset j) ∧
          a ∈ turnReads img inode offset k := by
  rw [readDataReads, if_neg hbuf, List.mem_cons, mem_readDataLoopReads_iff (at_start ..)]
  simp only [Nat.zero_add]

/-- The accesses of a turn are those that it makes. -/
theorem forall_turnReads_iff {k : Nat} {P : DiskAccess → Prop} :
    (∀ a ∈ turnReads img inode offset k, P a) ↔
      (0 < k → (offset + k) % fsBlockSize = 0 → P (.entry inode ((offset + k) / fsBlockSize))) ∧
      (¬ Blocked img inode offset k → P (.size inode)) ∧
      (HasByte img inode offset k → P (.byte (img.dataBlock inode ((offset + k) / fsBlockSize))
        ((offset + k) % fsBlockSize))) := by
  simp only [turnReads, List.forall_mem_append, and_assoc]
  refine and_congr ?_ (and_congr ?_ ?_)
  · split
    · rename_i h
      simp [h.1, h.2]
    · rename_i h
      simpa using fun hk hmod => absurd ⟨hk, hmod⟩ h
  · split
    · rename_i h
      simp [h]
    · rename_i h
      simp [h]
  · split
    · rename_i h
      simp [h]
    · rename_i h
      simp [h]

/-! ### The bytes -/

/-- Where a file has bytes in a later block its number is in range. -/
theorem block_lt_of_hasByte {k : Nat} (hall : ∀ j ≤ k, HasByte img inode offset j)
    (hfirst : img.dataBlock inode (offset / fsBlockSize) < img.numDatablocks) :
    img.dataBlock inode ((offset + k) / fsBlockSize) < img.numDatablocks := by
  by_cases hsame : (offset + k) / fsBlockSize = offset / fsBlockSize
  · rwa [hsame]
  · -- the block starts between the offset and the byte
    simp only [fsBlockSize] at hsame
    have hstart : (offset + ((offset + k) / 4096 * 4096 - offset)) % fsBlockSize = 0 := by
      simp only [fsBlockSize]
      omega
    have hlt := (hall ((offset + k) / 4096 * 4096 - offset) (by omega)).block_lt (by omega) hstart
    have hblock : (offset + ((offset + k) / 4096 * 4096 - offset)) / fsBlockSize =
        (offset + k) / fsBlockSize := by
      simp only [fsBlockSize]
      omega
    rwa [hblock] at hlt

/-! ### Staying inside what is declared -/

/-- A read returns -1 for an inode that does not exist and where a byte it is asked for lies in a
block that does not exist, stores bytes of existing blocks, and looks at nothing else. -/
structure StaysDeclared (img : Image) (inode offset buf length : Nat) : Prop where
  inode_error : img.numInodes ≤ inode → (readData img inode offset buf length).ret = -1
  block_error : (∃ k < length, offset + k < img.inodeSize inode ∧
    img.numDatablocks ≤ img.dataBlock inode ((offset + k) / fsBlockSize)) →
      (readData img inode offset buf length).ret = -1
  stored : ∀ k (hk : k < (readData img inode offset buf length).bytes.length), ∃ block place,
    block < img.numDatablocks ∧ place < fsBlockSize ∧
      .byte block place ∈ readDataReads img inode offset buf length ∧
      (readData img inode offset buf length).bytes[k] = img.byteAt (img.blockStart block + place)
  declared : ∀ a ∈ readDataReads img inode offset buf length, a.Declared img

/-- The file has every byte from the offset to the end of its 1023rd block, and there is more to
read. -/
def LeavesEntries (img : Image) (inode offset length : Nat) : Prop :=
  inodeEntries * fsBlockSize < offset + length ∧
    ∀ j < inodeEntries * fsBlockSize - offset, HasByte img inode offset j

instance (img : Image) (inode offset length : Nat) :
    Decidable (LeavesEntries img inode offset length) := inferInstanceAs (Decidable (_ ∧ _))

/-- The inode exists and has an entry for the offset, the block there exists if it is read, and the
read does not need an entry behind the last one. -/
structure ReadsWithin (img : Image) (inode offset length : Nat) : Prop where
  inode_lt : inode < img.numInodes
  offset_lt : offset < inodeEntries * fsBlockSize
  first_lt : 0 < length → offset < img.inodeSize inode →
    img.dataBlock inode (offset / fsBlockSize) < img.numDatablocks
  stays : ¬ LeavesEntries img inode offset length

variable {buf length : Nat}

theorem ReadsWithin.declared (hw : ReadsWithin img inode offset length) (hbuf : buf ≠ 0) :
    ∀ a ∈ readDataReads img inode offset buf length, a.Declared img := by
  have hoff := hw.offset_lt
  simp only [inodeEntries, fsBlockSize] at hoff
  intro a ha
  obtain rfl | ⟨k, hk, hall, hturn⟩ := (mem_readDataReads_iff hbuf).mp ha
  · refine ⟨hw.inode_lt, ?_⟩
    simp only [inodeEntries, fsBlockSize]
    omega
  · -- turn `k` looks at an entry if it is at the end of a block, and reads a byte if it has one
    refine forall_turnReads_iff.mpr ⟨fun hpos hmod => ⟨hw.inode_lt, ?_⟩, fun _ => hw.inode_lt,
      fun hbyte => ⟨?_, Nat.mod_lt _ (by decide)⟩⟩ a hturn
    · by_contra hge
      refine hw.stays ⟨?_, fun j hj => hall j ?_⟩
      · simp only [inodeEntries, fsBlockSize] at hge ⊢
        omega
      · simp only [inodeEntries, fsBlockSize] at hge hj
        omega
    · have hall' : ∀ j ≤ k, HasByte img inode offset j := fun j hj =>
        (Nat.lt_or_eq_of_le hj).elim (hall j) fun h => h ▸ hbyte
      have hsize := (hall' 0 (Nat.zero_le k)).lt_size
      exact block_lt_of_hasByte hall' (hw.first_lt (by omega) (by omega))

/-- A byte in a block that does not exist stops such a read. -/
theorem ReadsWithin.block_error (hw : ReadsWithin img inode offset length) (hbuf : buf ≠ 0)
    (hlen : length < 2 ^ 32) {k : Nat} (hk : k < length) (hsize : offset + k < img.inodeSize inode)
    (hbad : img.numDatablocks ≤ img.dataBlock inode ((offset + k) / fsBlockSize)) :
    (readData img inode offset buf length).ret = -1 := by
  have hword : img.inodeSize inode < 2 ^ 32 := word_lt ..
  refine (readData_ret_eq_neg_one_iff hbuf hlen).mpr (by_contra fun hno => ?_)
  -- nothing stops the loop before byte `k`, whose block then has been checked
  have hall : ∀ j ≤ k, HasByte img inode offset j := by
    intro j
    induction j using Nat.strong_induction_on with
    | h j ih =>
      intro hj
      refine hasByte_of_not_blocked (by omega) fun hblocked =>
        hno (.inl ⟨j, by omega, ?_, hblocked⟩)
      exact fun i hi => ih i hi (by omega)
  have hfirst := hw.first_lt (by omega) (by omega)
  exact Nat.not_le.mpr (block_lt_of_hasByte hall hfirst) hbad

theorem ReadsWithin.stored (hw : ReadsWithin img inode offset length) (hbuf : buf ≠ 0) {k : Nat}
    (hk : k < (readData img inode offset buf length).bytes.length) : ∃ block place,
      block < img.numDatablocks ∧ place < fsBlockSize ∧
        .byte block place ∈ readDataReads img inode offset buf length ∧
        (readData img inode offset buf length).bytes[k] =
          img.byteAt (img.blockStart block + place) := by
  have hdata : readData img inode offset buf length =
      readDataLoop img inode offset length 0 (BlockCursor.start img inode offset) := if_neg hbuf
  have hat := at_start img inode offset
  simp only [hdata] at hk ⊢
  obtain ⟨hlt, hall⟩ := (lt_length_readDataLoop hat).mp hk
  simp only [Nat.zero_add] at hall
  have hmem : .byte (img.dataBlock inode ((offset + k) / fsBlockSize))
      ((offset + k) % fsBlockSize) ∈ readDataReads img inode offset buf length := by
    refine (mem_readDataReads_iff hbuf).mpr (.inr ⟨k, hlt, fun j hj => hall j hj.le, ?_⟩)
    simp [turnReads, hall k le_rfl]
  obtain ⟨hblock, hplace⟩ := hw.declared hbuf _ hmem
  exact ⟨_, _, hblock, hplace, hmem, getElem_readDataLoop hat (points_start ..) hk⟩

/-- **Declared blocks.** A read stays inside what the image declares exactly if it is refused for
its buffer, or its inode, its first block and its entries are there. -/
theorem staysDeclared_iff (hlen : length < 2 ^ 32) :
    StaysDeclared img inode offset buf length ↔
      buf = 0 ∨ ReadsWithin img inode offset length := by
  by_cases hbuf : buf = 0
  · have hdata : readData img inode offset buf length = ⟨-1, []⟩ := if_pos hbuf
    have hreads : readDataReads img inode offset buf length = [] := if_pos hbuf
    refine iff_of_true ⟨fun _ => ?_, fun _ => ?_, fun k hk => ?_, fun a ha => ?_⟩ (.inl hbuf)
    · rw [hdata]
    · rw [hdata]
    · rw [hdata] at hk
      exact absurd hk (Nat.not_lt_zero k)
    · rw [hreads] at ha
      cases ha
  rw [or_iff_right hbuf]
  constructor
  · intro h
    have hmem := fun a => @mem_readDataReads_iff img inode offset buf length hbuf a
    obtain ⟨hinode, hentry⟩ := h.declared _ ((hmem _).mpr (.inl rfl))
    simp only [inodeEntries, fsBlockSize] at hentry
    refine ⟨hinode, ?_, fun hpos hsize => ?_, ?_⟩
    · simp only [inodeEntries, fsBlockSize]
      omega
    · have hbyte : HasByte img inode offset 0 :=
        ⟨by rw [Nat.zero_add]; exact (Nat.mod_le ..).trans_lt hsize, fun h0 => by cases h0⟩
      refine (h.declared (.byte (img.dataBlock inode (offset / fsBlockSize))
        (offset % fsBlockSize)) ((hmem _).mpr (.inr ⟨0, hpos, ?_, ?_⟩))).1
      · exact fun j hj => absurd hj (Nat.not_lt_zero j)
      · simp [turnReads, hbyte]
    · -- the turn after the 1023rd block looks at entry 1023
      rintro ⟨hmore, hall⟩
      simp only [inodeEntries, fsBlockSize] at hmore hall
      have hend : offset + (1023 * 4096 - offset) = 1023 * 4096 := by omega
      have hdeclared := h.declared (.entry inode 1023) ((hmem _).mpr (.inr
        ⟨1023 * 4096 - offset, by omega, hall, ?_⟩))
      · exact Nat.lt_irrefl _ hdeclared.2
      · have hpos : 0 < 1023 * 4096 - offset := by omega
        have hdiv : 1023 * 4096 / fsBlockSize = 1023 := rfl
        have hmod : 1023 * 4096 % fsBlockSize = 0 := rfl
        simp only [turnReads, hend, hpos, hdiv, hmod, and_self, if_true,
          List.singleton_append]
        exact List.mem_cons_self
  · intro hw
    refine ⟨fun hge => absurd hw.inode_lt (Nat.not_lt.mpr hge), ?_,
      fun k hk => hw.stored hbuf hk, hw.declared hbuf⟩
    rintro ⟨k, hk, hsize, hbad⟩
    exact hw.block_error hbuf hlen hk hsize hbad

/-- The header of the shell of the small image. -/
theorem staysDeclared_iff_sample : StaysDeclared sampleImage 0 0 localBuf 40 := by
  refine (staysDeclared_iff (by decide)).mpr
    (.inr ⟨by decide +kernel, by decide, fun _ _ => ?_, ?_⟩)
  · decide +kernel
  · rintro ⟨hmore, -⟩
    exact absurd hmore (by decide)

/-- Inode 1 of the small image does not exist; its size is the first word of the data block. -/
theorem not_staysDeclared : ¬ ∀ (img : Image) (inode offset buf length : Nat), length < 2 ^ 32 →
    StaysDeclared img inode offset buf length := by
  intro hdeclared
  have hread := hdeclared sampleImage 1 0 localBuf 4 (by decide)
  have herror := hread.inode_error (by decide +kernel)
  have hret : (readData sampleImage 1 0 localBuf 4).ret = 4 := by decide +kernel
  rw [hret] at herror
  cases herror

end LinuxLikeKernel
