import LinuxLikeKernel.FileSystem

/-!
# The contents of files

What `read_data` copies. Its loop moves to the next block late, and it looks at the number of
that block before it looks for the end of the file.

## Main definitions

- `HasByte` — the file has a byte there, and the loop gets to it
- `Image.fileByte`, `Image.contents` — the bytes of a file
- `ReadsFile` — the result of a read that is right
- `StopsShort` — the read runs into the entry after the last block of the file

## Main results

- `readsFile_readData_iff` — a read of a good inode is right exactly when it does not
-/

namespace LinuxLikeKernel
open ByteMemory

/-! ### The bytes of a file -/

/-- The file has byte `k` from the offset on, and where it starts a block that is not the first
one read, the number of the block is in range. -/
structure HasByte (img : Image) (inode offset k : Nat) : Prop where
  lt_size : (k + offset) % 2 ^ 32 < img.inodeSize inode
  block_lt : 0 < k → (offset + k) % fsBlockSize = 0 →
    img.dataBlock inode ((offset + k) / fsBlockSize) < img.numDatablocks

instance (img : Image) (inode offset k : Nat) : Decidable (HasByte img inode offset k) :=
  decidable_of_iff ((k + offset) % 2 ^ 32 < img.inodeSize inode ∧
    (0 < k → (offset + k) % fsBlockSize = 0 →
      img.dataBlock inode ((offset + k) / fsBlockSize) < img.numDatablocks))
    ⟨fun h => ⟨h.1, h.2⟩, fun h => ⟨h.lt_size, h.block_lt⟩⟩

/-- Byte `k` from the offset on would start another block, whose number is out of range. -/
def Blocked (img : Image) (inode offset k : Nat) : Prop :=
  0 < k ∧ (offset + k) % fsBlockSize = 0 ∧
    img.numDatablocks ≤ img.dataBlock inode ((offset + k) / fsBlockSize)

instance (img : Image) (inode offset k : Nat) : Decidable (Blocked img inode offset k) :=
  inferInstanceAs (Decidable (_ ∧ _))

variable {img : Image} {inode offset : Nat}

theorem HasByte.not_blocked {k : Nat} (h : HasByte img inode offset k) :
    ¬ Blocked img inode offset k :=
  fun hb => Nat.not_le.mpr (h.block_lt hb.1 hb.2.1) hb.2.2

/-- Without a bad block number in the way the file has every byte inside its size. -/
theorem hasByte_of_not_blocked {k : Nat} (hlt : (k + offset) % 2 ^ 32 < img.inodeSize inode)
    (h : ¬ Blocked img inode offset k) : HasByte img inode offset k :=
  ⟨hlt, fun hpos hmod => Nat.lt_of_not_le fun hbad => h ⟨hpos, hmod, hbad⟩⟩

/-- The cursor points to byte `copied` from the offset on. It moves to the next block late. -/
structure BlockCursor.At (cur : BlockCursor) (offset copied : Nat) : Prop where
  pos : fsBlockSize * cur.datablk + cur.byteInBlk = offset + copied
  le : cur.byteInBlk ≤ fsBlockSize
  late : cur.byteInBlk = fsBlockSize → 0 < copied
  early : 0 < copied → 0 < cur.byteInBlk

theorem at_start (img : Image) (inode offset : Nat) :
    (BlockCursor.start img inode offset).At offset 0 := by
  have hlt : offset % fsBlockSize < fsBlockSize := Nat.mod_lt _ (by decide)
  refine ⟨Nat.div_add_mod .., hlt.le, ?_, fun h => absurd h (by decide)⟩
  intro h
  simp only [BlockCursor.start] at h
  omega

/-- Byte `j` of a file. -/
def Image.fileByte (img : Image) (inode j : Nat) : UInt8 :=
  img.byteAt (img.blockStart (img.dataBlock inode (j / fsBlockSize)) + j % fsBlockSize)

/-- A file. -/
def Image.contents (img : Image) (inode : Nat) : List UInt8 :=
  (List.range (img.inodeSize inode)).map (img.fileByte inode)

theorem Image.length_contents (img : Image) (inode : Nat) :
    (img.contents inode).length = img.inodeSize inode := by
  simp [contents]

/-- The address goes with the block and the place in it. -/
def BlockCursor.Points (img : Image) (inode : Nat) (cur : BlockCursor) : Prop :=
  cur.addr = img.blockStart (img.dataBlock inode cur.datablk) + cur.byteInBlk

theorem BlockCursor.Points.next {cur : BlockCursor} (h : cur.Points img inode) :
    cur.next.Points img inode := by
  simp only [Points, BlockCursor.next] at h ⊢
  omega

theorem points_block (img : Image) (inode d : Nat) :
    BlockCursor.Points img inode ⟨d, 0, img.blockStart (img.dataBlock inode d)⟩ := by
  simp only [BlockCursor.Points]
  exact (Nat.add_zero _).symm

theorem points_start (img : Image) (inode offset : Nat) :
    (BlockCursor.start img inode offset).Points img inode := by
  simp only [BlockCursor.Points, BlockCursor.start]

/-- The block advance stops the loop where it comes to a bad block number. Else it leaves the cursor
in the block and at the place of the byte that is copied next. -/
theorem settle_cases {copied : Nat} {cur : BlockCursor} (hc : cur.At offset copied) :
    (Blocked img inode offset copied ∧ cur.settle img inode = none) ∨
      ¬ Blocked img inode offset copied ∧ ∃ cur', cur.settle img inode = some cur' ∧
        cur'.datablk = (offset + copied) / fsBlockSize ∧
        cur'.byteInBlk = (offset + copied) % fsBlockSize ∧
        (cur.Points img inode → cur'.Points img inode) := by
  obtain ⟨hpos, hle, hlate, hearly⟩ := hc
  simp only [fsBlockSize] at hpos hle hlate ⊢
  by_cases hb : cur.byteInBlk = 4096
  · -- the cursor is past its block: the number of the next one is checked
    have hdiv : (offset + copied) / 4096 = cur.datablk + 1 := by omega
    have hmod : (offset + copied) % 4096 = 0 := by omega
    have hblocked : Blocked img inode offset copied ↔
        img.numDatablocks ≤ img.dataBlock inode (cur.datablk + 1) := by
      simp only [Blocked, fsBlockSize, hdiv, hmod, hlate hb, true_and]
    by_cases hblock : img.numDatablocks ≤ img.dataBlock inode (cur.datablk + 1)
    · refine .inl ⟨hblocked.mpr hblock, ?_⟩
      simp [BlockCursor.settle, fsBlockSize, hb, hblock]
    · refine .inr ⟨mt hblocked.mp hblock,
        ⟨cur.datablk + 1, 0, img.blockStart (img.dataBlock inode (cur.datablk + 1))⟩,
        ?_, hdiv.symm, hmod.symm, fun _ => points_block ..⟩
      simp [BlockCursor.settle, fsBlockSize, hb, hblock]
  · have hfree : ¬ Blocked img inode offset copied := by
      rintro ⟨hpos', hmod, -⟩
      simp only [fsBlockSize] at hmod
      have := hearly hpos'
      omega
    have hin : ¬ fsBlockSize ≤ cur.byteInBlk := by
      simp only [fsBlockSize]
      omega
    refine .inr ⟨hfree, cur, if_neg hin, ?_, ?_, id⟩
    · omega
    · omega

/-- The cursor after the byte. -/
theorem at_next {copied : Nat} {cur : BlockCursor}
    (hblock : cur.datablk = (offset + copied) / fsBlockSize)
    (hplace : cur.byteInBlk = (offset + copied) % fsBlockSize) :
    cur.next.At offset (copied + 1) := by
  simp only [fsBlockSize] at hblock hplace
  constructor <;> simp only [BlockCursor.next, fsBlockSize] <;> omega

/-- A turn of the loop copies a byte exactly if the file has one. -/
theorem readDataLoop_turn {n copied : Nat} {cur : BlockCursor} (hc : cur.At offset copied) :
    (HasByte img inode offset copied → ∃ cur' b, BlockCursor.At cur' offset (copied + 1) ∧
      (cur.Points img inode →
        cur'.Points img inode ∧ b = img.fileByte inode (offset + copied)) ∧
      readDataLoop img inode offset (n + 1) copied cur =
        ⟨(readDataLoop img inode offset n (copied + 1) cur').ret,
          b :: (readDataLoop img inode offset n (copied + 1) cur').bytes⟩) ∧
    (¬ HasByte img inode offset copied → readDataLoop img inode offset (n + 1) copied cur =
      ⟨if Blocked img inode offset copied then -1 else int32 copied, []⟩) := by
  obtain ⟨hbad, hs⟩ | ⟨hfree, cur', hs, hblock, hplace, hpoints⟩ :=
    @settle_cases img inode offset copied cur hc
  · refine ⟨fun hbyte => absurd hbad hbyte.not_blocked, fun _ => ?_⟩
    simp only [readDataLoop, hs, hbad, if_true]
  · constructor
    · intro hbyte
      refine ⟨cur'.next, img.byteAt cur'.addr, at_next hblock hplace, fun hp => ?_, ?_⟩
      · refine ⟨(hpoints hp).next, ?_⟩
        rw [hpoints hp, hblock, hplace]
        rfl
      · simp only [readDataLoop, hs, if_neg (Nat.not_le.mpr hbyte.lt_size)]
    · intro hno
      have hge : img.inodeSize inode ≤ (copied + offset) % 2 ^ 32 :=
        Nat.le_of_not_lt fun hlt => hno (hasByte_of_not_blocked hlt hfree)
      simp only [readDataLoop, hs, hge, hfree, if_true, if_false]

/-- Byte `k` is copied exactly if it is asked for and the file has it and those before it. -/
theorem lt_length_readDataLoop {n copied k : Nat} {cur : BlockCursor} (hc : cur.At offset copied) :
    k < (readDataLoop img inode offset n copied cur).bytes.length ↔
      k < n ∧ ∀ j ≤ k, HasByte img inode offset (copied + j) := by
  induction n generalizing copied k cur with
  | zero => simp [readDataLoop]
  | succ n ih =>
    obtain ⟨hyes, hno⟩ := @readDataLoop_turn img inode offset n copied cur hc
    by_cases hbyte : HasByte img inode offset copied
    · obtain ⟨cur', b, hat, -, heq⟩ := hyes hbyte
      rw [heq]
      cases k with
      | zero =>
        refine iff_of_true (Nat.succ_pos _) ⟨Nat.succ_pos _, fun j hj => ?_⟩
        obtain rfl : j = 0 := by omega
        exact hbyte
      | succ k =>
        rw [List.length_cons, Nat.succ_lt_succ_iff, ih hat, Nat.succ_lt_succ_iff]
        refine and_congr_right fun _ => ⟨fun h j hj => ?_, fun h j hj => ?_⟩
        · cases j with
          | zero => exact hbyte
          | succ j =>
            have := h j (by omega)
            rwa [show copied + 1 + j = copied + (j + 1) by omega] at this
        · have := h (j + 1) (by omega)
          rwa [show copied + (j + 1) = copied + 1 + j by omega] at this
    · rw [hno hbyte]
      refine iff_of_false (Nat.not_lt_zero _) fun h => hbyte ?_
      simpa using h.2 0 (Nat.zero_le _)

/-- The bytes that are copied are those of the file, wherever its blocks are. -/
theorem getElem_readDataLoop {n copied k : Nat} {cur : BlockCursor} (hc : cur.At offset copied)
    (hp : cur.Points img inode)
    (hk : k < (readDataLoop img inode offset n copied cur).bytes.length) :
    (readDataLoop img inode offset n copied cur).bytes[k] =
      img.fileByte inode (offset + copied + k) := by
  induction n generalizing copied cur k with
  | zero => exact absurd hk (Nat.not_lt_zero k)
  | succ n ih =>
    obtain ⟨hyes, hno⟩ := @readDataLoop_turn img inode offset n copied cur hc
    by_cases hbyte : HasByte img inode offset copied
    · obtain ⟨cur', b, hat, hpoints, heq⟩ := hyes hbyte
      obtain ⟨hp', rfl⟩ := hpoints hp
      simp only [heq] at hk ⊢
      cases k with
      | zero => rfl
      | succ k =>
        rw [List.getElem_cons_succ]
        refine (ih hat hp' _).trans (congrArg (img.fileByte inode) ?_)
        omega
    · simp only [hno hbyte] at hk
      exact absurd hk (Nat.not_lt_zero k)

/-- The value is the count of bytes copied, or -1 where a block number stops the loop, which is
not before the first byte. -/
theorem readDataLoop_ret_cases {n copied : Nat} {cur : BlockCursor} {r : Effect}
    (hc : cur.At offset copied) (hr : readDataLoop img inode offset n copied cur = r) :
    (r.ret = -1 ∧ 0 < copied + r.bytes.length) ∨
      r.ret = int32 (copied + r.bytes.length : Nat) := by
  induction n generalizing copied cur r with
  | zero => exact .inr (by rw [← hr]; rfl)
  | succ n ih =>
    obtain ⟨hyes, hno⟩ := @readDataLoop_turn img inode offset n copied cur hc
    by_cases hbyte : HasByte img inode offset copied
    · obtain ⟨cur', b, hat, -, heq⟩ := hyes hbyte
      have hrest := ih hat rfl
      rw [← hr, heq]
      simpa only [List.length_cons, Nat.add_assoc, Nat.add_comm 1] using hrest
    · rw [← hr, hno hbyte, List.length_nil, Nat.add_zero]
      by_cases hbad : Blocked img inode offset copied
      · exact .inl ⟨if_pos hbad, hbad.1⟩
      · exact .inr (if_neg hbad)

/-- A read inside the file copies all that it is asked for, or a block number stops it. -/
theorem readDataLoop_inside {n copied : Nat} {cur : BlockCursor} {r : Effect}
    (hc : cur.At offset copied) (hin : offset + copied + n ≤ img.inodeSize inode)
    (hr : readDataLoop img inode offset n copied cur = r) :
    r.bytes.length = n ∧ r.ret = int32 (copied + n : Nat) ∨ r.bytes.length < n ∧ r.ret = -1 := by
  induction n generalizing copied cur r with
  | zero => exact .inl (by rw [← hr]; exact ⟨rfl, rfl⟩)
  | succ n ih =>
    obtain ⟨hyes, hno⟩ := @readDataLoop_turn img inode offset n copied cur hc
    by_cases hbyte : HasByte img inode offset copied
    · obtain ⟨cur', b, hat, -, heq⟩ := hyes hbyte
      have hrest := ih hat (by omega) rfl
      have hadd : copied + 1 + n = copied + (n + 1) := by omega
      rw [hadd] at hrest
      rw [← hr, heq, List.length_cons]
      exact hrest.imp (fun h => ⟨congrArg (· + 1) h.1, h.2⟩)
        fun h => ⟨Nat.succ_lt_succ h.1, h.2⟩
    · have hbad : Blocked img inode offset copied := by
        by_contra hfree
        exact hbyte (hasByte_of_not_blocked (by omega) hfree)
      rw [← hr, hno hbyte, if_pos hbad]
      exact .inr ⟨Nat.succ_pos n, rfl⟩

/-! ### Reads of a good inode -/

/-- The result of a read of `length` bytes from the offset on: the count of the bytes that the
file has there, these bytes in the buffer, and nothing else stored. -/
structure ReadsFile (img : Image) (inode offset buf length : Nat) (r : Effect) : Prop where
  ret : r.ret = max 0 (min (length : Int) (img.inodeSize inode - offset))
  set : ∀ (m : Mem) (k : Nat), (k : Int) < r.ret →
    storeAll m (r.stores buf) ((buf + k) % 2 ^ 32) = img.fileByte inode (offset + k)
  frame : ∀ (m : Mem) (a : Nat), (∀ k : Nat, (k : Int) < r.ret → a ≠ (buf + k) % 2 ^ 32) →
    storeAll m (r.stores buf) a = m a

/-- The file fills its last block, and the entry after that block is not the number of one. -/
def BadEnd (img : Image) (inode : Nat) : Prop :=
  img.inodeSize inode % fsBlockSize = 0 ∧
    img.numDatablocks ≤ img.dataBlock inode (img.inodeSize inode / fsBlockSize)

instance (img : Image) (inode : Nat) : Decidable (BadEnd img inode) :=
  inferInstanceAs (Decidable (_ ∧ _))

/-- The read starts inside such a file and gets past its last byte. -/
def StopsShort (img : Image) (inode offset length : Nat) : Prop :=
  offset < img.inodeSize inode ∧ img.inodeSize inode < offset + length ∧ BadEnd img inode

instance (img : Image) (inode offset length : Nat) :
    Decidable (StopsShort img inode offset length) := inferInstanceAs (Decidable (_ ∧ _))

theorem GoodInode.size_lt (hg : GoodInode img inode) : img.inodeSize inode < 2 ^ 31 := by
  have := hg.size_le
  simp only [fsBlockSize] at this
  omega

/-- A good inode has all its bytes. -/
theorem GoodInode.hasByte (hg : GoodInode img inode) {k : Nat}
    (h : offset + k < img.inodeSize inode) : HasByte img inode offset k where
  lt_size := by
    have := hg.size_lt
    omega
  block_lt _ hmod := by
    refine hg.block_lt _ ?_
    simp only [fsBlockSize] at hmod ⊢
    omega

/-- The loop at the end of the file. -/
theorem readDataLoop_end {n copied : Nat} {cur : BlockCursor} (hg : GoodInode img inode)
    (hc : cur.At offset copied) (hend : offset + copied = img.inodeSize inode) :
    (readDataLoop img inode offset (n + 1) copied cur).bytes = [] ∧
      (readDataLoop img inode offset (n + 1) copied cur).ret =
        if 0 < copied ∧ BadEnd img inode then -1 else (copied : Int) := by
  have hsize := hg.size_lt
  have hno : ¬ HasByte img inode offset copied := by
    intro hbyte
    have := hbyte.lt_size
    omega
  have hbad : Blocked img inode offset copied ↔ 0 < copied ∧ BadEnd img inode := by
    rw [Blocked, BadEnd, hend]
  have hint : int32 (copied : Nat) = copied := by
    simp only [int32]
    omega
  rw [(readDataLoop_turn hc).2 hno]
  simp only [hbad, hint, and_self]

/-- What the loop copies and returns, from a position inside the file. -/
theorem readDataLoop_eq {n copied : Nat} {cur : BlockCursor} (hg : GoodInode img inode)
    (hc : cur.At offset copied) (hp : cur.Points img inode)
    (hin : offset + copied ≤ img.inodeSize inode) :
    (readDataLoop img inode offset n copied cur).bytes =
        (List.range (min n (img.inodeSize inode - (offset + copied)))).map
          (fun k => img.fileByte inode (offset + copied + k)) ∧
      (readDataLoop img inode offset n copied cur).ret =
        if StopsShort img inode offset (copied + n) then -1
        else ((copied + min n (img.inodeSize inode - (offset + copied)) : Nat) : Int) := by
  have hsize := hg.size_lt
  induction n generalizing copied cur with
  | zero =>
    have hno : ¬ img.inodeSize inode < offset + (copied + 0) := by omega
    rw [if_neg fun h => hno h.2.1]
    simp only [readDataLoop, Nat.zero_min, List.range_zero, List.map_nil, Nat.add_zero, true_and,
      int32]
    omega
  | succ n ih =>
    obtain hlt | hend := Nat.lt_or_eq_of_le hin
    · obtain ⟨cur', b, hat, hpoints, heq⟩ :=
        (@readDataLoop_turn img inode offset n copied cur hc).1 (hg.hasByte hlt)
      obtain ⟨hp', rfl⟩ := hpoints hp
      obtain ⟨hbytes, hret⟩ := ih hat hp' (by omega)
      have hmin : min (n + 1) (img.inodeSize inode - (offset + copied)) =
          min n (img.inodeSize inode - (offset + (copied + 1))) + 1 := by omega
      rw [heq]
      constructor
      · rw [hmin, List.range_succ_eq_map, List.map_cons, List.map_map]
        refine congrArg₂ List.cons (by simp) (hbytes.trans ?_)
        refine List.map_congr_left fun k _ => congrArg (img.fileByte inode) ?_
        show offset + (copied + 1) + k = offset + copied + (k + 1)
        omega
      · rw [hmin]
        refine hret.trans ?_
        have hsum : copied + 1 + n = copied + (n + 1) := by omega
        rw [hsum]
        split
        · rfl
        · refine congrArg Nat.cast ?_
          omega
    · obtain ⟨hbytes, hret⟩ := @readDataLoop_end img inode offset n copied cur hg hc hend
      have hzero : img.inodeSize inode - (offset + copied) = 0 := by omega
      rw [hzero, Nat.min_zero]
      refine ⟨by simpa using hbytes, hret.trans ?_⟩
      have hstart : offset < img.inodeSize inode ↔ 0 < copied := by omega
      have hpast : img.inodeSize inode < offset + (copied + (n + 1)) := by omega
      simp only [StopsShort, hstart, hpast, true_and, Nat.add_zero]

/-- What a read of a good inode returns. -/
theorem readData_ret {buf length : Nat} (hg : GoodInode img inode) (hbuf : buf ≠ 0)
    (hoff : offset < 2 ^ 32) :
    (readData img inode offset buf length).bytes =
        (List.range (min length (img.inodeSize inode - offset))).map
          (fun k => img.fileByte inode (offset + k)) ∧
      (readData img inode offset buf length).ret =
        if StopsShort img inode offset length then -1
        else ((min length (img.inodeSize inode - offset) : Nat) : Int) := by
  rw [readData, if_neg hbuf]
  by_cases hin : offset ≤ img.inodeSize inode
  · simpa using readDataLoop_eq (n := length) hg (at_start img inode offset)
      (points_start img inode offset) hin
  · -- past the end the first turn stops
    have hno : ¬ StopsShort img inode offset length := fun h => hin h.1.le
    have hzero : img.inodeSize inode - offset = 0 := by omega
    rw [if_neg hno, hzero, Nat.min_zero]
    cases length with
    | zero => exact ⟨rfl, rfl⟩
    | succ n =>
      have hbyte : ¬ HasByte img inode offset 0 := by
        intro h
        have := h.lt_size
        omega
      have hfree : ¬ Blocked img inode offset 0 := fun h => Nat.lt_irrefl 0 h.1
      rw [(@readDataLoop_turn img inode offset n 0 _ (at_start img inode offset)).2 hbyte,
        if_neg hfree]
      exact ⟨rfl, rfl⟩

/-- **Loading succeeds.** Reading a whole good inode returns its size. -/
theorem readData_whole {buf : Nat} (hg : GoodInode img inode) (hbuf : buf ≠ 0) :
    (readData img inode 0 buf (img.inodeSize inode)).ret = (img.inodeSize inode : Int) := by
  have hno : ¬ StopsShort img inode 0 (img.inodeSize inode) := by
    rintro ⟨-, hlt, -⟩
    omega
  rw [(readData_ret hg hbuf (by decide)).2, if_neg hno, Nat.sub_zero, Nat.min_self]

/-- The bytes of an effect land in order in the buffer. -/
theorem Effect.readsFile {buf length : Nat} {r : Effect} {count : Nat} (hcount : count < 2 ^ 32)
    (hbytes : r.bytes = (List.range count).map fun k => img.fileByte inode (offset + k))
    (hret : r.ret = count)
    (heq : (count : Int) = max 0 (min (length : Int) (img.inodeSize inode - offset))) :
    ReadsFile img inode offset buf length r := by
  have hstores : ∀ w : Store, w ∈ r.stores buf ↔ ∃ k < count,
      w = ((buf + k) % 2 ^ 32, img.fileByte inode (offset + k)) := by
    intro w
    simp only [Effect.stores, hbytes, List.mem_mapIdx, List.length_map, List.length_range,
      List.getElem_map, List.getElem_range, exists_prop]
    exact exists_congr fun k => and_congr_right fun _ => eq_comm
  refine ⟨hret.trans heq, fun m k hk => ?_, fun m a ha => ?_⟩
  · have hlt : k < count := by omega
    refine storeAll_eq_of_forall ⟨_, (hstores _).mpr ⟨k, hlt, rfl⟩, rfl⟩ fun w hw haddr => ?_
    obtain ⟨j, hj, rfl⟩ := (hstores w).mp hw
    have hjk : j = k := by
      have : (buf + j) % 2 ^ 32 = (buf + k) % 2 ^ 32 := haddr
      omega
    rw [hjk]
  · refine storeAll_of_forall_ne fun w hw haddr => ?_
    obtain ⟨k, hk, rfl⟩ := (hstores w).mp hw
    exact ha k (by omega) haddr.symm

/-- **Reading files.** A read of a good inode gives the bytes of the file exactly when it does
not run into a bad entry behind the last block. -/
theorem readsFile_readData_iff (hg : GoodInode img inode) {buf length : Nat} (hbuf : buf ≠ 0)
    (hoff : offset < 2 ^ 32) :
    ReadsFile img inode offset buf length (readData img inode offset buf length) ↔
      ¬ StopsShort img inode offset length := by
  have hsize := hg.size_lt
  obtain ⟨hbytes, hret⟩ := @readData_ret img inode offset buf length hg hbuf hoff
  constructor
  · intro h hstop
    rw [if_pos hstop] at hret
    have := h.ret
    omega
  · intro hno
    rw [if_neg hno] at hret
    exact Effect.readsFile (by omega) hbytes hret (by omega)

/-- An image with one file, which fills its one block; the entry after it is 7. -/
def fullBlockImage : Image := fun a =>
  ([(4, 1), (8, 1), (4097, 16), (4104, 7)].find? fun w : Store => w.1 = a).elim 0 Prod.snd

theorem fullBlockImage_good : ∀ n < fullBlockImage.numInodes, GoodInode fullBlockImage n :=
  fun _ => goodInode_of_single (by decide +kernel) (by decide +kernel) (by decide +kernel)

/-- A read that stays inside the file. -/
theorem readsFile_readData_iff_sample :
    ReadsFile fullBlockImage 0 4000 0x8000000 96 (readData fullBlockImage 0 4000 0x8000000 96) :=
  (readsFile_readData_iff (fullBlockImage_good 0 (by decide +kernel)) (by decide)
    (by decide)).mpr (by decide +kernel)

/-- A read of the same bytes that asks for more of them returns -1. -/
theorem not_readsFile_readData : ¬ ∀ (img : Image), (∀ n < img.numInodes, GoodInode img n) →
    ∀ inode < img.numInodes, ∀ offset < 2 ^ 32, ∀ buf length : Nat, buf ≠ 0 →
      ReadsFile img inode offset buf length (readData img inode offset buf length) := by
  intro hcontents
  have hread := hcontents fullBlockImage fullBlockImage_good 0 (by decide +kernel) 4000 (by decide)
    0x8000000 100 (by decide)
  obtain ⟨-, hret⟩ := @readData_ret fullBlockImage 0 4000 0x8000000 100
    (fullBlockImage_good 0 (by decide +kernel)) (by decide) (by decide)
  rw [if_pos (by decide +kernel), hread.ret] at hret
  omega

end LinuxLikeKernel
