import LinuxLikeKernel.Types

/-!
# File system

`file_system.c` over the raw bytes of the file-system image. Every structure is read where
its C declaration puts it, so an index that is out of range reads whatever lies there.

## Main definitions

- `readDentryByName`, `readData`, `dirRead`, `fileRead` — the source's functions
- `Effect` — the value a function returns and the bytes it stores at the caller's pointer
- `WellFormed` — an image whose inodes and block numbers are in range
-/

namespace LinuxLikeKernel
open ByteMemory

abbrev maxFileDentries : Nat := 63
abbrev maxFilenameLength : Nat := 32
def fsBlockSize : Nat := 4096
abbrev fsStatsSize : Nat := 64

/-- Memory as seen from the start of the image, addresses modulo 2^32. -/
abbrev Image := Nat → UInt8

/-- What a function returns, and what it stores through its buffer pointer: the bytes that go
to `buf[0]`, `buf[1]` and so on. Every driver fills its buffer in that order. -/
structure Effect where
  ret : Int
  bytes : List UInt8
  deriving DecidableEq, Repr

/-- The stores, with their addresses. -/
def Effect.stores (r : Effect) (buf : Nat) : List Store :=
  r.bytes.mapIdx fun k b => ((buf + k) % 2 ^ 32, b)

/-- `operation_error`. -/
def operationError : Effect := ⟨-1, []⟩

namespace Image

def byteAt (img : Image) (offset : Nat) : UInt8 := img (offset % 2 ^ 32)

/-- A little-endian `uint32_t`. -/
def word (img : Image) (offset : Nat) : Nat :=
  (img.byteAt offset).toNat + (img.byteAt (offset + 1)).toNat * 2 ^ 8 +
    (img.byteAt (offset + 2)).toNat * 2 ^ 16 + (img.byteAt (offset + 3)).toNat * 2 ^ 24

def numDentries (img : Image) : Nat := img.word 0
def numInodes (img : Image) : Nat := img.word 4
def numDatablocks (img : Image) : Nat := img.word 8

/-- `fs_dentry[index].filename[j]`. -/
def filename (img : Image) (index j : Nat) : UInt8 := img.byteAt (fsStatsSize + 64 * index + j)

/-- `fs_dentry[index].filetype`. -/
def filetype (img : Image) (index : Nat) : Nat := img.word (fsStatsSize + 64 * index + 32)

/-- `fs_dentry[index].inode`. -/
def dentryInode (img : Image) (index : Nat) : Nat := img.word (fsStatsSize + 64 * index + 36)

/-- `inodeblk[inode].size`. -/
def inodeSize (img : Image) (inode : Nat) : Nat := img.word (fsBlockSize + fsBlockSize * inode)

/-- `inodeblk[inode].data_blocks[k]`. -/
def dataBlock (img : Image) (inode k : Nat) : Nat :=
  img.word (fsBlockSize + fsBlockSize * inode + 4 + 4 * k)

/-- Where data block `b` starts: `first_datablk + b * FS_BLOCK_SIZE`. -/
def blockStart (img : Image) (b : Nat) : Nat :=
  (img.numInodes + 1) * fsBlockSize + b * fsBlockSize

/-- The name of entry `index`: its bytes up to a NUL, 32 at most. Its length is the `strlen`
of the entry with the truncation to 32 that follows it in `read_dentry_by_name`. -/
def entryName (img : Image) (index : Nat) : List UInt8 :=
  ((List.range maxFilenameLength).map (img.filename index)).takeWhile (· ≠ 0)

end Image

/-- A NUL-terminated string as the memory it is in. -/
def cstr (s : List UInt8) : Nat → UInt8 := fun i => s.getD i 0

/-- The loop of `strncmp` from index `i`, with `n` bytes left to compare. -/
def strncmpFrom (s1 s2 : Nat → UInt8) (i : Nat) : Nat → Int
  | 0 => 0
  | n + 1 => if s1 i ≠ s2 i ∨ s1 i = 0 then int8 (s1 i) - int8 (s2 i)
      else strncmpFrom s1 s2 (i + 1) n

/-- `strncmp`. -/
def strncmp (s1 s2 : Nat → UInt8) (n : Nat) : Int := strncmpFrom s1 s2 0 n

/-- What `read_dentry_by_name` hands back. -/
structure Dentry where
  filename : List UInt8
  filetype : Nat
  inode : Nat
  deriving DecidableEq, Repr

/-- The comparison made for one directory slot. -/
def nameMatches (img : Image) (index : Nat) (fname : List UInt8) : Bool :=
  strncmp (img.filename index) (cstr fname) fname.length = 0 ∧
    strncmp (img.filename index) (cstr fname) (img.entryName index).length = 0 ∧
    cstr fname 0 ≠ 0

/-- `read_dentry_by_name`, for a name given by its bytes before the NUL. All 63 slots are
searched. -/
def readDentryByName (img : Image) (fname : List UInt8) : Option Dentry :=
  ((List.range maxFileDentries).find? fun index => nameMatches img index fname).map fun index =>
    ⟨img.entryName index, img.filetype index, img.dentryInode index⟩

/-- The running position of `read_data`: `cur_datablk`, `byte_in_blk` and `cur_addr`. -/
structure BlockCursor where
  datablk : Nat
  byteInBlk : Nat
  addr : Nat

namespace BlockCursor

/-- The cursor before the loop. -/
def start (img : Image) (inode offset : Nat) : BlockCursor where
  datablk := offset / fsBlockSize
  byteInBlk := offset % fsBlockSize
  addr := img.blockStart (img.dataBlock inode (offset / fsBlockSize)) + offset % fsBlockSize

/-- The block advance at the head of the loop body; `none` where it finds a bad block. -/
def settle (img : Image) (inode : Nat) (cur : BlockCursor) : Option BlockCursor :=
  if fsBlockSize ≤ cur.byteInBlk then
    if img.numDatablocks ≤ img.dataBlock inode (cur.datablk + 1) then none
    else some ⟨cur.datablk + 1, 0, img.blockStart (img.dataBlock inode (cur.datablk + 1))⟩
  else some cur

def next (cur : BlockCursor) : BlockCursor := ⟨cur.datablk, cur.byteInBlk + 1, cur.addr + 1⟩

end BlockCursor

/-- The loop of `read_data` with `copied` bytes copied and the given number left. -/
def readDataLoop (img : Image) (inode offset : Nat) : Nat → Nat → BlockCursor → Effect
  | 0, copied, _ => ⟨int32 copied, []⟩
  | n + 1, copied, cur =>
    match cur.settle img inode with
    | none => ⟨-1, []⟩
    | some cur =>
      if img.inodeSize inode ≤ (copied + offset) % 2 ^ 32 then ⟨int32 copied, []⟩
      else
        let r := readDataLoop img inode offset n (copied + 1) cur.next
        ⟨r.ret, img.byteAt cur.addr :: r.bytes⟩

/-- `read_data`. -/
def readData (img : Image) (inode offset buf length : Nat) : Effect :=
  if buf = 0 then ⟨-1, []⟩
  else readDataLoop img inode offset length 0 (BlockCursor.start img inode offset)

/-- `file_read` on the descriptor it finds through the stack pointer, with the descriptor
after the call. -/
def fileRead (img : Image) (desc : FileDesc) (fd buf : Nat) (nbytes : Int) : Effect × FileDesc :=
  if fd ≠ 0 ∧ buf ≠ 0 then
    let r := readData img desc.inode (uint32 desc.filePosition) buf (uint32 nbytes)
    (r, { desc with filePosition := int32 (desc.filePosition + r.ret) })
  else (⟨-1, []⟩, desc)

/-- `dir_read`, with `num_file_read` after the call: 32 bytes by `strncpy`, padded with NULs,
and a NUL after them. The length handed to it is not used. -/
def dirRead (img : Image) (numFileRead buf : Nat) : Effect × Nat :=
  if buf = 0 then (⟨-1, []⟩, numFileRead)
  else if numFileRead < img.numDentries then
    let name := img.entryName numFileRead
    (⟨name.length, (List.range maxFilenameLength).map (cstr name) ++ [0]⟩, numFileRead + 1)
  else (⟨0, []⟩, 0)

/-! ### Well-formed images -/

/-- Inode `n` is inside the format: its size, and the blocks its bytes are in. -/
structure GoodInode (img : Image) (n : Nat) : Prop where
  size_le : img.inodeSize n ≤ fsBlockSize * 1023
  block_lt : ∀ k, fsBlockSize * k < img.inodeSize n → img.dataBlock n k < img.numDatablocks

/-- An image with one file of at most one block. -/
theorem goodInode_of_single {img : Image} {n : Nat} (h1 : img.numInodes = 1)
    (hsize : img.inodeSize 0 ≤ fsBlockSize) (hblock : img.dataBlock 0 0 < img.numDatablocks)
    (hn : n < img.numInodes) : GoodInode img n := by
  obtain rfl : n = 0 := by omega
  refine ⟨hsize.trans (Nat.le_mul_of_pos_right _ (by decide)), fun k hk => ?_⟩
  simp only [fsBlockSize] at hsize hk
  obtain rfl : k = 0 := by omega
  exact hblock

/-- A well-formed image. Nothing is asked of a directory slot with an empty name, nor of the
block numbers past the end of a file. -/
structure WellFormed (img : Image) : Prop where
  inode_lt : ∀ i < maxFileDentries, img.filename i 0 ≠ 0 → img.dentryInode i < img.numInodes
  good : ∀ n < img.numInodes, GoodInode img n

/-- Not more than the requested bytes are copied. -/
theorem readDataLoop_length_le (img : Image) (inode offset : Nat) :
    ∀ (n copied : Nat) (cur : BlockCursor),
      (readDataLoop img inode offset n copied cur).bytes.length ≤ n := by
  intro n
  induction n with
  | zero => exact fun copied cur => le_rfl
  | succ n ih =>
    intro copied cur
    simp only [readDataLoop]
    split
    · simp
    · split
      · simp
      · simpa using ih _ _

theorem readData_length_le (img : Image) (inode offset buf length : Nat) :
    (readData img inode offset buf length).bytes.length ≤ length := by
  simp only [readData]
  split
  · simp
  · exact readDataLoop_length_le ..

/-- The addresses stored to, for bytes that do not wrap around. -/
theorem Effect.mem_stores {r : Effect} {buf : Nat} (hfit : buf + r.bytes.length ≤ 2 ^ 32)
    {w : Store} (hw : w ∈ r.stores buf) : ∃ k < r.bytes.length, w.1 = buf + k := by
  obtain ⟨k, hk, rfl⟩ := List.mem_mapIdx.mp hw
  exact ⟨k, hk, Nat.mod_eq_of_lt (by omega)⟩

theorem int8_inj {a b : UInt8} (h : int8 a - int8 b = 0) : a = b := by
  have ha := a.toNat_lt
  have hb := b.toNat_lt
  refine UInt8.toNat_inj.mp ?_
  simp only [int8] at h
  split at h <;> split at h <;> omega

theorem entryName_length_le (img : Image) (index : Nat) :
    (img.entryName index).length ≤ maxFilenameLength := by
  refine (List.takeWhile_prefix _).length_le.trans ?_
  simp

/-- A slot whose name matches a query has a name. -/
theorem filename_ne_zero {img : Image} {index : Nat} {fname : List UInt8}
    (h : nameMatches img index fname = true) : img.filename index 0 ≠ 0 := by
  simp only [nameMatches, decide_eq_true_eq] at h
  obtain ⟨hcmp, -, hne⟩ := h
  intro hzero
  cases fname with
  | nil => exact hne rfl
  | cons c cs =>
    simp only [strncmp, List.length_cons, strncmpFrom, hzero, or_true, if_true] at hcmp
    exact hne (int8_inj hcmp).symm

/-- In a well-formed image a name leads to a good inode. -/
theorem WellFormed.goodInode {img : Image} (hwf : WellFormed img) {fname : List UInt8}
    {dentry : Dentry} (h : readDentryByName img fname = some dentry) :
    GoodInode img dentry.inode := by
  obtain ⟨index, hfind, rfl⟩ := Option.map_eq_some_iff.mp h
  have hlt : index < maxFileDentries := List.mem_range.mp (List.mem_of_find?_eq_some hfind)
  have hmatch : nameMatches img index fname = true := by simpa using List.find?_some hfind
  exact hwf.good _ (hwf.inode_lt index hlt (filename_ne_zero hmatch))

end LinuxLikeKernel
