import LinuxLikeKernel.CommandLine
import LinuxLikeKernel.DeclaredBlocks
import LinuxLikeKernel.DirectoryNames
import Mathlib.Data.Fintype.Pigeonhole

/-!
# Which programs start

`execute` asks a directory entry for its inode only, compares the first bytes of the file with a
magic number, in a buffer that a short file does not fill, and loads the whole file behind
0x8048000, however long it is.

## Main definitions

- `StartsCommand`, `StartsEntry` — `execute` starts a program, from the entry that the command names
- `Loads` — the load of an inode succeeds
- `StartsPrograms` — only programs are started, whatever is left in memory
- `MayStart` — and its file agrees with the magic number

## Main results

- `starts_iff` — what a start depends on
- `loadStores_inPage_iff` — which files are loaded into their page
- `startsPrograms_iff` — when only programs are started
-/

namespace LinuxLikeKernel
open ByteMemory Kernel Transition

variable {img : Image} {s : Kernel} {sp : StackPtr} {command : List UInt8} {stale : Stale}
variable {inode : Nat}

/-! ### Starts -/

/-- `execute` starts a program. -/
def StartsCommand (img : Image) (s : Kernel) (sp : StackPtr) (command : List UInt8)
    (stale : Stale) : Prop :=
  ∃ s₁, execute img s sp command stale = some (.started s₁)

/-- The command names the entry. -/
def NamesEntry (img : Image) (command : List UInt8) (stale : Stale) (dentry : Dentry) : Prop :=
  ∃ st, parseCommand command = some st ∧
    (st.filename.length ≤ maxFilenameLength ∧ st.fileargs.length ≤ maxArgLength) ∧
    readDentryByName img (commandName st.filename stale) = some dentry

/-- The load stores to the user page and to mapped pages only, and does not fail. -/
def Loads (img : Image) (s : Kernel) (inode : Nat) : Prop :=
  s.paging.Reaches (loadStores img inode) ∧
    (readData img inode 0 startVirtualAddr (img.inodeSize inode)).ret ≠ -1

/-- A terminal is displayed, and has a slot for a process. -/
def HasRoom (s : Kernel) : Prop :=
  ∃ cur i, s.con.curTermId = some cur ∧ pcbProcessNumber s.pcbMask cur = some i

/-- `execute` starts the program of an entry with this inode field. -/
def StartsEntry (img : Image) (s : Kernel) (stale : Stale) (inode : Nat) : Prop :=
  HasRoom s ∧ HasMagic img inode stale ∧ Loads img s inode

/-- A start needs a program, room for it, and a load that succeeds. -/
theorem starts_iff_lookup : StartsCommand img s sp command stale ↔
    HasRoom s ∧ ∃ prog, lookup img command stale = .found prog ∧ Loads img s prog.inode := by
  constructor
  · rintro ⟨s₁, h⟩
    obtain ⟨prog, cur, i, mem, hl, hcur, hi, hreach, hret, -⟩ := execute_started_cases h
    exact ⟨⟨cur, i, hcur, hi⟩, prog, hl, hreach, hret⟩
  · rintro ⟨⟨cur, i, hcur, hi⟩, prog, hl, hreach, hret⟩
    obtain ⟨mem, hexec, -⟩ := @execute_loaded img s sp _ _ _ _ _ hl hcur hi hreach
    rw [if_neg hret] at hexec
    exact ⟨_, hexec⟩

/-- A start is that of the entry that the command names. -/
theorem starts_iff : StartsCommand img s sp command stale ↔
    ∃ dentry, NamesEntry img command stale dentry ∧ StartsEntry img s stale dentry.inode := by
  rw [starts_iff_lookup]
  constructor
  · rintro ⟨hroom, prog, hl, hload⟩
    obtain ⟨st, dentry, hst, hfits, hdentry, hmagic, rfl⟩ := lookup_eq_found_iff.mp hl
    exact ⟨dentry, ⟨st, hst, hfits, hdentry⟩, hroom, hmagic, hload⟩
  · rintro ⟨dentry, ⟨st, hst, hfits, hdentry⟩, hroom, hmagic, hload⟩
    exact ⟨hroom, _, lookup_eq_found_iff.mpr ⟨st, dentry, hst, hfits, hdentry, hmagic, rfl⟩, hload⟩

theorem NamesEntry.unique {d d' : Dentry} (h : NamesEntry img command stale d)
    (h' : NamesEntry img command stale d') : d = d' := by
  obtain ⟨st, hst, -, hd⟩ := h
  obtain ⟨st', hst', -, hd'⟩ := h'
  obtain rfl := Option.some.inj (hst.symm.trans hst')
  exact Option.some.inj (hd.symm.trans hd')

/-! ### The load -/

theorem goodInode_of_lookup (hwf : WellFormed img) {prog : Program}
    (hl : lookup img command stale = .found prog) : GoodInode img prog.inode := by
  obtain ⟨st, dentry, -, -, hdentry, -, rfl⟩ := lookup_eq_found_iff.mp hl
  exact hwf.goodInode hdentry

/-- A good file is loaded whole. -/
theorem length_load (hg : GoodInode img inode) : (readData img inode 0 startVirtualAddr
    (img.inodeSize inode)).bytes.length = img.inodeSize inode := by
  rw [(readData_ret hg (by decide) (by decide)).1]
  simp

/-- **Loading.** The load of a program from a well-formed image stays in the page of its process
exactly if the file is not longer than what the page has from the load address on. -/
theorem loadStores_inPage_iff (hwf : WellFormed img) {prog : Program}
    (hl : lookup img command stale = .found prog) :
    (∀ w ∈ loadStores img prog.inode, startVirtualAddr ≤ w.1 ∧ w.1 < userEnd) ↔
      img.inodeSize prog.inode ≤ userEnd - startVirtualAddr := by
  have hlen := length_load (goodInode_of_lookup hwf hl)
  constructor
  · intro h
    have hpage : InUserPage (loadStores img prog.inode) := fun w hw =>
      ⟨Nat.le_trans (by decide) (h w hw).1, (h w hw).2⟩
    exact hlen ▸ length_le_of_inUserPage hpage
  · intro hle w hw
    have hfit : startVirtualAddr + img.inodeSize prog.inode ≤ userEnd := by
      simp only [userEnd, startVirtualAddr] at hle ⊢
      omega
    obtain ⟨k, hk, haddr⟩ := Effect.mem_stores (hlen.symm ▸ hfit.trans (by decide)) hw
    rw [hlen] at hk
    rw [haddr]
    exact ⟨Nat.le_add_right .., (Nat.add_lt_add_left hk _).trans_le hfit⟩

/-- The bytes that are not 0 of an image with a `shell` of 3899393 bytes, one more than there is
room for. All its blocks are block 0. -/
def largeBytes : List Store :=
  [(0, 2), (4, 1), (8, 1),
    (64, 46), (96, 1),
    (128, 115), (129, 104), (130, 101), (131, 108), (132, 108), (160, 2),
    (4096, 1), (4097, 0x80), (4098, 0x3B),
    (8192, 0x7f), (8193, 0x45), (8194, 0x4c), (8195, 0x46)]

def largeImage : Image := fun a => (largeBytes.find? fun w => w.1 = a).elim 0 Prod.snd

theorem largeImage_dataBlock {k : Nat} (hk : k < 1023) : largeImage.dataBlock 0 k = 0 := by
  have hzero : ∀ a, 4100 ≤ a → a < 8192 → largeImage.byteAt a = 0 := by
    intro a hlo hhi
    have hbytes : ∀ w ∈ largeBytes, w.1 < 4100 ∨ 8192 ≤ w.1 := by decide
    have hnone : (largeBytes.find? fun w => w.1 = a) = none := by
      refine List.find?_eq_none.mpr fun w hw hwa => ?_
      have := hbytes w hw
      have : w.1 = a := of_decide_eq_true hwa
      omega
    rw [Image.byteAt, Nat.mod_eq_of_lt (by omega), largeImage, hnone]
    rfl
  simp only [Image.dataBlock, Image.word, fsBlockSize]
  rw [hzero, hzero, hzero, hzero]
  · rfl
  all_goals omega

theorem largeImage_wellFormed : WellFormed largeImage where
  inode_lt := by decide +kernel
  good := by
    have h1 : largeImage.numInodes = 1 := by decide +kernel
    have hsize : largeImage.inodeSize 0 = 3899393 := by decide +kernel
    intro n hn
    obtain rfl : n = 0 := by omega
    refine ⟨?_, fun k hk => ?_⟩
    · rw [hsize]
      decide
    · rw [hsize] at hk
      simp only [fsBlockSize] at hk
      rw [largeImage_dataBlock (by omega)]
      decide +kernel

/-- The shell of the small image. -/
theorem loadStores_inPage_iff_sample :
    (lookup sampleImage shellCommand noStale =
        .found ⟨0, entryPoint (headerByte sampleImage 0 noStale), []⟩) ∧
      ∀ w ∈ loadStores sampleImage 0, startVirtualAddr ≤ w.1 ∧ w.1 < userEnd := by
  have hl := @lookup_shellCommand sampleImage noStale ⟨shellCommand, 2, 0⟩ (by decide +kernel)
    (by decide +kernel)
  exact ⟨hl, (loadStores_inPage_iff sampleImage_bootable.toWellFormed hl).mpr (by decide +kernel)⟩

/-- The last byte of the large shell goes to 0x8400000. -/
theorem not_loadStores_inPage : ¬ ∀ (img : Image) (command : List UInt8) (stale : Stale)
    (prog : Program), WellFormed img → lookup img command stale = .found prog →
      ∀ w ∈ loadStores img prog.inode, startVirtualAddr ≤ w.1 ∧ w.1 < userEnd := by
  intro hstores
  have hl := @lookup_shellCommand largeImage noStale ⟨shellCommand, 2, 0⟩ (by decide +kernel)
    (by decide +kernel)
  have hlen := length_load (goodInode_of_lookup largeImage_wellFormed hl)
  have hlt : 3899392 < (readData largeImage 0 0 startVirtualAddr
      (largeImage.inodeSize 0)).bytes.length := by
    rw [hlen]
    decide +kernel
  have hmem : ((startVirtualAddr + 3899392) % 2 ^ 32, _) ∈ loadStores largeImage 0 :=
    List.mem_mapIdx.mpr ⟨_, hlt, rfl⟩
  have hout : ¬ (startVirtualAddr + 3899392) % 2 ^ 32 < userEnd := by decide
  exact hout (hstores _ _ _ _ largeImage_wellFormed hl _ hmem).2

/-! ### Headers -/

/-- The string in memory has no NUL before its end. -/
def Stale.Valid (stale : Stale) : Prop := 0 ∉ stale.afterFilename

instance (stale : Stale) : Decidable stale.Valid := inferInstanceAs (Decidable (_ ∉ _))

/-- The first bytes of a file, up to its end. -/
theorem headerByte_eq (img : Image) (inode : Nat) (stale : Stale) {k : Nat} (hk : k < 40) :
    headerByte img inode stale k =
      if k < img.inodeSize inode then img.fileByte inode k else stale.headerbuf k := by
  have hat := at_start img inode 0
  have hsize : img.inodeSize inode < 2 ^ 32 := word_lt ..
  have hlen : k < (readDataLoop img inode 0 40 0 (BlockCursor.start img inode 0)).bytes.length ↔
      k < img.inodeSize inode := by
    rw [lt_length_readDataLoop hat]
    constructor
    · rintro ⟨-, hall⟩
      have := (hall k le_rfl).lt_size
      omega
    · -- 40 bytes from the start of a file are in its first block
      intro hlt
      refine ⟨hk, fun j hj => ⟨by omega, fun hpos hmod => ?_⟩⟩
      simp only [fsBlockSize] at hmod
      omega
  have hdata : readData img inode 0 localBuf 40 =
      readDataLoop img inode 0 40 0 (BlockCursor.start img inode 0) := if_neg (by decide)
  rw [headerByte, hdata]
  by_cases hlt : k < img.inodeSize inode
  · rw [if_pos hlt, List.getD_eq_getElem _ _ (hlen.mpr hlt),
      getElem_readDataLoop hat (points_start ..)]
    congr 1
    omega
  · rw [if_neg hlt, List.getD_eq_default _ _ (Nat.le_of_not_lt (mt hlen.mp hlt))]

theorem hasMagic_iff : HasMagic img inode stale ↔
    ∀ k < 4, headerByte img inode stale k = cstr magicNumber k :=
  strncmp_cstr_eq_zero_iff (q := magicNumber) (by decide)

/-- The load succeeds, and the file agrees with the magic number as far as it goes. -/
def MayStart (img : Image) (s : Kernel) (inode : Nat) : Prop :=
  Loads img s inode ∧
    ∀ k < 4, k < img.inodeSize inode → img.fileByte inode k = cstr magicNumber k

theorem StartsEntry.mayStart (h : StartsEntry img s stale inode) : MayStart img s inode := by
  refine ⟨h.2.2, fun k hk hlt => ?_⟩
  have hbyte := hasMagic_iff.mp h.2.1 k hk
  rwa [headerByte_eq img inode stale (by omega), if_pos hlt] at hbyte

/-- Leftovers that look like a header. -/
def Stale.withMagic (stale : Stale) : Stale := ⟨stale.afterFilename, cstr magicNumber⟩

/-- What may start does, with a header left in the buffer. -/
theorem MayStart.startsEntry (h : MayStart img s inode) (hroom : HasRoom s) :
    StartsEntry img s stale.withMagic inode := by
  refine ⟨hroom, hasMagic_iff.mpr fun k hk => ?_, h.1⟩
  rw [headerByte_eq img inode _ (by omega)]
  split
  · rename_i hlt
    exact h.2 k hk hlt
  · rfl

/-- The leftovers do not matter for a file that is long enough. -/
theorem startsEntry_congr {stale' : Stale} (hsize : 4 ≤ img.inodeSize inode)
    (h : StartsEntry img s stale inode) : StartsEntry img s stale' inode := by
  refine ⟨h.1, hasMagic_iff.mpr fun k hk => ?_, h.2.2⟩
  have hbyte := hasMagic_iff.mp h.2.1 k hk
  rw [headerByte_eq img inode _ (by omega), if_pos (by omega)] at hbyte ⊢
  exact hbyte

/-! ### Names without room for a NUL -/

/-- Some byte stands in no slot behind the 32 characters of its name. -/
theorem exists_byte_ne (img : Image) :
    ∃ b : UInt8, b ≠ 0 ∧ ∀ i < maxFileDentries, img.filename i maxFilenameLength ≠ b := by
  by_contra hall
  push Not at hall
  -- 64 bytes and 63 slots
  have hslot : ∀ k : Fin 64, ∃ i : Fin 63,
      img.filename i maxFilenameLength = UInt8.ofNat (k.val + 1) := by
    intro k
    have hne : UInt8.ofNat (k.val + 1) ≠ 0 := by
      intro h
      have := congrArg UInt8.toNat h
      simp only [UInt8.toNat_ofNat', UInt8.toNat_ofNat] at this
      omega
    obtain ⟨i, hi, heq⟩ := hall _ hne
    exact ⟨⟨i, hi⟩, heq⟩
  choose slot hslot using hslot
  obtain ⟨j, k, hne, heq⟩ := Fintype.exists_ne_map_eq_of_card_lt slot (by simp)
  refine hne (Fin.ext ?_)
  have hbyte := (hslot j).symm.trans (heq ▸ hslot k)
  have := congrArg UInt8.toNat hbyte
  simp only [UInt8.toNat_ofNat'] at this
  omega

theorem zero_not_mem_firstWord (h : 0 ∉ command) : 0 ∉ firstWord command := fun hmem =>
  h ((List.dropWhile_sublist _).subset ((List.takeWhile_sublist _).subset hmem))

/-- A word of 32 characters can run on so that it names nothing. -/
theorem exists_stale_not_namesEntry (img : Image) (hnul : 0 ∉ command)
    (hword : (firstWord command).length = maxFilenameLength) :
    ∃ stale : Stale, stale.Valid ∧ ∀ dentry, ¬ NamesEntry img command stale dentry := by
  obtain ⟨b, hb, hslots⟩ := exists_byte_ne img
  refine ⟨⟨[b], noStale.headerbuf⟩, fun h => hb (List.mem_singleton.mp h).symm, ?_⟩
  rintro dentry ⟨st, hst, -, hdentry⟩
  rw [(parseCommand_eq_some hst).1, commandName, if_pos hword] at hdentry
  obtain ⟨i, hi, hmatch, -⟩ := readDentryByName_eq_some_iff.mp hdentry
  have hq : 0 ∉ firstWord command ++ [b] := by
    intro h
    obtain h | h := List.mem_append.mp h
    · exact zero_not_mem_firstWord hnul h
    · exact hb (List.mem_singleton.mp h).symm
  have hlen : (firstWord command ++ [b]).length = maxFilenameLength + 1 := by
    rw [List.length_append, hword, List.length_singleton]
  have hbytes := ((nameMatches_iff hq).mp hmatch).2
  rw [if_neg (by omega)] at hbytes
  refine hslots i hi ((hbytes maxFilenameLength (by omega)).trans ?_)
  rw [cstr_of_lt (by omega), List.getElem_append_right (by omega)]
  simp [hword]

/-! ### Only programs -/

/-- `execute` starts nothing but regular files that are long enough and begin with the magic
number, at their entry point. Whether it starts one does not depend on what lies in memory behind
its buffers, nor on the inode field of an entry of another type. -/
structure StartsPrograms (img : Image) (s : Kernel) (sp : StackPtr) (command : List UInt8) :
    Prop where
  regular : ∀ stale s₁, stale.Valid → execute img s sp command stale = some (.started s₁) →
    ∃ dentry prog, NamesEntry img command stale dentry ∧
      lookup img command stale = .found prog ∧ dentry.filetype = 2 ∧
      28 ≤ img.inodeSize dentry.inode ∧ (img.contents dentry.inode).take 4 = magicNumber ∧
      prog.entrypoint = entryPoint (img.fileByte dentry.inode)
  stale_free : ∀ stale stale', stale.Valid → stale'.Valid →
    (StartsCommand img s sp command stale ↔ StartsCommand img s sp command stale')
  inode_free : ∀ stale dentry, stale.Valid → NamesEntry img command stale dentry →
    dentry.filetype ≠ 2 → ∀ n,
      (StartsEntry img s stale n ↔ StartsEntry img s stale dentry.inode)

/-- Where there is room for a process: a regular file that the command names and that may start is
long enough, and the word is shorter than its buffer; if it names an entry of another type, no
inode at all may start. -/
def NamesPrograms (img : Image) (s : Kernel) (command : List UInt8) : Prop :=
  HasRoom s → ∀ stale dentry, stale.Valid → NamesEntry img command stale dentry →
    (dentry.filetype = 2 → MayStart img s dentry.inode →
      (firstWord command).length < maxFilenameLength ∧ 28 ≤ img.inodeSize dentry.inode) ∧
    (dentry.filetype ≠ 2 → ∀ n, ¬ MayStart img s n)

theorem NamesEntry.congr {stale' : Stale} {dentry : Dentry}
    (hword : (firstWord command).length < maxFilenameLength)
    (h : NamesEntry img command stale dentry) : NamesEntry img command stale' dentry := by
  obtain ⟨st, hst, hfits, hdentry⟩ := h
  refine ⟨st, hst, hfits, ?_⟩
  rw [(parseCommand_eq_some hst).1, commandName, if_neg hword.ne] at hdentry ⊢
  exact hdentry

/-- What starts is a regular file with a header of its own. -/
theorem NamesPrograms.of_startsEntry (h : NamesPrograms img s command) {dentry : Dentry}
    (hv : stale.Valid) (hname : NamesEntry img command stale dentry)
    (hstart : StartsEntry img s stale dentry.inode) : dentry.filetype = 2 ∧
      (firstWord command).length < maxFilenameLength ∧ 28 ≤ img.inodeSize dentry.inode := by
  obtain ⟨hregular, hother⟩ := h hstart.1 stale dentry hv hname
  have htype : dentry.filetype = 2 := by
    by_contra hne
    exact hother hne _ hstart.mayStart
  exact ⟨htype, hregular htype hstart.mayStart⟩

/-- The header of a file that is long enough is its own. -/
theorem header_of_size (hmagic : HasMagic img inode stale) (hsize : 28 ≤ img.inodeSize inode) :
    (img.contents inode).take 4 = magicNumber ∧
      entryPoint (headerByte img inode stale) = entryPoint (img.fileByte inode) := by
  have hbyte : ∀ k < 28, headerByte img inode stale k = img.fileByte inode k := by
    intro k hk
    rw [headerByte_eq img inode stale (by omega), if_pos (by omega)]
  constructor
  · apply List.ext_getElem
    · rw [List.length_take, Image.length_contents]
      change min 4 _ = 4
      omega
    · intro k hk hk'
      have hk4 : k < 4 := hk'
      rw [List.getElem_take, ← cstr_of_lt hk', ← hasMagic_iff.mp hmagic k hk4,
        hbyte k (by omega)]
      simp [Image.contents]
  · simp only [entryPoint, hbyte 24 (by decide), hbyte 25 (by decide), hbyte 26 (by decide),
      hbyte 27 (by decide)]

theorem NamesPrograms.startsPrograms (h : NamesPrograms img s command) :
    StartsPrograms img s sp command := by
  refine ⟨fun stale s₁ hv hstart => ?_, fun stale stale' hv hv' => ?_,
    fun stale dentry hv hname hne n => ?_⟩
  · obtain ⟨hroom, prog, hl, hload⟩ := starts_iff_lookup.mp ⟨s₁, hstart⟩
    obtain ⟨st, dentry, hst, hfits, hdentry, hmagic, rfl⟩ := lookup_eq_found_iff.mp hl
    have hname : NamesEntry img command stale dentry := ⟨st, hst, hfits, hdentry⟩
    obtain ⟨htype, -, hsize⟩ := h.of_startsEntry hv hname ⟨hroom, hmagic, hload⟩
    obtain ⟨htake, hentry⟩ := header_of_size hmagic hsize
    exact ⟨dentry, _, hname, hl, htype, hsize, htake, hentry⟩
  · have himp : ∀ {stale stale' : Stale}, stale.Valid → StartsCommand img s sp command stale →
        StartsCommand img s sp command stale' := by
      intro stale stale' hv hstart
      obtain ⟨dentry, hname, hstart⟩ := starts_iff.mp hstart
      obtain ⟨-, hword, hsize⟩ := h.of_startsEntry hv hname hstart
      exact starts_iff.mpr ⟨dentry, hname.congr hword, startsEntry_congr (by omega) hstart⟩
    exact ⟨himp hv, himp hv'⟩
  · have hno : ∀ n, ¬ StartsEntry img s stale n := fun n hn =>
      (h hn.1 stale dentry hv hname).2 hne n hn.mayStart
    exact iff_of_false (hno n) (hno _)

theorem StartsPrograms.namesPrograms (hnul : 0 ∉ command)
    (h : StartsPrograms img s sp command) : NamesPrograms img s command := by
  intro hroom stale dentry hv hname
  have hv' : stale.withMagic.Valid := hv
  have hname' : NamesEntry img command stale.withMagic dentry := hname
  -- with a header left in the buffer whatever may start does
  have hregular : StartsCommand img s sp command stale.withMagic →
      dentry.filetype = 2 ∧ 28 ≤ img.inodeSize dentry.inode := by
    rintro ⟨s₁, hs₁⟩
    obtain ⟨d, prog, hd, -, htype, hsize, -⟩ := h.regular _ s₁ hv' hs₁
    obtain rfl := hname'.unique hd
    exact ⟨htype, hsize⟩
  constructor
  · intro _ hmay
    have hstarts : StartsCommand img s sp command stale.withMagic :=
      starts_iff.mpr ⟨dentry, hname', hmay.startsEntry hroom⟩
    refine ⟨?_, (hregular hstarts).2⟩
    by_contra hlong
    obtain ⟨st, hst, ⟨hfits, -⟩, -⟩ := hname
    rw [(parseCommand_eq_some hst).1] at hfits
    obtain ⟨other, hother, hnone⟩ :=
      exists_stale_not_namesEntry img hnul (Nat.le_antisymm hfits (Nat.le_of_not_lt hlong))
    obtain ⟨d, hd, -⟩ := starts_iff.mp ((h.stale_free _ other hv' hother).mp hstarts)
    exact hnone d hd
  · intro hne n hmay
    have hstart := (h.inode_free _ dentry hv' hname' hne n).mp (hmay.startsEntry hroom)
    exact hne (hregular (starts_iff.mpr ⟨dentry, hname', hstart⟩)).1

/-- **Programs.** With a command in memory, `execute` starts only programs, whatever else is in
memory, exactly if what the command can name is a program or cannot start. -/
theorem startsPrograms_iff (hnul : 0 ∉ command) :
    StartsPrograms img s sp command ↔ NamesPrograms img s command :=
  ⟨fun h => h.namesPrograms hnul, fun h => h.startsPrograms⟩

/-- The shell is a program, and starts once the three terminals have theirs. -/
theorem startsPrograms_iff_sample : ∃ s,
    run (step sampleImage) (boot powerOn) [.tick noStale, .tick noStale, .tick noStale] = some s ∧
    StartsCommand sampleImage s s.entry shellCommand noStale ∧
      StartsPrograms sampleImage s s.entry shellCommand := by
  have hobs : (run (step sampleImage) (boot powerOn)
      [.tick noStale, .tick noStale, .tick noStale]).map (fun s =>
        s.con.curTermId.bind fun cur => pcbProcessNumber s.pcbMask cur) = some (some 1) := by
    decide +kernel
  obtain ⟨s, hs, hroom⟩ := Option.map_eq_some_iff.mp hobs
  obtain ⟨cur, hcur, hslot⟩ := Option.bind_eq_some_iff.mp hroom
  obtain ⟨args, hexec⟩ := execute_shell sampleImage_bootable s.entry noStale hcur hslot
  refine ⟨s, hs, ⟨_, hexec⟩, (startsPrograms_iff (by decide)).mpr fun _ stale dentry _ hname => ?_⟩
  obtain ⟨st, hst, -, hd⟩ := hname
  have hparse : parseCommand shellCommand = some ⟨0, shellCommand, []⟩ := rfl
  obtain rfl := Option.some.inj (hparse.symm.trans hst)
  have hshell : readDentryByName sampleImage (commandName shellCommand stale) =
      some ⟨shellCommand, 2, 0⟩ := by
    rw [commandName, if_neg (by decide)]
    decide +kernel
  obtain rfl := Option.some.inj (hshell.symm.trans hd)
  exact ⟨fun _ _ => ⟨by decide, by decide +kernel⟩, fun hne => absurd rfl hne⟩

/-- The directory `.` has the inode of the shell, and `execute` starts the shell for it. -/
theorem not_startsPrograms : ¬ ∀ (img : Image) (s : Kernel) (sp : StackPtr)
    (command : List UInt8), img.numDentries ≤ maxFileDentries → 0 ∉ command →
      StartsPrograms img s sp command := by
  intro hstarts
  have hobs : ((run (step sampleImage) (boot powerOn) [.tick noStale]).bind fun s =>
      (execute sampleImage s s.entry (text ['.']) noStale).map Outcome.isStarted) =
        some true := by
    decide +kernel
  obtain ⟨s, -, hobs⟩ := Option.bind_eq_some_iff.mp hobs
  obtain ⟨o, ho, hstarted⟩ := Option.map_eq_some_iff.mp hobs
  cases o with
  | returned eax r => cases hstarted
  | faulted r => cases hstarted
  | started s₁ =>
    obtain ⟨d, prog, ⟨st, hst, -, hd⟩, -, htype, -⟩ :=
      (hstarts sampleImage s s.entry (text ['.']) (by decide +kernel) (by decide)).regular
        noStale s₁ (by decide) ho
    have hparse : parseCommand (text ['.']) = some ⟨0, text ['.'], []⟩ := rfl
    obtain rfl := Option.some.inj (hparse.symm.trans hst)
    have hdot : readDentryByName sampleImage (commandName (text ['.']) noStale) =
        some ⟨text ['.'], 1, 0⟩ := by decide +kernel
    obtain rfl := Option.some.inj (hdot.symm.trans hd)
    cases htype

end LinuxLikeKernel
