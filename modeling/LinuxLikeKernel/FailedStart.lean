import LinuxLikeKernel.Core
import LinuxLikeKernel.FileContents

/-!
# Programs that are not started

`execute` takes a slot and maps its page before it loads the program. A program that cannot be
loaded to its end leaves both as they are by then.

## Main definitions

- `KeepsProcesses` — what a call that starts nothing should leave alone
- `BadBlock` — the file has a block, after its first, whose number is out of range
- `LoadFails` — the command names a file that `read_data` fails for, and there is a slot for it

## Main results

- `execute_returned_cases` — the states in which `execute` returns to its caller
- `keepsProcesses_iff` — which of them are as before
-/

namespace LinuxLikeKernel
open ByteMemory Kernel Transition

variable {img : Image} {s s' : Kernel} {sp : StackPtr} {command : List UInt8} {stale : Stale}

/-- The slots, the page tables, the terminals, `tss` and the PCBs are the same. -/
structure KeepsProcesses (s s' : Kernel) : Prop where
  mask : s'.pcbMask = s.pcbMask
  paging : s'.paging = s.paging
  term : s'.con.term = s.con.term
  esp0 : s'.tssEsp0 = s.tssEsp0
  pcb : s'.pcb = s.pcb

/-- A block of the file after its first has a number that is out of range. -/
def BadBlock (img : Image) (inode : Nat) : Prop :=
  ∃ d, 0 < d ∧ fsBlockSize * d < img.inodeSize inode ∧ img.numDatablocks ≤ img.dataBlock inode d

/-- The command names an executable with a bad block, or of 2^32 - 1 bytes, which `read_data`
returns as -1, and the displayed terminal has a slot. -/
def LoadFails (img : Image) (s : Kernel) (command : List UInt8) (stale : Stale) : Prop :=
  ∃ prog cur i, lookup img command stale = .found prog ∧ s.con.curTermId = some cur ∧
    pcbProcessNumber s.pcbMask cur = some i ∧
    (BadBlock img prog.inode ∨ img.inodeSize prog.inode = 2 ^ 32 - 1)

/-! ### Loading -/

/-- Every byte of a file is reached exactly if it has no bad block. -/
theorem hasByte_iff_not_badBlock {inode : Nat} (hsize : img.inodeSize inode < 2 ^ 32) :
    (∀ k < img.inodeSize inode, HasByte img inode 0 k) ↔ ¬ BadBlock img inode := by
  constructor
  · rintro hall ⟨d, hd, hlt, hbad⟩
    have hblock := (hall _ hlt).block_lt
    simp only [fsBlockSize, Nat.zero_add, Nat.mul_mod_right, true_implies,
      Nat.mul_div_cancel_left d (by decide : 0 < 4096)] at hblock
    exact absurd (hblock (by omega)) (Nat.not_lt.mpr hbad)
  · intro hgood k hk
    refine ⟨by omega, fun hpos hmod => ?_⟩
    by_contra hbad
    simp only [fsBlockSize] at hmod
    refine hgood ⟨(0 + k) / fsBlockSize, ?_, ?_, Nat.le_of_not_lt hbad⟩
    · simp only [fsBlockSize]
      omega
    · simp only [fsBlockSize]
      omega

theorem word_lt (img : Image) (a : Nat) : img.word a < 2 ^ 32 := by
  have h0 := (img.byteAt a).toNat_lt
  have h1 := (img.byteAt (a + 1)).toNat_lt
  have h2 := (img.byteAt (a + 2)).toNat_lt
  have h3 := (img.byteAt (a + 3)).toNat_lt
  simp only [Image.word]
  omega

/-- The user page has room for less than 4 MB from the start of the program on. -/
theorem length_le_of_inUserPage {r : Effect} (h : InUserPage (r.stores startVirtualAddr)) :
    r.bytes.length ≤ userEnd - startVirtualAddr := by
  by_contra hlong
  have hlt : userEnd - startVirtualAddr < r.bytes.length := Nat.lt_of_not_le hlong
  have hmem : ((startVirtualAddr + (userEnd - startVirtualAddr)) % 2 ^ 32,
      r.bytes[userEnd - startVirtualAddr]) ∈ r.stores startVirtualAddr :=
    List.mem_mapIdx.mpr ⟨_, hlt, rfl⟩
  have hout : ¬ (startVirtualAddr + (userEnd - startVirtualAddr)) % 2 ^ 32 < userEnd := by decide
  exact hout (h _ hmem).2

/-- A load fails if it runs into a bad block, or if the number of its bytes reads as -1. -/
theorem load_fails_iff {inode : Nat} {r : Effect}
    (hr : readData img inode 0 startVirtualAddr (img.inodeSize inode) = r) :
    r.ret = -1 ↔ BadBlock img inode ∨ img.inodeSize inode = 2 ^ 32 - 1 := by
  have hsize : img.inodeSize inode < 2 ^ 32 := word_lt img _
  rw [readData, if_neg (by decide)] at hr
  have hat := at_start img inode 0
  have hreach : ∀ k, k < r.bytes.length ↔
      k < img.inodeSize inode ∧ ∀ j ≤ k, HasByte img inode 0 (0 + j) := by
    intro k
    rw [← hr]
    exact lt_length_readDataLoop hat
  rcases readDataLoop_inside hat (by omega) hr with ⟨hfull, hret⟩ | ⟨hshort, hret⟩
  · have hgood : ¬ BadBlock img inode := (hasByte_iff_not_badBlock hsize).mp fun k hk => by
      have := ((hreach k).mp (by omega)).2 k le_rfl
      rwa [Nat.zero_add] at this
    rw [hret, int32, or_iff_right hgood]
    omega
  · refine iff_of_true hret (.inl (by_contra fun hgood => ?_))
    have hall := (hasByte_iff_not_badBlock hsize).mpr hgood
    refine Nat.lt_irrefl _ ((hreach r.bytes.length).mpr ⟨hshort, fun j hj => ?_⟩)
    rw [Nat.zero_add]
    exact hall j (by omega)

/-! ### `execute` -/

/-- `execute` returns to its caller in one of three ways: a command that is refused changes
nothing, without a slot a line is printed, and a failed load leaves its slot taken and its page
mapped. -/
theorem execute_returned_cases {eax : Int}
    (h : execute img s sp command stale = some (.returned eax s')) :
    (lookup img command stale = .refused ∧ eax = -1 ∧ s' = s) ∨
      ∃ prog cur, lookup img command stale = .found prog ∧ s.con.curTermId = some cur ∧
        ((pcbProcessNumber s.pcbMask cur = none ∧ eax = 0 ∧ s' = s.printf noSpaceText) ∨
          ∃ i mem, pcbProcessNumber s.pcbMask cur = some i ∧
            (BadBlock img prog.inode ∨ img.inodeSize prog.inode = 2 ^ 32 - 1) ∧ eax = -1 ∧
            s' = s.placed cur i mem) := by
  cases execute_exit h with
  | refused hl => exact .inl ⟨hl, rfl, rfl⟩
  | full hl hcur hslot => exact .inr ⟨_, _, hl, hcur, .inl ⟨hslot, rfl, rfl⟩⟩
  | failed hl hcur hslot hreach hret =>
    exact .inr ⟨_, _, hl, hcur, .inr ⟨_, _, hslot, (load_fails_iff rfl).mp hret, rfl, rfl⟩⟩

/-- The slot that `PCB_process_number` finds is free. -/
theorem mask_pcbProcessNumber {mask : TermId → Fin 4 → Bool} {cur : TermId} {i : Fin 4}
    (h : pcbProcessNumber mask cur = some i) : mask cur i = false := by
  have hfree := (Option.filter_eq_some_iff.mp h).1
  simpa using List.find?_some hfree

theorem keepsProcesses_printf (s : Kernel) (str : List UInt8) : KeepsProcesses s (s.printf str) :=
  ⟨rfl, rfl, rfl, rfl, rfl⟩

/-- **Failed starts.** A call of `execute` that starts nothing leaves the processes as they were
exactly if it has not come to a load that fails. -/
theorem keepsProcesses_iff {eax : Int}
    (h : execute img s sp command stale = some (.returned eax s')) :
    KeepsProcesses s s' ↔ ¬ LoadFails img s command stale := by
  rcases execute_returned_cases h with ⟨hl, -, rfl⟩ | ⟨prog, cur, hl, hcur, hcases⟩
  · refine iff_of_true ⟨rfl, rfl, rfl, rfl, rfl⟩ ?_
    rintro ⟨prog, cur, i, hfound, -⟩
    rw [hl] at hfound
    cases hfound
  · rcases hcases with ⟨hnone, -, rfl⟩ | ⟨i, mem, hi, hbad, -, rfl⟩
    · refine iff_of_true (keepsProcesses_printf s _) ?_
      rintro ⟨prog', cur', i, -, hcur', hi, -⟩
      rw [hcur] at hcur'
      obtain rfl := Option.some.inj hcur'
      rw [hnone] at hi
      cases hi
    · refine iff_of_false (fun hkeep => ?_) fun hno => hno ⟨prog, cur, i, hl, hcur, hi, hbad⟩
      -- the slot was free and is marked now
      have hfree := mask_pcbProcessNumber hi
      have hmarked : (s.placed cur i mem).pcbMask cur i = true := by
        simp [placed, setMask, markSlot, mapProcess]
      rw [hkeep.mask, hfree] at hmarked
      cases hmarked

/-- Terminal 1 is displayed, and its row is full. -/
def fullRow : Kernel :=
  { powerOn with
    con := { powerOn.con with curTermId := some 1 }
    pcbMask := fun t _ => t = 1 }

/-- Without a slot nothing is lost. -/
theorem keepsProcesses_iff_sample : ∃ eax s',
    execute sampleImage fullRow ⟨0, 0⟩ shellCommand noStale = some (.returned eax s') ∧
      KeepsProcesses fullRow s' := by
  have hcur : fullRow.con.curTermId = some 1 := rfl
  have hslot : pcbProcessNumber fullRow.pcbMask 1 = none := by decide
  obtain ⟨prog, hl, -⟩ := lookup_shell sampleImage_bootable noStale
  have hexec : execute sampleImage fullRow ⟨0, 0⟩ shellCommand noStale =
      some (.returned 0 (fullRow.printf noSpaceText)) := by
    simp only [execute, hl, hcur, Option.bind_some, hslot]
  refine ⟨_, _, hexec, (keepsProcesses_iff hexec).mpr ?_⟩
  rintro ⟨prog', cur, i, -, hcur', hi, -⟩
  obtain rfl := Option.some.inj (hcur.symm.trans hcur')
  rw [hslot] at hi
  cases hi

/-- The sample image with one more file, `b`. Its second block has a number out of range. -/
def badBlockImage : Image := fun a =>
  ([(0, 3), (4, 2), (8, 1),
    (64, 46), (96, 1),
    (128, 115), (129, 104), (130, 101), (131, 108), (132, 108), (160, 2),
    (192, 98), (224, 2), (228, 1),
    (4096, 40),
    (8192, 1), (8193, 16), (8200, 7),
    (12288, 0x7f), (12289, 0x45), (12290, 0x4c), (12291, 0x46)].find?
      fun w : Store => w.1 = a).elim 0 Prod.snd

/-- `b` takes a slot and a page, and does not run. -/
theorem not_keepsProcesses : ¬ ∀ (img : Image) (s₀ s s' : Kernel) (es : List Event)
    (command : List UInt8) (stale : Stale) (eax : Int),
    run (step img) (boot s₀) es = some s →
      execute img s s.entry command stale = some (.returned eax s') → KeepsProcesses s s' := by
  intro hkeeps
  have hobs : (run (step badBlockImage) (boot powerOn)
      [.tick noStale, .tick noStale, .tick noStale]).map (fun s =>
        (s.con.curTermId, pcbProcessNumber s.pcbMask 0, s.pcbMask 0 1)) =
      some (some 0, some 1, false) := by decide +kernel
  obtain ⟨s, hs, hobs⟩ := Option.map_eq_some_iff.mp hobs
  simp only [Prod.mk.injEq] at hobs
  obtain ⟨hcur, hslot, hfree⟩ := hobs
  -- what `b` is
  have hparse : parseCommand (text ['b']) = some ⟨0, text ['b'], []⟩ := rfl
  have hd : readDentryByName badBlockImage (text ['b']) = some ⟨text ['b'], 2, 1⟩ := by
    decide +kernel
  have hmagic : HasMagic badBlockImage 1 noStale := by decide +kernel
  have hl : lookup badBlockImage (text ['b']) noStale =
      .found ⟨1, entryPoint (headerByte badBlockImage 1 noStale), []⟩ :=
    lookup_eq_found_iff.mpr ⟨_, _, hparse, by decide, hd, hmagic, rfl⟩
  have hpage := @inUserPage_load badBlockImage 1 (by decide +kernel)
  have hbad : BadBlock badBlockImage 1 := ⟨1, by decide, by decide +kernel, by decide +kernel⟩
  have hret := (load_fails_iff rfl).mpr (.inl hbad)
  obtain ⟨mem, hexec, -⟩ := @execute_loaded badBlockImage s s.entry _ _ _ _ _ hl hcur hslot
    (s.paging.reaches_of_inUserPage hpage)
  rw [if_pos hret] at hexec
  have hkeep := (hkeeps badBlockImage powerOn s _ _ _ _ _ hs hexec).mask
  have hmarked := congrFun (congrFun hkeep 0) 1
  rw [hfree] at hmarked
  cases hmarked

end LinuxLikeKernel
