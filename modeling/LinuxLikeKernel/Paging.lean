import Mathlib.Data.Nat.Bitwise
import Mathlib.Logic.Function.Basic

/-!
# Page directory and page tables

`paging.c`: the directory, the two page tables it points to, and the mapping functions that
patch them. `translate` is the processor's own walk, with 4 MB and 4 KB pages.
-/

namespace LinuxLikeKernel

/-- The paging structures of `paging.h`, with the addresses the linker gave the two tables.
Entries are the words stored, flags included. -/
structure PageTables where
  pageDir : Nat → Nat
  pageTab : Nat → Nat
  pageVideoTab : Nat → Nat
  pageTabAddr : Nat
  pageVideoTabAddr : Nat
  /-- `__attribute__((aligned (page_align_bytes)))` on the video table. -/
  pageVideoTab_aligned : pageVideoTabAddr % 0x1000 = 0
  /-- The two tables are different objects. -/
  tabs_ne : pageVideoTabAddr ≠ pageTabAddr

namespace PageTables

/-- `paging_init`: byte 2 all over the directory, the low 4 MB through `page_tab`, the kernel
page at 4 MB, and the screen as the only page present in the table. -/
def pagingInit (pt : PageTables) : PageTables :=
  { pt with
    pageDir := fun i =>
      if i = 0 then pt.pageTabAddr ||| 3
      else if i = 1 then 0x400000 ||| 0x83
      else if i < 1024 then 0x02020202 else pt.pageDir i
    pageTab := fun i =>
      if i = 0xB8 then i * 0x1000 ||| 2 ||| 3
      else if i < 1024 then i * 0x1000 ||| 2 else pt.pageTab i }

/-- `terminal_video_mapping`. -/
def terminalVideoMapping (pt : PageTables) (physicalAddress pageIdx : Nat) : PageTables :=
  { pt with
    pageDir := Function.update pt.pageDir 0 (pt.pageTabAddr ||| 0x3)
    pageTab := Function.update pt.pageTab (0xB9 + pageIdx) (physicalAddress ||| 0x3) }

/-- `pcb_mapping`. -/
def pcbMapping (pt : PageTables) (virtualAddress physicalAddress : Nat) : PageTables :=
  { pt with
    pageDir := Function.update pt.pageDir (virtualAddress / 0x400000) (physicalAddress ||| 0x87) }

/-- `syscall_video_mapping`. -/
def syscallVideoMapping (pt : PageTables) (physicalAddress : Nat) : PageTables :=
  { pt with
    pageDir := Function.update pt.pageDir 33 (pt.pageVideoTabAddr ||| 0x7)
    pageVideoTab := Function.update pt.pageVideoTab 0 (physicalAddress ||| 0x7) }

/-- `scheduling_video_mapping`, which does what `syscall_video_mapping` does. -/
def schedulingVideoMapping (pt : PageTables) (physicalAddress : Nat) : PageTables :=
  pt.syscallVideoMapping physicalAddress

/-- Bit 0 of an entry: present. -/
def present (entry : Nat) : Bool := entry.testBit 0

/-- Bit 7 of a directory entry: a 4 MB page. -/
def large (entry : Nat) : Bool := entry.testBit 7

/-- The page table a directory entry points to. -/
def tableAt (pt : PageTables) (entry : Nat) : Option (Nat → Nat) :=
  if entry - entry % 0x1000 = pt.pageVideoTabAddr then some pt.pageVideoTab
  else if entry - entry % 0x1000 = pt.pageTabAddr then some pt.pageTab
  else none

/-- The physical address a virtual address is mapped to. -/
def translate (pt : PageTables) (va : Nat) : Option Nat :=
  let pde := pt.pageDir (va / 0x400000)
  if present pde then
    if large pde then some (pde - pde % 0x400000 + va % 0x400000)
    else (pt.tableAt pde).bind fun tab =>
      let pte := tab (va / 0x1000 % 1024)
      if present pte then some (pte - pte % 0x1000 + va % 0x1000) else none
  else none

/-- The frame under the user page at 128 MB. -/
def userFrame (pt : PageTables) : Option Nat := pt.translate 0x8000000

/-- The page under the user video address at 132 MB. -/
def userVideoPage (pt : PageTables) : Option Nat := pt.translate 0x8400000

/-! ### What the mapping functions map -/

/-- Or-ing flags into a block-aligned address adds them. -/
theorem lor_flags {k a flags : Nat} (ha : a % 2 ^ k = 0) (hf : flags < 2 ^ k) :
    a ||| flags = a + flags := by
  obtain ⟨b, rfl⟩ := Nat.dvd_of_mod_eq_zero ha
  exact (Nat.two_pow_add_eq_or_of_lt hf b).symm

/-- The low bits of an aligned address with flags are the flags. -/
theorem testBit_add_flags {k a flags i : Nat} (ha : a % 2 ^ k = 0) (hf : flags < 2 ^ k)
    (hi : i < k) : (a + flags).testBit i = flags.testBit i := by
  obtain ⟨b, rfl⟩ := Nat.dvd_of_mod_eq_zero ha
  rw [Nat.two_pow_add_eq_or_of_lt hf, Nat.testBit_or, Nat.testBit_two_pow_mul]
  simp [Nat.not_le.mpr hi]

/-- The directory entry that `pcb_mapping` writes for the user page. -/
def MapsUserPage (pt : PageTables) (frame : Nat) : Prop := pt.pageDir 32 = frame ||| 0x87

theorem mapsUserPage_pcbMapping (pt : PageTables) (frame : Nat) :
    (pt.pcbMapping 0x8000000 frame).MapsUserPage frame := by
  simp [MapsUserPage, pcbMapping]

theorem MapsUserPage.syscallVideoMapping {pt : PageTables} {frame : Nat}
    (h : pt.MapsUserPage frame) (page : Nat) :
    (pt.syscallVideoMapping page).MapsUserPage frame := by
  simpa [MapsUserPage, PageTables.syscallVideoMapping, Function.update_of_ne] using h

theorem MapsUserPage.userFrame {pt : PageTables} {frame : Nat} (h : pt.MapsUserPage frame)
    (hf : frame % 0x400000 = 0) : pt.userFrame = some frame := by
  have hor : frame ||| 0x87 = frame + 0x87 := lor_flags (k := 22) hf (by decide)
  have hp : present (frame + 0x87) = true := testBit_add_flags (k := 22) hf (by decide) (by decide)
  have hl : large (frame + 0x87) = true := testBit_add_flags (k := 22) hf (by decide) (by decide)
  simp only [MapsUserPage] at h
  simp only [PageTables.userFrame, translate, Nat.reduceDiv, h, hor, hp, hl, if_true]
  congr 1
  omega

theorem userVideoPage_syscallVideoMapping (pt : PageTables) {page : Nat} (hp : page % 0x1000 = 0) :
    (pt.syscallVideoMapping page).userVideoPage = some page := by
  have ha := pt.pageVideoTab_aligned
  have hor : pt.pageVideoTabAddr ||| 0x7 = pt.pageVideoTabAddr + 0x7 :=
    lor_flags (k := 12) ha (by decide)
  have hor' : page ||| 0x7 = page + 0x7 := lor_flags (k := 12) hp (by decide)
  have hpd : present (pt.pageVideoTabAddr + 0x7) = true :=
    testBit_add_flags (k := 12) ha (by decide) (by decide)
  have hld : large (pt.pageVideoTabAddr + 0x7) = false :=
    testBit_add_flags (k := 12) ha (by decide) (by decide)
  have hpt : present (page + 0x7) = true := testBit_add_flags (k := 12) hp (by decide) (by decide)
  have htab : pt.pageVideoTabAddr + 0x7 - (pt.pageVideoTabAddr + 0x7) % 0x1000 =
      pt.pageVideoTabAddr := by omega
  have hidx : (0x8400000 : Nat) / 0x400000 = 33 := by decide
  simp only [userVideoPage, translate, syscallVideoMapping, hidx, Function.update_self, hor, hor',
    hpd, hld, tableAt, htab, if_true, Bool.false_eq_true, if_false, Option.bind_some]
  simp only [Nat.reduceMod, hpt, if_true]
  congr 1
  omega

/-- Mapping the user page leaves the video address alone. -/
theorem userVideoPage_pcbMapping (pt : PageTables) (frame : Nat) :
    (pt.pcbMapping 0x8000000 frame).userVideoPage = pt.userVideoPage := by
  simp [userVideoPage, translate, pcbMapping, tableAt, Function.update_of_ne]

end PageTables

end LinuxLikeKernel
