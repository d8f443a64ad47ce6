import LinuxLikeKernel.SystemCall
import LinuxLikeKernel.Page

/-!
# The address space

What the page tables mean: which addresses are mapped where, and which of them user code may
access. The mapping functions of `paging.c`, in whatever order they are called, build the
address space that their calls describe.

## Main definitions

- `PageTables.access` — the processor's walk, with the privilege it asks for
- `AddressSpace` — a process page, the backing pages, and a user video page
- `Represents` — page tables whose entries are those of an address space

## Main results

- `access_mapAll` — the page tables map what the address space says
- `userAccess_mapAll` — user code reaches the process page and the user video page only
-/

namespace LinuxLikeKernel

/-! ### Walks -/

/-- Bit 2 of an entry: accessible at user privilege. -/
def userBit (entry : Nat) : Bool := entry.testBit 2

/-- What a virtual address leads to. -/
structure Access where
  physical : Nat
  user : Bool
  deriving DecidableEq, Repr

/-- The processor's walk. An address is the user's if both levels say so. -/
def PageTables.access (pt : PageTables) (va : Nat) : Option Access :=
  let pde := pt.pageDir (va / 0x400000)
  if PageTables.present pde then
    if PageTables.large pde then some ⟨pde - pde % 0x400000 + va % 0x400000, userBit pde⟩
    else (pt.tableAt pde).bind fun tab =>
      let pte := tab (va / 0x1000 % 1024)
      if PageTables.present pte then
        some ⟨pte - pte % 0x1000 + va % 0x1000, userBit pde && userBit pte⟩
      else none
  else none

/-- The same walk as `translate`. -/
theorem translate_eq_access (pt : PageTables) (va : Nat) :
    pt.translate va = (pt.access va).map Access.physical := by
  simp only [PageTables.translate, PageTables.access]
  split
  · split
    · rfl
    · cases pt.tableAt (pt.pageDir (va / 0x400000)) with
      | none => rfl
      | some tab =>
        simp only [Option.bind_some]
        split <;> rfl
  · rfl

/-! ### The abstract address space -/

/-- One of the four video pages: a backing page, or the visible screen. -/
abbrev VideoPageId := Option TermId

def videoPageAddr : VideoPageId → Nat
  | none => video
  | some t => backingPage t

/-- A frame for a process: the argument of `pcb_mapping` for process `p`. -/
def processFrameOf (p : Fin 12) : Nat := 0x800000 + p.val * 0x400000

/-- `vidmap`'s address, 132 MB. -/
abbrev userVideo : Nat := 0x8400000

/-- What is mapped, besides the kernel page and the screen. -/
structure AddressSpace where
  process : Option (Fin 12)
  backed : TermId → Bool
  videoPage : Option VideoPageId

namespace AddressSpace

/-- The pages that are mapped to themselves for the kernel alone. -/
def Supervisor (a : AddressSpace) (va : Nat) : Prop :=
  (0x400000 ≤ va ∧ va < 0x800000) ∨ (video ≤ va ∧ va < video + 0x1000) ∨
    ∃ t, a.backed t = true ∧ backingPage t ≤ va ∧ va < backingPage t + 0x1000

instance (a : AddressSpace) (va : Nat) : Decidable (a.Supervisor va) :=
  inferInstanceAs (Decidable (_ ∨ _))

/-- The meaning of an address. -/
def access (a : AddressSpace) (va : Nat) : Option Access :=
  if a.Supervisor va then some ⟨va, false⟩
  else if userStart ≤ va ∧ va < userEnd then
    a.process.map fun p => ⟨processFrameOf p + (va - userStart), true⟩
  else if userVideo ≤ va ∧ va < userVideo + 0x1000 then
    a.videoPage.map fun v => ⟨videoPageAddr v + (va - userVideo), true⟩
  else none

/-- After `paging_init`. -/
def initial : AddressSpace := ⟨none, fun _ => false, none⟩

end AddressSpace

/-- A call of one of the mapping functions. -/
inductive Mapping
  | pcb (p : Fin 12)
  | terminal (i : TermId)
  | syscall
  | scheduling (v : VideoPageId)
  deriving DecidableEq

/-- The call, as the kernel makes it. -/
def PageTables.map (pt : PageTables) : Mapping → PageTables
  | .pcb p => pt.pcbMapping 0x8000000 (0x800000 + p.val * 0x400000)
  | .terminal i => pt.terminalVideoMapping (0xB9000 + 0x1000 * i.val) i
  | .syscall => pt.syscallVideoMapping 0xB8000
  | .scheduling v => pt.schedulingVideoMapping (videoPageAddr v)

def PageTables.mapAll (pt : PageTables) (ms : List Mapping) : PageTables := ms.foldl .map pt

/-- What the call is for. -/
def AddressSpace.map (a : AddressSpace) : Mapping → AddressSpace
  | .pcb p => { a with process := some p }
  | .terminal i => { a with backed := Function.update a.backed i true }
  | .syscall => { a with videoPage := some none }
  | .scheduling v => { a with videoPage := some v }

def AddressSpace.mapAll (a : AddressSpace) (ms : List Mapping) : AddressSpace := ms.foldl .map a

/-! ### Entries -/

namespace PageTables

/-- The low bits of an aligned address with flags are the flags. -/
theorem testBit_lor_flags {k a flags i : Nat} (ha : a % 2 ^ k = 0) (hf : flags < 2 ^ k)
    (hi : i < k) : (a ||| flags).testBit i = flags.testBit i := by
  rw [lor_flags ha hf, testBit_add_flags ha hf hi]

/-- Without the flags an entry is the address. -/
theorem lor_flags_sub_mod {k a flags : Nat} (ha : a % 2 ^ k = 0) (hf : flags < 2 ^ k) :
    (a ||| flags) - (a ||| flags) % 2 ^ k = a := by
  rw [lor_flags ha hf, Nat.add_mod, ha, Nat.zero_add, Nat.mod_mod, Nat.mod_eq_of_lt hf,
    Nat.add_sub_cancel]

end PageTables

/-! ### Tables that represent an address space -/

/-- The entries for an address space. `page_video_tab` is never filled: its entries are those of
a C global without an initialiser. -/
structure Represents (pt : PageTables) (a : AddressSpace) : Prop where
  aligned : pt.pageTabAddr % 0x1000 = 0
  low : pt.pageDir 0 = pt.pageTabAddr ||| 0x3
  kernel : pt.pageDir 1 = 0x400000 ||| 0x83
  process : ∀ p ∈ a.process, pt.pageDir 32 = processFrameOf p ||| 0x87
  noProcess : a.process = none → PageTables.present (pt.pageDir 32) = false
  videoPage : ∀ v ∈ a.videoPage, pt.pageDir 33 = pt.pageVideoTabAddr ||| 0x7 ∧
    pt.pageVideoTab 0 = videoPageAddr v ||| 0x7
  noVideoPage : a.videoPage = none → PageTables.present (pt.pageDir 33) = false
  noDir : ∀ i < 1024, i ≠ 0 → i ≠ 1 → i ≠ 32 → i ≠ 33 → PageTables.present (pt.pageDir i) = false
  screen : pt.pageTab 0xB8 = video ||| 0x3
  backed : ∀ t, a.backed t = true → pt.pageTab (0xB9 + t.val) = backingPage t ||| 0x3
  noTab : ∀ i < 1024, i ≠ 0xB8 → (∀ t, i = 0xB9 + t.val → a.backed t = false) →
    PageTables.present (pt.pageTab i) = false
  noVideoTab : ∀ i < 1024, i ≠ 0 → pt.pageVideoTab i = 0

namespace Represents

variable {pt : PageTables} {a : AddressSpace}

/-- The byte-wise fill of the directory leaves no entry present. -/
theorem pagingInit_empty (pt : PageTables) {i : Nat} (hi : i < 1024) (h0 : i ≠ 0) (h1 : i ≠ 1) :
    PageTables.present (pt.pagingInit.pageDir i) = false := by
  have hword : pt.pagingInit.pageDir i = 0x02020202 := by
    simp only [PageTables.pagingInit, if_neg h0, if_neg h1, if_pos hi]
  rw [hword]
  decide

theorem pagingInit (halign : pt.pageTabAddr % 0x1000 = 0)
    (hzero : ∀ i < 1024, pt.pageVideoTab i = 0) : Represents pt.pagingInit .initial where
  aligned := halign
  low := rfl
  kernel := rfl
  process := nofun
  noProcess _ := pagingInit_empty pt (by decide) (by decide) (by decide)
  videoPage := nofun
  noVideoPage _ := pagingInit_empty pt (by decide) (by decide) (by decide)
  noDir i hi h0 h1 _ _ := pagingInit_empty pt hi h0 h1
  screen := by
    have hword : pt.pagingInit.pageTab 0xB8 = 0xB8 * 0x1000 ||| 2 ||| 3 := rfl
    rw [hword]
    decide
  backed t ht := by cases ht
  noTab i hi hscreen _ := by
    have hword : pt.pagingInit.pageTab i = i * 0x1000 ||| 2 := by
      simp only [PageTables.pagingInit, if_neg hscreen, if_pos hi]
    rw [hword]
    exact PageTables.testBit_lor_flags (k := 12) (by omega) (by decide) (by decide)
  noVideoTab i hi _ := hzero i hi

/-- The two functions for the user video page do the same. -/
theorem mapVideo (h : Represents pt a) (v : VideoPageId) :
    Represents (pt.syscallVideoMapping (videoPageAddr v)) { a with videoPage := some v } := by
  have hdir : ∀ i, i ≠ 33 →
      (pt.syscallVideoMapping (videoPageAddr v)).pageDir i = pt.pageDir i :=
    fun i hi => Function.update_of_ne hi ..
  exact {
    aligned := h.aligned
    low := (hdir 0 (by decide)).trans h.low
    kernel := (hdir 1 (by decide)).trans h.kernel
    process := fun q hq => (hdir 32 (by decide)).trans (h.process q hq)
    noProcess := fun hp => by rw [hdir 32 (by decide)]; exact h.noProcess hp
    videoPage := by
      intro w hw
      obtain rfl := Option.some.inj hw
      simp only [PageTables.syscallVideoMapping, Function.update_self, and_self]
    noVideoPage := nofun
    noDir := fun i hi h0 h1 h32 h33 => by rw [hdir i h33]; exact h.noDir i hi h0 h1 h32 h33
    screen := h.screen
    backed := h.backed
    noTab := h.noTab
    noVideoTab := fun i hi h0 => (Function.update_of_ne h0 ..).trans (h.noVideoTab i hi h0) }

/-- **Step lemma.** A call changes the entries that it is about. -/
theorem map (h : Represents pt a) (m : Mapping) : Represents (pt.map m) (a.map m) := by
  cases m with
  | pcb p =>
    have hdir : ∀ i, i ≠ 32 → (pt.map (.pcb p)).pageDir i = pt.pageDir i :=
      fun i hi => Function.update_of_ne hi ..
    exact {
      aligned := h.aligned
      low := (hdir 0 (by decide)).trans h.low
      kernel := (hdir 1 (by decide)).trans h.kernel
      process := by
        intro q hq
        obtain rfl := Option.some.inj hq
        simp [PageTables.map, PageTables.pcbMapping, processFrameOf]
      noProcess := nofun
      videoPage := fun v hv => ⟨(hdir 33 (by decide)).trans (h.videoPage v hv).1,
        (h.videoPage v hv).2⟩
      noVideoPage := fun hv => by rw [hdir 33 (by decide)]; exact h.noVideoPage hv
      noDir := fun i hi h0 h1 h32 h33 => by rw [hdir i h32]; exact h.noDir i hi h0 h1 h32 h33
      screen := h.screen
      backed := h.backed
      noTab := h.noTab
      noVideoTab := h.noVideoTab }
  | terminal t =>
    -- the entry of the directory is the one that has been there from the start
    have hdir : (pt.map (.terminal t)).pageDir = pt.pageDir := by
      refine (congrArg (Function.update pt.pageDir 0) h.low.symm).trans ?_
      exact Function.update_eq_self ..
    have htab : ∀ i, i ≠ 0xB9 + t.val → (pt.map (.terminal t)).pageTab i = pt.pageTab i :=
      fun i hi => Function.update_of_ne hi ..
    exact {
      aligned := h.aligned
      low := by rw [hdir]; exact h.low
      kernel := by rw [hdir]; exact h.kernel
      process := fun q hq => by rw [hdir]; exact h.process q hq
      noProcess := fun hp => by rw [hdir]; exact h.noProcess hp
      videoPage := fun v hv => by rw [hdir]; exact h.videoPage v hv
      noVideoPage := fun hv => by rw [hdir]; exact h.noVideoPage hv
      noDir := fun i hi h0 h1 h32 h33 => by rw [hdir]; exact h.noDir i hi h0 h1 h32 h33
      screen := (htab 0xB8 (by omega)).trans h.screen
      backed := by
        intro u hu
        by_cases htu : u = t
        · subst htu
          exact Function.update_self ..
        · have hne : u.val ≠ t.val := fun he => htu (Fin.ext he)
          rw [htab (0xB9 + u.val) (by omega)]
          refine h.backed u ?_
          simpa only [AddressSpace.map, Function.update_of_ne htu] using hu
      noTab := by
        intro i hi hscreen hfree
        have hit : i ≠ 0xB9 + t.val := by
          intro he
          have := hfree t he
          simp [AddressSpace.map] at this
        rw [htab i hit]
        refine h.noTab i hi hscreen fun u hu => ?_
        have hut : u ≠ t := fun he => hit (he ▸ hu)
        simpa only [AddressSpace.map, Function.update_of_ne hut] using hfree u hu
      noVideoTab := h.noVideoTab }
  | «syscall» => exact h.mapVideo none
  | scheduling v => exact h.mapVideo v

theorem mapAll (h : Represents pt a) (ms : List Mapping) :
    Represents (pt.mapAll ms) (a.mapAll ms) := by
  induction ms generalizing pt a with
  | nil => exact h
  | cons m ms ih => exact ih (h.map m)

/-! ### Walks through represented tables -/

theorem tableAt_low (h : Represents pt a) : pt.tableAt (pt.pageDir 0) = some pt.pageTab := by
  have hbase : pt.pageDir 0 - pt.pageDir 0 % 0x1000 = pt.pageTabAddr := by
    rw [h.low]
    exact PageTables.lor_flags_sub_mod (k := 12) h.aligned (by decide)
  rw [PageTables.tableAt, hbase, if_neg pt.tabs_ne.symm, if_pos rfl]

/-- An address below 4 MB is looked up in `page_tab`. -/
theorem access_low (h : Represents pt a) {va : Nat} (hva : va < 0x400000) :
    pt.access va =
      if PageTables.present (pt.pageTab (va / 0x1000)) then
        some ⟨pt.pageTab (va / 0x1000) - pt.pageTab (va / 0x1000) % 0x1000 + va % 0x1000, false⟩
      else none := by
  have hdir : va / 0x400000 = 0 := by omega
  have htab : va / 0x1000 % 1024 = va / 0x1000 := by omega
  have hpresent : PageTables.present (pt.pageDir 0) = true := by
    rw [h.low]
    exact PageTables.testBit_lor_flags (k := 12) h.aligned (by decide) (by decide)
  have hlarge : PageTables.large (pt.pageDir 0) = false := by
    rw [h.low]
    exact PageTables.testBit_lor_flags (k := 12) h.aligned (by decide) (by decide)
  have huser : userBit (pt.pageDir 0) = false := by
    rw [h.low]
    exact PageTables.testBit_lor_flags (k := 12) h.aligned (by decide) (by decide)
  simp only [PageTables.access, hdir, hpresent, hlarge, if_true, Bool.false_eq_true, if_false,
    h.tableAt_low, Option.bind_some, htab, huser, Bool.false_and]

/-- A page of `page_tab` that is mapped to itself. -/
theorem access_self (h : Represents pt a) {va page : Nat} (hpage : page % 0x1000 = 0)
    (hlt : page < 0x400000) (hin : page ≤ va ∧ va < page + 0x1000)
    (hentry : pt.pageTab (page / 0x1000) = page ||| 0x3) : pt.access va = some ⟨va, false⟩ := by
  have hidx : va / 0x1000 = page / 0x1000 := by omega
  have hpresent : PageTables.present (page ||| 0x3) = true :=
    PageTables.testBit_lor_flags (k := 12) hpage (by decide) (by decide)
  have hbase : (page ||| 0x3) - (page ||| 0x3) % 0x1000 = page :=
    PageTables.lor_flags_sub_mod (k := 12) hpage (by decide)
  have haddr : page + va % 0x1000 = va := by omega
  rw [h.access_low (by omega), hidx, hentry, hpresent, if_pos rfl, hbase, haddr]

/-- A 4 MB page. -/
theorem access_large {va frame flags : Nat} (hframe : frame % 0x400000 = 0)
    (hflags : flags < 2 ^ 8) (hentry : pt.pageDir (va / 0x400000) = frame ||| flags)
    (hpresent : flags.testBit 0 = true) (hlarge : flags.testBit 7 = true) :
    pt.access va = some ⟨frame + va % 0x400000, flags.testBit 2⟩ := by
  have hbit : ∀ i < 8, (frame ||| flags).testBit i = flags.testBit i := fun i hi =>
    PageTables.testBit_lor_flags (k := 22) hframe (by omega) (by omega)
  have hbase : (frame ||| flags) - (frame ||| flags) % 0x400000 = frame :=
    PageTables.lor_flags_sub_mod (k := 22) hframe (by omega)
  simp only [PageTables.access, hentry, PageTables.present, PageTables.large, userBit,
    hbit 0 (by decide), hbit 2 (by decide), hbit 7 (by decide), hpresent, hlarge, if_true, hbase]

/-- The user video page, and the rest of its table. -/
theorem access_video (h : Represents pt a) {va : Nat} {v : VideoPageId} (hv : a.videoPage = some v)
    (hva : va / 0x400000 = 33) :
    pt.access va = if va < userVideo + 0x1000 then
      some ⟨videoPageAddr v + (va - userVideo), true⟩ else none := by
  obtain ⟨hdir, hzero⟩ := h.videoPage v hv
  have hbit : ∀ i < 12, (pt.pageVideoTabAddr ||| 0x7).testBit i = (0x7 : Nat).testBit i :=
    fun i hi => PageTables.testBit_lor_flags (k := 12) pt.pageVideoTab_aligned (by decide) hi
  have htable : pt.tableAt (pt.pageVideoTabAddr ||| 0x7) = some pt.pageVideoTab := by
    have hbase : (pt.pageVideoTabAddr ||| 0x7) - (pt.pageVideoTabAddr ||| 0x7) % 0x1000 =
        pt.pageVideoTabAddr :=
      PageTables.lor_flags_sub_mod (k := 12) pt.pageVideoTab_aligned (by decide)
    rw [PageTables.tableAt, hbase, if_pos rfl]
  have hpresent : PageTables.present (pt.pageVideoTabAddr ||| 0x7) = true := hbit 0 (by decide)
  have hlarge : PageTables.large (pt.pageVideoTabAddr ||| 0x7) = false := hbit 7 (by decide)
  have huser : userBit (pt.pageVideoTabAddr ||| 0x7) = true := hbit 2 (by decide)
  simp only [PageTables.access, hva, hdir, hpresent, hlarge, htable, huser, if_true,
    Bool.false_eq_true, if_false, Option.bind_some, Bool.true_and]
  by_cases hin : va < userVideo + 0x1000
  · have hidx : va / 0x1000 % 1024 = 0 := by
      simp only [userVideo] at hin
      omega
    have haligned : videoPageAddr v % 0x1000 = 0 := by
      cases v with
      | none => rfl
      | some t => exact backingPage_aligned t
    have hbit' : ∀ i < 12, (videoPageAddr v ||| 0x7).testBit i = (0x7 : Nat).testBit i :=
      fun i hi => PageTables.testBit_lor_flags (k := 12) haligned (by decide) hi
    have hbase : (videoPageAddr v ||| 0x7) - (videoPageAddr v ||| 0x7) % 0x1000 =
        videoPageAddr v := PageTables.lor_flags_sub_mod (k := 12) haligned (by decide)
    have hpresent' : PageTables.present (videoPageAddr v ||| 0x7) = true := hbit' 0 (by decide)
    have huser' : userBit (videoPageAddr v ||| 0x7) = true := hbit' 2 (by decide)
    have haddr : va % 0x1000 = va - userVideo := by
      simp only [userVideo] at hin ⊢
      omega
    rw [hidx, hzero, if_pos hpresent', hbase, huser', haddr, if_pos hin]
  · have hidx : va / 0x1000 % 1024 ≠ 0 := by
      simp only [userVideo] at hin
      omega
    rw [h.noVideoTab _ (Nat.mod_lt _ (by decide)) hidx, if_neg hin]
    rfl

theorem access_of_not_present {va : Nat}
    (h : PageTables.present (pt.pageDir (va / 0x400000)) = false) : pt.access va = none := by
  simp only [PageTables.access, h, Bool.false_eq_true, if_false]

/-- Below 4 MB only the screen and the backing pages are mapped. -/
theorem access_low_eq (h : Represents pt a) {va : Nat} (hva : va < 0x400000) :
    pt.access va = a.access va := by
  by_cases hs : a.Supervisor va
  · rw [AddressSpace.access, if_pos hs]
    obtain hkernel | hscreen | ⟨t, ht, hin⟩ := hs
    · omega
    · exact @access_self pt a h va video (by decide) (by decide) hscreen h.screen
    · have hidx : backingPage t / 0x1000 = 0xB9 + t.val := by
        simp only [backingPage]
        omega
      refine h.access_self (backingPage_aligned t) ?_ hin (hidx ▸ h.backed t ht)
      simp only [backingPage]
      omega
  · have hnone : a.access va = none := by
      rw [AddressSpace.access, if_neg hs, if_neg, if_neg]
      · simp only [userVideo]
        omega
      · simp only [userStart]
        omega
    have hempty : PageTables.present (pt.pageTab (va / 0x1000)) = false := by
      refine h.noTab _ (by omega) (fun hscreen => hs (.inr (.inl ?_))) fun t hidx => ?_
      · simp only [video]
        omega
      · by_contra ht
        refine hs (.inr (.inr ⟨t, by simpa using ht, ?_⟩))
        simp only [backingPage]
        omega
    rw [h.access_low hva, hempty, hnone]
    rfl

/-- **Refinement.** The tables map every address where the address space has it. -/
theorem access_eq (h : Represents pt a) {va : Nat} (hva : va < 2 ^ 32) :
    pt.access va = a.access va := by
  obtain hlow | hhigh := Nat.lt_or_ge va 0x400000
  · exact h.access_low_eq hlow
  obtain hkernel | huser := Nat.lt_or_ge va 0x800000
  · have hdir : va / 0x400000 = 1 := by omega
    rw [@access_large pt va 0x400000 0x83 (by decide) (by decide) (hdir ▸ h.kernel) (by decide)
      (by decide), AddressSpace.access, if_pos (.inl ⟨hhigh, hkernel⟩)]
    congr 2
    omega
  · -- above 8 MB no supervisor page is mapped; 32 and 33 are the only entries for users
    have hs : ¬ a.Supervisor va := by
      rintro (hkernel | hscreen | ⟨t, -, hin⟩)
      · omega
      · simp only [video] at hscreen
        omega
      · simp only [backingPage] at hin
        omega
    rw [AddressSpace.access, if_neg hs]
    by_cases h32 : va / 0x400000 = 32
    · have hin : userStart ≤ va ∧ va < userEnd := by
        simp only [userStart, userEnd]
        omega
      rw [if_pos hin]
      cases hp : a.process with
      | none => exact access_of_not_present (h32 ▸ h.noProcess hp)
      | some p =>
        have hframe : processFrameOf p % 0x400000 = 0 := by
          simp only [processFrameOf]
          omega
        rw [@access_large pt va _ 0x87 hframe (by decide) (h32 ▸ h.process p hp) (by decide)
          (by decide)]
        have haddr : va % 0x400000 = va - userStart := by
          simp only [userStart]
          omega
        rw [haddr]
        rfl
    · have hout : ¬ (userStart ≤ va ∧ va < userEnd) := by
        simp only [userStart, userEnd]
        omega
      rw [if_neg hout]
      by_cases h33 : va / 0x400000 = 33
      · cases hv : a.videoPage with
        | none =>
          rw [access_of_not_present (h33 ▸ h.noVideoPage hv)]
          simp
        | some v =>
          have hge : userVideo ≤ va := by
            simp only [userVideo]
            omega
          rw [h.access_video hv h33]
          simp only [hge, true_and, Option.map_some]
      · have hout' : ¬ (userVideo ≤ va ∧ va < userVideo + 0x1000) := by
          simp only [userVideo]
          omega
        rw [if_neg hout']
        exact access_of_not_present
          (h.noDir _ (by omega) (by omega) (by omega) h32 h33)

end Represents

/-! ### After any calls -/

/-- After `paging_init` and any calls, the tables map what the calls say. -/
theorem access_mapAll {pt : PageTables} (halign : pt.pageTabAddr % 0x1000 = 0)
    (hzero : ∀ i < 1024, pt.pageVideoTab i = 0) (ms : List Mapping) {va : Nat}
    (hva : va < 2 ^ 32) :
    (pt.pagingInit.mapAll ms).access va = (AddressSpace.initial.mapAll ms).access va :=
  ((Represents.pagingInit halign hzero).mapAll ms).access_eq hva

theorem backed_mapAll (a : AddressSpace) (ms : List Mapping) (t : TermId) :
    (a.mapAll ms).backed t = true ↔ a.backed t = true ∨ .terminal t ∈ ms := by
  induction ms generalizing a with
  | nil => simp [AddressSpace.mapAll]
  | cons m ms ih =>
    refine (ih (a.map m)).trans ?_
    cases m with
    | terminal i =>
      by_cases hit : t = i
      · subst hit
        simp [AddressSpace.map]
      · simp [AddressSpace.map, hit]
    | _ => simp [AddressSpace.map]

/-- The kernel page, the screen, and the backing pages mapped so far. -/
def KernelOnly (ms : List Mapping) (va : Nat) : Prop :=
  (0x400000 ≤ va ∧ va < 0x800000) ∨ (video ≤ va ∧ va < video + 0x1000) ∨
    ∃ t, .terminal t ∈ ms ∧ backingPage t ≤ va ∧ va < backingPage t + 0x1000

theorem supervisor_mapAll (ms : List Mapping) (va : Nat) :
    (AddressSpace.initial.mapAll ms).Supervisor va ↔ KernelOnly ms va := by
  simp only [AddressSpace.Supervisor, KernelOnly, backed_mapAll, AddressSpace.initial,
    Bool.false_eq_true, false_or]

/-- User code reaches the user page, in one process frame, and the user video page, in one of
the four video pages; the kernel's own pages are mapped to themselves for the kernel, and nothing
else is mapped. -/
def Confines (ms : List Mapping) (access : Nat → Option Access) : Prop :=
  ∃ (p : Fin 12) (v : VideoPageId), ∀ va < 2 ^ 32,
    (∀ x, access va = some x → x.user = true →
      (0x8000000 ≤ va ∧ va < 0x8400000 ∧
        x.physical = 0x800000 + p.val * 0x400000 + (va - 0x8000000)) ∨
      (0x8400000 ≤ va ∧ va < 0x8401000 ∧ x.physical = videoPageAddr v + (va - 0x8400000))) ∧
    (KernelOnly ms va → access va = some ⟨va, false⟩) ∧
    (¬ KernelOnly ms va → ¬ (0x8000000 ≤ va ∧ va < 0x8401000) → access va = none)

/-- **The address space.** After `paging_init` and any calls of the mapping functions, user code
is confined to its two pages. -/
theorem userAccess_mapAll {pt : PageTables} (halign : pt.pageTabAddr % 0x1000 = 0)
    (hzero : ∀ i < 1024, pt.pageVideoTab i = 0) (ms : List Mapping) :
    Confines ms (pt.pagingInit.mapAll ms).access := by
  let a := AddressSpace.initial.mapAll ms
  refine ⟨a.process.getD 0, a.videoPage.getD none, fun va hva => ?_⟩
  rw [access_mapAll halign hzero ms hva]
  change (∀ x, a.access va = some x → _) ∧ (_ → a.access va = _) ∧ (_ → _ → a.access va = _)
  refine ⟨fun x hx huser => ?_, fun hk => ?_, fun hk hout => ?_⟩
  · simp only [AddressSpace.access] at hx
    split at hx
    · rw [← Option.some.inj hx] at huser
      cases huser
    · split at hx
      · rename_i hin
        obtain ⟨p, hp, rfl⟩ := Option.map_eq_some_iff.mp hx
        refine .inl ⟨hin.1, hin.2, ?_⟩
        rw [hp]
        rfl
      · split at hx
        · rename_i hin
          obtain ⟨v, hv, rfl⟩ := Option.map_eq_some_iff.mp hx
          refine .inr ⟨hin.1, hin.2, ?_⟩
          rw [hv]
          rfl
        · cases hx
  · rw [AddressSpace.access, if_pos ((supervisor_mapAll ms va).mpr hk)]
  · rw [AddressSpace.access, if_neg fun hs => hk ((supervisor_mapAll ms va).mp hs), if_neg, if_neg]
    · simp only [userVideo]
      omega
    · simp only [userStart, userEnd]
      omega

/-- Tables in memory full of zeros, and a process that has called `vidmap`. -/
theorem userAccess_mapAll_sample : ∃ pt : PageTables,
    (pt.pagingInit.mapAll [.terminal 0, .pcb 2, .syscall]).access 0x8400010 =
      some ⟨0xB8010, true⟩ ∧
    Confines [.terminal 0, .pcb 2, .syscall]
      (pt.pagingInit.mapAll [.terminal 0, .pcb 2, .syscall]).access :=
  ⟨⟨fun _ => 0, fun _ => 0, fun _ => 0, 0x1000, 0x2000, by decide, by decide⟩, by decide +kernel,
    userAccess_mapAll (by decide) (fun _ _ => rfl) _⟩

end LinuxLikeKernel
