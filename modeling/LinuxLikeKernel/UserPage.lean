import LinuxLikeKernel.UserBuffer

/-!
# Stores through user pointers

Where `read`, `getargs` and `vidmap` store through the pointer they are given. They do not ask
whether what it points to is inside the user page; only `vidmap` looks at the first byte.

## Main definitions

- `PointerCall` — the three calls with their arguments
- `PointerCall.Returns` — the stores that a call makes and the value that it returns
- `StaysInPage` — they leave all memory but the user page alone
- `PointerCall.InsidePage` — the arguments for which they do

## Main results

- `returns_staysInPage_iff` — a call stays in the page exactly for these
-/

namespace LinuxLikeKernel
open ByteMemory Kernel Transition

/-! ### The calls -/

/-- A system call that is given a pointer to store through. -/
inductive PointerCall
  | read (fd : Int) (buf : Nat) (nbytes : Int)
  | getargs (buf : Nat) (nbytes : Int)
  | vidmap (screenStart : Nat)

namespace PointerCall

/-- The call as an event. -/
def event : PointerCall → Event
  | read fd buf nbytes => .read fd buf nbytes
  | getargs buf nbytes => .getargs buf nbytes
  | vidmap screenStart => .vidmap screenStart

/-- The length is an `int32_t`. -/
def WellTyped : PointerCall → Prop
  | read _ _ nbytes => -2 ^ 31 ≤ nbytes ∧ nbytes < 2 ^ 31
  | getargs _ nbytes => -2 ^ 31 ≤ nbytes ∧ nbytes < 2 ^ 31
  | vidmap _ => True

/-- Address `a` is in what the caller asks to be filled. -/
def Target : PointerCall → Nat → Prop
  | read _ buf nbytes => InBuffer buf nbytes.toNat
  | getargs buf nbytes => InBuffer buf nbytes.toNat
  | vidmap screenStart => InBuffer screenStart 4

/-- A call that is made in a state makes the stores and returns the value. -/
def Returns (img : Image) (s : Kernel) (c : PointerCall) (ws : List Store) (ret : Int) : Prop :=
  match c with
  | read fd buf nbytes => ReadReturns img s fd buf nbytes ws ret
  | getargs buf nbytes =>
    let r := Kernel.getargs (s.pcb s.nowPcbId) nbytes
    ws = r.stores buf ∧ ret = r.ret
  | vidmap screenStart =>
    let r := (Kernel.vidmap s.paging screenStart).2
    ws = r.stores screenStart ∧ ret = r.ret

end PointerCall

/-- A step that is a whole call makes the stores of a return, and leaves its value in EAX. -/
theorem PointerCall.syscall_returns {img : Image} {s s' : Kernel} {c : PointerCall}
    (h : s.syscall img c.event = some s') (hno : ∀ fd buf nbytes, c = .read fd buf nbytes →
      ¬ Blocks s fd buf) : ∃ ws, InUserPage ws ∧ c.Returns img s ws s'.eax := by
  cases c with
  | read fd buf nbytes => exact read_returns h (hno fd buf nbytes rfl)
  | getargs buf nbytes =>
    simp only [event, syscall] at h
    split at h
    · rename_i hin
      rw [← Option.some.inj h]
      exact ⟨_, hin, rfl, rfl⟩
    · cases h
  | vidmap screenStart =>
    simp only [event, syscall] at h
    split at h
    · rename_i hin
      rw [← Option.some.inj h]
      exact ⟨_, hin, rfl, rfl⟩
    · cases h

/-! ### What they should do -/

/-- Address `a` is in the user page. -/
def UserAddr (a : Nat) : Prop := userStart ≤ a ∧ a < userEnd

instance (a : Nat) : Decidable (UserAddr a) := inferInstanceAs (Decidable (_ ∧ _))

/-- The stores change nothing outside the user page, and a call for a target that is not wholly
inside it is refused. -/
structure StaysInPage (target : Nat → Prop) (ws : List Store) (ret : Int) : Prop where
  frame : ∀ (m : Mem) a, ¬ UserAddr a → storeAll m ws a = m a
  refuses : ¬ (∀ a, target a → UserAddr a) → ret = -1 ∧ ws = []

/-- The arguments for which a call does so. -/
def PointerCall.InsidePage (img : Image) (s : Kernel) (c : PointerCall) : Prop :=
  match c with
  | .read fd buf nbytes =>
    let inside := ∀ a, InBuffer buf nbytes.toNat a → UserAddr a
    match s.readDriver fd buf with
    | some (_, .stdin) => inside
    | some (_, .rtc) => (s.pcb s.nowPcbId).rtcFreq = 0 ∨ inside
    | some (_, .dir) => inside ∧
      (img.numDentries ≤ s.numFileRead ∨ ∀ a, InBuffer buf 33 a → UserAddr a)
    | some (i, .file) => i = 0 ∨ inside ∧
      let d := (s.pcb s.getCurPcb).fds i
      (0 ≤ nbytes ∨ ∀ k < uint32 nbytes,
        (∀ j ≤ k, HasByte img d.inode (uint32 d.filePosition) j) → UserAddr ((buf + k) % 2 ^ 32))
    | _ => True
  | .getargs buf nbytes =>
    (s.pcb s.nowPcbId).argLength = 0 ∨ nbytes ≤ (s.pcb s.nowPcbId).argLength ∨
      ∀ a, InBuffer buf nbytes.toNat a → UserAddr a
  | .vidmap screenStart => ¬ UserAddr screenStart ∨ UserAddr (screenStart + 3)

/-! ### The exact arguments -/

theorem staysInPage_nil {target : Nat → Prop} : StaysInPage target [] (-1) :=
  ⟨fun _ _ _ => rfl, fun _ => ⟨rfl, rfl⟩⟩

/-- Of a single outcome. -/
theorem forall_returns_iff {P : List Store → Int → Prop} {ws₀ : List Store} {ret₀ : Int} :
    (∀ ws ret, ws = ws₀ ∧ ret = ret₀ → P ws ret) ↔ P ws₀ ret₀ := by
  constructor
  · intro h
    exact h _ _ ⟨rfl, rfl⟩
  · rintro h _ _ ⟨rfl, rfl⟩
    exact h

/-- A call that succeeds whatever its target is stays in the page exactly if its stores and its
target are there. -/
theorem staysInPage_iff {target : Nat → Prop} {ws : List Store} {ret : Int}
    (h : (∀ a, ¬ target a) ∨ ret ≠ -1 ∨ ws ≠ []) :
    StaysInPage target ws ret ↔ (∀ a, target a → UserAddr a) ∧ ∀ w ∈ ws, UserAddr w.1 := by
  constructor
  · rintro ⟨hframe, hrefuses⟩
    refine ⟨?_, storeAll_frame_iff.mp hframe⟩
    by_contra hout
    obtain ⟨hret, hws⟩ := hrefuses hout
    obtain hempty | hne | hne := h
    · exact hout fun a ha => absurd ha (hempty a)
    · exact hne hret
    · exact hne hws
  · rintro ⟨htarget, hws⟩
    exact ⟨storeAll_frame_iff.mpr hws, fun hout => absurd htarget hout⟩

theorem mem_stores_iff {r : Effect} {buf : Nat} {P : Nat → Prop} :
    (∀ w ∈ r.stores buf, P w.1) ↔ ∀ a, InBuffer buf r.bytes.length a → P a := by
  constructor
  · rintro h _ ⟨k, hk, rfl⟩
    exact h ((buf + k) % 2 ^ 32, r.bytes[k]) (List.mem_mapIdx.mpr ⟨k, hk, rfl⟩)
  · intro h w hw
    obtain ⟨k, hk, rfl⟩ := List.mem_mapIdx.mp hw
    exact h _ ⟨k, hk, rfl⟩

variable {img : Image} {buf : Nat} {nbytes : Int}

theorem staysInPage_dirRead_iff {n : Nat} (hbuf : buf ≠ 0) {target : Nat → Prop} :
    StaysInPage target ((dirRead img n buf).1.stores buf) (dirRead img n buf).1.ret ↔
      (∀ a, target a → UserAddr a) ∧
        (img.numDentries ≤ n ∨ ∀ a, InBuffer buf 33 a → UserAddr a) := by
  have hret : (dirRead img n buf).1.ret ≠ -1 := by
    simp only [dirRead, if_neg hbuf]
    split
    · simp only
      omega
    · decide
  rw [staysInPage_iff (.inr (.inl hret)), mem_stores_iff]
  refine and_congr_right fun _ => ?_
  by_cases hn : n < img.numDentries
  · have hlen : (dirRead img n buf).1.bytes.length = 33 := by
      simp [dirRead, if_neg hbuf, if_pos hn]
    rw [hlen, or_iff_right (Nat.not_le.mpr hn)]
  · have hlen : (dirRead img n buf).1.bytes.length = 0 := by
      simp [dirRead, if_neg hbuf, if_neg hn]
    rw [hlen]
    refine iff_of_true ?_ (.inl (Nat.le_of_not_lt hn))
    rintro a ⟨k, hk, -⟩
    exact absurd hk (Nat.not_lt_zero k)

theorem staysInPage_readData_iff {inode offset : Nat} (hbuf : buf ≠ 0)
    (hhi : nbytes < 2 ^ 31) :
    StaysInPage (InBuffer buf nbytes.toNat)
        ((readData img inode offset buf (uint32 nbytes)).stores buf)
        (readData img inode offset buf (uint32 nbytes)).ret ↔
      (∀ a, InBuffer buf nbytes.toNat a → UserAddr a) ∧
        (0 ≤ nbytes ∨ ∀ k < uint32 nbytes, (∀ j ≤ k, HasByte img inode offset j) →
          UserAddr ((buf + k) % 2 ^ 32)) := by
  have hat := at_start img inode offset
  have hdata : readData img inode offset buf (uint32 nbytes) =
      readDataLoop img inode offset (uint32 nbytes) 0 (BlockCursor.start img inode offset) := by
    simp only [readData, if_neg hbuf]
  have hlen := readDataLoop_length_le img inode offset (uint32 nbytes) 0
    (BlockCursor.start img inode offset)
  have hret := @readDataLoop_ret_cases img inode offset (uint32 nbytes) 0 _ _ hat rfl
  have hbytes : ∀ k, _ ↔ _ := fun k =>
    @lt_length_readDataLoop img inode offset (uint32 nbytes) 0 k _ hat
  simp only [Nat.zero_add] at hbytes hret
  rw [hdata]
  set r := readDataLoop img inode offset (uint32 nbytes) 0 (BlockCursor.start img inode offset)
  -- only a loop that has copied something returns -1
  have hsome : r.ret ≠ -1 ∨ r.stores buf ≠ [] := by
    by_cases hnil : r.bytes = []
    · refine .inl ?_
      rw [hnil] at hret
      obtain ⟨-, hpos⟩ | hret := hret
      · exact absurd hpos (Nat.lt_irrefl 0)
      · rw [hret]
        decide
    · refine .inr fun h => hnil ?_
      exact List.mapIdx_eq_nil_iff.mp h
  rw [staysInPage_iff (.inr hsome), mem_stores_iff]
  refine and_congr_right fun hinside => ⟨fun h => .inr fun k hk hall => ?_, fun h a ha => ?_⟩
  · exact h _ ⟨k, (hbytes k).mpr ⟨hk, hall⟩, rfl⟩
  · obtain ⟨k, hk, rfl⟩ := ha
    obtain hpos | hfile := h
    · refine hinside _ ⟨k, ?_, rfl⟩
      simp only [uint32] at hlen
      omega
    · obtain ⟨hlt, hall⟩ := (hbytes k).mp hk
      exact hfile k hlt hall

theorem staysInPage_getargs_iff {p : Pcb} :
    StaysInPage (InBuffer buf nbytes.toNat) ((Kernel.getargs p nbytes).stores buf)
        (Kernel.getargs p nbytes).ret ↔
      p.argLength = 0 ∨ nbytes ≤ p.argLength ∨
        ∀ a, InBuffer buf nbytes.toNat a → UserAddr a := by
  by_cases hno : p.argLength = 0 ∨ nbytes ≤ p.argLength
  · have hargs : Kernel.getargs p nbytes = ⟨-1, []⟩ := if_pos hno
    rw [hargs, ← or_assoc]
    exact iff_of_true staysInPage_nil (.inl hno)
  · have hargs : Kernel.getargs p nbytes =
        ⟨0, (List.range p.argLength).map p.argbuf ++ [0]⟩ := if_neg hno
    have hret : (0 : Int) ≠ -1 := by decide
    rw [hargs, staysInPage_iff (.inr (.inl hret)), mem_stores_iff, ← or_assoc, or_iff_right hno]
    refine and_iff_left_of_imp fun h a ha => h a (ha.mono ?_)
    simp only [List.length_append, List.length_map, List.length_range, List.length_singleton]
    omega

theorem staysInPage_vidmap_iff {pt : PageTables} {p : Nat} :
    StaysInPage (InBuffer p 4) ((Kernel.vidmap pt p).2.stores p) (Kernel.vidmap pt p).2.ret ↔
      ¬ UserAddr p ∨ UserAddr (p + 3) := by
  by_cases hp : UserAddr p
  · have hargs : (Kernel.vidmap pt p).2 = ⟨0, vidmapBytes⟩ := by
      obtain ⟨hlo, hhi⟩ := hp
      have hno : ¬(p = 0 ∨ p < userStart ∨ userEnd ≤ p) := by
        simp only [userStart] at *
        omega
      simp only [Kernel.vidmap, if_neg hno]
    have hret : (0 : Int) ≠ -1 := by decide
    rw [hargs, staysInPage_iff (.inr (.inl hret)), mem_stores_iff, or_iff_right (not_not.mpr hp)]
    obtain ⟨hlo, hhi⟩ := hp
    simp only [userStart, userEnd] at hlo hhi
    constructor
    · rintro ⟨h, -⟩
      exact h _ ⟨3, by decide, by omega⟩
    · intro hlast
      have hall : ∀ a, InBuffer p 4 a → UserAddr a := by
        rintro a ⟨k, hk, rfl⟩
        simp only [UserAddr, userStart, userEnd] at hlast ⊢
        omega
      exact ⟨hall, hall⟩
  · have hargs : (Kernel.vidmap pt p).2 = ⟨-1, []⟩ := by
      simp only [UserAddr] at hp
      have hno : p = 0 ∨ p < userStart ∨ userEnd ≤ p := by omega
      simp only [Kernel.vidmap, if_pos hno]
    rw [hargs]
    exact iff_of_true staysInPage_nil (.inl hp)

/-! ### A line of no characters -/

theorem termReads_clear (k : Console) (buf : Nat) (length : Int) (count : Nat) :
    ∀ n j, j + n = keyBufMax → TermReads buf length (.clear j count) [] count := by
  intro n
  induction n with
  | zero =>
    intro j hj
    refine .last k j count ?_
    have hstop : ¬ j < keyBufMax := by omega
    simp only [Console.termReadTurn, if_neg hstop]
  | succ n ih =>
    intro j hj
    have hlt : j < keyBufMax := by omega
    have hturn : k.termReadTurn length (.clear j count) =
        ⟨{ k with keyBuf := Function.update k.keyBuf j 0 }, none, some (.clear (j + 1) count)⟩ :=
      if_pos hlt
    have hrest := TermReads.turn k (congrArg Console.ReadTurn.next hturn) (ih (j + 1) (by omega))
    rwa [hturn] at hrest

/-- Some return of `term_read` is always possible: Enter is pressed on an empty line. -/
theorem exists_termReads (buf : Nat) (length : Int) :
    ∃ ws ret, TermReads buf length .wait ws ret := by
  let k : Console := powerOn.con
  let k₁ : Console := k.setTerm k.nowTermId { k.nowTerm with enterState := true }
  have hclear : TermReads buf length (.clear 0 0) [] 0 := termReads_clear k buf length 0 128 0 rfl
  have hcopy : TermReads buf length (.copy 0) _ 0 := .turn k
    (by simp [Console.termReadTurn, k, powerOn]) hclear
  have hwoken : TermReads buf length .woken _ 0 := .turn k rfl hcopy
  exact ⟨_, _, .turn k₁ rfl hwoken⟩

/-! ### All calls -/

/-- **Stores through user pointers.** Every return of a call stays in the page exactly if the
arguments are such that it does not matter that nothing is checked. -/
theorem returns_staysInPage_iff (img : Image) (s : Kernel) (c : PointerCall)
    (hc : c.WellTyped) :
    (∀ ws ret, c.Returns img s ws ret → StaysInPage c.Target ws ret) ↔ c.InsidePage img s := by
  cases c with
  | getargs buf nbytes =>
    simp only [PointerCall.Returns, PointerCall.InsidePage, PointerCall.Target]
    exact forall_returns_iff.trans staysInPage_getargs_iff
  | vidmap screenStart =>
    simp only [PointerCall.Returns, PointerCall.InsidePage, PointerCall.Target]
    exact forall_returns_iff.trans staysInPage_vidmap_iff
  | read fd buf nbytes =>
    simp only [PointerCall.Returns, PointerCall.InsidePage, PointerCall.Target, ReadReturns]
    cases hdriver : s.readDriver fd buf with
    | none =>
      simp only [iff_true]
      exact forall_returns_iff.mpr staysInPage_nil
    | some x =>
      obtain ⟨i, optable⟩ := x
      have hbuf : buf ≠ 0 := readDriver_buf hdriver
      cases optable with
      | stdin =>
        simp only
        constructor
        · intro h
          -- a call that returns has not been refused
          by_contra hout
          obtain ⟨ws, ret, hret⟩ := exists_termReads buf nbytes
          have hpos := (hret.bound trivial).2.1
          have hneg := ((h ws ret hret).refuses hout).1
          omega
        · intro hinside ws ret hret
          have hws := (hret.bound trivial).1
          exact ⟨storeAll_frame_iff.mpr fun w hw => hinside _ (hws w hw),
            fun hout => absurd hinside hout⟩
      | stdout =>
        simp only [iff_true]
        exact forall_returns_iff.mpr staysInPage_nil
      | rtc =>
        simp only
        have hzero : StaysInPage (InBuffer buf nbytes.toNat) [] 0 ↔
            ∀ a, InBuffer buf nbytes.toNat a → UserAddr a := by
          rw [staysInPage_iff (.inr (.inl (by decide)))]
          exact and_iff_left fun w hw => by cases hw
        rw [← hzero]
        by_cases hfreq : (s.pcb s.nowPcbId).rtcFreq = 0
        · exact iff_of_true (fun _ _ h => absurd hfreq h.1) (.inl hfreq)
        · simp only [hfreq, ne_eq, not_false_eq_true, true_and, false_or]
          exact forall_returns_iff
      | dir =>
        simp only
        exact forall_returns_iff.trans (staysInPage_dirRead_iff hbuf)
      | file =>
        simp only
        refine forall_returns_iff.trans ?_
        by_cases hi : i = 0
        · subst hi
          rw [fileRead_zero]
          exact iff_of_true staysInPage_nil (.inl rfl)
        · have hi' : i.val ≠ 0 := fun h => hi (Fin.ext h)
          simp only [fileRead, if_pos (And.intro hi' hbuf), hi, false_or]
          exact staysInPage_readData_iff hbuf hc.2
      | error =>
        simp only [iff_true]
        exact forall_returns_iff.mpr staysInPage_nil

/-- The shell of terminal 0 reads the file `shell` into the last four bytes of its page. -/
theorem returns_staysInPage_iff_sample : ∃ s, run (step sampleImage) (boot powerOn)
      [.tick noStale, .tick noStale, .tick noStale, .open shellCommand] = some s ∧
    s.readDriver 2 0x83FFFFC = some (2, .file) ∧
    ∀ ws ret, (PointerCall.read 2 0x83FFFFC 4).Returns sampleImage s ws ret →
      StaysInPage (PointerCall.read 2 0x83FFFFC 4).Target ws ret := by
  have hobs : (run (step sampleImage) (boot powerOn)
      [.tick noStale, .tick noStale, .tick noStale, .open shellCommand]).map
        (·.readDriver 2 0x83FFFFC) = some (some (2, .file)) := by decide +kernel
  obtain ⟨s, hs, hdriver⟩ := Option.map_eq_some_iff.mp hobs
  have hinside : ∀ a, InBuffer 0x83FFFFC 4 a → UserAddr a := by
    rintro a ⟨k, hk, rfl⟩
    rw [UserAddr, userStart, userEnd]
    omega
  have hpage : (PointerCall.read 2 0x83FFFFC 4).InsidePage sampleImage s := by
    simp only [PointerCall.InsidePage, hdriver]
    exact .inr ⟨hinside, .inl (by decide)⟩
  exact ⟨s, hs, hdriver, (returns_staysInPage_iff sampleImage s (.read 2 0x83FFFFC 4)
    (by simp [PointerCall.WellTyped])).mpr hpage⟩

/-- The three shells run, and that of terminal 0 reads the file `shell` over its own PCB. -/
theorem not_returns_staysInPage : ¬ ∀ (img : Image) (s : Kernel) (c : PointerCall),
    c.WellTyped → ∀ ws ret, c.Returns img s ws ret → StaysInPage c.Target ws ret := by
  intro hstaysIn
  have hobs : (run (step sampleImage) (boot powerOn)
      [.tick noStale, .tick noStale, .tick noStale, .open shellCommand]).map (fun s =>
        (s.readDriver 2 0x7FE000,
          (fileRead sampleImage ((s.pcb s.getCurPcb).fds 2) 2 0x7FE000 4).1)) =
      some (some (2, .file), ⟨4, magicNumber⟩) := by decide +kernel
  obtain ⟨s, -, hobs⟩ := Option.map_eq_some_iff.mp hobs
  obtain ⟨hdriver, hread⟩ := Prod.mk.inj hobs
  have hreturns : (PointerCall.read 2 0x7FE000 4).Returns sampleImage s
      (Effect.stores ⟨4, magicNumber⟩ 0x7FE000) 4 := by
    simp only [PointerCall.Returns, ReadReturns, hdriver]
    exact ⟨(congrArg (Effect.stores · 0x7FE000) hread).symm, (congrArg Effect.ret hread).symm⟩
  have hstays := hstaysIn sampleImage s _ (by simp [PointerCall.WellTyped]) _ _ hreturns
  have hpage := storeAll_frame_iff.mp hstays.frame (0x7FE000, 0x7f) (by decide)
  revert hpage
  decide

end LinuxLikeKernel
