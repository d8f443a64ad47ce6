import LinuxLikeKernel.FileContents
import LinuxLikeKernel.OperationExits

/-!
# Reads into a buffer

What a `read` may store and return, for each driver behind it, and when it keeps to the buffer
it was given.

## Main definitions

- `TermReads`, `ReadReturns` — the stores that a call makes and the value that it returns
- `HonoursBound` — they fit the buffer
- `BoundHonoured` — the call is not one of those that ignore the length

## Main results

- `readReturns_honours_iff` — a `read` keeps to its buffer exactly when it is not
-/

namespace LinuxLikeKernel
open ByteMemory Kernel Transition

/-- Address `a` is one of the `n` bytes from `buf` on. -/
def InBuffer (buf n a : Nat) : Prop := ∃ k < n, a = (buf + k) % 2 ^ 32

theorem InBuffer.mono {buf n n' a : Nat} (h : InBuffer buf n a) (hn : n ≤ n') :
    InBuffer buf n' a := by
  obtain ⟨k, hk, rfl⟩ := h
  exact ⟨k, by omega, rfl⟩

variable {img : Image} {inode offset : Nat}

/-! ### What a read stores and returns -/

/-- `term_read` from a phase on makes the stores and returns the value. Interrupts come between
its turns, so each of them finds a console of its own. -/
inductive TermReads (buf : Nat) (length : Int) : ReadPhase → List Store → Int → Prop
  | last (k : Console) (j count : Nat)
      (h : (k.termReadTurn length (.clear j count)).next = none) :
      TermReads buf length (.clear j count) [] count
  | turn (k : Console) {phase next : ReadPhase} {ws : List Store} {ret : Int}
      (hnext : (k.termReadTurn length phase).next = some next)
      (h : TermReads buf length next ws ret) :
      TermReads buf length phase ((k.termReadTurn length phase).stores buf ++ ws) ret

/-- A `read` that is called in a state makes the stores and returns the value. -/
def ReadReturns (img : Image) (s : Kernel) (fd : Int) (buf : Nat) (nbytes : Int)
    (ws : List Store) (ret : Int) : Prop :=
  match s.readDriver fd buf with
  | none => ws = [] ∧ ret = -1
  | some (_, .stdin) => TermReads buf nbytes .wait ws ret
  | some (_, .rtc) => (s.pcb s.nowPcbId).rtcFreq ≠ 0 ∧ ws = [] ∧ ret = 0
  | some (_, .dir) =>
    ws = (dirRead img s.numFileRead buf).1.stores buf ∧
      ret = (dirRead img s.numFileRead buf).1.ret
  | some (i, .file) =>
    let r := (fileRead img ((s.pcb s.getCurPcb).fds i) i buf nbytes).1
    ws = r.stores buf ∧ ret = r.ret
  | some (_, .stdout) => ws = [] ∧ ret = operationError.ret
  | some (_, .error) => ws = [] ∧ ret = operationError.ret

/-- How far a phase of `term_read` has got, against the length it was given. -/
def ReadPhase.Within (length : Int) : ReadPhase → Prop
  | .wait => True
  | .woken => True
  | .copy i => (i : Int) ≤ max length 0
  | .clear _ count => (count : Int) ≤ max length 0

/-- `term_read` keeps to the length it is given, whatever happens between its turns. -/
theorem TermReads.bound {buf : Nat} {length : Int} {phase : ReadPhase} {ws : List Store}
    {ret : Int} (h : TermReads buf length phase ws ret) (hp : phase.Within length) :
    (∀ w ∈ ws, InBuffer buf length.toNat w.1) ∧ 0 ≤ ret ∧ ret ≤ max length 0 := by
  induction h with
  | last k j count h => exact ⟨fun w hw => (by cases hw), Int.natCast_nonneg _, hp⟩
  | @turn k phase next ws ret hnext _ ih =>
    -- what one turn stores, and that the phase stays within the length
    have hturn : next.Within length ∧
        ∀ w ∈ (k.termReadTurn length phase).stores buf, InBuffer buf length.toNat w.1 := by
      cases phase with
      | wait =>
        refine ⟨?_, fun w hw => by cases hw⟩
        simp only [Console.termReadTurn, Option.some.injEq] at hnext
        subst hnext
        split <;> trivial
      | woken =>
        refine ⟨?_, fun w hw => by cases hw⟩
        simp only [Console.termReadTurn, Option.some.injEq] at hnext
        subst hnext
        exact Int.le_max_right length 0
      | copy i =>
        simp only [Console.termReadTurn] at hnext ⊢
        split at hnext
        · rename_i hcopy
          rw [if_pos hcopy]
          obtain rfl := Option.some.inj hnext
          refine ⟨?_, fun w hw => ?_⟩
          · have := hcopy.2.1
            simp only [ReadPhase.Within]
            omega
          · obtain rfl := List.mem_singleton.mp hw
            exact ⟨i, by omega, rfl⟩
        · rename_i hstop
          rw [if_neg hstop]
          obtain rfl := Option.some.inj hnext
          exact ⟨hp, fun w hw => by cases hw⟩
      | clear j count =>
        simp only [Console.termReadTurn] at hnext ⊢
        split at hnext
        · rename_i hclear
          rw [if_pos hclear]
          obtain rfl := Option.some.inj hnext
          exact ⟨hp, fun w hw => by cases hw⟩
        · cases hnext
    obtain ⟨hws, hret⟩ := ih hturn.1
    refine ⟨fun w hw => ?_, hret⟩
    obtain hw | hw := List.mem_append.mp hw
    · exact hturn.2 w hw
    · exact hws w hw

/-- `file_read` does nothing for descriptor 0. -/
theorem fileRead_zero (img : Image) (desc : FileDesc) (buf : Nat) (nbytes : Int) :
    fileRead img desc (0 : Fin 8).val buf nbytes = (⟨-1, []⟩, desc) :=
  if_neg fun h => h.1 rfl

/-! ### In the machine -/

/-- The driver behind a `read` waits in a loop of its own. -/
def Blocks (s : Kernel) (fd : Int) (buf : Nat) : Prop :=
  ∃ i, s.readDriver fd buf = some (i, .stdin) ∨ s.readDriver fd buf = some (i, .rtc)

/-- A step that is a whole `read` makes the stores of a return, and leaves its value in EAX. -/
theorem read_returns {s s' : Kernel} {fd : Int} {buf : Nat} {nbytes : Int}
    (h : s.read img fd buf nbytes = some s') (hno : ¬ Blocks s fd buf) :
    ∃ ws, InUserPage ws ∧ ReadReturns img s fd buf nbytes ws s'.eax := by
  have hnil : InUserPage [] := fun w hw => by cases hw
  cases read_exit h with
  | refused hdriver =>
    refine ⟨[], hnil, ?_⟩
    simp only [ReadReturns, hdriver]
    exact ⟨trivial, rfl⟩
  | term hdriver => exact absurd ⟨_, .inl hdriver⟩ hno
  | rtcFault hdriver => exact absurd ⟨_, .inr hdriver⟩ hno
  | rtc hdriver => exact absurd ⟨_, .inr hdriver⟩ hno
  | dir hdriver hpage =>
    refine ⟨_, hpage, ?_⟩
    simp only [ReadReturns, hdriver]
    exact ⟨trivial, rfl⟩
  | file hdriver hpage =>
    refine ⟨_, hpage, ?_⟩
    simp only [ReadReturns, hdriver]
    exact ⟨trivial, rfl⟩
  | error hdriver hdriver' =>
    refine ⟨[], hnil, ?_⟩
    obtain rfl | rfl := hdriver'
    · simp only [ReadReturns, hdriver]
      exact ⟨trivial, rfl⟩
    · simp only [ReadReturns, hdriver]
      exact ⟨trivial, rfl⟩

/-- A kernel loop in `term_read` makes a turn of `TermReads` on the console it finds: it goes on
with the next phase, or returns what the last one has counted. -/
theorem runLoop_termRead {s s' : Kernel} {sp : StackPtr} {buf : Nat} {length : Int}
    {phase : ReadPhase} (hframe : s.frameAt sp = some (.termRead buf length phase))
    (h : s.runLoop sp = some s') :
    InUserPage ((s.con.termReadTurn length phase).stores buf) ∧
      s'.con = (s.con.termReadTurn length phase).con ∧
      ((∃ next, (s.con.termReadTurn length phase).next = some next ∧
          s'.kstack = pushFrame s.kstack ⟨sp.stack, sp.depth - 1⟩ (.termRead buf length next)) ∨
        ∃ j count, phase = .clear j count ∧ (s.con.termReadTurn length phase).next = none ∧
          s'.cpu = .user ∧ s'.eax = count) := by
  cases runLoop_exit h with
  | boot hframe' => cases hframe.symm.trans hframe'
  | reads hframe' hpage hnext =>
    obtain ⟨rfl, rfl, rfl⟩ := Frame.termRead.inj (Option.some.inj (hframe.symm.trans hframe'))
    exact ⟨hpage, rfl, .inl ⟨_, hnext, rfl⟩⟩
  | readEnds hframe' hpage hnext =>
    obtain ⟨rfl, rfl, rfl⟩ := Frame.termRead.inj (Option.some.inj (hframe.symm.trans hframe'))
    exact ⟨hpage, rfl, .inr ⟨_, _, rfl, hnext, rfl, rfl⟩⟩
  | waits hframe' => cases hframe.symm.trans hframe'
  | rtcEnds hframe' => cases hframe.symm.trans hframe'

/-! ### The bound -/

/-- The stores change nothing but the first `nbytes` bytes of the buffer, and the value is -1 or
a count of such bytes. -/
structure HonoursBound (buf : Nat) (nbytes : Int) (ws : List Store) (ret : Int) : Prop where
  frame : ∀ (m : Mem) a, ¬ InBuffer buf nbytes.toNat a → storeAll m ws a = m a
  ret : ret = -1 ∨ 0 ≤ ret ∧ ret ≤ max nbytes 0

/-- A directory that is not at its end is read with room for 33 bytes, and a file with a length
that is not negative, unless it is at its end. -/
def BoundHonoured (img : Image) (s : Kernel) (fd : Int) (buf : Nat) (nbytes : Int) : Prop :=
  match s.readDriver fd buf with
  | some (_, .dir) => img.numDentries ≤ s.numFileRead ∨ 33 ≤ nbytes
  | some (i, .file) =>
    let d := (s.pcb s.getCurPcb).fds i
    i = 0 ∨ 0 ≤ nbytes ∨ img.inodeSize d.inode ≤ uint32 d.filePosition
  | _ => True

theorem honoursBound_nil {buf : Nat} {nbytes : Int} {ret : Int}
    (h : ret = -1 ∨ ret = 0) : HonoursBound buf nbytes [] ret := by
  refine ⟨fun m a _ => rfl, h.imp_right ?_⟩
  rintro rfl
  exact ⟨Int.le_refl 0, Int.le_max_right nbytes 0⟩

/-- An effect keeps to the bound exactly if its bytes and its value do. -/
theorem honoursBound_stores_iff {buf : Nat} {nbytes : Int} {r : Effect}
    (hr : r.bytes.length ≤ 2 ^ 32) :
    HonoursBound buf nbytes (r.stores buf) r.ret ↔
      r.bytes.length ≤ nbytes.toNat ∧ (r.ret = -1 ∨ 0 ≤ r.ret ∧ r.ret ≤ max nbytes 0) := by
  have hframe : (∀ (m : Mem) a, ¬ InBuffer buf nbytes.toNat a →
      storeAll m (r.stores buf) a = m a) ↔ r.bytes.length ≤ nbytes.toNat := by
    rw [storeAll_frame_iff]
    constructor
    · intro h
      by_contra hlt
      -- the first byte past the bound
      have hk : nbytes.toNat < r.bytes.length := Nat.lt_of_not_le hlt
      obtain ⟨k, hk', he⟩ := h ((buf + nbytes.toNat) % 2 ^ 32, r.bytes[nbytes.toNat])
        (List.mem_mapIdx.mpr ⟨_, hk, rfl⟩)
      simp only at he
      omega
    · intro h w hw
      obtain ⟨k, hk, rfl⟩ := List.mem_mapIdx.mp hw
      exact ⟨k, by omega, rfl⟩
  exact ⟨fun h => ⟨hframe.mp h.frame, h.ret⟩, fun h => ⟨hframe.mpr h.1, h.2⟩⟩

/-- A directory entry takes 33 bytes. -/
theorem honoursBound_dirRead_iff {n buf : Nat} {nbytes : Int} (hbuf : buf ≠ 0) :
    HonoursBound buf nbytes ((dirRead img n buf).1.stores buf) (dirRead img n buf).1.ret ↔
      img.numDentries ≤ n ∨ 33 ≤ nbytes := by
  by_cases hn : n < img.numDentries
  · have hname : (img.entryName n).length ≤ 32 := entryName_length_le img n
    have hread : (dirRead img n buf).1 = ⟨(img.entryName n).length,
        (List.range maxFilenameLength).map (cstr (img.entryName n)) ++ [0]⟩ := by
      simp only [dirRead, if_neg hbuf, if_pos hn]
    have hlen :
        ((List.range maxFilenameLength).map (cstr (img.entryName n)) ++ [0]).length = 33 := by
      simp
    rw [hread, honoursBound_stores_iff (hlen.trans_le (by decide)), hlen]
    simp only
    omega
  · have hread : (dirRead img n buf).1 = ⟨0, []⟩ := by
      simp only [dirRead, if_neg hbuf, if_neg hn]
    rw [hread]
    exact iff_of_true (honoursBound_nil (.inr rfl)) (.inl (Nat.le_of_not_lt hn))

/-- A file is copied to the end if the length is negative. -/
theorem honoursBound_readData_iff {buf : Nat} {nbytes : Int} (hlo : -2 ^ 31 ≤ nbytes)
    (hhi : nbytes < 2 ^ 31) (hbuf : buf ≠ 0) (hoff : offset < 2 ^ 32) :
    HonoursBound buf nbytes ((readData img inode offset buf (uint32 nbytes)).stores buf)
        (readData img inode offset buf (uint32 nbytes)).ret ↔
      0 ≤ nbytes ∨ img.inodeSize inode ≤ offset := by
  have hlen := readData_length_le img inode offset buf (uint32 nbytes)
  have hn : uint32 nbytes < 2 ^ 32 := by
    simp only [uint32]
    omega
  have hat := at_start img inode offset
  have hdata : readData img inode offset buf (uint32 nbytes) =
      readDataLoop img inode offset (uint32 nbytes) 0 (BlockCursor.start img inode offset) := by
    simp only [readData, if_neg hbuf]
  have hret := @readDataLoop_ret_cases img inode offset (uint32 nbytes) 0 _ _ hat rfl
  have hpos := @lt_length_readDataLoop img inode offset (uint32 nbytes) 0 0 _ hat
  rw [honoursBound_stores_iff (by omega), hdata]
  rw [hdata] at hlen
  set r := readDataLoop img inode offset (uint32 nbytes) 0 (BlockCursor.start img inode offset)
  by_cases hneg : 0 ≤ nbytes
  · refine iff_of_true ⟨by simp only [uint32] at hlen; omega, ?_⟩ (.inl hneg)
    obtain ⟨hret, -⟩ | hret := hret
    · exact .inl hret
    · refine .inr ?_
      simp only [uint32, int32] at hlen hret
      omega
  · -- a negative length is a large one as `uint32_t`, so one byte of the file is too much
    have hbyte : HasByte img inode offset 0 ↔ ¬ img.inodeSize inode ≤ offset := by
      refine ⟨fun h => ?_, fun h => ⟨?_, fun h => absurd h (by decide)⟩⟩
      · have := h.lt_size
        omega
      · omega
    have hbytes : 0 < r.bytes.length ↔ ¬ img.inodeSize inode ≤ offset := by
      rw [hpos, ← hbyte]
      constructor
      · intro h
        exact h.2 0 le_rfl
      · intro h
        refine ⟨by simp only [uint32]; omega, fun j hj => ?_⟩
        obtain rfl : j = 0 := by omega
        exact h
    constructor
    · rintro ⟨hle, -⟩
      refine .inr (not_not.mp fun hno => ?_)
      have := hbytes.mpr hno
      omega
    · rintro (h | h)
      · exact absurd h hneg
      · have hnil : r.bytes.length = 0 := by
          by_contra hne
          exact hbytes.mp (Nat.pos_of_ne_zero hne) h
        refine ⟨by omega, .inr ?_⟩
        obtain ⟨-, hpos'⟩ | hret := hret
        · omega
        · rw [hnil] at hret
          rw [hret]
          exact ⟨by decide, Int.le_max_right nbytes 0⟩

/-- **Bounded reads.** Every return of a `read` honours the bound exactly if the call is not one
that ignores it. -/
theorem readReturns_honours_iff (img : Image) (s : Kernel) (fd : Int) (buf : Nat) (nbytes : Int)
    (hlo : -2 ^ 31 ≤ nbytes) (hhi : nbytes < 2 ^ 31) :
    (∀ ws ret, ReadReturns img s fd buf nbytes ws ret → HonoursBound buf nbytes ws ret) ↔
      BoundHonoured img s fd buf nbytes := by
  cases hdriver : s.readDriver fd buf with
  | none =>
    simp only [ReadReturns, BoundHonoured, hdriver, iff_true]
    rintro _ _ ⟨rfl, rfl⟩
    exact honoursBound_nil (.inl rfl)
  | some x =>
    obtain ⟨i, optable⟩ := x
    have hbuf : buf ≠ 0 := readDriver_buf hdriver
    cases optable with
    | stdin =>
      simp only [ReadReturns, BoundHonoured, hdriver, iff_true]
      intro ws ret h
      obtain ⟨hws, h0, hle⟩ := h.bound trivial
      exact ⟨storeAll_frame_iff.mpr hws, .inr ⟨h0, hle⟩⟩
    | stdout =>
      simp only [ReadReturns, BoundHonoured, hdriver, iff_true]
      rintro _ _ ⟨rfl, rfl⟩
      exact honoursBound_nil (.inl rfl)
    | rtc =>
      simp only [ReadReturns, BoundHonoured, hdriver, iff_true]
      rintro _ _ ⟨-, rfl, rfl⟩
      exact honoursBound_nil (.inr rfl)
    | dir =>
      simp only [ReadReturns, BoundHonoured, hdriver]
      rw [← honoursBound_dirRead_iff hbuf]
      exact ⟨fun h => h _ _ ⟨rfl, rfl⟩, by rintro h _ _ ⟨rfl, rfl⟩; exact h⟩
    | file =>
      simp only [ReadReturns, BoundHonoured, hdriver]
      have hall : ∀ r : Effect, (∀ ws ret, ws = r.stores buf ∧ ret = r.ret →
          HonoursBound buf nbytes ws ret) ↔ HonoursBound buf nbytes (r.stores buf) r.ret :=
        fun r => ⟨fun h => h _ _ ⟨rfl, rfl⟩, by rintro h _ _ ⟨rfl, rfl⟩; exact h⟩
      rw [hall]
      by_cases hi : i = 0
      · subst hi
        rw [fileRead_zero]
        exact iff_of_true (honoursBound_nil (.inl rfl)) (.inl rfl)
      · have hi' : i.val ≠ 0 := fun h => hi (Fin.ext h)
        simp only [fileRead, if_pos (And.intro hi' hbuf), hi, false_or]
        refine honoursBound_readData_iff hlo hhi hbuf ?_
        simp only [uint32]
        omega
    | error =>
      simp only [ReadReturns, BoundHonoured, hdriver, iff_true]
      rintro _ _ ⟨rfl, rfl⟩
      exact honoursBound_nil (.inl rfl)

/-- A read of four bytes of a file. -/
theorem readReturns_honours_iff_sample : ∃ s, run (step sampleImage) (boot powerOn)
      [.tick noStale, .tick noStale, .tick noStale, .open shellCommand] = some s ∧
    ∀ ws ret, ReadReturns sampleImage s 2 0x8000000 4 ws ret →
      HonoursBound 0x8000000 4 ws ret := by
  have hobs : (run (step sampleImage) (boot powerOn)
      [.tick noStale, .tick noStale, .tick noStale, .open shellCommand]).map
        (fun s => s.readDriver 2 0x8000000) = some (some (2, .file)) := by decide +kernel
  obtain ⟨s, hs, hdriver⟩ := Option.map_eq_some_iff.mp hobs
  refine ⟨s, hs, (readReturns_honours_iff sampleImage s 2 0x8000000 4 (by decide)
    (by decide)).mpr ?_⟩
  rw [BoundHonoured, hdriver]
  exact .inr (.inl (by decide))

/-- A read of the same file with the length -1 returns 40, and has stored as many bytes. -/
theorem not_readReturns_honours : ¬ ∀ (img : Image) (s : Kernel) (fd : Int) (buf : Nat)
    (nbytes : Int), -2 ^ 31 ≤ nbytes → nbytes < 2 ^ 31 →
      ∀ ws ret, ReadReturns img s fd buf nbytes ws ret → HonoursBound buf nbytes ws ret := by
  intro hhonours
  have hobs : (run (step sampleImage) (boot powerOn)
      [.tick noStale, .tick noStale, .tick noStale, .open shellCommand]).map (fun s =>
        (s.readDriver 2 0x8000000,
          (fileRead sampleImage ((s.pcb s.getCurPcb).fds 2) 2 0x8000000 (-1)).1.ret)) =
      some (some (2, .file), 40) := by decide +kernel
  obtain ⟨s, -, hobs⟩ := Option.map_eq_some_iff.mp hobs
  obtain ⟨hdriver, hret⟩ := Prod.mk.inj hobs
  have hreturns : ReadReturns sampleImage s 2 0x8000000 (-1)
      ((fileRead sampleImage ((s.pcb s.getCurPcb).fds 2) 2 0x8000000 (-1)).1.stores 0x8000000)
      40 := by
    rw [ReadReturns, hdriver]
    exact ⟨rfl, hret.symm⟩
  have hbound := (hhonours sampleImage s 2 0x8000000 (-1) (by decide) (by decide) _ _ hreturns).ret
  revert hbound
  decide

end LinuxLikeKernel
