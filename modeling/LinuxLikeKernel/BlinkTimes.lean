import LinuxLikeKernel.BlinkScreen

/-!
# The times of the blinking characters

From the call that adds it, an element is on for as many ticks as its length for on and off for as
many as its length for off, in turn, whatever calls come for other locations in between.

## Main definitions

- `ticksLeft` — the ticks that a count stands for
- `InPhase` — where in its period an element is
- `AddsElsewhere`, `SparesLocation` — calls for other locations

## Main results

- `InPhase.turned` — a tick takes an element on by one in its period
- `blinks_in_time` — what is at the location after any calls for other locations
-/

namespace LinuxLikeKernel
open Transition PointerList

/-! ### Counts -/

/-- The ticks until a count comes to its end. The comparison is of signed numbers, so that a count
that stands for a negative number is at its end with the first tick. -/
def ticksLeft (countdown : UInt16) : Nat :=
  if 1 ≤ countdown ∧ countdown ≤ 0x8000 then countdown.toNat else 1

theorem toInt16_pos_iff (c : UInt16) : 0 < c.toInt16 ↔ 0 < c.toNat ∧ c.toNat < 0x8000 := by
  have hlt := c.toNat_lt
  have hint : c.toInt16.toInt = c.toBitVec.toInt := rfl
  have hnat : c.toBitVec.toNat = c.toNat := rfl
  rw [Int16.lt_iff_toInt_lt, Int16.toInt_zero, hint, BitVec.toInt_eq_toNat_cond, hnat]
  split <;> omega

theorem ticksLeft_eq (countdown : UInt16) : ticksLeft countdown =
    if 1 ≤ countdown.toNat ∧ countdown.toNat ≤ 0x8000 then countdown.toNat else 1 := by
  simp only [ticksLeft, UInt16.le_iff_toNat_le]
  rfl

theorem ticksLeft_pos (countdown : UInt16) : 0 < ticksLeft countdown := by
  rw [ticksLeft_eq]
  split <;> omega

/-- A tick. -/
theorem ticksLeft_sub_one (countdown : UInt16) :
    if 0 < (countdown - 1).toInt16 then ticksLeft countdown = ticksLeft (countdown - 1) + 1
    else ticksLeft countdown = 1 := by
  have hlt := countdown.toNat_lt
  have hsub : (countdown - 1).toNat = (2 ^ 16 - 1 + countdown.toNat) % 2 ^ 16 := UInt16.toNat_sub ..
  simp only [toInt16_pos_iff, ticksLeft_eq, hsub]
  split_ifs <;> omega

namespace Mp1BlinkStruct

def onTicks (b : Mp1BlinkStruct) : Nat := ticksLeft b.onLength

def offTicks (b : Mp1BlinkStruct) : Nat := ticksLeft b.offLength

def period (b : Mp1BlinkStruct) : Nat := b.onTicks + b.offTicks

/-- An element after a turn of the loop of `mp1_rtc_tasklet`. -/
def turned (b : Mp1BlinkStruct) : Mp1BlinkStruct :=
  if 0 < (b.countdown - 1).toInt16 then { b with countdown := b.countdown - 1 }
  else if b.status &&& 1 = 0 then
    { b with countdown := b.onLength, status := b.status ^^^ 1 }
  else { b with countdown := b.offLength, status := b.status ^^^ 1 }

/-- The character of an element's state. -/
def shownChar (b : Mp1BlinkStruct) : UInt8 := if b.status = 1 then b.onChar else b.offChar

end Mp1BlinkStruct

/-- The element has been on for the first time `k` ticks ago. -/
structure InPhase (k : Nat) (b : Mp1BlinkStruct) : Prop where
  on : k % b.period < b.onTicks →
    b.status = 1 ∧ ticksLeft b.countdown = b.onTicks - k % b.period
  off : b.onTicks ≤ k % b.period →
    b.status = 0 ∧ ticksLeft b.countdown = b.period - k % b.period

variable {f f' : Fish} {l : List Slot} {i : Slot} {b arg : Mp1BlinkStruct} {k n : Nat}
  {location : UInt16} {e : BlinkCall}

/-- An element that has just been added. -/
theorem inPhase_zero (hstatus : b.status = 1) (hcountdown : b.countdown = b.onLength) :
    InPhase 0 b := by
  have hon : 0 < b.onTicks := ticksLeft_pos _
  constructor
  · intro _
    rw [hcountdown, Nat.zero_mod]
    exact ⟨hstatus, rfl⟩
  · intro hle
    rw [Nat.zero_mod] at hle
    omega

theorem InPhase.congr {b' : Mp1BlinkStruct} (h : InPhase k b) (hon : b'.onLength = b.onLength)
    (hoff : b'.offLength = b.offLength) (hstatus : b'.status = b.status)
    (hcountdown : b'.countdown = b.countdown) : InPhase k b' := by
  have hon' : b'.onTicks = b.onTicks := congrArg ticksLeft hon
  have hperiod : b'.period = b.period := congrArg₂ (· + ·) hon' (congrArg ticksLeft hoff)
  constructor
  · rw [hon', hperiod, hstatus, hcountdown]
    exact h.on
  · rw [hon', hperiod, hstatus, hcountdown]
    exact h.off

theorem InPhase.status (h : InPhase k b) :
    b.status = if k % b.period < b.onTicks then 1 else 0 := by
  split
  · rename_i hon
    exact (h.on hon).1
  · rename_i hoff
    exact (h.off (Nat.le_of_not_lt hoff)).1

/-- The next tick, counted within a period. -/
theorem succ_mod_cases (k : Nat) {p : Nat} (hp : 0 < p) :
    k % p + 1 < p ∧ (k + 1) % p = k % p + 1 ∨ k % p + 1 = p ∧ (k + 1) % p = 0 := by
  have hlt := Nat.mod_lt k hp
  have hsucc : (k + 1) % p = (k % p + 1) % p := by rw [Nat.mod_add_mod]
  obtain hless | heq := Nat.lt_or_eq_of_le (Nat.succ_le_of_lt hlt)
  · exact .inl ⟨hless, hsucc.trans (Nat.mod_eq_of_lt hless)⟩
  · exact .inr ⟨heq, hsucc.trans ((congrArg (· % p) heq).trans (Nat.mod_self p))⟩

theorem InPhase.cases (h : InPhase k b) :
    k % b.period < b.onTicks ∧ b.status = 1 ∧
        ticksLeft b.countdown = b.onTicks - k % b.period ∨
      b.onTicks ≤ k % b.period ∧ b.status = 0 ∧
        ticksLeft b.countdown = b.period - k % b.period := by
  obtain hlt | hle := Nat.lt_or_ge (k % b.period) b.onTicks
  · exact .inl ⟨hlt, h.on hlt⟩
  · exact .inr ⟨hle, h.off hle⟩

/-- **A tick.** The count of an element is what is left of its time on or off. -/
theorem InPhase.turned (h : InPhase k b) : InPhase (k + 1) b.turned := by
  have hon : 0 < b.onTicks := ticksLeft_pos _
  have hoff : 0 < b.offTicks := ticksLeft_pos _
  have hperiod : b.period = b.onTicks + b.offTicks := rfl
  have hlt := Nat.mod_lt k (hperiod ▸ Nat.add_pos_left hon _)
  have htick := ticksLeft_sub_one b.countdown
  have hnext := succ_mod_cases k (hperiod ▸ Nat.add_pos_left hon _)
  rw [Mp1BlinkStruct.turned]
  split
  · -- the count goes down, and has not come to its end
    rename_i hpos
    rw [if_pos hpos] at htick
    have hleft := ticksLeft_pos (b.countdown - 1)
    obtain ⟨hp, hstatus, hcount⟩ | ⟨hp, hstatus, hcount⟩ := h.cases
    · have hmod : (k + 1) % b.period = k % b.period + 1 := by omega
      constructor
      · intro _
        show b.status = 1 ∧ ticksLeft (b.countdown - 1) = b.onTicks - (k + 1) % b.period
        exact ⟨hstatus, by omega⟩
      · intro hle
        have hle' : b.onTicks ≤ (k + 1) % b.period := hle
        omega
    · have hmod : (k + 1) % b.period = k % b.period + 1 := by omega
      constructor
      · intro hless
        have hless' : (k + 1) % b.period < b.onTicks := hless
        omega
      · intro _
        show b.status = 0 ∧ ticksLeft (b.countdown - 1) = b.period - (k + 1) % b.period
        exact ⟨hstatus, by omega⟩
  · rename_i hend
    rw [if_neg hend] at htick
    obtain ⟨hp, hstatus, hcount⟩ | ⟨hp, hstatus, hcount⟩ := h.cases
    · -- the element goes off
      rw [hstatus, if_neg (by decide)]
      have hmod : (k + 1) % b.period = b.onTicks := by omega
      constructor
      · intro hless
        have hless' : (k + 1) % b.period < b.onTicks := hless
        omega
      · intro _
        show (1 : UInt16) ^^^ 1 = 0 ∧ b.offTicks = b.period - (k + 1) % b.period
        exact ⟨rfl, by omega⟩
    · -- the element goes on, and a new period begins
      rw [hstatus, if_pos (by decide)]
      have hmod : (k + 1) % b.period = 0 := by omega
      constructor
      · intro _
        show (0 : UInt16) ^^^ 1 = 1 ∧ b.onTicks = b.onTicks - (k + 1) % b.period
        exact ⟨rfl, by omega⟩
      · intro hle
        have hle' : b.onTicks ≤ (k + 1) % b.period := hle
        omega

/-! ### A turn of the loop -/

theorem blinkArray_blink_self (f : Fish) (i : Slot) :
    (f.blink i).blinkArray i = (f.blinkArray i).turned := by
  rw [Fish.blink, Mp1BlinkStruct.turned]
  split
  · exact Fish.blinkArray_setBlink_self ..
  · split <;> exact Fish.blinkArray_setBlink_self ..

theorem blinkArray_blink_of_ne {j : Slot} (h : j ≠ i) (f : Fish) :
    (f.blink i).blinkArray j = f.blinkArray j := by
  rw [Fish.blink]
  split
  · exact Fish.blinkArray_setBlink_of_ne h ..
  · split <;> exact Fish.blinkArray_setBlink_of_ne h ..

/-- A turn writes at the location of its element only. -/
theorem vmem_blink_of_ne (h : (f.blinkArray i).location ≠ location) :
    (f.blink i).vmem (2 * location.toNat) = f.vmem (2 * location.toNat) := by
  rw [Fish.blink]
  split
  · rfl
  · split <;> exact Function.update_of_ne (cell_ne h.symm) ..

/-- An element that is shown as it is before a turn is shown so after it. -/
theorem vmem_blink_self (hbit : (f.blinkArray i).status = 0 ∨ (f.blinkArray i).status = 1)
    (hshown : f.vmem (2 * (f.blinkArray i).location.toNat) = (f.blinkArray i).shownChar) :
    (f.blink i).vmem (2 * (f.blinkArray i).location.toNat) =
      (f.blinkArray i).turned.shownChar := by
  rw [Fish.blink, Mp1BlinkStruct.turned]
  split
  · exact hshown
  · obtain hzero | hone := hbit
    · rw [hzero, if_pos (by decide), if_pos (by decide)]
      exact Function.update_self ..
    · rw [hone, if_neg (by decide), if_neg (by decide)]
      exact Function.update_self ..

theorem blinkArray_foldl_blink (hi : i ∉ l) (f : Fish) :
    (l.foldl (fun f i => f.blink i) f).blinkArray i = f.blinkArray i := by
  induction l generalizing f with
  | nil => rfl
  | cons j l ih =>
    rw [List.foldl_cons, ih (List.not_mem_of_not_mem_cons hi)]
    exact blinkArray_blink_of_ne (List.ne_of_not_mem_cons hi) f

theorem vmem_foldl_blink (h : ∀ j ∈ l, (f.blinkArray j).location ≠ location) :
    (l.foldl (fun f i => f.blink i) f).vmem (2 * location.toNat) = f.vmem (2 * location.toNat) := by
  induction l generalizing f with
  | nil => rfl
  | cons j l ih =>
    rw [List.foldl_cons, ih]
    · exact vmem_blink_of_ne (h j List.mem_cons_self)
    · intro j' hj'
      rw [location_of_entry ((SameList.blink j f).entry j')]
      exact h j' (List.mem_cons_of_mem _ hj')

/-! ### Calls for other locations -/

/-- What is added is not for the location, and not for the corner, which stands for a free slot. -/
def AddsElsewhere (location : UInt16) : BlinkCall → Prop
  | .add arg => arg.location ≠ 0 ∧ arg.location ≠ location
  | _ => True

/-- The call is not for the location. -/
def SparesLocation (location : UInt16) : BlinkCall → Prop
  | .remove arg => arg.toUInt16 ≠ location
  | .sync arg => arg.toUInt16 ≠ location
  | e => AddsElsewhere location e

def BlinkCall.isAdd : BlinkCall → Bool
  | .add _ => true
  | _ => false

/-- No element is at the location, or in the corner. -/
structure Elsewhere (location : UInt16) (f : Fish) (l : List Slot) : Prop extends Listed f l where
  apart : ∀ j ∈ l, (f.blinkArray j).location ≠ 0 ∧ (f.blinkArray j).location ≠ location

theorem elsewhere_start (location : UInt16) (vmem : Nat → UInt8) :
    Elsewhere location (Fish.start vmem) [] where
  toListed := (recorded_start vmem).toListed
  apart _ h := nomatch h

theorem Elsewhere.sameList (h : Elsewhere location f l) (hsame : SameList f f') :
    Elsewhere location f' l where
  toListed := hsame.listed h.toListed
  apart j hj := by
    rw [location_of_entry (hsame.entry j)]
    exact h.apart j hj

/-- A slot that is allocated is not in the list, as no location there is zero. -/
theorem not_mem_of_malloc (h : ∀ j ∈ l, (f.blinkArray j).location ≠ 0)
    (hmalloc : f.mp1Malloc = some i) : i ∉ l :=
  fun hi => h i hi (Fish.mp1Malloc_eq_some_iff.mp hmalloc).1

theorem Elsewhere.added (h : Elsewhere location f l) (hi : i ∉ l) (h0 : arg.location ≠ 0)
    (hne : arg.location ≠ location) : Elsewhere location (f.added i arg) (i :: l) where
  toListed := h.toListed.added hi arg
  apart j hj := by
    obtain rfl | hj := List.mem_cons.mp hj
    · rw [Fish.blinkArray_added_self]
      exact ⟨h0, hne⟩
    · rw [Fish.blinkArray_added_of_ne (ne_of_mem_of_not_mem hj hi)]
      exact h.apart j hj

theorem vmem_removed (f : Fish) (place : Option Slot) (i : Slot) :
    (f.removed place i).vmem = f.vmem := by
  cases place <;> rfl

/-- The other elements, when one of the list is taken out. -/
theorem mem_of_removed {l₁ l₂ : List Slot} {j : Slot} (h : Listed f (l₁ ++ i :: l₂))
    (hj : j ∈ l₁ ++ l₂) : j ∈ l₁ ++ i :: l₂ ∧ j ≠ i := by
  have hi : i ∉ l₁ ++ l₂ := (List.nodup_middle.mp h.links.nodup).notMem
  have hsub := ((List.Sublist.refl l₁).append (List.sublist_cons_self i l₂)).subset
  exact ⟨hsub hj, ne_of_mem_of_not_mem hj hi⟩

theorem Elsewhere.removed {l₁ l₂ : List Slot} (h : Elsewhere location f (l₁ ++ i :: l₂)) :
    Elsewhere location (f.removed l₁.getLast? i) (l₁ ++ l₂) where
  toListed := h.toListed.removed
  apart j hj := by
    obtain ⟨hmem, hji⟩ := mem_of_removed h.toListed hj
    obtain ⟨q, hq⟩ := f.blinkArray_removed hji l₁.getLast?
    rw [hq]
    exact h.apart j hmem

/-- A call leaves the location alone while no element is there. -/
theorem Elsewhere.step (h : Elsewhere location f l) (he : AddsElsewhere location e)
    (hstep : blinkStep f e = some f') :
    f'.vmem (2 * location.toNat) = f.vmem (2 * location.toNat) ∧
      ∃ l', Elsewhere location f' l' ∧ l'.length ≤ l.length + e.isAdd.toNat := by
  cases h.outcome hstep with
  | rejected arg heq => exact ⟨rfl, l, h, Nat.le_add_right ..⟩
  | added arg i hlocation hmalloc heq =>
    have hi := not_mem_of_malloc (fun j hj => (h.apart j hj).1) hmalloc
    have hcell := cell_ne he.2.symm
    exact ⟨Function.update_of_ne hcell .., i :: l, h.added hi he.1 he.2, Nat.le_refl _⟩
  | notRemoved arg hnone => exact ⟨rfl, l, h, Nat.le_add_right ..⟩
  | removed arg l₁ l₂ i hl hi hbefore =>
    subst hl
    refine ⟨congrFun (vmem_removed ..) _, l₁ ++ l₂, h.removed, ?_⟩
    simp only [List.length_append, List.length_cons]
    omega
  | notSynced arg hnone => exact ⟨rfl, l, h, Nat.le_add_right ..⟩
  | synced arg i j hi hj hesi hedi =>
    refine ⟨Function.update_of_ne (cell_ne ?_) .., l, h.sameList (.synced f i j),
      Nat.le_add_right ..⟩
    exact (h.apart j hj).2.symm
  | found location' => exact ⟨rfl, l, h, Nat.le_add_right ..⟩
  | blinked =>
    exact ⟨vmem_foldl_blink fun j hj => (h.apart j hj).2, l, h.sameList (.foldl_blink l f),
      Nat.le_add_right ..⟩

/-- Any calls. -/
theorem Elsewhere.run_exists (h : Elsewhere location f l) (calls : List BlinkCall)
    (hcalls : ∀ e ∈ calls, AddsElsewhere location e) :
    ∃ f' l', run blinkStep f calls = some f' ∧ Elsewhere location f' l' ∧
      f'.vmem (2 * location.toNat) = f.vmem (2 * location.toNat) ∧
      l'.length ≤ l.length + calls.countP BlinkCall.isAdd := by
  induction calls generalizing f l with
  | nil => exact ⟨f, l, rfl, h, rfl, Nat.le_refl _⟩
  | cons e calls ih =>
    obtain ⟨f₁, hf₁, -⟩ := h.exists_outcome e
    obtain ⟨hcell, l₁, h₁, hlen⟩ := h.step (hcalls e List.mem_cons_self) hf₁
    obtain ⟨f', l', hrun, h', hcell', hlen'⟩ :=
      ih h₁ fun e' he' => hcalls e' (List.mem_cons_of_mem _ he')
    refine ⟨f', l', (run_cons hf₁).trans hrun, h', hcell'.trans hcell, ?_⟩
    rw [List.countP_cons]
    cases hadd : e.isAdd <;> simp only [hadd, Bool.toNat_false, Bool.toNat_true] at hlen <;>
      simp <;> omega

/-! ### An element -/

/-- The slot is in the list for `arg`, which was added `k` ticks ago, and is shown as it is. -/
structure Blinks (arg : Mp1BlinkStruct) (k : Nat) (i : Slot) (f : Fish) (l : List Slot) : Prop
    extends Listed f l where
  mem : i ∈ l
  nonzero : ∀ j ∈ l, (f.blinkArray j).location ≠ 0
  own : ∀ j ∈ l, j ≠ i → (f.blinkArray j).location ≠ arg.location
  entry : (f.blinkArray i).entry = arg.entry
  onLength : (f.blinkArray i).onLength = arg.onLength
  offLength : (f.blinkArray i).offLength = arg.offLength
  phase : InPhase k (f.blinkArray i)
  shown : f.vmem (2 * arg.location.toNat) = (f.blinkArray i).shownChar

theorem Blinks.location_eq (h : Blinks arg k i f l) : (f.blinkArray i).location = arg.location :=
  location_of_entry h.entry

/-- An element that is added. -/
theorem Elsewhere.blinks (h : Elsewhere arg.location f l) (hi : i ∉ l) (h0 : arg.location ≠ 0) :
    Blinks arg 0 i (f.added i arg) (i :: l) := by
  have hself := Fish.blinkArray_added_self f i arg
  have hother : ∀ j ∈ l, (f.added i arg).blinkArray j = f.blinkArray j := fun j hj =>
    Fish.blinkArray_added_of_ne (ne_of_mem_of_not_mem hj hi) f arg
  refine ⟨h.toListed.added hi arg, List.mem_cons_self, fun j hj => ?_, fun j hj hji => ?_, ?_, ?_,
    ?_, ?_, ?_⟩
  · obtain rfl | hj := List.mem_cons.mp hj
    · rwa [hself]
    · rw [hother j hj]
      exact (h.apart j hj).1
  · have hj := (List.mem_cons.mp hj).resolve_left hji
    rw [hother j hj]
    exact (h.apart j hj).2
  · rw [hself]
    rfl
  · rw [hself]
  · rw [hself]
  · rw [hself]
    exact inPhase_zero rfl rfl
  · rw [hself]
    exact Function.update_self ..

/-- The slot is as it was but for its pointer, and so is the character at the location. -/
theorem Blinks.keep {l' : List Slot} (h : Blinks arg k i f l) (hlist : Listed f' l') (hmem : i ∈ l')
    (hothers : ∀ j ∈ l', j ≠ i →
      (f'.blinkArray j).location ≠ 0 ∧ (f'.blinkArray j).location ≠ arg.location)
    (hslot : ∃ q, f'.blinkArray i = { f.blinkArray i with next := q })
    (hcell : f'.vmem (2 * arg.location.toNat) = f.vmem (2 * arg.location.toNat)) :
    Blinks arg k i f' l' := by
  obtain ⟨q, hq⟩ := hslot
  refine ⟨hlist, hmem, fun j hj => ?_, fun j hj hji => (hothers j hj hji).2, ?_, ?_, ?_, ?_, ?_⟩
  · by_cases hji : j = i
    · subst hji
      rw [hq]
      exact h.nonzero j h.mem
    · exact (hothers j hj hji).1
  · rw [hq]
    exact h.entry
  · rw [hq]
    exact h.onLength
  · rw [hq]
    exact h.offLength
  · rw [hq]
    exact h.phase.congr rfl rfl rfl rfl
  · rw [hq, hcell]
    exact h.shown

theorem Blinks.apart {j : Slot} (h : Blinks arg k i f l) (hj : j ∈ l) (hji : j ≠ i) :
    (f.blinkArray j).location ≠ 0 ∧ (f.blinkArray j).location ≠ arg.location :=
  ⟨h.nonzero j hj, h.own j hj hji⟩

theorem InPhase.bit (h : InPhase k b) : b.status = 0 ∨ b.status = 1 := by
  obtain ⟨-, hone, -⟩ | ⟨-, hzero, -⟩ := h.cases
  · exact .inr hone
  · exact .inl hzero

/-- A tick turns each element of the list once. -/
theorem Blinks.tasklet (h : Blinks arg k i f l) :
    Blinks arg (k + 1) i (l.foldl (fun f i => f.blink i) f) l := by
  have hsame := SameList.foldl_blink l f
  have hlocation : ∀ j, ((l.foldl (fun f i => f.blink i) f).blinkArray j).location =
      (f.blinkArray j).location := fun j => location_of_entry (hsame.entry j)
  obtain ⟨l₁, l₂, hl⟩ := List.append_of_mem h.mem
  have hnodup := h.links.nodup
  rw [hl] at hnodup
  have hi : i ∉ l₁ ++ l₂ := (List.nodup_middle.mp hnodup).notMem
  have hi₁ : i ∉ l₁ := fun hmem => hi (List.mem_append_left _ hmem)
  have hi₂ : i ∉ l₂ := fun hmem => hi (List.mem_append_right _ hmem)
  have hown₁ : ∀ j ∈ l₁, (f.blinkArray j).location ≠ arg.location := fun j hj =>
    h.own j (hl ▸ List.mem_append_left _ hj) (ne_of_mem_of_not_mem hj hi₁)
  -- the turns before the element's own and those after it do not touch it
  have hbefore := vmem_foldl_blink hown₁
  have hslot₁ := blinkArray_foldl_blink hi₁ f
  have hsame₁ := SameList.foldl_blink l₁ f
  have hfold : l.foldl (fun f i => f.blink i) f =
      l₂.foldl (fun f i => f.blink i) ((l₁.foldl (fun f i => f.blink i) f).blink i) := by
    rw [hl, List.foldl_append, List.foldl_cons]
  generalize l₁.foldl (fun f i => f.blink i) f = f₁ at *
  have hown₂ : ∀ j ∈ l₂, ((f₁.blink i).blinkArray j).location ≠ arg.location := by
    intro j hj
    have hsame₂ := hsame₁.trans (SameList.blink i f₁)
    rw [location_of_entry (hsame₂.entry j)]
    apply h.own j
    · rw [hl]
      exact List.mem_append_right _ (List.mem_cons_of_mem _ hj)
    · exact ne_of_mem_of_not_mem hj hi₂
  have hslot : (l.foldl (fun f i => f.blink i) f).blinkArray i = (f.blinkArray i).turned := by
    rw [hfold, blinkArray_foldl_blink hi₂, blinkArray_blink_self, hslot₁]
  have hcell : (l.foldl (fun f i => f.blink i) f).vmem (2 * arg.location.toNat) =
      (f.blinkArray i).turned.shownChar := by
    have hat := vmem_blink_self (f := f₁) (i := i) (by rw [hslot₁]; exact h.phase.bit)
      (by rw [hslot₁, h.location_eq, hbefore]; exact h.shown)
    rw [hslot₁, h.location_eq] at hat
    rw [hfold, vmem_foldl_blink hown₂, hat]
  have hturned : (f.blinkArray i).turned.entry = arg.entry ∧
      (f.blinkArray i).turned.onLength = arg.onLength ∧
      (f.blinkArray i).turned.offLength = arg.offLength := by
    rw [← h.entry, ← h.onLength, ← h.offLength, Mp1BlinkStruct.turned]
    split
    · exact ⟨rfl, rfl, rfl⟩
    · split <;> exact ⟨rfl, rfl, rfl⟩
  refine ⟨hsame.listed h.toListed, h.mem, fun j hj => ?_, fun j hj hji => ?_, ?_, ?_, ?_, ?_, ?_⟩
  · rw [hlocation]
    exact h.nonzero j hj
  · rw [hlocation]
    exact h.own j hj hji
  · rw [hslot, hturned.1]
  · rw [hslot, hturned.2.1]
  · rw [hslot, hturned.2.2]
  · rw [hslot]
    exact h.phase.turned
  · rw [hslot, hcell]

/-- The ticks among some calls. -/
def tickCount (calls : List BlinkCall) : Nat := calls.count .tasklet

/-- A call for another location, or a tick. -/
theorem Blinks.step (h : Blinks arg k i f l) (he : SparesLocation arg.location e)
    (hstep : blinkStep f e = some f') : ∃ l', Blinks arg (k + tickCount [e]) i f' l' := by
  cases h.outcome hstep with
  | rejected arg' heq => exact ⟨l, h⟩
  | added arg' j hlocation hmalloc heq =>
    have hj := not_mem_of_malloc h.nonzero hmalloc
    have hji : i ≠ j := ne_of_mem_of_not_mem h.mem hj
    refine ⟨j :: l, h.keep (h.toListed.added hj arg') (List.mem_cons_of_mem _ h.mem) ?_ ?_ ?_⟩
    · intro j' hj' hji'
      obtain rfl | hj' := List.mem_cons.mp hj'
      · rw [Fish.blinkArray_added_self]
        exact he
      · rw [Fish.blinkArray_added_of_ne (ne_of_mem_of_not_mem hj' hj)]
        exact h.apart hj' hji'
    · exact ⟨_, Fish.blinkArray_added_of_ne hji f arg'⟩
    · exact Function.update_of_ne (cell_ne he.2.symm) ..
  | notRemoved arg' hnone => exact ⟨l, h⟩
  | removed arg' l₁ l₂ j hl hj hbefore =>
    subst hl
    have hji : i ≠ j := by
      rintro rfl
      exact he (hj.symm.trans h.location_eq)
    refine ⟨l₁ ++ l₂, h.keep h.toListed.removed ?_ ?_ ?_ (congrFun (vmem_removed ..) _)⟩
    · simpa [hji] using h.mem
    · intro j' hj' hji'
      obtain ⟨hmem, hne⟩ := mem_of_removed h.toListed hj'
      obtain ⟨q, hq⟩ := f.blinkArray_removed hne l₁.getLast?
      rw [hq]
      exact h.apart hmem hji'
    · exact f.blinkArray_removed hji l₁.getLast?
  | notSynced arg' hnone => exact ⟨l, h⟩
  | synced arg' i' j hi' hj hesi hedi =>
    have hne : (f.blinkArray j).location ≠ arg.location := fun heq => he (hedi.symm.trans heq)
    have hji : i ≠ j := by
      rintro rfl
      exact hne h.location_eq
    have hsame := SameList.synced f i' j
    refine ⟨l, h.keep (hsame.listed h.toListed) h.mem ?_ ?_ ?_⟩
    · intro j' hj' hji'
      rw [location_of_entry (hsame.entry j')]
      exact h.apart hj' hji'
    · exact ⟨_, Fish.blinkArray_setBlink_of_ne hji f _⟩
    · exact Function.update_of_ne (cell_ne hne.symm) ..
  | found location' => exact ⟨l, h⟩
  | blinked => exact ⟨l, h.tasklet⟩

theorem Blinks.run_exists (h : Blinks arg k i f l) (calls : List BlinkCall)
    (hcalls : ∀ e ∈ calls, SparesLocation arg.location e) :
    ∃ f' l', run blinkStep f calls = some f' ∧ Blinks arg (k + tickCount calls) i f' l' := by
  induction calls generalizing f l k with
  | nil => exact ⟨f, l, rfl, h⟩
  | cons e calls ih =>
    obtain ⟨f₁, hf₁, -⟩ := h.exists_outcome e
    obtain ⟨l₁, h₁⟩ := h.step (hcalls e List.mem_cons_self) hf₁
    obtain ⟨f', l', hrun, h'⟩ := ih h₁ fun e' he' => hcalls e' (List.mem_cons_of_mem _ he')
    have hcount : tickCount (e :: calls) = tickCount [e] + tickCount calls := by
      rw [← List.singleton_append]
      exact List.count_append
    rw [hcount, ← Nat.add_assoc]
    exact ⟨f', l', (run_cons hf₁).trans hrun, h'⟩

/-- What is at the location of an element. -/
theorem Blinks.char_eq (h : Blinks arg k i f l) : f.vmem (2 * arg.location.toNat) =
    if k % arg.period < arg.onTicks then arg.onChar else arg.offChar := by
  have hon : (f.blinkArray i).onTicks = arg.onTicks := congrArg ticksLeft h.onLength
  have hperiod : (f.blinkArray i).period = arg.period :=
    congrArg₂ (· + ·) hon (congrArg ticksLeft h.offLength)
  have hstatus := h.phase.status
  rw [hon, hperiod] at hstatus
  have hentry := h.entry
  simp only [Mp1BlinkStruct.entry, Prod.mk.injEq] at hentry
  obtain ⟨-, honChar, hoffChar⟩ := hentry
  rw [h.shown, Mp1BlinkStruct.shownChar, hstatus, honChar, hoffChar]
  split <;> rfl

/-- There is room for one more element. -/
theorem Listed.malloc_isSome (h : Listed f l) (hroom : l.length < 80 * 25) :
    ∃ i, f.mp1Malloc = some i := by
  have hfree : ∃ i, i ∉ l := by
    by_contra hall
    push Not at hall
    have hsub : List.finRange (80 * 25) ⊆ l := fun i _ => hall i
    have hle := ((List.nodup_finRange (80 * 25)).subperm hsub).length_le
    rw [List.length_finRange] at hle
    omega
  obtain ⟨i, hi⟩ := hfree
  exact Fish.exists_mp1Malloc (h.free i hi)

theorem Elsewhere.blinks_run (h : Elsewhere arg.location f l) (hroom : l.length < 80 * 25)
    (h0 : arg.location ≠ 0) (hlt : arg.location < 80 * 25) (calls : List BlinkCall)
    (hcalls : ∀ e ∈ calls, SparesLocation arg.location e) :
    ∃ f', run blinkStep f (.add arg :: calls) = some f' ∧ f'.vmem (2 * arg.location.toNat) =
      if tickCount calls % arg.period < arg.onTicks then arg.onChar else arg.offChar := by
  obtain ⟨i, hmalloc⟩ := h.malloc_isSome hroom
  have hi := not_mem_of_malloc (fun j hj => (h.apart j hj).1) hmalloc
  obtain ⟨f', l', hrun, h'⟩ := (h.blinks hi h0).run_exists calls hcalls
  have hadd : blinkStep f (.add arg) = some (f.added i arg) := by
    rw [blinkStep, Fish.call, Fish.mp1IoctlAdd_eq hlt hmalloc]
    rfl
  rw [Nat.zero_add] at h'
  exact ⟨f', (run_cons hadd).trans hrun, h'.char_eq⟩

/-- **Blinking in time.** An element is added at a free location on the screen, after any calls that
have added nothing there and less than the array holds, and any calls for other locations follow.
Then all loops end, and with the ticks since then counted in periods of its two lengths, its
character for on is on the screen in the first part of a period and the one for off in the rest. -/
theorem blinks_in_time (vmem : Nat → UInt8) {arg : Mp1BlinkStruct} (before after : List BlinkCall)
    (h0 : arg.location ≠ 0) (hlt : arg.location < 80 * 25)
    (hbefore : ∀ e ∈ before, AddsElsewhere arg.location e)
    (hroom : before.countP BlinkCall.isAdd < 80 * 25)
    (hafter : ∀ e ∈ after, SparesLocation arg.location e) :
    ∃ f, run blinkStep (Fish.start vmem) (before ++ .add arg :: after) = some f ∧
      f.vmem (2 * arg.location.toNat) =
        if after.count .tasklet % (ticksLeft arg.onLength + ticksLeft arg.offLength) <
          ticksLeft arg.onLength then arg.onChar else arg.offChar := by
  obtain ⟨f₁, l₁, hrun₁, h₁, -, hlen⟩ :=
    (elsewhere_start arg.location vmem).run_exists before hbefore
  rw [List.length_nil, Nat.zero_add] at hlen
  obtain ⟨f, hrun, hchar⟩ := h₁.blinks_run (hlen.trans_lt hroom) h0 hlt after hafter
  refine ⟨f, ?_, hchar⟩
  rw [run_append, hrun₁]
  exact hrun

/-- An element that is on for 7 ticks and off for 6, with another one beside it: 20 ticks on it is
off for the second time. -/
theorem blinks_in_time_sample : ∃ f, run blinkStep (Fish.start fun _ => 0)
    ([.add secondBlink] ++ .add firstBlink :: List.replicate 20 .tasklet) = some f ∧
      f.vmem 2 = 77 := by
  obtain ⟨f, hrun, hchar⟩ := @blinks_in_time (fun _ => 0) firstBlink [.add secondBlink]
    (List.replicate 20 .tasklet) (by decide) (by decide)
    (by simp only [List.forall_mem_singleton]; exact ⟨by decide, by decide⟩)
    (by decide) (fun e he => by rw [List.eq_of_mem_replicate he]; trivial)
  exact ⟨f, hrun, hchar⟩

end LinuxLikeKernel
