import LinuxLikeKernel.Blink
import Mathlib.Data.Fintype.Card

/-!
# The list of blinking characters

An element is put in front of the list when it is added and taken out when it is removed; the list
should be the elements that have been added and not removed. The two sides of the program do not
agree on which slots are in use, though: `mp1_malloc` takes a slot whose location is zero to be
free, and `mp1_ioctl_add` takes zero for a location.

## Main definitions

- `ListRight` — the list ends and holds what has been added and not removed
- `KeepsListed` — a call of `mp1_ioctl_add` leaves the slots of the list alone
- `FreshSlot` — what is in the list with location zero has a free slot before it

## Main results

- `Listed.added`, `Listed.removed`, `SameList.listed` — what the calls do to the list
- `listRight_iff` — when the list is right all along a sequence of calls
-/

namespace LinuxLikeKernel
open Transition PointerList

/-- What an element has been added with, without the lengths, which `mp1_ioctl_sync` changes. -/
def Mp1BlinkStruct.entry (b : Mp1BlinkStruct) : UInt16 × UInt8 × UInt8 :=
  (b.location, b.onChar, b.offChar)

/-- The elements that have been added and not removed, after one more call. -/
def blinkRecord (f : Fish) (e : BlinkCall) (_ : Fish) (entries : List (UInt16 × UInt8 × UInt8)) :
    List (UInt16 × UInt8 × UInt8) :=
  match e with
  | .add arg => if (f.mp1IoctlAdd arg).2 = 0 then arg.entry :: entries else entries
  | .remove arg => entries.eraseP fun b => b.1 = arg.toUInt16
  | _ => entries

abbrev LoggedFish := Fish × List (UInt16 × UInt8 × UInt8)

def blinkLoggedStep : LoggedFish → BlinkCall → Option LoggedFish := logged blinkStep blinkRecord

/-! ### What should hold -/

/-- The list ends, its slots are distinct, and hold what has been added and not removed. -/
def ListRight (x : LoggedFish) : Prop :=
  ∃ l, Links x.1.next x.1.mp1ListHead l ∧ l.Nodup ∧
    l.map (fun i => (x.1.blinkArray i).entry) = x.2

/-- The loops of all calls end. -/
def CallsEnd (x : LoggedFish) : Prop := ∀ e, (x.1.call e).isSome

/-- A slot of the list is not overwritten. -/
def KeepsListed (x : LoggedFish) : BlinkCall → Prop
  | .add arg => ∀ i, Reaches x.1.next x.1.mp1ListHead i →
      (x.1.mp1IoctlAdd arg).1.blinkArray i = x.1.blinkArray i
  | _ => True

/-- When an element is added, each element of the list that has location zero has a slot before it
that has location zero as well and is not in the list. -/
def FreshSlot (x : LoggedFish) : BlinkCall → Prop
  | .add arg => arg.location < 80 * 25 →
      ∀ i, Reaches x.1.next x.1.mp1ListHead i → (x.1.blinkArray i).location = 0 →
        ∃ j < i, (x.1.blinkArray j).location = 0 ∧ ¬ Reaches x.1.next x.1.mp1ListHead j
  | _ => True

/-! ### Slots -/

variable {f f' : Fish} {l l₁ l₂ : List Slot} {i : Slot}

@[simp] theorem Fish.blinkArray_setBlink_self (f : Fish) (i : Slot) (b : Mp1BlinkStruct) :
    (f.setBlink i b).blinkArray i = b := Function.update_self ..

theorem Fish.blinkArray_setBlink_of_ne {j : Slot} (h : j ≠ i) (f : Fish) (b : Mp1BlinkStruct) :
    (f.setBlink i b).blinkArray j = f.blinkArray j := Function.update_of_ne h ..

@[simp] theorem Fish.next_setBlink (f : Fish) (i : Slot) (b : Mp1BlinkStruct) :
    (f.setBlink i b).next = Function.update f.next i b.next := by
  funext j
  by_cases hj : j = i
  · subst hj
    simp [next]
  · simp [next, blinkArray_setBlink_of_ne hj, Function.update_of_ne hj]

@[simp] theorem Fish.next_mp1Poke (f : Fish) (cl : UInt8) (eax : Nat) :
    (f.mp1Poke cl eax).next = f.next := rfl

theorem Fish.next_storePointer (f : Fish) (place p : Option Slot) :
    (f.storePointer place p).next = (store f.next f.mp1ListHead place p).1 := by
  cases place with
  | none => rfl
  | some j => exact f.next_setBlink j _

theorem Fish.head_storePointer (f : Fish) (place p : Option Slot) :
    (f.storePointer place p).mp1ListHead = (store f.next f.mp1ListHead place p).2 := by
  cases place <;> rfl

/-- Storing a pointer changes no more of a slot than its own pointer. -/
theorem Fish.blinkArray_storePointer (f : Fish) (place p : Option Slot) (j : Slot) :
    ∃ q, (f.storePointer place p).blinkArray j = { f.blinkArray j with next := q } := by
  cases place with
  | none => exact ⟨_, rfl⟩
  | some k =>
    by_cases hj : j = k
    · subst hj
      exact ⟨p, f.blinkArray_setBlink_self j _⟩
    · exact ⟨_, f.blinkArray_setBlink_of_ne hj _⟩

/-- It is the first slot with location zero that is allocated. -/
theorem Fish.mp1Malloc_eq_some_iff : f.mp1Malloc = some i ↔
    (f.blinkArray i).location = 0 ∧ ∀ j < i, (f.blinkArray j).location ≠ 0 := by
  rw [mp1Malloc, List.find?_eq_some_iff_getElem]
  simp only [List.getElem_finRange, List.length_finRange, decide_eq_true_eq, Bool.not_eq_true',
    decide_eq_false_iff_not]
  constructor
  · rintro ⟨hi, k, hk, rfl, hbefore⟩
    exact ⟨hi, fun j hj => hbefore j hj⟩
  · rintro ⟨hi, hbefore⟩
    exact ⟨hi, i, i.isLt, rfl, fun j hj => hbefore ⟨j, hj.trans i.isLt⟩ hj⟩

theorem Fish.exists_mp1Malloc (h : (f.blinkArray i).location = 0) : ∃ k, f.mp1Malloc = some k := by
  refine Option.isSome_iff_exists.mp ?_
  rw [mp1Malloc, List.find?_isSome]
  exact ⟨i, List.mem_finRange i, decide_eq_true h⟩

/-! ### The list -/

/-- The slots of the list, the others being free. -/
structure Listed (f : Fish) (l : List Slot) : Prop where
  links : Links f.next f.mp1ListHead l
  free : ∀ i ∉ l, (f.blinkArray i).location = 0

theorem Listed.length_lt (h : Listed f l) : l.length < loopTurns := by
  have hcard := List.Nodup.length_le_card h.links.nodup
  rw [Fintype.card_fin] at hcard
  exact Nat.lt_succ_of_le hcard

theorem Listed.mp1FindHelper (h : Listed f l) (location : UInt16) : f.mp1FindHelper location =
    some (l.find? fun i => (f.blinkArray i).location = location) :=
  h.links.search _ h.length_lt

/-- The list and what is in its slots are as before, but for lengths, counts and states. -/
structure SameList (f f' : Fish) : Prop where
  head : f'.mp1ListHead = f.mp1ListHead
  next : f'.next = f.next
  entry : ∀ i, (f'.blinkArray i).entry = (f.blinkArray i).entry

theorem SameList.refl (f : Fish) : SameList f f := ⟨rfl, rfl, fun _ => rfl⟩

theorem SameList.trans {g : Fish} (h : SameList f f') (h' : SameList f' g) : SameList f g :=
  ⟨h'.head.trans h.head, h'.next.trans h.next, fun i => (h'.entry i).trans (h.entry i)⟩

theorem SameList.poke (h : SameList f f') (cl : UInt8) (eax : Nat) :
    SameList f (f'.mp1Poke cl eax) := ⟨h.head, h.next, h.entry⟩

theorem SameList.setBlink {b : Mp1BlinkStruct} (hnext : b.next = (f.blinkArray i).next)
    (hentry : b.entry = (f.blinkArray i).entry) : SameList f (f.setBlink i b) := by
  refine ⟨rfl, ?_, fun j => ?_⟩
  · rw [Fish.next_setBlink, hnext]
    exact Function.update_eq_self ..
  · by_cases hj : j = i
    · subst hj
      rw [Fish.blinkArray_setBlink_self, hentry]
    · rw [Fish.blinkArray_setBlink_of_ne hj]

theorem location_of_entry {b b' : Mp1BlinkStruct} (h : b'.entry = b.entry) :
    b'.location = b.location := congrArg Prod.fst h

theorem SameList.listed (hsame : SameList f f') (h : Listed f l) : Listed f' l := by
  refine ⟨?_, fun i hi => ?_⟩
  · rw [hsame.head, hsame.next]
    exact h.links
  · rw [location_of_entry (hsame.entry i)]
    exact h.free i hi

theorem SameList.blink (i : Slot) (f : Fish) : SameList f (f.blink i) := by
  rw [Fish.blink]
  split
  · exact .setBlink rfl rfl
  · split
    · exact (SameList.refl f |>.poke _ _).trans (.setBlink rfl rfl)
    · exact (SameList.refl f |>.poke _ _).trans (.setBlink rfl rfl)

theorem SameList.foldl_blink (l : List Slot) (f : Fish) :
    SameList f (l.foldl (fun f i => f.blink i) f) := by
  induction l generalizing f with
  | nil => exact .refl f
  | cons i l ih => exact (SameList.blink i f).trans (ih _)

/-- `mp1_rtc_tasklet` goes through the list once. -/
theorem Listed.mp1RtcTasklet (h : Listed f l) :
    f.mp1RtcTasklet = some (l.foldl (fun f i => f.blink i) f) :=
  h.links.forEach (fun i s => (SameList.blink i s).next) h.length_lt

/-! ### Adding and removing -/

/-- The program after `mp1_ioctl_add` with the slot that it has got. -/
def Fish.added (f : Fish) (i : Slot) (arg : Mp1BlinkStruct) : Fish where
  blinkArray := Function.update f.blinkArray i
    { arg with status := 1, countdown := arg.onLength, next := f.mp1ListHead }
  mp1ListHead := some i
  vmem := Function.update f.vmem (2 * arg.location.toNat) arg.onChar

/-- The program after `mp1_ioctl_remove` of a slot, with what has pointed to it. -/
def Fish.removed (f : Fish) (place : Option Slot) (i : Slot) : Fish :=
  (f.storePointer place (f.next i)).mp1Free i

theorem Fish.mp1IoctlAdd_cases (f : Fish) (arg : Mp1BlinkStruct) :
    f.mp1IoctlAdd arg = (f, -1) ∨ arg.location < 80 * 25 ∧ ∃ i, f.mp1Malloc = some i ∧
      f.mp1IoctlAdd arg = (f.added i arg, 0) := by
  rw [mp1IoctlAdd]
  split
  · exact .inl rfl
  · rename_i hlocation
    cases f.mp1Malloc with
    | none => exact .inl rfl
    | some i => exact .inr ⟨UInt16.not_le.mp hlocation, i, rfl, rfl⟩

theorem Fish.mp1IoctlAdd_eq {arg : Mp1BlinkStruct} (hlocation : arg.location < 80 * 25)
    (hmalloc : f.mp1Malloc = some i) : f.mp1IoctlAdd arg = (f.added i arg, 0) := by
  rw [mp1IoctlAdd, if_neg (UInt16.not_le.mpr hlocation), hmalloc]
  rfl

theorem Fish.next_added (f : Fish) (i : Slot) (arg : Mp1BlinkStruct) :
    (f.added i arg).next = Function.update f.next i f.mp1ListHead := f.next_setBlink i _

theorem Fish.blinkArray_added_self (f : Fish) (i : Slot) (arg : Mp1BlinkStruct) :
    (f.added i arg).blinkArray i =
      { arg with status := 1, countdown := arg.onLength, next := f.mp1ListHead } :=
  Function.update_self ..

theorem Fish.blinkArray_added_of_ne {j : Slot} (h : j ≠ i) (f : Fish) (arg : Mp1BlinkStruct) :
    (f.added i arg).blinkArray j = f.blinkArray j := Function.update_of_ne h ..

theorem Listed.added (h : Listed f l) (hi : i ∉ l) (arg : Mp1BlinkStruct) :
    Listed (f.added i arg) (i :: l) := by
  refine ⟨?_, fun j hj => ?_⟩
  · rw [Fish.next_added]
    exact h.links.push hi
  · rw [Fish.blinkArray_added_of_ne (List.ne_of_not_mem_cons hj)]
    exact h.free j (List.not_mem_of_not_mem_cons hj)

/-- A slot other than the one that is removed keeps all but its pointer. -/
theorem Fish.blinkArray_removed {j : Slot} (hj : j ≠ i) (f : Fish) (place : Option Slot) :
    ∃ q, (f.removed place i).blinkArray j = { f.blinkArray j with next := q } := by
  obtain ⟨q, hq⟩ := f.blinkArray_storePointer place (f.next i) j
  exact ⟨q, (blinkArray_setBlink_of_ne hj _ _).trans hq⟩

theorem Listed.removed (h : Listed f (l₁ ++ i :: l₂)) :
    Listed (f.removed l₁.getLast? i) (l₁ ++ l₂) := by
  have hnodup := h.links.nodup
  have hi : i ∉ l₁ ++ l₂ := (List.nodup_middle.mp hnodup).notMem
  refine ⟨?_, fun j hj => ?_⟩
  · rw [Fish.removed, Fish.mp1Free, Fish.next_setBlink, Fish.next_storePointer]
    refine Links.congr ?_ fun j hj => Function.update_of_ne (ne_of_mem_of_not_mem hj hi) ..
    show Links _ (f.storePointer l₁.getLast? (f.next i)).mp1ListHead _
    rw [Fish.head_storePointer]
    exact h.links.unlink
  · by_cases hji : j = i
    · subst hji
      rw [Fish.removed, Fish.mp1Free, Fish.blinkArray_setBlink_self]
      rfl
    · obtain ⟨q, hq⟩ := f.blinkArray_removed hji l₁.getLast?
      rw [hq]
      refine h.free j fun hmem => hj ?_
      simpa [hji] using hmem

/-- `mp1_ioctl_remove` takes out the first slot with the location. -/
theorem Listed.mp1IoctlRemove (h : Listed f l) (arg : UInt32) :
    (f.mp1IoctlRemove arg = some (f, -1) ∧
        ∀ i ∈ l, (f.blinkArray i).location ≠ arg.toUInt16) ∨
      ∃ l₁ i l₂, l = l₁ ++ i :: l₂ ∧ (f.blinkArray i).location = arg.toUInt16 ∧
        (∀ j ∈ l₁, (f.blinkArray j).location ≠ arg.toUInt16) ∧
        f.mp1IoctlRemove arg = some (f.removed l₁.getLast? i, 0) := by
  rw [Fish.mp1IoctlRemove, h.mp1FindHelper]
  cases hfind : l.find? fun i => (f.blinkArray i).location = arg.toUInt16 with
  | none => exact .inl ⟨rfl, by simpa using hfind⟩
  | some i =>
    obtain ⟨hi, l₁, l₂, rfl, hbefore⟩ := List.find?_eq_some_iff_append.mp hfind
    refine .inr ⟨l₁, i, l₂, rfl, of_decide_eq_true hi, by simpa using hbefore, ?_⟩
    have hlen : l₁.length < loopTurns := by
      have := h.length_lt
      rw [List.length_append] at this
      omega
    have hholder := h.links.holderOf hlen
    simp only [Option.bind_eq_bind, Option.bind_some, hholder]
    rfl

/-- `mp1_ioctl_sync` finds both elements, or does nothing. -/
theorem Listed.mp1IoctlSync (h : Listed f l) (arg : UInt32) :
    (f.mp1IoctlSync arg = some (f, -1) ∧ ∀ i ∈ l, ∀ j ∈ l,
        (f.blinkArray i).location = (arg >>> 16).toUInt16 →
        (f.blinkArray j).location ≠ arg.toUInt16) ∨
      ∃ i ∈ l, ∃ j ∈ l, (f.blinkArray i).location = (arg >>> 16).toUInt16 ∧
        (f.blinkArray j).location = arg.toUInt16 ∧ f.mp1IoctlSync arg =
          some ((f.setBlink j (Fish.syncTo (f.blinkArray i) (f.blinkArray j))).mp1Poke
            (f.blinkArray j).offChar (2 * (f.blinkArray j).location.toNat), 0) := by
  rw [Fish.mp1IoctlSync, h.mp1FindHelper, h.mp1FindHelper]
  cases hesi : l.find? fun i => (f.blinkArray i).location = (arg >>> 16).toUInt16 with
  | none =>
    have hnone := List.find?_eq_none.mp hesi
    exact .inl ⟨rfl, fun i hi _ _ heq => absurd (decide_eq_true heq) (hnone i hi)⟩
  | some i =>
    cases hedi : l.find? fun i => (f.blinkArray i).location = arg.toUInt16 with
    | none =>
      have hnone := List.find?_eq_none.mp hedi
      exact .inl ⟨rfl, fun _ _ j hj _ heq => absurd (decide_eq_true heq) (hnone j hj)⟩
    | some j =>
      refine .inr ⟨i, List.mem_of_find?_eq_some hesi, j, List.mem_of_find?_eq_some hedi, ?_, ?_,
        rfl⟩
      · simpa using List.find?_some hesi
      · simpa using List.find?_some hedi

/-! ### Calls -/

/-- What a call can do, from a state with the list `l`. -/
inductive BlinkOutcome (f : Fish) (l : List Slot) : BlinkCall → Fish → Prop
  | rejected (arg : Mp1BlinkStruct) (h : f.mp1IoctlAdd arg = (f, -1)) :
      BlinkOutcome f l (.add arg) f
  | added (arg : Mp1BlinkStruct) (i : Slot) (hlocation : arg.location < 80 * 25)
      (hmalloc : f.mp1Malloc = some i) (h : f.mp1IoctlAdd arg = (f.added i arg, 0)) :
      BlinkOutcome f l (.add arg) (f.added i arg)
  | notRemoved (arg : UInt32) (h : ∀ i ∈ l, (f.blinkArray i).location ≠ arg.toUInt16) :
      BlinkOutcome f l (.remove arg) f
  | removed (arg : UInt32) (l₁ l₂ : List Slot) (i : Slot) (hl : l = l₁ ++ i :: l₂)
      (hi : (f.blinkArray i).location = arg.toUInt16)
      (hbefore : ∀ j ∈ l₁, (f.blinkArray j).location ≠ arg.toUInt16) :
      BlinkOutcome f l (.remove arg) (f.removed l₁.getLast? i)
  | notSynced (arg : UInt32) (h : ∀ i ∈ l, ∀ j ∈ l,
      (f.blinkArray i).location = (arg >>> 16).toUInt16 →
      (f.blinkArray j).location ≠ arg.toUInt16) : BlinkOutcome f l (.sync arg) f
  | synced (arg : UInt32) (i j : Slot) (hi : i ∈ l) (hj : j ∈ l)
      (hesi : (f.blinkArray i).location = (arg >>> 16).toUInt16)
      (hedi : (f.blinkArray j).location = arg.toUInt16) : BlinkOutcome f l (.sync arg)
        ((f.setBlink j (Fish.syncTo (f.blinkArray i) (f.blinkArray j))).mp1Poke
          (f.blinkArray j).offChar (2 * (f.blinkArray j).location.toNat))
  | found (location : UInt16) : BlinkOutcome f l (.find location) f
  | blinked : BlinkOutcome f l .tasklet (l.foldl (fun f i => f.blink i) f)

/-- While the list ends, so do the loops of all calls. -/
theorem Listed.exists_outcome (h : Listed f l) (e : BlinkCall) :
    ∃ f', blinkStep f e = some f' ∧ BlinkOutcome f l e f' := by
  cases e with
  | add arg =>
    obtain heq | ⟨hlocation, i, hmalloc, heq⟩ := f.mp1IoctlAdd_cases arg
    · exact ⟨f, by rw [blinkStep, Fish.call, heq]; rfl, .rejected arg heq⟩
    · exact ⟨_, by rw [blinkStep, Fish.call, heq]; rfl, .added arg i hlocation hmalloc heq⟩
  | remove arg =>
    obtain ⟨heq, hnone⟩ | ⟨l₁, i, l₂, hl, hi, hbefore, heq⟩ := h.mp1IoctlRemove arg
    · exact ⟨f, by rw [blinkStep, Fish.call, heq]; rfl, .notRemoved arg hnone⟩
    · exact ⟨_, by rw [blinkStep, Fish.call, heq]; rfl, .removed arg l₁ l₂ i hl hi hbefore⟩
  | sync arg =>
    obtain ⟨heq, hnone⟩ | ⟨i, hi, j, hj, hesi, hedi, heq⟩ := h.mp1IoctlSync arg
    · exact ⟨f, by rw [blinkStep, Fish.call, heq]; rfl, .notSynced arg hnone⟩
    · exact ⟨_, by rw [blinkStep, Fish.call, heq]; rfl, .synced arg i j hi hj hesi hedi⟩
  | find location =>
    exact ⟨f, by rw [blinkStep, Fish.call, Fish.mp1IoctlFind, h.mp1FindHelper]; rfl,
      .found location⟩
  | tasklet => exact ⟨_, by rw [blinkStep, Fish.call, h.mp1RtcTasklet]; rfl, .blinked⟩

theorem Listed.outcome {e : BlinkCall} (h : Listed f l) (hstep : blinkStep f e = some f') :
    BlinkOutcome f l e f' := by
  obtain ⟨g, hg, houtcome⟩ := h.exists_outcome e
  obtain rfl := Option.some.inj (hg.symm.trans hstep)
  exact houtcome

theorem SameList.synced (f : Fish) (i j : Slot) : SameList f
    ((f.setBlink j (Fish.syncTo (f.blinkArray i) (f.blinkArray j))).mp1Poke
      (f.blinkArray j).offChar (2 * (f.blinkArray j).location.toNat)) := by
  have hset : SameList f (f.setBlink j (Fish.syncTo (f.blinkArray i) (f.blinkArray j))) :=
    .setBlink rfl rfl
  exact hset.poke _ _

/-- The list with what is in it, and a record of what has been added and not removed. -/
structure Recorded (x : LoggedFish) (l : List Slot) : Prop extends Listed x.1 l where
  entries : l.map (fun i => (x.1.blinkArray i).entry) = x.2

variable {x x' : LoggedFish} {e : BlinkCall}

theorem Recorded.listRight (h : Recorded x l) : ListRight x :=
  ⟨l, h.links, h.links.nodup, h.entries⟩

theorem Recorded.callsEnd (h : Recorded x l) : CallsEnd x := by
  intro e
  obtain ⟨f', hf', -⟩ := h.exists_outcome e
  rw [← Option.isSome_map, ← blinkStep, hf']
  rfl

theorem recorded_start (vmem : Nat → UInt8) : Recorded (Fish.start vmem, []) [] where
  links := rfl
  free _ _ := rfl
  entries := rfl

/-- The record after the calls that neither add nor remove. -/
theorem Recorded.same (h : Recorded x l) (hsame : SameList x.1 f') : Recorded (f', x.2) l where
  toListed := hsame.listed h.toListed
  entries := by
    rw [← h.entries]
    exact List.map_congr_left fun i _ => hsame.entry i

theorem Recorded.add {arg : Mp1BlinkStruct} (h : Recorded x l) (hi : i ∉ l) :
    Recorded (x.1.added i arg, arg.entry :: x.2) (i :: l) where
  toListed := h.added hi arg
  entries := by
    rw [List.map_cons, Fish.blinkArray_added_self, ← h.entries]
    refine congrArg₂ List.cons rfl (List.map_congr_left fun j hj => ?_)
    rw [Fish.blinkArray_added_of_ne (ne_of_mem_of_not_mem hj hi)]

/-- The first element with the location is struck from the record too. -/
theorem Recorded.remove {arg : UInt32} (h : Recorded x (l₁ ++ i :: l₂))
    (hi : (x.1.blinkArray i).location = arg.toUInt16)
    (hbefore : ∀ j ∈ l₁, (x.1.blinkArray j).location ≠ arg.toUInt16) :
    Recorded (x.1.removed l₁.getLast? i, x.2.eraseP fun b => b.1 = arg.toUInt16) (l₁ ++ l₂) where
  toListed := h.removed
  entries := by
    have hnodup := h.links.nodup
    have hmem : i ∉ l₁ ++ l₂ := (List.nodup_middle.mp hnodup).notMem
    have hkeep : ∀ j ∈ l₁ ++ l₂, ((x.1.removed l₁.getLast? i).blinkArray j).entry =
        (x.1.blinkArray j).entry := by
      intro j hj
      obtain ⟨q, hq⟩ := x.1.blinkArray_removed (ne_of_mem_of_not_mem hj hmem) l₁.getLast?
      rw [hq]
      rfl
    have hstruck : ∀ b ∈ l₁.map fun j => (x.1.blinkArray j).entry,
        ¬ decide (b.1 = arg.toUInt16) = true := by
      simpa [Mp1BlinkStruct.entry] using hbefore
    rw [List.map_congr_left hkeep, List.map_append]
    show _ = x.2.eraseP _
    rw [← h.entries, List.map_append, List.map_cons, List.eraseP_append_right _ hstruck]
    refine congrArg _ (Eq.symm (List.eraseP_cons_of_pos ?_))
    exact decide_eq_true hi

theorem blinkLoggedStep_eq_some : blinkLoggedStep x e = some x' ↔
    blinkStep x.1 e = some x'.1 ∧ x'.2 = blinkRecord x.1 e x'.1 x.2 := logged_eq_some

/-- The slot that is allocated is then not in the list. -/
theorem FreshSlot.not_reaches (hfresh : FreshSlot x (.add arg)) (hlocation : arg.location < 80 * 25)
    (hmalloc : x.1.mp1Malloc = some i) : ¬ Reaches x.1.next x.1.mp1ListHead i := by
  obtain ⟨hzero, hfirst⟩ := Fish.mp1Malloc_eq_some_iff.mp hmalloc
  intro hi
  obtain ⟨j, hj, hfree, -⟩ := hfresh hlocation i hi hzero
  exact hfirst j hj hfree

/-- A guarded call leaves the list in order. -/
theorem Recorded.step (h : Recorded x l) (hfresh : FreshSlot x e)
    (hstep : blinkLoggedStep x e = some x') : ∃ l', Recorded x' l' := by
  obtain ⟨f', entries'⟩ := x'
  obtain ⟨hcall, hlog⟩ := blinkLoggedStep_eq_some.mp hstep
  dsimp only at hcall hlog
  subst hlog
  cases h.outcome hcall with
  | rejected arg heq =>
    rw [blinkRecord, heq, if_neg (by simp)]
    exact ⟨l, h⟩
  | added arg i hlocation hmalloc heq =>
    have hi : i ∉ l := fun hmem => hfresh.not_reaches hlocation hmalloc (h.links.reaches hmem)
    rw [blinkRecord, heq, if_pos rfl]
    exact ⟨i :: l, h.add hi⟩
  | notRemoved arg hnone =>
    rw [blinkRecord, List.eraseP_of_forall_not]
    · exact ⟨l, h⟩
    · intro b hb
      rw [← h.entries] at hb
      obtain ⟨j, hj, rfl⟩ := List.mem_map.mp hb
      exact not_congr decide_eq_true_iff |>.mpr (hnone j hj)
  | removed arg l₁ l₂ i hl hi hbefore =>
    subst hl
    exact ⟨l₁ ++ l₂, h.remove hi hbefore⟩
  | notSynced arg hnone => exact ⟨l, h⟩
  | synced arg i j hi hj hesi hedi => exact ⟨l, h.same (.synced _ i j)⟩
  | found location => exact ⟨l, h⟩
  | blinked => exact ⟨l, h.same (.foldl_blink l _)⟩

theorem FreshSlot.keepsListed (hfresh : FreshSlot x e) : KeepsListed x e := by
  cases e with
  | add arg =>
    intro j hj
    obtain heq | ⟨hlocation, i, hmalloc, heq⟩ := x.1.mp1IoctlAdd_cases arg
    · rw [heq]
    · have hne : j ≠ i := fun hji => hfresh.not_reaches hlocation hmalloc (hji ▸ hj)
      rw [heq]
      exact Fish.blinkArray_added_of_ne hne ..
  | _ => trivial

/-- A slot of the list that is put in front of it once more makes it a circle. -/
theorem Recorded.fresh_of_listRight (h : Recorded x l) (hstep : blinkLoggedStep x e = some x')
    (hright : ListRight x') : FreshSlot x e := by
  obtain ⟨f', entries'⟩ := x'
  obtain ⟨hcall, -⟩ := blinkLoggedStep_eq_some.mp hstep
  cases e with
  | add arg =>
    intro hlocation i hreaches hzero
    obtain ⟨k, hmalloc⟩ := Fish.exists_mp1Malloc hzero
    obtain ⟨hfree, hfirst⟩ := Fish.mp1Malloc_eq_some_iff.mp hmalloc
    rw [blinkStep, Fish.call, Fish.mp1IoctlAdd_eq hlocation hmalloc] at hcall
    obtain rfl := Option.some.inj hcall
    obtain ⟨l', hlinks, -, -⟩ := hright
    rw [Fish.next_added] at hlinks
    -- the slot that is allocated
    have hk : ¬ Reaches x.1.next x.1.mp1ListHead k := fun hk =>
      h.links.push_again (h.links.mem_of_reaches hk) l' hlinks
    refine ⟨k, lt_of_le_of_ne (not_lt.mp fun hi => hfirst i hi hzero) ?_, hfree, hk⟩
    rintro rfl
    exact hk hreaches
  | _ => trivial

/-- Over any calls, the list is right and all loops end after each of them, and `mp1_ioctl_add`
overwrites no slot of the list, exactly if no element is added while there is one at location zero
in the list without a free slot before it. -/
theorem listRight_iff (vmem : Nat → UInt8) (calls : List BlinkCall) :
    (Along blinkLoggedStep (fun x => ListRight x ∧ CallsEnd x) (Fish.start vmem, []) calls ∧
        Guarded blinkLoggedStep KeepsListed (Fish.start vmem, []) calls) ↔
      Guarded blinkLoggedStep FreshSlot (Fish.start vmem, []) calls := by
  have hstart : ∃ l, Recorded (Fish.start vmem, []) l := ⟨[], recorded_start vmem⟩
  constructor
  · rintro ⟨hright, -⟩
    have hrun := hright.run_isSome fun x hx e => by
      rw [blinkLoggedStep, logged, Option.isSome_map, blinkStep, Option.isSome_map]
      exact hx.2 e
    have hstep : ∀ x e x', ListRight x ∧ CallsEnd x → (∃ l, Recorded x l) →
        blinkLoggedStep x e = some x' → ListRight x' ∧ CallsEnd x' → ∃ l', Recorded x' l' := by
      rintro x e x' - ⟨l, h⟩ hs hx'
      exact h.step (h.fresh_of_listRight hs hx'.1) hs
    refine (hright.strengthen hstep hstart).guarded ?_ hrun
    rintro x e x' ⟨-, l, h⟩ hs hx'
    exact h.fresh_of_listRight hs hx'.1.1
  · intro hguard
    have hstep : ∀ x e x', (∃ l, Recorded x l) → FreshSlot x e →
        blinkLoggedStep x e = some x' → ∃ l', Recorded x' l' := by
      rintro x e x' ⟨l, h⟩ hfresh hs
      exact h.step hfresh hs
    have hrecorded := hguard.along hstep hstart
    refine ⟨hrecorded.mono ?_, hguard.mono fun x e hfresh => hfresh.keepsListed⟩
    rintro x ⟨l, h⟩
    exact ⟨h.listRight, h.callsEnd⟩

/-- The elements with locations 0 and 5. -/
def corner : Mp1BlinkStruct := ⟨0, 73, 77, 7, 6, 0, 0, none⟩

def besideCorner : Mp1BlinkStruct := ⟨5, 73, 77, 7, 6, 0, 0, none⟩

/-- The slot of the element in the upper left corner is taken for a free one. -/
theorem not_listRight : ¬ ∀ (vmem : Nat → UInt8) (calls : List BlinkCall),
    Along blinkLoggedStep (fun x => ListRight x ∧ CallsEnd x) (Fish.start vmem, []) calls ∧
      Guarded blinkLoggedStep KeepsListed (Fish.start vmem, []) calls := by
  intro hlist
  have hadd : ∀ (f : Fish) (arg : Mp1BlinkStruct), (f.blinkArray 0).location = 0 →
      arg.location < 80 * 25 → f.mp1IoctlAdd arg = (f.added 0 arg, 0) := by
    intro f arg hzero hlocation
    have hnone : ∀ j < (0 : Slot), (f.blinkArray j).location ≠ 0 :=
      fun j hj => absurd hj (Nat.not_lt_zero _)
    exact Fish.mp1IoctlAdd_eq hlocation (Fish.mp1Malloc_eq_some_iff.mpr ⟨hzero, hnone⟩)
  obtain ⟨-, -, hkeeps⟩ := hlist (fun _ => 0) [.add corner, .add besideCorner]
  have hcorner := hadd (Fish.start fun _ => 0) corner rfl (by decide)
  have hstep : blinkLoggedStep (Fish.start fun _ => 0, []) (.add corner) =
      some ((Fish.start fun _ => 0).added 0 corner, [corner.entry]) := by
    rw [blinkLoggedStep, logged, blinkStep, Fish.call, hcorner]
    simp [blinkRecord, hcorner]
  have hslot := (hkeeps _ hstep).1 0 (.here 0)
  rw [hadd _ _ rfl (by decide)] at hslot
  exact absurd (congrArg Mp1BlinkStruct.location hslot) (by decide)

end LinuxLikeKernel
