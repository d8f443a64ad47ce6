import LinuxLikeKernel.BlinkList

/-!
# The characters on the screen

While an element of the list is on, its character for on should be on the screen, and while it is
off the one for off. Where the elements have locations of their own, `mp1_ioctl_add` and
`mp1_rtc_tasklet` see to that; `mp1_ioctl_sync` copies the status of another element and shows the
character for off in any case.

## Main definitions

- `DistinctLocations` — the elements of the list have locations of their own on the screen
- `Coherent` — the characters on the screen are those of the elements' states
- `SyncsShown` — an element is synchronised with one that is off, or has one character only

## Main results

- `ScreenRight.blink` — a turn of `mp1_rtc_tasklet` keeps the screen right
- `coherent_iff` — when the screen is right all along a sequence of calls
-/

namespace LinuxLikeKernel
open Transition PointerList

/-! ### What should hold -/

/-- The elements of the list have distinct locations on the screen, none of them zero. -/
structure DistinctLocations (f : Fish) : Prop where
  distinct : ∀ i j, Reaches f.next f.mp1ListHead i → Reaches f.next f.mp1ListHead j →
    (f.blinkArray i).location = (f.blinkArray j).location → i = j
  onScreen : ∀ i, Reaches f.next f.mp1ListHead i →
    (f.blinkArray i).location ≠ 0 ∧ (f.blinkArray i).location < 80 * 25

/-- The character at the location of a slot is that of its state. -/
structure ShowsState (f : Fish) (i : Slot) : Prop where
  on : (f.blinkArray i).status = 1 →
    f.vmem (2 * (f.blinkArray i).location.toNat) = (f.blinkArray i).onChar
  off : (f.blinkArray i).status = 0 →
    f.vmem (2 * (f.blinkArray i).location.toNat) = (f.blinkArray i).offChar

/-- The screen shows the states of the elements of the list. -/
def Coherent (f : Fish) : Prop := ∀ i, Reaches f.next f.mp1ListHead i → ShowsState f i

/-- `mp1_ioctl_sync` finds both elements only if the first is off, or the second has the same
character for on and for off. -/
def SyncsShown (f : Fish) : BlinkCall → Prop
  | .sync arg => ∀ i j, Reaches f.next f.mp1ListHead i → Reaches f.next f.mp1ListHead j →
      (f.blinkArray i).location = (arg >>> 16).toUInt16 →
      (f.blinkArray j).location = arg.toUInt16 →
      (f.blinkArray i).status = 0 ∨ (f.blinkArray j).onChar = (f.blinkArray j).offChar
  | _ => True

/-! ### One slot -/

variable {f f' : Fish} {l l₁ l₂ : List Slot} {i j : Slot}

/-- What is shown of a slot does not depend on its pointer and its count. -/
theorem ShowsState.congr (h : ShowsState f i)
    (hentry : (f'.blinkArray i).entry = (f.blinkArray i).entry)
    (hstatus : (f'.blinkArray i).status = (f.blinkArray i).status)
    (hcell : f'.vmem (2 * (f.blinkArray i).location.toNat) =
      f.vmem (2 * (f.blinkArray i).location.toNat)) : ShowsState f' i := by
  simp only [Mp1BlinkStruct.entry, Prod.mk.injEq] at hentry
  obtain ⟨hlocation, hon, hoff⟩ := hentry
  refine ⟨fun hs => ?_, fun hs => ?_⟩ <;> rw [hstatus] at hs
  · rw [hlocation, hcell, hon]
    exact h.on hs
  · rw [hlocation, hcell, hoff]
    exact h.off hs

/-- Two characters on the screen are in different bytes. -/
theorem cell_ne {a b : UInt16} (h : a ≠ b) : 2 * a.toNat ≠ 2 * b.toNat := by
  have hnat : a.toNat ≠ b.toNat := fun heq => h (UInt16.toNat_inj.mp heq)
  omega

/-! ### The elements of a list -/

/-- The slots of the list have locations of their own. -/
def OwnLocations (f : Fish) (l : List Slot) : Prop :=
  ∀ i ∈ l, ∀ j ∈ l, (f.blinkArray i).location = (f.blinkArray j).location → i = j

/-- The slots of the list are on or off, and the screen shows it. -/
structure ScreenRight (f : Fish) (l : List Slot) : Prop where
  status : ∀ i ∈ l, (f.blinkArray i).status = 0 ∨ (f.blinkArray i).status = 1
  shows : ∀ i ∈ l, ShowsState f i

theorem SameList.ownLocations (hsame : SameList f f') (h : OwnLocations f l) :
    OwnLocations f' l := by
  intro i hi j hj heq
  rw [location_of_entry (hsame.entry i), location_of_entry (hsame.entry j)] at heq
  exact h i hi j hj heq

/-- A slot is written along with the character of its state, at a location no other slot has. -/
theorem ScreenRight.write {b : Mp1BlinkStruct} {cl : UInt8}
    (h : ∀ j ∈ l, j ≠ i → (f.blinkArray j).location ≠ b.location ∧
      ((f.blinkArray j).status = 0 ∨ (f.blinkArray j).status = 1) ∧ ShowsState f j)
    (hb : b.status = 0 ∧ cl = b.offChar ∨ b.status = 1 ∧ cl = b.onChar) :
    ScreenRight ((f.mp1Poke cl (2 * b.location.toNat)).setBlink i b) l := by
  have hself : ((f.mp1Poke cl (2 * b.location.toNat)).setBlink i b).blinkArray i = b :=
    Fish.blinkArray_setBlink_self ..
  have hcell : ((f.mp1Poke cl (2 * b.location.toNat)).setBlink i b).vmem
      (2 * b.location.toNat) = cl := Function.update_self ..
  have hother : ∀ j, j ≠ i → ((f.mp1Poke cl (2 * b.location.toNat)).setBlink i b).blinkArray j =
      f.blinkArray j := fun j hj => Fish.blinkArray_setBlink_of_ne hj _ b
  constructor
  · intro j hj
    by_cases hji : j = i
    · subst hji
      rw [hself]
      exact hb.imp And.left And.left
    · rw [hother j hji]
      exact (h j hj hji).2.1
  · intro j hj
    by_cases hji : j = i
    · subst hji
      refine ⟨fun hs => ?_, fun hs => ?_⟩ <;> rw [hself] at hs ⊢ <;> rw [hcell]
      · obtain ⟨hzero, -⟩ | ⟨-, hon⟩ := hb
        · exact absurd (hs.symm.trans hzero) (by decide)
        · exact hon
      · obtain ⟨-, hoff⟩ | ⟨hone, -⟩ := hb
        · exact hoff
        · exact absurd (hs.symm.trans hone) (by decide)
    · obtain ⟨hlocation, -, hshows⟩ := h j hj hji
      refine hshows.congr ?_ ?_ (Function.update_of_ne (cell_ne hlocation) ..) <;>
        rw [hother j hji]

/-- The other elements, when one of the list is written. -/
theorem ScreenRight.others (h : ScreenRight f l) (hown : OwnLocations f l) (hi : i ∈ l) :
    ∀ j ∈ l, j ≠ i → (f.blinkArray j).location ≠ (f.blinkArray i).location ∧
      ((f.blinkArray j).status = 0 ∨ (f.blinkArray j).status = 1) ∧ ShowsState f j :=
  fun j hj hji => ⟨fun heq => hji (hown j hj i hi heq), h.status j hj, h.shows j hj⟩

/-- A turn of the loop of `mp1_rtc_tasklet`. -/
theorem ScreenRight.blink (h : ScreenRight f l) (hown : OwnLocations f l) (hi : i ∈ l) :
    ScreenRight (f.blink i) l := by
  rw [Fish.blink]
  split
  · -- only the count has changed
    have hnode : ∀ j, ((f.setBlink i { f.blinkArray i with
          countdown := (f.blinkArray i).countdown - 1 }).blinkArray j).entry =
          (f.blinkArray j).entry ∧
        ((f.setBlink i { f.blinkArray i with
          countdown := (f.blinkArray i).countdown - 1 }).blinkArray j).status =
          (f.blinkArray j).status := by
      intro j
      by_cases hji : j = i
      · subst hji
        rw [Fish.blinkArray_setBlink_self]
        exact ⟨rfl, rfl⟩
      · rw [Fish.blinkArray_setBlink_of_ne hji]
        exact ⟨rfl, rfl⟩
    refine ⟨fun j hj => ?_, fun j hj => (h.shows j hj).congr (hnode j).1 (hnode j).2 rfl⟩
    rw [(hnode j).2]
    exact h.status j hj
  · split
    · rename_i hbit
      have hoff : (f.blinkArray i).status = 0 := by
        refine (h.status i hi).resolve_right fun hone => ?_
        rw [hone] at hbit
        exact absurd hbit (by decide)
      refine ScreenRight.write (h.others hown hi) (.inr ⟨?_, rfl⟩)
      simp only [hoff]
      decide
    · rename_i hbit
      have hon : (f.blinkArray i).status = 1 := by
        refine (h.status i hi).resolve_left fun hzero => ?_
        rw [hzero] at hbit
        exact hbit (by decide)
      refine ScreenRight.write (h.others hown hi) (.inl ⟨?_, rfl⟩)
      simp only [hon]
      decide

/-- All turns of it. -/
theorem ScreenRight.foldl_blink (h : ScreenRight f l) (hown : OwnLocations f l) :
    ScreenRight (l.foldl (fun f i => f.blink i) f) l := by
  have hturns := List.foldlRecOn l (fun f i => f.blink i)
    (motive := fun f => OwnLocations f l ∧ ScreenRight f l) ⟨hown, h⟩
    fun f ⟨hown, h⟩ i hi => ⟨(SameList.blink i f).ownLocations hown, h.blink hown hi⟩
  exact hturns.2

/-! ### On and off -/

/-- A turn of the loop leaves each element on or off. -/
theorem status_blink (h : ∀ j ∈ l, (f.blinkArray j).status = 0 ∨ (f.blinkArray j).status = 1)
    (i : Slot) : ∀ j ∈ l, ((f.blink i).blinkArray j).status = 0 ∨
      ((f.blink i).blinkArray j).status = 1 := by
  intro j hj
  have hbit := h j hj
  by_cases hji : j = i
  · subst hji
    rw [Fish.blink]
    split
    · rw [Fish.blinkArray_setBlink_self]
      exact hbit
    · obtain hzero | hone := hbit
      · rw [if_pos (by rw [hzero]; decide), Fish.blinkArray_setBlink_self, hzero]
        exact .inr rfl
      · rw [if_neg (by rw [hone]; decide), Fish.blinkArray_setBlink_self, hone]
        exact .inl rfl
  · rw [Fish.blink]
    split
    · rwa [Fish.blinkArray_setBlink_of_ne hji]
    · split
      · rwa [Fish.blinkArray_setBlink_of_ne hji]
      · rwa [Fish.blinkArray_setBlink_of_ne hji]

/-- The list, with its elements on or off and at locations of their own. -/
structure Blinking (f : Fish) (l : List Slot) : Prop extends Listed f l where
  status : ∀ i ∈ l, (f.blinkArray i).status = 0 ∨ (f.blinkArray i).status = 1
  locations : DistinctLocations f

theorem Blinking.ownLocations (h : Blinking f l) : OwnLocations f l := fun i hi j hj =>
  h.locations.distinct i j (h.links.reaches hi) (h.links.reaches hj)

/-- As no location is zero, a slot that is allocated is not in the list. -/
theorem Blinking.not_mem_of_malloc (h : Blinking f l) (hmalloc : f.mp1Malloc = some i) : i ∉ l :=
  fun hi => (h.locations.onScreen i (h.links.reaches hi)).1
    (Fish.mp1Malloc_eq_some_iff.mp hmalloc).1

/-! ### Calls -/

variable {e : BlinkCall}

/-- The slots in the list after a call. -/
theorem Blinking.step (h : Blinking f l) (hlocations : DistinctLocations f')
    (hstep : blinkStep f e = some f') : ∃ l', Blinking f' l' := by
  cases h.outcome hstep with
  | rejected arg heq => exact ⟨l, h⟩
  | added arg i hlocation hmalloc heq =>
    have hi := h.not_mem_of_malloc hmalloc
    refine ⟨i :: l, h.added hi arg, fun j hj => ?_, hlocations⟩
    obtain rfl | hj := List.mem_cons.mp hj
    · rw [Fish.blinkArray_added_self]
      exact .inr rfl
    · rw [Fish.blinkArray_added_of_ne (ne_of_mem_of_not_mem hj hi)]
      exact h.status j hj
  | notRemoved arg hnone => exact ⟨l, h⟩
  | removed arg l₁ l₂ i hl hi hbefore =>
    subst hl
    have hmem : i ∉ l₁ ++ l₂ := (List.nodup_middle.mp h.links.nodup).notMem
    refine ⟨l₁ ++ l₂, h.toListed.removed, fun j hj => ?_, hlocations⟩
    obtain ⟨q, hq⟩ := f.blinkArray_removed (ne_of_mem_of_not_mem hj hmem) l₁.getLast?
    rw [hq]
    exact h.status j (((List.Sublist.refl l₁).append (List.sublist_cons_self i l₂)).subset hj)
  | notSynced arg hnone => exact ⟨l, h⟩
  | synced arg i j hi hj hesi hedi =>
    refine ⟨l, (SameList.synced f i j).listed h.toListed, fun k hk => ?_, hlocations⟩
    by_cases hkj : k = j
    · subst hkj
      have hself := f.blinkArray_setBlink_self k (Fish.syncTo (f.blinkArray i) (f.blinkArray k))
      have hbit := h.status i hi
      rwa [Fish.mp1Poke, hself]
    · have hother := Fish.blinkArray_setBlink_of_ne hkj f
        (Fish.syncTo (f.blinkArray i) (f.blinkArray j))
      rw [Fish.mp1Poke, hother]
      exact h.status k hk
  | found location => exact ⟨l, h⟩
  | blinked =>
    refine ⟨l, (SameList.foldl_blink l f).listed h.toListed, ?_, hlocations⟩
    exact List.foldlRecOn l (fun f i => f.blink i)
      (motive := fun f : Fish => ∀ j ∈ l, (f.blinkArray j).status = 0 ∨ (f.blinkArray j).status = 1)
      h.status fun f hf i _ => status_blink hf i

theorem ScreenRight.coherent (hright : ScreenRight f l) (h : Listed f l) : Coherent f :=
  fun i hi => hright.shows i (h.links.mem_of_reaches hi)

theorem Blinking.screenRight (h : Blinking f l) (hcoherent : Coherent f) : ScreenRight f l :=
  ⟨h.status, fun i hi => hcoherent i (h.links.reaches hi)⟩

/-- A new element is on, and shown so. -/
theorem ScreenRight.added (h : ScreenRight f l) {arg : Mp1BlinkStruct}
    (hown : ∀ j ∈ l, (f.blinkArray j).location ≠ arg.location) :
    ScreenRight (f.added i arg) (i :: l) := by
  have hwritten : ScreenRight ((f.mp1Poke arg.onChar (2 * arg.location.toNat)).setBlink i
      { arg with status := 1, countdown := arg.onLength, next := f.mp1ListHead }) (i :: l) := by
    refine .write (fun j hj hji => ?_) (.inr ⟨rfl, rfl⟩)
    have hj := (List.mem_cons.mp hj).resolve_left hji
    exact ⟨hown j hj, h.status j hj, h.shows j hj⟩
  exact ⟨hwritten.status, fun j hj => ⟨(hwritten.shows j hj).on, (hwritten.shows j hj).off⟩⟩

/-- Taking an element out does not touch the others. -/
theorem ScreenRight.removed (h : ScreenRight f (l₁ ++ i :: l₂)) (hi : i ∉ l₁ ++ l₂) :
    ScreenRight (f.removed l₁.getLast? i) (l₁ ++ l₂) := by
  have hvmem : (f.removed l₁.getLast? i).vmem = f.vmem := by
    rw [Fish.removed]
    cases l₁.getLast? <;> rfl
  have hsub := ((List.Sublist.refl l₁).append (List.sublist_cons_self i l₂)).subset
  constructor <;> intro j hj <;>
    obtain ⟨q, hq⟩ := f.blinkArray_removed (ne_of_mem_of_not_mem hj hi) l₁.getLast?
  · rw [hq]
    exact h.status j (hsub hj)
  · exact (h.shows j (hsub hj)).congr (by rw [hq]; rfl) (by rw [hq]) (by rw [hvmem])

/-- `mp1_ioctl_sync` shows the character for off. -/
theorem Blinking.synced_iff (h : Blinking f l) (hcoherent : Coherent f) (hi : i ∈ l) (hj : j ∈ l) :
    Coherent ((f.setBlink j (Fish.syncTo (f.blinkArray i) (f.blinkArray j))).mp1Poke
        (f.blinkArray j).offChar (2 * (f.blinkArray j).location.toNat)) ↔
      (f.blinkArray i).status = 0 ∨ (f.blinkArray j).onChar = (f.blinkArray j).offChar := by
  have hlist := (SameList.synced f i j).listed h.toListed
  constructor
  · intro hcoherent'
    refine (h.status i hi).imp_right fun hone => ?_
    have hshows := (hcoherent' j (hlist.links.reaches hj)).on
    have hself := f.blinkArray_setBlink_self j (Fish.syncTo (f.blinkArray i) (f.blinkArray j))
    rw [Fish.mp1Poke, hself] at hshows
    have hcell := hshows hone
    exact hcell.symm.trans (Function.update_self ..)
  · intro hsame
    have hcl : (f.blinkArray i).status = 0 ∧ (f.blinkArray j).offChar = (f.blinkArray j).offChar ∨
        (f.blinkArray i).status = 1 ∧ (f.blinkArray j).offChar = (f.blinkArray j).onChar := by
      refine (h.status i hi).imp (fun hzero => ⟨hzero, rfl⟩) fun hone => ⟨hone, ?_⟩
      refine (hsame.resolve_left fun hzero => ?_).symm
      exact absurd (hzero.symm.trans hone) (by decide)
    have hwritten : ScreenRight ((f.mp1Poke (f.blinkArray j).offChar
        (2 * (f.blinkArray j).location.toNat)).setBlink j
          (Fish.syncTo (f.blinkArray i) (f.blinkArray j))) l :=
      .write ((h.screenRight hcoherent).others h.ownLocations hj) hcl
    exact hwritten.coherent hlist

/-- **Exactness.** While the screen is right, it is so after a call exactly if that does not
synchronise with an element that is on. -/
theorem Blinking.coherent_step_iff (h : Blinking f l) (hcoherent : Coherent f)
    (hlocations : DistinctLocations f') (hstep : blinkStep f e = some f') :
    Coherent f' ↔ SyncsShown f e := by
  have hright := h.screenRight hcoherent
  cases h.outcome hstep with
  | rejected arg heq => exact iff_of_true hcoherent trivial
  | added arg i hlocation hmalloc heq =>
    have hi := h.not_mem_of_malloc hmalloc
    have hlist := h.added hi arg
    refine iff_of_true ((hright.added fun j hj heq => ?_).coherent hlist) trivial
    have hji : j ≠ i := ne_of_mem_of_not_mem hj hi
    refine hji (hlocations.distinct j i (hlist.links.reaches (List.mem_cons_of_mem _ hj))
      (hlist.links.reaches List.mem_cons_self) ?_)
    rw [Fish.blinkArray_added_self, Fish.blinkArray_added_of_ne hji]
    exact heq
  | notRemoved arg hnone => exact iff_of_true hcoherent trivial
  | removed arg l₁ l₂ i hl hi hbefore =>
    subst hl
    have hmem : i ∉ l₁ ++ l₂ := (List.nodup_middle.mp h.links.nodup).notMem
    exact iff_of_true ((hright.removed hmem).coherent h.toListed.removed) trivial
  | notSynced arg hnone =>
    refine iff_of_true hcoherent fun i j hi hj hesi hedi => absurd hedi ?_
    exact hnone i (h.links.mem_of_reaches hi) j (h.links.mem_of_reaches hj) hesi
  | synced arg i j hi hj hesi hedi =>
    rw [h.synced_iff hcoherent hi hj]
    constructor
    · intro hsame i' j' hi' hj' hesi' hedi'
      obtain rfl := h.ownLocations i' (h.links.mem_of_reaches hi') i hi (hesi'.trans hesi.symm)
      obtain rfl := h.ownLocations j' (h.links.mem_of_reaches hj') j hj (hedi'.trans hedi.symm)
      exact hsame
    · exact fun hsyncs => hsyncs i j (h.links.reaches hi) (h.links.reaches hj) hesi hedi
  | found location => exact iff_of_true hcoherent trivial
  | blinked =>
    have hlist := (SameList.foldl_blink l f).listed h.toListed
    exact iff_of_true ((hright.foldl_blink h.ownLocations).coherent hlist) trivial

theorem blinking_start (vmem : Nat → UInt8) : Blinking (Fish.start vmem) [] where
  toListed := (recorded_start vmem).toListed
  status _ h := nomatch h
  locations := ⟨nofun, nofun⟩

/-- Over any calls along which the elements of the list have locations of their own, the screen
shows the states of all elements after each call exactly if no element is synchronised with one
that is on, but for elements with only one character. -/
theorem coherent_iff (vmem : Nat → UInt8) (calls : List BlinkCall)
    (hlocations : Along blinkStep DistinctLocations (Fish.start vmem) calls) :
    Along blinkStep Coherent (Fish.start vmem) calls ↔
      Guarded blinkStep SyncsShown (Fish.start vmem) calls := by
  have hstart : ∃ l, Blinking (Fish.start vmem) l := ⟨[], blinking_start vmem⟩
  have hinv : ∀ f e f', (∃ l, Blinking f l) →
      (∀ f', blinkStep f e = some f' → DistinctLocations f') → blinkStep f e = some f' →
      ∃ l', Blinking f' l' := fun f e f' ⟨l, h⟩ hlocations hs => h.step (hlocations f' hs) hs
  have hrun : (run blinkStep (Fish.start vmem) calls).isSome :=
    (hlocations.steps.along hinv hstart).run_isSome fun f ⟨l, h⟩ e => by
      obtain ⟨f', hf', -⟩ := h.exists_outcome e
      rw [hf']
      rfl
  refine along_iff_guarded hinv ?_ hstart nofun hlocations.steps hrun
  exact fun f e f' ⟨l, h⟩ hcoherent hlocations hs => h.coherent_step_iff hcoherent
    (hlocations f' hs) hs

/-! ### Two elements that are on -/

theorem Listed.distinctLocations (h : Listed f l) (hown : OwnLocations f l)
    (honScreen : ∀ i ∈ l, (f.blinkArray i).location ≠ 0 ∧ (f.blinkArray i).location < 80 * 25) :
    DistinctLocations f :=
  ⟨fun i j hi hj => hown i (h.links.mem_of_reaches hi) j (h.links.mem_of_reaches hj),
    fun i hi => honScreen i (h.links.mem_of_reaches hi)⟩

theorem SameList.distinctLocations (hsame : SameList f f') (h : Blinking f l) :
    DistinctLocations f' := by
  have hown := hsame.ownLocations h.ownLocations
  refine (hsame.listed h.toListed).distinctLocations hown fun i hi => ?_
  rw [location_of_entry (hsame.entry i)]
  exact h.locations.onScreen i (h.links.reaches hi)

def firstBlink : Mp1BlinkStruct := ⟨1, 73, 77, 7, 6, 0, 0, none⟩

def secondBlink : Mp1BlinkStruct := ⟨2, 73, 77, 7, 6, 0, 0, none⟩

/-- Two elements are added, and the second is synchronised with the first. -/
def syncCalls : List BlinkCall := [.add firstBlink, .add secondBlink, .sync 0x10002]

def oneBlink : Fish := (Fish.start fun _ => 0).added 0 firstBlink

def twoBlinks : Fish := oneBlink.added 1 secondBlink

theorem blinkStep_firstBlink :
    blinkStep (Fish.start fun _ => 0) (.add firstBlink) = some oneBlink := by
  have hmalloc : (Fish.start fun _ => 0).mp1Malloc = some 0 :=
    Fish.mp1Malloc_eq_some_iff.mpr ⟨rfl, fun j hj => absurd hj (Nat.not_lt_zero _)⟩
  rw [blinkStep, Fish.call, Fish.mp1IoctlAdd_eq (by decide) hmalloc]
  rfl

theorem blinkStep_secondBlink : blinkStep oneBlink (.add secondBlink) = some twoBlinks := by
  have hmalloc : oneBlink.mp1Malloc = some 1 := by
    refine Fish.mp1Malloc_eq_some_iff.mpr ⟨rfl, fun j hj => ?_⟩
    have hzero : j.val = 0 := Nat.lt_one_iff.mp hj
    obtain rfl : j = 0 := Fin.ext hzero
    decide
  rw [blinkStep, Fish.call, Fish.mp1IoctlAdd_eq (by decide) hmalloc]
  rfl

theorem blinking_oneBlink : Blinking oneBlink [0] := by
  have hlist : Listed oneBlink [0] := (blinking_start fun _ => 0).added List.not_mem_nil firstBlink
  refine ⟨hlist, ?_, hlist.distinctLocations ?_ ?_⟩ <;>
    simp only [OwnLocations, List.forall_mem_singleton] <;> decide

theorem blinking_twoBlinks : Blinking twoBlinks [1, 0] := by
  have hlist : Listed twoBlinks [1, 0] := blinking_oneBlink.added (by decide) secondBlink
  refine ⟨hlist, ?_, hlist.distinctLocations ?_ ?_⟩ <;>
    simp only [OwnLocations, List.mem_cons, List.not_mem_nil, or_false, forall_eq_or_imp,
      forall_eq] <;> decide

theorem distinct_syncCalls :
    Along blinkStep DistinctLocations (Fish.start fun _ => 0) syncCalls := by
  refine ⟨(blinking_start fun _ => 0).locations, fun f hf => ?_⟩
  obtain rfl := Option.some.inj (blinkStep_firstBlink.symm.trans hf)
  refine ⟨blinking_oneBlink.locations, fun f hf => ?_⟩
  obtain rfl := Option.some.inj (blinkStep_secondBlink.symm.trans hf)
  refine ⟨blinking_twoBlinks.locations, fun f hf => ?_⟩
  cases blinking_twoBlinks.outcome hf with
  | notSynced arg hnone => exact blinking_twoBlinks.locations
  | synced arg i j hi hj hesi hedi =>
    exact (SameList.synced _ i j).distinctLocations blinking_twoBlinks

theorem coherent_iff_sample :
    Along blinkStep Coherent (Fish.start fun _ => 0) syncCalls ↔
      Guarded blinkStep SyncsShown (Fish.start fun _ => 0) syncCalls :=
  coherent_iff (fun _ => 0) syncCalls distinct_syncCalls

/-- Both elements are on, and the second is shown as if it were off. -/
theorem not_coherent : ¬ ∀ (vmem : Nat → UInt8) (calls : List BlinkCall),
    Along blinkStep DistinctLocations (Fish.start vmem) calls →
      Along blinkStep Coherent (Fish.start vmem) calls := by
  intro hscreen
  have hcoherent := (hscreen _ _ distinct_syncCalls).2 _ blinkStep_firstBlink
  have hcoherent := hcoherent.2 _ blinkStep_secondBlink
  obtain ⟨f, hf, -⟩ := blinking_twoBlinks.exists_outcome (.sync 0x10002)
  have hlocations : DistinctLocations f :=
    ((distinct_syncCalls.2 _ blinkStep_firstBlink).2 _ blinkStep_secondBlink).2 f hf
  have hshown := (blinking_twoBlinks.coherent_step_iff hcoherent.1 hlocations hf).mp
    (hcoherent.2 f hf)
  have hlinks := blinking_twoBlinks.links
  have hoff := hshown 0 1 (hlinks.reaches (by decide)) (hlinks.reaches (by decide))
    (by decide) (by decide)
  revert hoff
  decide

end LinuxLikeKernel
