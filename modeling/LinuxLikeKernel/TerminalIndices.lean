import LinuxLikeKernel.VideoPage

/-!
# Indices of the terminal table

`cur_term_id` is 3 until a tick launches a terminal, and `term` has three entries. `term_launch`
tests for that; Enter and the terminal switch do not.

## Main definitions

- `TermAccess`, `Kernel.termAccesses` — the uses of `term` in handling an event
- `IndicesInside` — they stay inside the table, and copies inside the pages of its terminals
- `LaunchedFirst` — no such key before a terminal is displayed

## Main results

- `keyHandler_isSome_iff` — the handler is defined where its indices are
- `indicesInside_iff` — all indices are right exactly along runs that meet `LaunchedFirst`
-/

namespace LinuxLikeKernel
open Kernel Transition

variable {img : Image} {s s' : Kernel} {e : Event} {n : TermId → Nat}

/-! ### Uses of the table -/

/-- A use of `term[i]`: of one of its fields, or of all that `term_save` and `term_restore` copy,
the page at its `video_mem` included. -/
inductive TermAccess
  | field (i : Nat)
  | copy (i : Nat)
  deriving DecidableEq, Repr

/-- `cur_term_id`. -/
def Console.curIndex (k : Console) : Nat := k.curTermId.elim termMax Fin.val

namespace Console

/-- The uses in `keyboard_interrupt_handler`. -/
def keyAccesses (k : Console) (scancode : UInt8) : List TermAccess :=
  match decodeKey scancode with
  | .enter => if k.keyBufIdx < keyBufMax then [.field k.curIndex] else []
  | .fn id => if k.altState then [.copy k.curIndex, .copy id] else []
  | _ => []

/-- The uses in `term_launch`. -/
def launchAccesses (k : Console) (id : TermId) : List TermAccess :=
  if k.curTermId = some id then []
  else if (k.term id).running then [.field id, .copy k.curIndex, .copy id]
  else
    (.field id :: if k.curIndex < termMax then [.copy k.curIndex] else []) ++
      [.copy id, .field id]

end Console

namespace Kernel

/-- The uses in `pit_interrupt_handler`. The next PCB names its terminal itself. -/
def tickAccesses (s : Kernel) : List TermAccess :=
  let now := s.con.nowTermId
  let next := nextTermId now
  [.field next, .field now, .field next] ++
    if (s.con.term next).curPcbId = -1 then s.con.launchAccesses next
    else [.field next, .field (s.saveContext.pcb s.saveContext.nowPcbId).termId]

def termAccesses (s : Kernel) : Event → List TermAccess
  | .tick _ => s.tickAccesses
  | .key scancode _ => s.con.keyAccesses scancode
  | _ => []

end Kernel

/-- The index is that of a terminal, and what is copied is its own page. -/
def TermAccess.Inside (s : Kernel) : TermAccess → Prop
  | .field i => i < termMax
  | .copy i => ∃ t : TermId, t.val = i ∧ (s.con.term t).videoMem = backingPage t

def IndicesInside (s : Kernel) (e : Event) : Prop := ∀ a ∈ s.termAccesses e, a.Inside s

/-- A key that uses `term[cur_term_id]`: Enter while the buffer has room, or a switch. -/
def Console.NeedsTerminal (k : Console) (scancode : UInt8) : Prop :=
  match decodeKey scancode with
  | .enter => k.keyBufIdx < keyBufMax
  | .fn _ => k.altState = true
  | _ => False

/-- Such a key comes after a terminal has been launched. -/
def LaunchedFirst (s : Kernel) : Event → Prop
  | .key scancode _ => s.con.NeedsTerminal scancode → s.con.curTermId ≠ none
  | _ => True

/-! ### Keys -/

variable {k : Console} {scancode : UInt8}

theorem Console.curIndex_lt_iff (k : Console) : k.curIndex < termMax ↔ k.curTermId ≠ none := by
  rw [curIndex]
  cases k.curTermId with
  | none => exact iff_of_false (lt_irrefl _) fun h => h rfl
  | some t => exact iff_of_true t.isLt (by simp)

/-- The handler is defined where its indices are inside the table. -/
theorem keyHandler_isSome_iff :
    (k.keyboardInterruptHandler scancode).isSome ↔
      (k.NeedsTerminal scancode → k.curTermId ≠ none) := by
  simp only [Console.keyboardInterruptHandler, Console.NeedsTerminal]
  cases hkey : decodeKey scancode with
  | shift held => cases held <;> simp
  | enter =>
    simp only [Console.keyEnter, Option.isSome_map]
    split
    · rename_i hroom
      simp [hroom, Option.isSome_iff_ne_none]
    · rename_i hroom
      simp [hroom]
  | fn id =>
    dsimp only
    by_cases halt : k.altState = true
    · simp [halt, Console.termSwitch, Option.isSome_iff_ne_none]
    · simp [halt]
  | other =>
    dsimp only
    cases k.keyChar scancode <;> simp
  | _ => simp

theorem BackingPages.copy_inside (hp : BackingPages s) (t : TermId) :
    (TermAccess.copy t.val).Inside s := ⟨t, rfl, hp t⟩

theorem BackingPages.copy_curIndex_iff (hp : BackingPages s) :
    (TermAccess.copy s.con.curIndex).Inside s ↔ s.con.curTermId ≠ none := by
  rw [← s.con.curIndex_lt_iff]
  constructor
  · rintro ⟨t, ht, -⟩
    exact ht ▸ t.isLt
  · exact fun hlt => ⟨⟨_, hlt⟩, rfl, hp _⟩

/-- A key. -/
theorem keyAccesses_inside_iff (hp : BackingPages s) :
    (∀ a ∈ s.con.keyAccesses scancode, a.Inside s) ↔
      (s.con.keyboardInterruptHandler scancode).isSome := by
  rw [keyHandler_isSome_iff]
  simp only [Console.keyAccesses, Console.NeedsTerminal]
  cases decodeKey scancode with
  | enter =>
    dsimp only
    split
    · rename_i hroom
      rw [List.forall_mem_singleton, TermAccess.Inside, Console.curIndex_lt_iff]
      exact ⟨fun h _ => h, fun h => h hroom⟩
    · rename_i hroom
      exact iff_of_true nofun fun h => absurd h hroom
  | fn id =>
    dsimp only
    split
    · rename_i halt
      rw [List.forall_mem_cons, List.forall_mem_singleton, hp.copy_curIndex_iff]
      exact ⟨fun h _ => h.1, fun h => ⟨h halt, hp.copy_inside id⟩⟩
    · rename_i halt
      exact iff_of_true nofun fun h => absurd h halt
  | _ => exact iff_of_true nofun nofun

/-! ### Ticks -/

/-- A terminal that has been launched is displayed, or another one is. -/
def RunningDisplayed (s : Kernel) : Prop :=
  ∀ t, (s.con.term t).running = true → s.con.curTermId ≠ none

theorem launchAccesses_inside (hp : BackingPages s) (hd : RunningDisplayed s) (id : TermId) :
    ∀ a ∈ s.con.launchAccesses id, a.Inside s := by
  simp only [Console.launchAccesses]
  split
  · exact nofun
  · split
    · rename_i hrun
      intro a ha
      simp only [List.mem_cons, List.not_mem_nil, or_false] at ha
      obtain rfl | rfl | rfl := ha
      · exact id.isLt
      · exact hp.copy_curIndex_iff.mpr (hd id hrun)
      · exact hp.copy_inside id
    · intro a ha
      simp only [List.mem_append, List.mem_cons, List.not_mem_nil, or_false] at ha
      obtain (rfl | hsave) | rfl | rfl := ha
      · exact id.isLt
      · split at hsave
        · rename_i hlt
          obtain rfl := List.mem_singleton.mp hsave
          exact hp.copy_curIndex_iff.mpr (s.con.curIndex_lt_iff.mp hlt)
        · cases hsave
      · exact hp.copy_inside id
      · exact id.isLt

/-- The PCB of the next terminal's process names that terminal. -/
theorem termId_of_next (hr : Rows s.table n)
    (hne : (s.con.term (nextTermId s.con.nowTermId)).curPcbId ≠ -1) :
    (s.saveContext.pcb s.saveContext.nowPcbId).termId = (nextTermId s.con.nowTermId).val := by
  set next := nextTermId s.con.nowTermId
  have hsave := rows_saveContext hr
  have hcur : (s.con.term next).curPcbId = (n next : Int) - 1 := hr.cur next
  have hpos : 0 < n next := by omega
  have hid : s.saveContext.nowPcbId = slotId next (n next - 1) :=
    pcbId_eq hpos (hr.le next) (hsave.cur next)
  rw [hid]
  exact hsave.termId next (n next - 1) (by omega)

/-- A tick. -/
theorem tickAccesses_inside (hr : Rows s.table n) (hp : BackingPages s) (hd : RunningDisplayed s) :
    ∀ a ∈ s.tickAccesses, a.Inside s := by
  intro a ha
  simp only [tickAccesses, List.mem_append, List.mem_cons, List.not_mem_nil, or_false] at ha
  obtain (rfl | rfl | rfl) | ha := ha
  · exact Fin.isLt _
  · exact Fin.isLt _
  · exact Fin.isLt _
  · split at ha
    · exact launchAccesses_inside hp hd _ a ha
    · rename_i hne
      simp only [List.mem_cons, List.not_mem_nil, or_false] at ha
      obtain rfl | rfl := ha
      · exact Fin.isLt _
      · rw [termId_of_next hr hne]
        exact Fin.isLt _

/-! ### Runs -/

theorem runningDisplayed_of_eq (hd : RunningDisplayed s)
    (hrun : ∀ t, (s'.con.term t).running = (s.con.term t).running)
    (hcur : s.con.curTermId ≠ none → s'.con.curTermId ≠ none) : RunningDisplayed s' :=
  fun t ht => hcur (hd t ((hrun t).symm.trans ht))

/-- A tick that launches or shows a terminal displays it. -/
theorem runningDisplayed_tick (hd : RunningDisplayed s) {stale : Stale}
    (h : s.pitInterruptHandler img stale = some s') : RunningDisplayed s' := by
  have hshown : ∀ t : TermId, s'.con.curTermId = some t → RunningDisplayed s' := by
    intro t ht u _
    simp [ht]
  cases pitInterruptHandler_exit h with
  | displayed _ hcur => exact hshown _ hcur
  | shows _ _ _ hk =>
    obtain ⟨old, -, rfl⟩ := Option.map_eq_some_iff.mp hk
    exact hshown _ rfl
  | launches _ _ _ ho =>
    refine hshown (nextTermId s.con.nowTermId) ?_
    exact (sameView_execute ho).2
  | switches _ _ hres =>
    obtain ⟨cpu, rfl⟩ := resume_eq hres
    exact hd

/-- **Step lemma.** Once a terminal runs, one is displayed. -/
theorem runningDisplayed_step (hd : RunningDisplayed s)
    (h : step img s e = some s') : RunningDisplayed s' := by
  by_cases htick : e.isTick = true
  · cases e with
    | tick stale => exact runningDisplayed_tick hd (step_tick h)
    | _ => cases htick
  · have htick := Bool.eq_false_iff.mpr htick
    have hphase := phase_step htick h
    refine runningDisplayed_of_eq hd (fun t => congrFun (congrArg Prod.snd hphase) t) fun hne => ?_
    by_cases hkey : ∃ scancode stale, e = .key scancode stale
    · obtain ⟨scancode, stale, rfl⟩ := hkey
      rw [(keyboardInterrupt_view (step_key h)).2]
      cases s.con.switchTarget scancode with
      | none => exact hne
      | some t => simp
    · rw [curTermId_step htick (fun scancode stale he => hkey ⟨scancode, stale, he⟩) h]
      exact hne

/-- What the indices depend on. -/
def TableSound (s : Kernel) : Prop := (∃ n, Rows s.table n) ∧ BackingPages s ∧ RunningDisplayed s

theorem tableSound_step (hwf : WellFormed img) (hsound : TableSound s) (hg : KeepsStacks img s e)
    (h : step img s e = some s') : TableSound s' := by
  obtain ⟨⟨n, hr⟩, hp, hd⟩ := hsound
  obtain ⟨n', hr', -⟩ := rows_step hwf hr hg h
  exact ⟨⟨n', hr'⟩, backingPages_step hp h, runningDisplayed_step hd h⟩

theorem tableSound_boot (s : Kernel) : TableSound (boot s) :=
  ⟨⟨_, rows_boot s⟩, backingPages_boot s, fun _ ht => by cases ht⟩

theorem indicesInside_iff_launchedFirst (hsound : TableSound s) (e : Event) :
    IndicesInside s e ↔ LaunchedFirst s e := by
  obtain ⟨⟨n, hr⟩, hp, hd⟩ := hsound
  cases e with
  | tick stale => exact iff_of_true (tickAccesses_inside hr hp hd) trivial
  | key scancode stale => exact (keyAccesses_inside_iff hp).trans keyHandler_isSome_iff
  | _ => exact iff_of_true nofun trivial

/-- Along a run from `term_init` that calls `halt` only in terminals with a process, and in which
no load faults, all indices of `term` are those of terminals, and only pages of terminals are
copied, exactly if Enter and the terminal switch come after the first launch. -/
theorem indicesInside_iff (hwf : WellFormed img) {s₀ : Kernel} {es : List Event}
    (hlive : Guarded (step img) (KeepsStacks img) (boot s₀) es) :
    Guarded (step img) IndicesInside (boot s₀) es ↔
      Guarded (step img) LaunchedFirst (boot s₀) es :=
  guarded_congr (fun _ _ _ hsound hg h => tableSound_step hwf hsound hg h)
    (fun _ e hsound _ => indicesInside_iff_launchedFirst hsound e) (tableSound_boot s₀) hlive

instance (s : Kernel) : ∀ e, Decidable (LaunchedFirst s e)
  | .key _ _ => decidable_of_iff _ keyHandler_isSome_iff
  | .tick _ | .rtc | .execute .. | .halt .. | .exception .. | .open _ | .close _ | .read ..
  | .write .. | .getargs .. | .vidmap _ | .run => isTrue trivial

/-- Terminal 1 is launched, Enter is pressed there, then terminal 0 is shown. -/
def firstKeys : List Event :=
  [.tick noStale, .key 0x1C noStale, .key 0x38 noStale, .key 0x3B noStale, .tick noStale]

theorem indicesInside_iff_sample :
    Guarded (step sampleImage) IndicesInside (boot powerOn) firstKeys := by
  have hguards : Guarded (step sampleImage) (KeepsStacks sampleImage) (boot powerOn) firstKeys ∧
      Guarded (step sampleImage) LaunchedFirst (boot powerOn) firstKeys := by decide +kernel
  exact (indicesInside_iff sampleImage_bootable.toWellFormed hguards.1).mpr hguards.2

/-- Enter before the first tick sets the flag of a fourth terminal. -/
theorem not_indicesInside : ¬ ∀ img, Bootable img → ∀ (s₀ : Kernel) (es : List Event),
    (∀ e ∈ es, e.isTick = true ∨ ∃ scancode stale, e = .key scancode stale) →
      Guarded (step img) IndicesInside (boot s₀) es := by
  intro hindices
  have hguard := hindices sampleImage sampleImage_bootable powerOn [.key 0x1C noStale] (by
    intro e he
    obtain rfl := List.mem_singleton.mp he
    exact .inr ⟨_, _, rfl⟩)
  have hinside : (TermAccess.field 3).Inside (boot powerOn) := by
    refine hguard.1 _ ?_
    decide
  exact absurd hinside (lt_irrefl 3)

end LinuxLikeKernel
