import LinuxLikeKernel.ConsoleSteps
import LinuxLikeKernel.Stations

/-!
# The legends of the keys

Rows 0 and 1 of `scancode_map` are the plain and the shifted legends of the keys. A key should
enter the shifted one while a Shift key is held, and with Caps Lock the other case of a letter. The
handler has one bit for the two Shift keys, though, and in the row for both Shift and Caps Lock one
legend is not the shifted one.

## Main definitions

- `Keyboard` — the keys that are held, as the make and break codes tell
- `Keyboard.legend` — what a key should enter
- `RightChar` — a character that is entered is that of the key
- `LegendsAgree` — the handler and the keyboard agree on the legend

## Main results

- `modifiers_step` — only keys change the handler's state
- `rightChar_iff` — when all characters are right in a run of the kernel
-/

namespace LinuxLikeKernel
open Transition Kernel

/-! ### The keyboard -/

/-- The keys that are held, by their make codes, whether Caps Lock has been pressed an odd number of
times, and whether the last code of a Shift key was a make code. -/
structure Keyboard where
  held : UInt8 → Bool
  capsLock : Bool
  lastShift : Bool

namespace Keyboard

/-- The make code of the key that a scan code is from. -/
def keyOf (scancode : UInt8) : UInt8 := scancode &&& 0x7F

/-- A make code, the key being pressed. -/
def isMake (scancode : UInt8) : Bool := scancode < 0x80

/-- The keyboard after a make or break code. -/
def after (x : Keyboard) (scancode : UInt8) : Keyboard where
  held := Function.update x.held (keyOf scancode) (isMake scancode)
  capsLock := if scancode = 0x3A then !x.capsLock else x.capsLock
  lastShift := if keyOf scancode = 0x2A ∨ keyOf scancode = 0x36 then isMake scancode
    else x.lastShift

/-- A Shift key is held. -/
def shift (x : Keyboard) : Bool := x.held 0x2A || x.held 0x36

/-- The code is one that the keyboard can send: a key is pressed when it is up, and released when it
is down. -/
def Sends (x : Keyboard) (scancode : UInt8) : Prop := x.held (keyOf scancode) = !isMake scancode

/-- The other case of a letter. -/
def otherCase (c : UInt8) : UInt8 :=
  if 97 ≤ c ∧ c ≤ 122 then c - 32 else if 65 ≤ c ∧ c ≤ 90 then c + 32 else c

/-- What a key enters with Shift held or not and Caps Lock on or off. -/
def legendWith (shift capsLock : Bool) (scancode : UInt8) : UInt8 :=
  let c := (scancodeMap.getD shift.toNat []).getD scancode.toNat 0
  if capsLock then otherCase c else c

/-- What the key should enter. -/
def legend (x : Keyboard) (scancode : UInt8) : UInt8 := legendWith x.shift x.capsLock scancode

/-- All keys are up. -/
def idle : Keyboard := ⟨fun _ => false, false, false⟩

end Keyboard

/-- The kernel, and the keyboard after all codes that it has received. -/
abbrev TypedKernel := Kernel × Keyboard

/-- A step of the kernel, and of the keyboard. -/
def keyboardStep (img : Image) : TypedKernel → Event → Option TypedKernel :=
  logged (step img) fun _ e _ keyboard =>
    match e with
    | .key scancode _ => keyboard.after scancode
    | _ => keyboard

/-! ### What should hold -/

/-- The codes of keys alternate. -/
def SendsCodes (x : TypedKernel) : Event → Prop
  | .key scancode _ => x.2.Sends scancode
  | _ => True

/-- A key that adds a character to `key_buf` adds the one that it should. -/
def RightChar (x : TypedKernel) : Event → Prop
  | .key scancode _ => decodeKey scancode = .other → ∀ k ctrlC,
      x.1.con.keyboardInterruptHandler scancode = some (k, ctrlC) →
      k.keyBufIdx = x.1.con.keyBufIdx + 1 →
      k.keyBuf x.1.con.keyBufIdx = x.2.legend scancode
  | _ => True

/-- The handler finds the key in the table. -/
def IndexInside (x : TypedKernel) : Event → Prop
  | .key scancode _ => decodeKey scancode = .other → scancode.toNat < 59 →
      ∃ row, scancodeMap[x.1.con.scancodeState.toNat]? = some row ∧ scancode.toNat < row.length
  | _ => True

/-- A key that adds a character is pressed while either no Shift key is held or the last code of one
was a make code, or it has one legend only; and the backslash key not with both Shift and Caps
Lock. -/
def LegendsAgree (x : TypedKernel) : Event → Prop
  | .key scancode _ => decodeKey scancode = .other → (x.1.con.keyChar scancode).isSome →
      x.1.con.ctrlState = false → x.1.con.keyBufIdx < keyBufMax - 1 →
      if scancode = 0x2B ∧ x.2.capsLock then x.2.shift = false
      else scancode = 0x37 ∨ scancode = 0x39 ∨ x.2.lastShift = x.2.shift
  | _ => True

/-! ### The state of the handler -/

/-- `scancode_state`, for a keyboard. -/
def Keyboard.state (x : Keyboard) : UInt8 :=
  (if x.capsLock then 2 else 0) ||| (if x.lastShift then 1 else 0)

/-- The handler's state is that for the keyboard. -/
def StateRight (x : TypedKernel) : Prop := x.1.con.scancodeState = x.2.state

variable {img : Image} {s s' : Kernel} {k k' : Console} {scancode : UInt8}

theorem exists_fin_eq (c : UInt8) : ∃ n : Fin 256, c = UInt8.ofNat n.val :=
  ⟨⟨c.toNat, c.toNat_lt⟩, by simp⟩

/-- The handler changes its state as the keyboard does. -/
theorem scancodeState_after {x : Keyboard} {m : Modifiers} (hm : m.scancodeState = x.state)
    (scancode : UInt8) : (m.after scancode).scancodeState = (x.after scancode).state := by
  have hall : ∀ (capsLock lastShift : Bool) (n : Fin 256),
      (Modifiers.after ⟨Keyboard.state ⟨fun _ => false, capsLock, lastShift⟩, false, false⟩
        (UInt8.ofNat n.val)).scancodeState =
      (Keyboard.after ⟨fun _ => false, capsLock, lastShift⟩ (UInt8.ofNat n.val)).state := by
    decide +kernel
  have hmodifiers : (m.after scancode).scancodeState =
      (Modifiers.after ⟨m.scancodeState, false, false⟩ scancode).scancodeState := by
    simp only [Modifiers.after]
    split <;> rfl
  obtain ⟨n, rfl⟩ := exists_fin_eq scancode
  rw [hmodifiers, hm]
  exact hall x.capsLock x.lastShift n

theorem modifiers_key {ctrlC : Bool}
    (h : k.keyboardInterruptHandler scancode = some (k', ctrlC)) :
    k'.modifiers = k.modifiers.after scancode := by
  simp only [Console.keyboardInterruptHandler] at h
  simp only [Modifiers.after]
  cases hkey : decodeKey scancode with
  | capsLock =>
    rw [hkey] at h
    obtain ⟨rfl, -⟩ := Prod.mk.inj (Option.some.inj h)
    rfl
  | shift held =>
    rw [hkey] at h
    cases held with
    | true =>
      obtain ⟨rfl, -⟩ := Prod.mk.inj (Option.some.inj h)
      rfl
    | false =>
      obtain ⟨rfl, -⟩ := Prod.mk.inj (Option.some.inj h)
      rfl
  | ctrl held =>
    rw [hkey] at h
    obtain ⟨rfl, -⟩ := Prod.mk.inj (Option.some.inj h)
    rfl
  | alt held =>
    rw [hkey] at h
    obtain ⟨rfl, -⟩ := Prod.mk.inj (Option.some.inj h)
    rfl
  | enter =>
    rw [hkey] at h
    obtain ⟨m, hm, heq⟩ := Option.map_eq_some_iff.mp h
    obtain ⟨rfl, -⟩ := Prod.mk.inj heq
    exact Console.modifiers_keyEnter hm
  | backspace =>
    rw [hkey] at h
    obtain ⟨rfl, -⟩ := Prod.mk.inj (Option.some.inj h)
    exact Console.modifiers_keyBackspace k
  | fn id =>
    rw [hkey] at h
    dsimp only at h
    split at h
    · obtain ⟨m, hm, heq⟩ := Option.map_eq_some_iff.mp h
      obtain ⟨rfl, -⟩ := Prod.mk.inj heq
      obtain ⟨d, -, rfl⟩ := Option.map_eq_some_iff.mp hm
      rfl
    · obtain ⟨rfl, -⟩ := Prod.mk.inj (Option.some.inj h)
      rfl
  | other =>
    rw [hkey] at h
    dsimp only at h
    cases hchar : k.keyChar scancode with
    | none =>
      rw [hchar] at h
      obtain ⟨rfl, -⟩ := Prod.mk.inj (Option.some.inj h)
      rfl
    | some key =>
      rw [hchar] at h
      have hk : k.keyDefault key = (k', ctrlC) := Option.some.inj h
      have hchar : CharStep k key k' ctrlC := by
        have hstep := charStep k key
        rwa [hk] at hstep
      cases hchar <;> rfl

theorem modifiers_multiPlaceCursor (k : Console) (x y : Nat) :
    (k.multiPlaceCursor x y).modifiers = k.modifiers := by
  simp only [Console.multiPlaceCursor]
  split <;> rfl

theorem modifiers_multiPuts (k : Console) (str : List UInt8) :
    (k.multiPuts str).modifiers = k.modifiers := by
  induction str generalizing k with
  | nil => rfl
  | cons c str ih =>
    refine (ih (k.multiPutc c)).trans ?_
    simp only [Console.multiPutc]
    split
    · exact modifiers_multiPlaceCursor ..
    · simp only [Console.multiSetScreenCursor]
      split <;> exact modifiers_multiPlaceCursor ..

/-- The kernel does not touch the handler's state otherwise. -/
theorem keptBesideKeys_modifiers (m : Modifiers) : KeptBesideKeys fun k => k.modifiers = m where
  now _ h := h
  vidmem _ h := h
  mem _ h := h
  puts _ h := h
  multiPuts str h := (modifiers_multiPuts _ str).trans h
  curPcbId _ _ h := h
  bufClear h := h
  launchTerm id h := by
    simp only [Console.launchTerm]
    split <;> exact h
  termSwitch _ h hk := by
    obtain ⟨d, -, rfl⟩ := Option.map_eq_some_iff.mp hk
    exact h
  readTurn length phase h := by
    cases phase with
    | wait => exact h
    | woken => exact h
    | copy i =>
      simp only [Console.termReadTurn]
      split <;> exact h
    | clear j count =>
      simp only [Console.termReadTurn]
      split <;> exact h

/-- **The handler's state** after a step of the kernel is that for the keyboard. -/
theorem state_step {x x' : TypedKernel} {e : Event}
    (hstate : StateRight x) (h : keyboardStep img x e = some x') : StateRight x' := by
  obtain ⟨hstep, hlog⟩ := logged_eq_some.mp h
  rw [StateRight, hlog]
  cases e with
  | key scancode stale =>
    have hafter := (keptBesideKeys_modifiers (x.1.con.modifiers.after scancode)).key
      (fun k ctrlC hk => modifiers_key hk) hstep
    refine (congrArg Modifiers.scancodeState hafter).trans ?_
    exact scancodeState_after (m := x.1.con.modifiers) hstate scancode
  | _ =>
    have hsame := (keptBesideKeys_modifiers x.1.con.modifiers).step
      (fun _ _ => Event.noConfusion) rfl hstep
    exact (congrArg Modifiers.scancodeState hsame).trans hstate

/-! ### Characters -/

/-- Behind the end of a row there is no character. -/
theorem key_eq_zero_of_le {i j : Nat} (hj : 59 ≤ j) : (scancodeMap.getD i []).getD j 0 = 0 := by
  have hrows : ∀ row ∈ scancodeMap, row.length = 59 := by decide
  by_cases hi : i < scancodeMap.length
  · rw [List.getD_eq_getElem _ _ hi]
    exact List.getD_eq_default _ _ (hrows _ (List.getElem_mem hi) ▸ hj)
  · rw [List.getD_eq_default _ _ (Nat.le_of_not_lt hi)]
    rfl

/-- In the table a key has the legend that it should have, or not, by the state of the handler. -/
theorem key_eq_legend_iff {x : Keyboard} {key : UInt8}
    (htable : (scancodeMap.getD x.state.toNat []).getD scancode.toNat 0 = key) (hne : key ≠ 0) :
    key = x.legend scancode ↔ if scancode = 0x2B ∧ x.capsLock then x.shift = false
      else scancode = 0x37 ∨ scancode = 0x39 ∨ x.lastShift = x.shift := by
  have hall : ∀ (shift lastShift capsLock : Bool) (n : Fin 59),
      (scancodeMap.getD (Keyboard.state ⟨fun _ => false, capsLock, lastShift⟩).toNat []).getD
        (UInt8.ofNat n.val).toNat 0 ≠ 0 →
      ((scancodeMap.getD (Keyboard.state ⟨fun _ => false, capsLock, lastShift⟩).toNat []).getD
        (UInt8.ofNat n.val).toNat 0 =
          Keyboard.legendWith shift capsLock (UInt8.ofNat n.val) ↔
        if UInt8.ofNat n.val = 0x2B ∧ capsLock then shift = false
        else UInt8.ofNat n.val = 0x37 ∨ UInt8.ofNat n.val = 0x39 ∨ lastShift = shift) := by
    decide +kernel
  subst htable
  have hlt : scancode.toNat < 59 := by
    by_contra hge
    exact hne (key_eq_zero_of_le (Nat.le_of_not_lt hge))
  have hcode := hall x.shift x.lastShift x.capsLock ⟨scancode.toNat, hlt⟩
  simp only [UInt8.ofNat_toNat] at hcode
  exact hcode hne

variable {x x' : TypedKernel} {e : Event}

theorem keyChar_eq_some {key : UInt8} (h : k.keyChar scancode = some key) :
    (scancodeMap.getD k.scancodeState.toNat []).getD scancode.toNat 0 = key ∧ key ≠ 0 := by
  rw [Console.keyChar] at h
  split at h
  · cases h
  · dsimp only at h
    split at h
    · cases h
    · rename_i hkey
      obtain rfl := Option.some.inj h
      exact ⟨rfl, fun hzero => hkey (.inl hzero)⟩

theorem handler_noChar (hkey : decodeKey scancode = .other) (hchar : k.keyChar scancode = none) :
    k.keyboardInterruptHandler scancode = some (k, false) := by
  simp only [Console.keyboardInterruptHandler, hkey, hchar]

theorem handler_char {key : UInt8} (hkey : decodeKey scancode = .other)
    (hchar : k.keyChar scancode = some key) :
    k.keyboardInterruptHandler scancode = some (k.keyDefault key) := by
  simp only [Console.keyboardInterruptHandler, hkey, hchar]

/-- **Exactness.** A character that is added is right exactly if the handler's row of the table has
the legend of the key. -/
theorem rightChar_iff_agree (hstate : StateRight x) (e : Event) :
    RightChar x e ↔ LegendsAgree x e := by
  cases e with
  | key scancode stale =>
    refine imp_congr_right fun hkey => ?_
    cases hchar : x.1.con.keyChar scancode with
    | none =>
      rw [handler_noChar hkey hchar]
      refine iff_of_true (fun k ctrlC hk hidx => ?_) (fun h => by cases h)
      obtain ⟨rfl, -⟩ := Prod.mk.inj (Option.some.inj hk)
      omega
    | some key =>
      obtain ⟨htable, hne⟩ := keyChar_eq_some hchar
      rw [hstate] at htable
      have hlegend := key_eq_legend_iff htable hne
      rw [handler_char hkey hchar]
      obtain ⟨⟨k₁, ctrlC₁⟩, hdefault⟩ : ∃ r, x.1.con.keyDefault key = r := ⟨_, rfl⟩
      rw [hdefault]
      have hstep : CharStep x.1.con key k₁ ctrlC₁ := by
        have hstep := charStep x.1.con key
        rwa [hdefault] at hstep
      -- only a character that is typed moves the index on
      cases hstep with
      | clear hctrl hl =>
        refine iff_of_true (fun k ctrlC hk hidx => ?_) fun _ hno => ?_
        · obtain ⟨rfl, -⟩ := Prod.mk.inj (Option.some.inj hk)
          exact absurd hidx (Nat.ne_of_lt (Nat.lt_succ_self _))
        · exact absurd (hctrl.symm.trans hno) (by decide)
      | ctrlC hctrl hc =>
        refine iff_of_true (fun k ctrlC hk hidx => ?_) fun _ hno => ?_
        · obtain ⟨rfl, -⟩ := Prod.mk.inj (Option.some.inj hk)
          exact absurd hidx (Nat.succ_ne_zero _).symm
        · exact absurd (hctrl.symm.trans hno) (by decide)
      | shortcut hctrl hl hc =>
        refine iff_of_true (fun k ctrlC hk hidx => ?_) fun _ hno => ?_
        · obtain ⟨rfl, -⟩ := Prod.mk.inj (Option.some.inj hk)
          exact absurd hidx (Nat.ne_of_lt (Nat.lt_succ_self _))
        · exact absurd (hctrl.symm.trans hno) (by decide)
      | typed hctrl hlt =>
        have hadded : Function.update x.1.con.keyBuf x.1.con.keyBufIdx key x.1.con.keyBufIdx =
          key := Function.update_self ..
        constructor
        · intro hright _ _ _
          exact hlegend.mp (hadded.symm.trans (hright _ _ rfl rfl))
        · intro hagree k ctrlC hk _
          obtain ⟨rfl, -⟩ := Prod.mk.inj (Option.some.inj hk)
          exact hadded.trans (hlegend.mpr (hagree rfl hctrl hlt))
      | full hctrl hfull =>
        refine iff_of_true (fun k ctrlC hk hidx => ?_) fun _ _ hlt => absurd hlt hfull
        obtain ⟨rfl, -⟩ := Prod.mk.inj (Option.some.inj hk)
        exact absurd hidx (Nat.ne_of_lt (Nat.lt_succ_self _))
  | _ => exact Iff.rfl

/-- The table has a row for each state of the handler, and 59 keys in each row. -/
theorem indexInside (hstate : StateRight x) (e : Event) : IndexInside x e := by
  cases e with
  | key scancode stale =>
    intro _ hlt
    have hrows : ∀ capsLock lastShift : Bool, ∃ row,
        scancodeMap[(Keyboard.state ⟨fun _ => false, capsLock, lastShift⟩).toNat]? = some row ∧
          row.length = 59 := by decide
    obtain ⟨row, hrow, hlen⟩ := hrows x.2.capsLock x.2.lastShift
    rw [hstate]
    exact ⟨row, hrow, hlen ▸ hlt⟩
  | _ => trivial

/-- In every run of the kernel the handler stays inside the table, and all characters that keys add
are right exactly if each is added while the handler's Shift bit is right or does not matter, the
backslash key's with Caps Lock while no Shift key is held. -/
theorem rightChar_iff (img : Image) (s₀ : Kernel) (es : List Event) :
    Guarded (keyboardStep img) IndexInside (boot s₀, .idle) es ∧
      (Guarded (keyboardStep img) RightChar (boot s₀, .idle) es ↔
        Guarded (keyboardStep img) LegendsAgree (boot s₀, .idle) es) := by
  have hinv : ∀ x e x', StateRight x → True → keyboardStep img x e = some x' → StateRight x' :=
    fun _ _ _ hstate _ h => state_step hstate h
  have hstart : StateRight (boot s₀, .idle) :=
    show (0 : UInt8) = Keyboard.idle.state by decide
  have hall : Guarded (keyboardStep img) (fun _ _ => True) (boot s₀, .idle) es :=
    Guarded.of_forall (fun _ _ => trivial) _ _
  have hinside : Guarded (keyboardStep img) IndexInside (boot s₀, .idle) es ↔
      Guarded (keyboardStep img) (fun _ _ => True) (boot s₀, .idle) es :=
    guarded_congr hinv (fun x e hstate _ => iff_of_true (indexInside hstate e) trivial) hstart hall
  exact ⟨hinside.mpr hall,
    guarded_congr hinv (fun x e hstate _ => rightChar_iff_agree hstate e) hstart hall⟩

instance (x : TypedKernel) (e : Event) : Decidable (SendsCodes x e) := by
  delta SendsCodes
  cases e with
  | key scancode stale => exact inferInstanceAs (Decidable (_ = _))
  | _ => infer_instance

/-- Both Shift keys are pressed and one is released, then A is pressed. -/
def shiftEvents : List Event :=
  [.key 0x2A noStale, .key 0x36 noStale, .key 0xB6 noStale, .key 0x1E noStale]

/-- The small letter is entered. -/
theorem not_rightChar : ¬ ∀ (img : Image) (s₀ : Kernel) (es : List Event),
    Guarded (keyboardStep img) SendsCodes (boot s₀, .idle) es →
      Guarded (keyboardStep img) RightChar (boot s₀, .idle) es := by
  intro hlegends
  have hright := hlegends sampleImage powerOn shiftEvents (by decide +kernel)
  obtain ⟨hright, -⟩ := ((hright.2 _ rfl).2 _ rfl).2 _ rfl
  exact absurd (hright rfl _ _ rfl rfl) (by decide)

end LinuxLikeKernel
