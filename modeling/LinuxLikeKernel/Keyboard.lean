import LinuxLikeKernel.Terminal

/-!
# Keyboard interrupts

`keyboard.c`: the scan code table and the interrupt handler, which edits the line buffer,
echoes, and switches the displayed terminal.
-/

namespace LinuxLikeKernel

/-- `scancode_map`, by `scancode_state` (bit 0 shift, bit 1 caps lock) and scan code, as
character codes; 0 for the special keys. -/
def scancodeMap : List (List UInt8) :=
  -- capslock=0 and shift=0
  [[0, 0, 49, 50, 51, 52, 53, 54, 55, 56, 57, 48, 45, 61, 0, 0,
    113, 119, 101, 114, 116, 121, 117, 105, 111, 112, 91, 93, 0, 0, 97, 115,
    100, 102, 103, 104, 106, 107, 108, 59, 39, 96, 0, 92, 122, 120, 99, 118,
    98, 110, 109, 44, 46, 47, 0, 42, 0, 32, 0],
  -- capslock=0 and shift=1
   [0, 0, 33, 64, 35, 36, 37, 94, 38, 42, 40, 41, 95, 43, 0, 0,
    81, 87, 69, 82, 84, 89, 85, 73, 79, 80, 123, 125, 0, 0, 65, 83,
    68, 70, 71, 72, 74, 75, 76, 58, 34, 126, 0, 124, 90, 88, 67, 86,
    66, 78, 77, 60, 62, 63, 0, 42, 0, 32, 0],
  -- capslock=1 and shift=0
   [0, 0, 49, 50, 51, 52, 53, 54, 55, 56, 57, 48, 45, 61, 0, 0,
    81, 87, 69, 82, 84, 89, 85, 73, 79, 80, 91, 93, 0, 0, 65, 83,
    68, 70, 71, 72, 74, 75, 76, 59, 39, 96, 0, 92, 90, 88, 67, 86,
    66, 78, 77, 44, 46, 47, 0, 42, 0, 32, 0],
  -- capslock=1 and shift=1
   [0, 0, 33, 64, 35, 36, 37, 94, 38, 42, 40, 41, 95, 43, 0, 0,
    113, 119, 101, 114, 116, 121, 117, 105, 111, 112, 123, 125, 0, 0, 97, 115,
    100, 102, 103, 104, 106, 107, 108, 58, 34, 126, 0, 92, 122, 120, 99, 118,
    98, 110, 109, 60, 62, 63, 0, 42, 0, 32, 0]]

/-- What a scan code asks for. -/
inductive Key
  | capsLock
  | shift (held : Bool)
  | ctrl (held : Bool)
  | alt (held : Bool)
  | enter
  | backspace
  | fn (id : TermId)
  | other
  deriving DecidableEq, Repr

/-- The `case` labels of the handler's `switch`. -/
def decodeKey (scancode : UInt8) : Key :=
  match scancode.toNat with
  | 0x3A => .capsLock
  | 0x2A => .shift true
  | 0xAA => .shift false
  | 0x36 => .shift true
  | 0xB6 => .shift false
  | 0x1D => .ctrl true
  | 0x9D => .ctrl false
  | 0x38 => .alt true
  | 0xB8 => .alt false
  | 0x1C => .enter
  | 0x0E => .backspace
  | 0x3B => .fn 0
  | 0x3C => .fn 1
  | 0x3D => .fn 2
  | _ => .other

namespace Console

/-- The character of a scan code in the `default` case, if it has one and Alt is not held. -/
def keyChar (k : Console) (scancode : UInt8) : Option UInt8 :=
  -- the size of a row of `scancode_map`
  if 59 ≤ scancode.toNat then none
  else
    let key := (scancodeMap.getD k.scancodeState.toNat []).getD scancode.toNat 0
    if key = 0 ∨ k.altState then none else some key

/-- The `ENTER` case. With no terminal displayed it sets the flag of the record past `term`,
which is not defined. -/
def keyEnter (k : Console) : Option Console :=
  if k.keyBufIdx < keyBufMax then
    k.curTermId.map fun cur =>
      let k' := { k with
        keyBuf := Function.update k.keyBuf k.keyBufIdx 10, keyBufIdx := k.keyBufIdx + 1 }
      let k' := k'.setTerm cur { k'.term cur with enterState := true }
      k'.setScreen (LinuxLikeKernel.enter (some cur) k.screen)
  else some k

/-- The `BACKSPACE` case. -/
def keyBackspace (k : Console) : Console :=
  if 0 < k.keyBufIdx then
    { k with
      screen := LinuxLikeKernel.backspace k.curTermId k.screen
      keyBufIdx := k.keyBufIdx - 1
      keyBuf := Function.update k.keyBuf (k.keyBufIdx - 1) 0 }
  else k

/-- The `default` case for a character: the console after it, and `ctrl_c_flag`. -/
def keyDefault (k : Console) (key : UInt8) : Console × Bool :=
  if k.ctrlState then
    if key = 108 ∨ key = 76 then
      let sc := LinuxLikeKernel.clear k.curTermId k.screen
      (k.setScreen (setScreenCursor k.curTermId sc 0 0), false)
    else if key = 99 ∨ key = 67 then (k.bufClear, true)
    else (k, false)
  -- the last place is kept for the newline
  else if k.keyBufIdx < keyBufMax - 1 then
    ({ k with
        keyBuf := Function.update k.keyBuf k.keyBufIdx key
        keyBufIdx := k.keyBufIdx + 1
        screen := putc k.curTermId key k.screen }, false)
  else (k, false)

/-- `keyboard_interrupt_handler` up to its last line, which calls `halt(1)` when the flag
returned here is set. -/
def keyboardInterruptHandler (k : Console) (scancode : UInt8) : Option (Console × Bool) :=
  match decodeKey scancode with
  | .capsLock => some ({ k with scancodeState := k.scancodeState ^^^ 2 }, false)
  | .shift true => some ({ k with scancodeState := k.scancodeState ||| 1 }, false)
  | .shift false => some ({ k with scancodeState := k.scancodeState &&& 0xFE }, false)
  | .ctrl held => some ({ k with ctrlState := held }, false)
  | .alt held => some ({ k with altState := held }, false)
  | .enter => k.keyEnter.map fun k => (k, false)
  | .backspace => some (k.keyBackspace, false)
  | .fn id => if k.altState then (k.termSwitch k.curTermId id).map fun k => (k, false)
      else some (k, false)
  | .other =>
    match k.keyChar scancode with
    | none => some (k, false)
    | some key => some (k.keyDefault key)

end Console

/-! ### What a key can do -/

/-- Keys that are held, and caps lock. -/
def Key.isModifier : Key → Bool
  | .capsLock => true
  | .shift _ => true
  | .ctrl _ => true
  | .alt _ => true
  | _ => false

/-- What a character can do, with the branch of `keyDefault` that does it. -/
inductive CharStep (k : Console) (key : UInt8) : Console → Bool → Prop
  | clear (hctrl : k.ctrlState = true) (hl : key = 108 ∨ key = 76) :
      CharStep k key
        (k.setScreen (setScreenCursor k.curTermId (clear k.curTermId k.screen) 0 0)) false
  | ctrlC (hctrl : k.ctrlState = true) (hc : key = 99 ∨ key = 67) : CharStep k key k.bufClear true
  | shortcut (hctrl : k.ctrlState = true) (hl : ¬(key = 108 ∨ key = 76))
      (hc : ¬(key = 99 ∨ key = 67)) : CharStep k key k false
  | typed (hctrl : k.ctrlState = false) (hlt : k.keyBufIdx < keyBufMax - 1) :
      CharStep k key { k with
        keyBuf := Function.update k.keyBuf k.keyBufIdx key
        keyBufIdx := k.keyBufIdx + 1
        screen := putc k.curTermId key k.screen } false
  | full (hctrl : k.ctrlState = false) (hfull : ¬ k.keyBufIdx < keyBufMax - 1) :
      CharStep k key k false

theorem charStep (k : Console) (key : UInt8) :
    CharStep k key (k.keyDefault key).1 (k.keyDefault key).2 := by
  by_cases hctrl : k.ctrlState = true
  · simp only [Console.keyDefault, if_pos hctrl]
    by_cases hl : key = 108 ∨ key = 76
    · rw [if_pos hl]
      exact .clear hctrl hl
    · rw [if_neg hl]
      by_cases hc : key = 99 ∨ key = 67
      · rw [if_pos hc]
        exact .ctrlC hctrl hc
      · rw [if_neg hc]
        exact .shortcut hctrl hl hc
  · simp only [Console.keyDefault, if_neg hctrl]
    have hctrl := Bool.eq_false_iff.mpr hctrl
    by_cases hlt : k.keyBufIdx < keyBufMax - 1
    · rw [if_pos hlt]
      exact .typed hctrl hlt
    · rw [if_neg hlt]
      exact .full hctrl hlt

/-- What a key can do, with the case of the handler that does it. -/
inductive KeyStep (k : Console) (scancode : UInt8) : Console → Bool → Prop
  | modifier (scancodeState : UInt8) (ctrlState altState : Bool)
      (hkey : (decodeKey scancode).isModifier = true) :
      KeyStep k scancode { k with scancodeState, ctrlState, altState } false
  | enter {k' : Console} (hkey : decodeKey scancode = .enter) (hk : k.keyEnter = some k') :
      KeyStep k scancode k' false
  | backspace (hkey : decodeKey scancode = .backspace) : KeyStep k scancode k.keyBackspace false
  | switch {id : TermId} {k' : Console} (hkey : decodeKey scancode = .fn id)
      (halt : k.altState = true) (hk : k.termSwitch k.curTermId id = some k') :
      KeyStep k scancode k' false
  | fn {id : TermId} (hkey : decodeKey scancode = .fn id) (halt : k.altState = false) :
      KeyStep k scancode k false
  | noChar (hkey : decodeKey scancode = .other) (hchar : k.keyChar scancode = none) :
      KeyStep k scancode k false
  | char {key : UInt8} {k' : Console} {ctrlC : Bool} (hkey : decodeKey scancode = .other)
      (hchar : k.keyChar scancode = some key) (hk : CharStep k key k' ctrlC) :
      KeyStep k scancode k' ctrlC

theorem keyStep {k k' : Console} {scancode : UInt8} {ctrlC : Bool}
    (h : k.keyboardInterruptHandler scancode = some (k', ctrlC)) :
    KeyStep k scancode k' ctrlC := by
  have hsome : ∀ {m : Console} {c : Bool}, some (m, c) = some (k', ctrlC) →
      KeyStep k scancode m c → KeyStep k scancode k' ctrlC := by
    intro m c heq hm
    obtain ⟨rfl, rfl⟩ := Prod.mk.inj (Option.some.inj heq)
    exact hm
  simp only [Console.keyboardInterruptHandler] at h
  cases hkey : decodeKey scancode with
  | capsLock =>
    rw [hkey] at h
    exact hsome h (.modifier _ k.ctrlState k.altState (by rw [hkey]; rfl))
  | shift held =>
    rw [hkey] at h
    cases held with
    | true => exact hsome h (.modifier _ k.ctrlState k.altState (by rw [hkey]; rfl))
    | false => exact hsome h (.modifier _ k.ctrlState k.altState (by rw [hkey]; rfl))
  | ctrl held =>
    rw [hkey] at h
    exact hsome h (.modifier k.scancodeState held k.altState (by rw [hkey]; rfl))
  | alt held =>
    rw [hkey] at h
    exact hsome h (.modifier k.scancodeState k.ctrlState held (by rw [hkey]; rfl))
  | enter =>
    rw [hkey] at h
    obtain ⟨m, hm, heq⟩ := Option.map_eq_some_iff.mp h
    exact hsome (congrArg some heq) (.enter hkey hm)
  | backspace =>
    rw [hkey] at h
    exact hsome h (.backspace hkey)
  | fn id =>
    rw [hkey] at h
    dsimp only at h
    by_cases halt : k.altState = true
    · rw [if_pos halt] at h
      obtain ⟨m, hm, heq⟩ := Option.map_eq_some_iff.mp h
      exact hsome (congrArg some heq) (.switch hkey halt hm)
    · rw [if_neg halt] at h
      exact hsome h (.fn hkey (Bool.eq_false_iff.mpr halt))
  | other =>
    rw [hkey] at h
    dsimp only at h
    cases hchar : k.keyChar scancode with
    | none =>
      rw [hchar] at h
      exact hsome h (.noChar hkey hchar)
    | some key =>
      rw [hchar] at h
      exact hsome h (.char hkey hchar (charStep k key))

end LinuxLikeKernel
