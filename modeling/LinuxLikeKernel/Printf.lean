import LinuxLikeKernel.Lib
import LinuxLikeKernel.Library.Scanner
import Mathlib.Data.Nat.Digits.Lemmas

/-!
# Formatted output

`printf` and `multi_printf` of `lib.c`. The two functions have the same text up to the functions
they put characters with, so that both are the scan of one scanner: a step reads the byte at `buf`,
in the test of the loop or at the label `format_char_switch`, and moves `buf` on by one.

The format and the strings it prints are taken not to lie in video memory, so that printing does
not change what is read.

## Main definitions

- `PrintfEnv` — the stack words and the memory that the conversions read
- `printfStep` — what the functions do with one byte of the format
- `Console.printf`, `Console.multiPrintf` — the two functions, with a bound on the bytes they read
- `Examines` — they read a byte of the format

## Main results

- `length_hexText` — `%#x` prints 8 digits
- `formatCharSwitch_cases`, `formatCharSwitch_isSome_iff` — what a conversion can do, and when it
  comes to an end
- `printfStep_place`, `printfStep_args`, `printfStep_out` — what a step does to the state
-/

namespace LinuxLikeKernel
open Transition Scanner

/-- What the conversions read: the words on the stack above `format`, and the memory. -/
structure PrintfEnv where
  arg : Nat → UInt32
  mem : UInt32 → UInt8

/-! ### Texts of the conversions -/

/-- `lookup[i]` of `itoa`. -/
def digitChar (i : Nat) : UInt8 := UInt8.ofNat (if i < 10 then 48 + i else 55 + i)

/-- `itoa`: the digits come from the lowest place up and are reversed at the end. -/
def itoa (value : UInt32) (radix : Nat) : List UInt8 :=
  if value = 0 then [48] else ((Nat.digits radix value.toNat).map digitChar).reverse

/-- The text of `%x`, and of `%#x` where `alternate` is set. -/
def hexText (alternate : Bool) (value : UInt32) : List UInt8 :=
  let digits := itoa value 16
  if alternate then List.replicate (8 - digits.length) 48 ++ digits else digits

/-- The text of `%d`. -/
def signedText (value : UInt32) : List UInt8 :=
  if int32 value.toNat < 0 then 45 :: itoa (-value) 10 else itoa value 10

/-- The characters that `puts` prints from `p` on, if there is a NUL in the next `bound` bytes. -/
def cstring (mem : UInt32 → UInt8) : Nat → UInt32 → Option (List UInt8)
  | 0, _ => none
  | bound + 1, p =>
    if mem p = 0 then some [] else (cstring mem bound (p + 1)).map (mem p :: ·)

/-- The text of `%s`. Without a NUL anywhere in memory `puts` does not come to an end. -/
def PrintfEnv.stringAt (env : PrintfEnv) (p : UInt32) : Option (List UInt8) :=
  cstring env.mem (2 ^ 32) p

theorem length_itoa_sixteen (value : UInt32) : (itoa value 16).length ≤ 8 := by
  by_cases hv : value = 0
  · rw [itoa, if_pos hv]
    decide
  · rw [itoa, if_neg hv, List.length_reverse, List.length_map]
    exact (Nat.digits_length_le_iff (by decide) _).mpr value.toNat_lt

/-- `%#x` prints 8 hexadecimal digits, zero-padded on the left. -/
theorem length_hexText (value : UInt32) : (hexText true value).length = 8 := by
  have := length_itoa_sixteen value
  simp only [hexText, if_true, List.length_append, List.length_replicate]
  omega

example : hexText true 14 = [48, 48, 48, 48, 48, 48, 48, 69] := by decide

/-! ### The scanner -/

/-- Where a byte of the format is read: in the loop, or in the switch after a `%`. -/
inductive FormatPlace
  | loop
  | formatCharSwitch (alternate : Bool)
  deriving DecidableEq

/-- The state of `printf` between two bytes: the place, the number of arguments that `esp` has gone
past, and the characters that have been put. -/
structure PrintfState where
  place : FormatPlace
  args : Nat
  out : List UInt8

namespace PrintfState

/-- The state in which `printf` starts. -/
def start : PrintfState := ⟨.loop, 0, []⟩

/-- The text is printed, and the loop goes on. -/
def put (st : PrintfState) (text : List UInt8) : PrintfState :=
  { st with place := .loop, out := st.out ++ text }

/-- The text of an argument is printed; `esp++`. -/
def convert (st : PrintfState) (text : List UInt8) : PrintfState :=
  { st.put text with args := st.args + 1 }

/-- Nothing is printed. -/
def goTo (st : PrintfState) (place : FormatPlace) : PrintfState := { st with place := place }

/-- The switch on the byte after a `%`, and after a `#` behind it. -/
def formatCharSwitch (env : PrintfEnv) (alternate : Bool) (st : PrintfState) (c : UInt8) :
    Option PrintfState :=
  let arg := env.arg st.args
  if c = 37 then some (st.put [37])
  else if c = 35 then some (st.goTo (.formatCharSwitch true))
  else if c = 120 then some (st.convert (hexText alternate arg))
  else if c = 117 then some (st.convert (itoa arg 10))
  else if c = 100 then some (st.convert (signedText arg))
  else if c = 99 then some (st.convert [arg.toUInt8])
  else if c = 115 then (env.stringAt arg).map st.convert
  -- the default branch is also that of a NUL, which the loop then does not see
  else some (st.goTo .loop)

end PrintfState

open PrintfState

/-- What `printf` does with one byte of the format, unless that ends it or keeps it for ever. -/
def printfStep (env : PrintfEnv) (st : PrintfState) (c : UInt8) : Option PrintfState :=
  match st.place with
  | .loop =>
    if c = 0 then none
    else if c = 37 then some (st.goTo (.formatCharSwitch false))
    else some (st.put [c])
  | .formatCharSwitch alternate => formatCharSwitch env alternate st c

/-- The test of the loop fails. -/
def printfDone (st : PrintfState) (c : UInt8) : Bool := st.place = .loop ∧ c = 0

theorem printfDone_iff {st : PrintfState} {c : UInt8} :
    printfDone st c = true ↔ st.place = .loop ∧ c = 0 := by
  simp [printfDone]

/-- The scanning code that `printf` and `multi_printf` share. -/
def printfScanner (env : PrintfEnv) : Scanner PrintfState UInt8 where
  step := printfStep env
  done := printfDone
  step_done st c h := by
    obtain ⟨hplace, hc⟩ := printfDone_iff.mp h
    simp only [printfStep, hplace, if_pos hc]

/-- What a call of `printf` or `multi_printf` leaves: the console, the value `buf - format`, the
characters that were put and the number of arguments that were read. -/
structure Printed where
  con : Console
  ret : Int
  out : List UInt8
  args : Nat

/-- The text of the two functions, with `puts` for the one they print with. -/
def printfWith (puts : List UInt8 → Console → Console) (env : PrintfEnv) (format : Nat → UInt8)
    (bound : Nat) (k : Console) : Option Printed :=
  ((printfScanner env).scan format bound start 0).map fun r =>
    ⟨puts r.2.out k, int32 r.1, r.2.out, r.2.args⟩

/-- `printf` of the bytes from `format` on, if it reads fewer than `bound` of them before the one
that ends it. -/
def Console.printf (k : Console) (env : PrintfEnv) (format : Nat → UInt8) (bound : Nat) :
    Option Printed := printfWith Console.puts env format bound k

/-- `multi_printf`. -/
def Console.multiPrintf (k : Console) (env : PrintfEnv) (format : Nat → UInt8) (bound : Nat) :
    Option Printed := printfWith Console.multiPuts env format bound k

/-- The functions come to read the byte of index `i` of the format. -/
def Examines (env : PrintfEnv) (format : Nat → UInt8) (i : Nat) : Prop :=
  ∃ st, (printfScanner env).ComesTo format start i st

theorem printfWith_eq_some_iff {puts : List UInt8 → Console → Console} {env : PrintfEnv}
    {format : Nat → UInt8} {bound : Nat} {k : Console} {r : Printed} :
    printfWith puts env format bound k = some r ↔ ∃ n st, n < bound ∧
      (printfScanner env).EndsAt format start n st ∧
        r = ⟨puts st.out k, int32 n, st.out, st.args⟩ := by
  rw [printfWith, Option.map_eq_some_iff]
  constructor
  · rintro ⟨⟨n, st⟩, hscan, rfl⟩
    obtain ⟨hn, hend⟩ := scan_eq_some_iff.mp hscan
    exact ⟨n, st, hn, hend, rfl⟩
  · rintro ⟨n, st, hn, hend, rfl⟩
    exact ⟨(n, st), scan_eq_some_iff.mpr ⟨hn, hend⟩, rfl⟩

/-! ### One byte -/

/-- The conversions that read an argument: `x`, `u`, `d`, `c` and `s`. -/
def takesArgument (c : UInt8) : Bool := c ∈ [(120 : UInt8), 117, 100, 99, 115]

/-- The place after a byte of the format. -/
def FormatPlace.after : FormatPlace → UInt8 → FormatPlace
  | .loop, c => if c = 37 then .formatCharSwitch false else .loop
  | .formatCharSwitch _, c => if c = 35 then .formatCharSwitch true else .loop

/-- The byte is that of a conversion which reads an argument. -/
def FormatPlace.takes : FormatPlace → UInt8 → Bool
  | .loop, _ => false
  | .formatCharSwitch _, c => takesArgument c

variable {env : PrintfEnv} {st st' : PrintfState} {c : UInt8} {alternate : Bool}

theorem takesArgument_ne {d : UInt8} (h : takesArgument c = true) (hd : takesArgument d = false) :
    c ≠ d := by
  rintro rfl
  rw [h] at hd
  cases hd

/-- A conversion prints a `%`, sets `alternate`, prints an argument, or does nothing. -/
theorem formatCharSwitch_cases (h : formatCharSwitch env alternate st c = some st') :
    (c = 37 ∧ st' = st.put [37]) ∨ (c = 35 ∧ st' = st.goTo (.formatCharSwitch true)) ∨
      (takesArgument c = true ∧ ∃ text, st' = st.convert text) ∨
        c ≠ 35 ∧ takesArgument c = false ∧ st' = st.goTo .loop := by
  have htakes : takesArgument c = true ↔ c = 120 ∨ c = 117 ∨ c = 100 ∨ c = 99 ∨ c = 115 := by
    simp [takesArgument]
  simp only [formatCharSwitch] at h
  split_ifs at h with h37 h35 h120 h117 h100 h99 h115
  · exact .inl ⟨h37, (Option.some.inj h).symm⟩
  · exact .inr (.inl ⟨h35, (Option.some.inj h).symm⟩)
  · exact .inr (.inr (.inl ⟨htakes.mpr (by simp [h120]), _, (Option.some.inj h).symm⟩))
  · exact .inr (.inr (.inl ⟨htakes.mpr (by simp [h117]), _, (Option.some.inj h).symm⟩))
  · exact .inr (.inr (.inl ⟨htakes.mpr (by simp [h100]), _, (Option.some.inj h).symm⟩))
  · exact .inr (.inr (.inl ⟨htakes.mpr (by simp [h99]), _, (Option.some.inj h).symm⟩))
  · obtain ⟨text, -, rfl⟩ := Option.map_eq_some_iff.mp h
    exact .inr (.inr (.inl ⟨htakes.mpr (by simp [h115]), text, rfl⟩))
  · refine .inr (.inr (.inr ⟨h35, ?_, (Option.some.inj h).symm⟩))
    rw [Bool.eq_false_iff, ne_eq, htakes]
    tauto

/-- Only a `%s` can keep `printf` from going on. -/
theorem formatCharSwitch_isSome_iff :
    (formatCharSwitch env alternate st c).isSome = true ↔
      (c = 115 → (env.stringAt (env.arg st.args)).isSome = true) := by
  by_cases h115 : c = 115
  · subst h115
    simp [formatCharSwitch]
  · simp only [formatCharSwitch, if_neg h115]
    split_ifs <;> simp [h115]

theorem printfStep_loop (h : st.place = .loop) : printfStep env st c =
    if c = 0 then none
    else if c = 37 then some (st.goTo (.formatCharSwitch false)) else some (st.put [c]) := by
  simp only [printfStep, h]

theorem printfStep_formatCharSwitch (h : st.place = .formatCharSwitch alternate) :
    printfStep env st c = formatCharSwitch env alternate st c := by
  simp only [printfStep, h]

theorem printfStep_place (h : printfStep env st c = some st') :
    st'.place = st.place.after c := by
  cases hp : st.place with
  | loop =>
    rw [printfStep_loop hp] at h
    simp only [FormatPlace.after]
    split_ifs at h ⊢ with h0 h37 <;> obtain rfl := Option.some.inj h <;> rfl
  | formatCharSwitch alternate =>
    rw [printfStep_formatCharSwitch hp] at h
    simp only [FormatPlace.after]
    obtain ⟨rfl, rfl⟩ | ⟨rfl, rfl⟩ | ⟨htakes, text, rfl⟩ | ⟨h35, -, rfl⟩ :=
      formatCharSwitch_cases h
    · rfl
    · rfl
    · rw [if_neg (takesArgument_ne htakes rfl)]
      rfl
    · rw [if_neg h35]
      rfl

theorem printfStep_args (h : printfStep env st c = some st') :
    st'.args = st.args + (st.place.takes c).toNat := by
  cases hp : st.place with
  | loop =>
    rw [printfStep_loop hp] at h
    split_ifs at h <;> obtain rfl := Option.some.inj h <;> rfl
  | formatCharSwitch alternate =>
    rw [printfStep_formatCharSwitch hp] at h
    simp only [FormatPlace.takes]
    obtain ⟨rfl, rfl⟩ | ⟨rfl, rfl⟩ | ⟨htakes, text, rfl⟩ | ⟨-, htakes, rfl⟩ :=
      formatCharSwitch_cases h
    · rfl
    · rfl
    · rw [htakes]
      rfl
    · rw [htakes]
      rfl

/-- A byte that reads no argument puts at most one character. -/
theorem printfStep_out (h : printfStep env st c = some st') (htakes : st.place.takes c = false) :
    st'.out.length ≤ st.out.length + 1 := by
  cases hp : st.place with
  | loop =>
    rw [printfStep_loop hp] at h
    split_ifs at h <;> obtain rfl := Option.some.inj h <;> simp [goTo, put]
  | formatCharSwitch alternate =>
    rw [printfStep_formatCharSwitch hp] at h
    rw [hp] at htakes
    obtain ⟨rfl, rfl⟩ | ⟨rfl, rfl⟩ | ⟨harg, text, rfl⟩ | ⟨-, -, rfl⟩ :=
      formatCharSwitch_cases h
    · simp [put]
    · simp [goTo]
    · exact absurd harg (by simpa [FormatPlace.takes] using htakes)
    · simp [goTo]

end LinuxLikeKernel
