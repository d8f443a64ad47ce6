import LinuxLikeKernel.Library.CString
import LinuxLikeKernel.Library.Numeral
import LinuxLikeKernel.Printf

/-!
# Numbers as texts

`itoa`, `strrev` and `strlen` of `lib.c` on memory, and what `printf` does with them to print a
number. `itoa` stores the digits from the lowest place up and reverses them in place; for `%#x` the
zeros in front are stored in the part of the buffer before the digits.

## Main definitions

- `strlen`, `strrev`, `itoaInto` — the functions
- `printHex`, `printUnsigned`, `printSigned` — the conversions of `printf` with their `conv_buf`
- `digitOf` — the digits that the characters are

## Main results

- `itoaInto_eq` — `itoa` stores the text of the number and a NUL
- `printHex_eq`, `printUnsigned_eq`, `printSigned_eq` — what the conversions put
- `texts_denote` — the texts denote the numbers
-/

namespace LinuxLikeKernel
open ByteMemory Numeral PrintfState

/-! ### The functions -/

/-- `strlen`. A string without a NUL anywhere keeps it for ever. -/
def strlen (m : Mem) (s : Nat) : Option Nat := CString.length m s (2 ^ 32) 0

/-- `strrev`. -/
def strrev (m : Mem) (s : Nat) : Option Mem :=
  (strlen m s).map fun len => CString.reverseLoop s 0 (len - 1) m

/-- The array `lookup` of `itoa`. -/
def itoaLookup : List UInt8 :=
  [48, 49, 50, 51, 52, 53, 54, 55, 56, 57, 65, 66, 67, 68, 69, 70, 71, 72, 73, 74, 75, 76, 77, 78,
    79, 80, 81, 82, 83, 84, 85, 86, 87, 88, 89, 90]

/-- The loop of `itoa`: `newbuf` and the memory when `newval` has come to 0, if that takes fewer
turns than the bound. -/
def itoaLoop (radix : UInt32) : Nat → UInt32 → Nat → Mem → Option (Nat × Mem)
  | 0, _, _, _ => none
  | bound + 1, newval, newbuf, m =>
    if 0 < newval then
      let i := (newval % radix).toNat
      itoaLoop radix bound (newval / radix) (newbuf + 1) (store m newbuf (itoaLookup.getD i 0))
    else some (newbuf, m)

/-- `itoa` with its buffer at `buf`. Each turn of the loop makes `newval` smaller. -/
def itoaInto (value : UInt32) (buf : Nat) (radix : UInt32) (m : Mem) : Option Mem :=
  if value = 0 then some (store (store m buf 48) (buf + 1) 0)
  else
    (itoaLoop radix (2 ^ 32) value buf m).bind fun r =>
      let m := store r.2 r.1 0
      strrev m buf

/-- The characters that `puts` puts from `s` on. -/
def putsText (m : Mem) (s : Nat) : Option (List UInt8) := CString.bytes m s (2 ^ 32) 0

/-- The case `x` of `printf`, with `conv_buf` at the address 0 of a memory of its own. -/
def printHex (alternate : Bool) (arg : UInt32) (m : Mem) : Option (List UInt8) :=
  if alternate then
    (itoaInto arg 8 16 m).bind fun m =>
      (strlen m 8).bind fun startingIndex =>
        let m := forRange (8 - startingIndex) (fun i m => store m (startingIndex + i) 48) m
        putsText m startingIndex
  else (itoaInto arg 0 16 m).bind fun m => putsText m 0

/-- The case `u`. -/
def printUnsigned (arg : UInt32) (m : Mem) : Option (List UInt8) :=
  (itoaInto arg 0 10 m).bind fun m => putsText m 0

/-- The case `d`. The negation wraps around, for the lowest number to itself. -/
def printSigned (arg : UInt32) (m : Mem) : Option (List UInt8) :=
  if int32 arg.toNat < 0 then (itoaInto (-arg) 1 10 (store m 0 45)).bind fun m => putsText m 0
  else (itoaInto arg 0 10 m).bind fun m => putsText m 0

/-! ### `itoa` -/

/-- The characters of the array. -/
theorem itoaLookup_getD : ∀ i < 36, itoaLookup.getD i 0 = digitChar i := by decide

theorem digitChar_ne_zero : ∀ i < 36, digitChar i ≠ 0 := by decide

/-- The loop stores the digits, the lowest place first, and nothing else. -/
theorem itoaLoop_eq {radix : UInt32} (h2 : 2 ≤ radix.toNat) (bound : Nat) (newval : UInt32)
    (hb : newval.toNat < bound) (newbuf : Nat) (m : Mem) :
    ∃ m', itoaLoop radix bound newval newbuf m =
        some (newbuf + (Nat.digits radix.toNat newval.toNat).length, m') ∧
      (∀ i (h : i < (Nat.digits radix.toNat newval.toNat).length),
        m' (newbuf + i) = itoaLookup.getD (Nat.digits radix.toNat newval.toNat)[i] 0) ∧
      ∀ a, a < newbuf ∨ newbuf + (Nat.digits radix.toNat newval.toNat).length ≤ a →
        m' a = m a := by
  induction bound generalizing newval newbuf m with
  | zero => omega
  | succ bound ih =>
    by_cases hpos : 0 < newval
    · have hpos' : 0 < newval.toNat := hpos
      have hlt : (newval / radix).toNat < newval.toNat := by
        rw [UInt32.toNat_div]
        exact Nat.div_lt_self hpos' h2
      obtain ⟨m', hloop, hdigits, hframe⟩ := ih (newval / radix) (by omega) (newbuf + 1)
        (store m newbuf (itoaLookup.getD (newval % radix).toNat 0))
      have hcons : Nat.digits radix.toNat newval.toNat = (newval % radix).toNat ::
          Nat.digits radix.toNat (newval / radix).toNat := by
        rw [UInt32.toNat_mod, UInt32.toNat_div]
        exact Nat.digits_def' h2 hpos'
      simp only [itoaLoop, if_pos hpos, hcons, List.length_cons]
      refine ⟨m', ?_, fun i hi => ?_, fun a ha => ?_⟩
      · rw [hloop]
        congr 2
        omega
      · cases i with
        | zero =>
          rw [hframe _ (by omega), Nat.add_zero, store_self]
          rfl
        | succ i =>
          rw [← Nat.add_assoc, Nat.add_right_comm]
          exact hdigits i (by omega)
      · rw [hframe a (by omega), store_of_ne _ _ (by omega)]
    · have hzero : newval.toNat = 0 := Nat.eq_zero_of_not_pos hpos
      simp only [itoaLoop, if_neg hpos, hzero, Nat.digits_zero, List.length_nil]
      exact ⟨m, rfl, fun i hi => by omega, fun _ _ => rfl⟩

/-- The digits of a 32-bit number are no more than 32. -/
theorem length_digits_le {r : Nat} (h2 : 2 ≤ r) (value : UInt32) :
    (Nat.digits r value.toNat).length ≤ 32 := by
  refine (Nat.digits_length_le_iff h2 _).mpr ?_
  calc value.toNat < 2 ^ 32 := value.toNat_lt
    _ ≤ r ^ 32 := Nat.pow_le_pow_left h2 32

/-- **`itoa`** stores the text of the number at `buf`, and nothing outside of it and its NUL. -/
theorem itoaInto_eq (value radix : UInt32) (buf : Nat) (h2 : 2 ≤ radix.toNat)
    (h36 : radix.toNat ≤ 36) (m : Mem) :
    ∃ m', itoaInto value buf radix m = some m' ∧ CString.At m' buf (itoa value radix.toNat) ∧
      ∀ a, a < buf ∨ buf + (itoa value radix.toNat).length < a → m' a = m a := by
  by_cases hv : value = 0
  · rw [itoa, if_pos hv]
    refine ⟨_, if_pos hv, ?_, fun a ha => ?_⟩
    · refine (CString.At.nil (store_self ..)).cons ?_ (by decide)
      rw [store_of_ne _ _ (by omega), store_self]
    · rw [List.length_singleton] at ha
      rw [store_of_ne _ _ (by omega), store_of_ne _ _ (by omega)]
  · obtain ⟨m₁, hloop, hdigits, hframe⟩ :=
      itoaLoop_eq h2 (2 ^ 32) value value.toNat_lt buf m
    -- the digits, the lowest place first
    let low := (Nat.digits radix.toNat value.toNat).map digitChar
    let m₂ := store m₁ (buf + low.length) 0
    have hm₂ : ∀ a, a ≠ buf + low.length → m₂ a = m₁ a := fun a ha => store_of_ne _ _ ha
    have hlen : (Nat.digits radix.toNat value.toNat).length = low.length := by simp [low]
    have hlow : ∀ d ∈ Nat.digits radix.toNat value.toNat, d < 36 := fun d hd =>
      Nat.lt_of_lt_of_le (Nat.digits_lt_base h2 hd) h36
    have hne : ∀ c ∈ low, c ≠ 0 := by
      intro c hc
      obtain ⟨d, hd, rfl⟩ := List.mem_map.mp hc
      exact digitChar_ne_zero d (hlow d hd)
    have hat : CString.At m₂ buf low := by
      refine ⟨fun i hi => ?_, store_self .., hne⟩
      rw [hm₂ _ (by omega), hdigits i (hlen ▸ hi), List.getElem_map]
      exact itoaLookup_getD _ (hlow _ (List.getElem_mem _))
    have hstrlen : strlen m₂ buf = some low.length := by
      refine hat.length_eq (Nat.zero_le _) ?_
      have := length_digits_le h2 value
      omega
    have htext : itoa value radix.toNat = low.reverse := if_neg hv
    refine ⟨CString.reverseLoop buf 0 (low.length - 1) m₂, ?_, ?_, fun a ha => ?_⟩
    · rw [itoaInto, if_neg hv, hloop, Option.bind_some, hlen]
      exact (congrArg (Option.map _) hstrlen).trans rfl
    · rw [htext]
      exact CString.at_reverse hat.char hat.nul hne
    · rw [htext, List.length_reverse] at ha
      rw [CString.reverseLoop_apply, if_neg (by omega), hm₂ a (by omega), hframe a (by omega)]

/-! ### The conversions -/

theorem length_itoa_le {r : Nat} (h2 : 2 ≤ r) (value : UInt32) : (itoa value r).length ≤ 32 := by
  rw [itoa]
  split
  · decide
  · rw [List.length_reverse, List.length_map]
    exact length_digits_le h2 value

theorem putsText_eq {m : Mem} {s : Nat} {text : List UInt8} (h : CString.At m s text)
    (hlen : text.length < 2 ^ 32) : putsText m s = some text :=
  h.bytes_eq (Nat.zero_le _) hlen

/-- `%u`, whatever `conv_buf` contains. -/
theorem printUnsigned_eq (arg : UInt32) (m : Mem) : printUnsigned arg m = some (itoa arg 10) := by
  obtain ⟨m', hitoa, hat, -⟩ := itoaInto_eq arg 10 0 (by decide) (by decide) m
  rw [printUnsigned, hitoa, Option.bind_some]
  exact putsText_eq hat (Nat.lt_of_le_of_lt (length_itoa_le (by decide) arg) (by decide))

/-- `%d`: behind the sign lies the text of the negated number. -/
theorem printSigned_eq (arg : UInt32) (m : Mem) : printSigned arg m = some (signedText arg) := by
  rw [printSigned, signedText]
  split
  · obtain ⟨m', hitoa, hat, hframe⟩ :=
      itoaInto_eq (-arg) 10 1 (by decide) (by decide) (store m 0 45)
    have hsign : m' 0 = 45 := by rw [hframe 0 (by omega), store_self]
    rw [hitoa, Option.bind_some]
    refine putsText_eq (hat.cons hsign (by decide)) ?_
    have hlen : (itoa (-arg) 10).length ≤ 32 := length_itoa_le (by decide) _
    exact Nat.lt_of_le_of_lt (Nat.succ_le_succ hlen) (by decide)
  · exact printUnsigned_eq arg m

/-- `%x` and `%#x`. The zeros go before the digits, from the index that is their length to that of
the first digit. -/
theorem printHex_eq (alternate : Bool) (arg : UInt32) (m : Mem) :
    printHex alternate arg m = some (hexText alternate arg) := by
  have hlen : (itoa arg 16).length ≤ 8 := length_itoa_sixteen arg
  cases alternate with
  | false =>
    obtain ⟨m', hitoa, hat, -⟩ := itoaInto_eq arg 16 0 (by decide) (by decide) m
    rw [printHex, if_neg Bool.false_ne_true, hitoa, Option.bind_some]
    exact putsText_eq hat (Nat.lt_of_le_of_lt hlen (by decide))
  | true =>
    obtain ⟨m', hitoa, hat, -⟩ := itoaInto_eq arg 16 8 (by decide) (by decide) m
    have hstrlen : strlen m' 8 = some (itoa arg 16).length :=
      hat.length_eq (Nat.zero_le _) (Nat.lt_of_le_of_lt (Nat.sub_le ..)
        (Nat.lt_of_le_of_lt hlen (by decide)))
    rw [printHex, if_pos rfl, hitoa, Option.bind_some, hstrlen, Option.bind_some]
    let zeros := List.replicate (8 - (itoa arg 16).length) (48 : UInt8)
    have hzeros : (itoa arg 16).length + zeros.length = 8 := by
      rw [List.length_replicate]
      omega
    have hzero : zeros.length = 8 - (itoa arg 16).length := List.length_replicate
    show putsText _ _ = some (zeros ++ itoa arg 16)
    refine putsText_eq (CString.At.append ?_ (fun i hi => ?_) fun c hc => ?_) ?_
    · rw [hzeros]
      refine hat.congr fun i _ => ?_
      rw [forRange_store_apply, if_neg (by omega)]
    · rw [forRange_store_apply, if_pos (by omega), List.getElem_replicate]
    · rw [List.eq_of_mem_replicate hc]
      decide
    · rw [List.length_append, Nat.add_comm, hzeros]
      decide

/-! ### What the texts denote -/

/-- The digit that a character is. -/
def digitOf (c : UInt8) : Option Nat :=
  if 48 ≤ c ∧ c ≤ 57 then some (c.toNat - 48)
  else if 65 ≤ c ∧ c ≤ 90 then some (c.toNat - 55)
  else none

theorem digitOf_digitChar : ∀ d < 36, digitOf (digitChar d) = some d := by decide

/-- The texts of `itoa` are numerals. -/
theorem isNumeral_itoa {r : Nat} (h2 : 2 ≤ r) (h36 : r ≤ 36) (value : UInt32) :
    IsNumeral digitOf r value.toNat (itoa value r) := by
  have hchar : ∀ d < r, digitOf (digitChar d) = some d :=
    fun d hd => digitOf_digitChar d (Nat.lt_of_lt_of_le hd h36)
  by_cases hv : value = 0
  · subst hv
    have htext : itoa 0 r = [48] := if_pos rfl
    have hread : read digitOf r [48] = some 0 :=
      read_zeros rfl (by omega) 1 []
    rw [htext]
    exact ⟨by decide, hread, fun h => absurd rfl h, fun _ => rfl⟩
  · rw [itoa, if_neg hv]
    exact isNumeral_digits hchar h2 fun h => hv (UInt32.toNat_inj.mp h)

/-- The text of an integer in decimal: a numeral, behind a minus sign if the integer is negative. -/
inductive IsIntNumeral : Int → List UInt8 → Prop
  | nonneg {n : Nat} {digits : List UInt8} (h : IsNumeral digitOf 10 n digits) :
      IsIntNumeral n digits
  | neg {n : Nat} {digits : List UInt8} (hpos : 0 < n) (h : IsNumeral digitOf 10 n digits) :
      IsIntNumeral (-n) (45 :: digits)

/-- The negation wraps around, but as an unsigned number it is the absolute value. -/
theorem int32_eq_neg {value : UInt32} (h : int32 value.toNat < 0) :
    int32 value.toNat = -((-value).toNat : Int) := by
  have hlt := value.toNat_lt
  rw [UInt32.toNat_neg]
  simp only [int32, UInt32.size] at h ⊢
  omega

theorem int32_eq_self {value : UInt32} (h : 0 ≤ int32 value.toNat) :
    int32 value.toNat = value.toNat := by
  have hlt := value.toNat_lt
  simp only [int32] at h ⊢
  omega

theorem isIntNumeral_signedText (value : UInt32) :
    IsIntNumeral (int32 value.toNat) (signedText value) := by
  have hdigits : ∀ v : UInt32, IsNumeral digitOf 10 v.toNat (itoa v 10) :=
    isNumeral_itoa (by decide) (by decide)
  rw [signedText]
  obtain hneg | hpos := Int.lt_or_le (int32 value.toNat) 0
  · have heq := int32_eq_neg hneg
    rw [if_pos hneg, heq]
    exact .neg (by omega) (hdigits (-value))
  · rw [if_neg (Int.not_lt.mpr hpos), int32_eq_self hpos]
    exact .nonneg (hdigits value)

/-- A conversion of `printf` prints a text, and it is the one that its case comes to, whatever is in
`conv_buf` before. -/
def Prints (env : PrintfEnv) (alternate : Bool) (st : PrintfState) (c : UInt8)
    (conversion : UInt32 → Mem → Option (List UInt8)) (text : List UInt8) : Prop :=
  formatCharSwitch env alternate st c = some (st.convert text) ∧
    ∀ convBuf, conversion (env.arg st.args) convBuf = some text

/-- **Numbers as texts.** `itoa` stores the numeral of its value in its radix; `%x`, `%u` and `%d`
print that of their argument, and `%#x` prints it with 8 digits. -/
theorem texts_denote (value radix : UInt32) (h2 : 2 ≤ radix.toNat) (h36 : radix.toNat ≤ 36)
    (buf : Nat) (m : Mem) (env : PrintfEnv) (alternate : Bool) (st : PrintfState) :
    (∃ m' text, itoaInto value buf radix m = some m' ∧ CString.At m' buf text ∧
      IsNumeral digitOf radix.toNat value.toNat text) ∧
    (∃ text, Prints env false st 120 (printHex false) text ∧
      IsNumeral digitOf 16 (env.arg st.args).toNat text) ∧
    (∃ text, Prints env alternate st 117 printUnsigned text ∧
      IsNumeral digitOf 10 (env.arg st.args).toNat text) ∧
    (∃ text, Prints env alternate st 100 printSigned text ∧
      IsIntNumeral (int32 (env.arg st.args).toNat) text) ∧
    ∃ text, Prints env true st 120 (printHex true) text ∧ text.length = 8 ∧
      read digitOf 16 text = some (env.arg st.args).toNat := by
  obtain ⟨m', hitoa, hat, -⟩ := itoaInto_eq value radix buf h2 h36 m
  have harg := isNumeral_itoa (r := 16) (by decide) (by decide) (env.arg st.args)
  refine ⟨⟨m', _, hitoa, hat, isNumeral_itoa h2 h36 value⟩, ⟨_, ⟨rfl, printHex_eq false _⟩, harg⟩,
    ⟨_, ⟨rfl, printUnsigned_eq _⟩, isNumeral_itoa (by decide) (by decide) _⟩,
    ⟨_, ⟨rfl, printSigned_eq _⟩, isIntNumeral_signedText _⟩,
    ⟨_, ⟨rfl, printHex_eq true _⟩, length_hexText _, ?_⟩⟩
  have hzero : digitOf 48 = some 0 := rfl
  exact (read_zeros hzero (by decide) _ _).trans harg.read

/-- The number 48879 in hexadecimal, and whatever the conversions find. -/
theorem texts_denote_sample :
    (2 ≤ (16 : UInt32).toNat ∧ (16 : UInt32).toNat ≤ 36) ∧
      ∃ m' text, itoaInto 48879 0 16 (fun _ => 0) = some m' ∧ CString.At m' 0 text ∧
        IsNumeral digitOf 16 48879 text :=
  ⟨by decide, (texts_denote 48879 16 (by decide) (by decide) 0 (fun _ => 0)
    ⟨fun _ => 0, fun _ => 0⟩ false .start).1⟩

end LinuxLikeKernel
