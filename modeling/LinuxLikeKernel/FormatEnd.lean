import LinuxLikeKernel.Machine
import LinuxLikeKernel.Printf

/-!
# The end of a format

`printf` tests for the NUL of its format in the loop only. After a `%`, and after a `#` behind it,
the NUL is the character of a conversion that does not exist: the default branch goes past it, and
the loop goes on with what lies behind the format.

## Main definitions

- `EndsInConversion` — a format ends after a `%`, or after a `#` behind it
- `StringsEnd` — the strings that a format prints have a NUL
- `KeepsToFormat` — a call reads nothing after the NUL, and returns the length of its format

## Main results

- `run_place`, `run_exists_iff` — the scan of a whole format
- `endsAt_format_iff` — where a scan that keeps to its format ends
- `examines_behind_iff` — when the byte behind the NUL is read
- `printf_keepsToFormat_iff` — when the two functions keep to their format
-/

namespace LinuxLikeKernel
open Transition Scanner PrintfState

/-- A format ends after a `%`, or after a `#` behind it. -/
def EndsInConversion (fmt : List UInt8) : Prop := fmt.foldl FormatPlace.after .loop ≠ .loop

instance (fmt : List UInt8) : Decidable (EndsInConversion fmt) :=
  inferInstanceAs (Decidable (_ ≠ _))

/-- The numbers of the arguments that `%s` conversions read. -/
def stringArgs : FormatPlace → Nat → List UInt8 → List Nat
  | _, _, [] => []
  | p, n, c :: cs =>
    (if p ≠ .loop ∧ c = 115 then [n] else []) ++
      stringArgs (p.after c) (n + (p.takes c).toNat) cs

/-- The arguments of the `%s` conversions are strings with a NUL. -/
def StringsEnd (env : PrintfEnv) (fmt : List UInt8) : Prop :=
  ∀ i ∈ stringArgs .loop 0 fmt, (env.stringAt (env.arg i)).isSome = true

instance (env : PrintfEnv) (fmt : List UInt8) : Decidable (StringsEnd env fmt) :=
  inferInstanceAs (Decidable (∀ i ∈ _, _))

/-- A call with the format `fmt`, a NUL and `after` behind it reads nothing behind the NUL, and
with enough steps it returns the length of `fmt`. -/
def KeepsToFormat (call : (Nat → UInt8) → Nat → Option Printed) (env : PrintfEnv)
    (fmt : List UInt8) (after : Nat → UInt8) : Prop :=
  (∀ i, Examines env (terminated fmt 0 after) i → i ≤ fmt.length) ∧
    ∃ bound r, call (terminated fmt 0 after) bound = some r ∧ r.ret = fmt.length

/-! ### The scan of a format -/

variable {env : PrintfEnv} {st st' : PrintfState} {fmt : List UInt8} {after : Nat → UInt8}

theorem run_place {cs : List UInt8} (h : run (printfStep env) st cs = some st') :
    st'.place = cs.foldl FormatPlace.after st.place := by
  induction cs generalizing st with
  | nil =>
    obtain rfl := Option.some.inj h
    rfl
  | cons c cs ih =>
    obtain ⟨m, hm, hr⟩ := run_cons_eq_some.mp h
    rw [ih hr, printfStep_place hm]
    rfl

/-- A byte other than NUL is gone past, but for a `%s` without an end. -/
theorem printfStep_exists_iff (env : PrintfEnv) (st : PrintfState) {c : UInt8} (hc : c ≠ 0) :
    (∃ st', printfStep env st c = some st') ↔
      (st.place ≠ .loop ∧ c = 115 → (env.stringAt (env.arg st.args)).isSome = true) := by
  rw [← Option.isSome_iff_exists]
  cases hp : st.place with
  | loop =>
    rw [printfStep_loop hp, if_neg hc]
    split_ifs <;> simp
  | formatCharSwitch alternate =>
    rw [printfStep_formatCharSwitch hp, formatCharSwitch_isSome_iff]
    simp

/-- `printf` gets to the end of a format if the strings it prints on the way do end. -/
theorem run_exists_iff (env : PrintfEnv) (st : PrintfState) {cs : List UInt8} (h0 : 0 ∉ cs) :
    (∃ st', run (printfStep env) st cs = some st') ↔
      ∀ i ∈ stringArgs st.place st.args cs, (env.stringAt (env.arg i)).isSome = true := by
  induction cs generalizing st with
  | nil => simp [stringArgs]
  | cons c cs ih =>
    obtain ⟨hc, hcs⟩ : (0 : UInt8) ≠ c ∧ (0 : UInt8) ∉ cs := by simpa using h0
    have hrest : ∀ m, printfStep env st c = some m →
        ((∃ st', run (printfStep env) m cs = some st') ↔
          ∀ i ∈ stringArgs (st.place.after c) (st.args + (st.place.takes c).toNat) cs,
            (env.stringAt (env.arg i)).isSome = true) := by
      intro m hm
      rw [ih m hcs, printfStep_place hm, printfStep_args hm]
    have hfirst := printfStep_exists_iff env st hc.symm
    simp only [run_cons_eq_some, stringArgs, List.forall_mem_append]
    -- the first byte reads a string of its own only as a `%s`
    have hif : (∀ i ∈ (if st.place ≠ .loop ∧ c = 115 then [st.args] else []),
          (env.stringAt (env.arg i)).isSome = true) ↔
        (st.place ≠ .loop ∧ c = 115 → (env.stringAt (env.arg st.args)).isSome = true) := by
      split_ifs with h
      · simp [h]
      · simp [h]
    rw [hif, ← hfirst]
    constructor
    · rintro ⟨st', m, hm, hr⟩
      exact ⟨⟨m, hm⟩, (hrest m hm).mp ⟨st', hr⟩⟩
    · rintro ⟨⟨m, hm⟩, hstrings⟩
      obtain ⟨st', hr⟩ := (hrest m hm).mpr hstrings
      exact ⟨st', m, hm, hr⟩

/-- `printf` reads the byte behind the NUL of its format if it has not ended a conversion. -/
theorem examines_behind_iff (h0 : 0 ∉ fmt) :
    Examines env (terminated fmt 0 after) (fmt.length + 1) ↔
      EndsInConversion fmt ∧ StringsEnd env fmt := by
  simp only [Examines, comesTo_succ_iff, terminated_length]
  simp only [ComesTo, cells_terminated]
  have hnul : ∀ {st}, run (printfStep env) start fmt = some st →
      ((∃ st', printfStep env st 0 = some st') ↔ EndsInConversion fmt) := by
    intro st hr
    have hplace : st.place = fmt.foldl FormatPlace.after .loop := run_place hr
    rw [EndsInConversion, ← hplace, ← Option.isSome_iff_exists]
    cases hp : st.place with
    | loop =>
      rw [printfStep_loop hp]
      simp
    | formatCharSwitch alternate =>
      rw [printfStep_formatCharSwitch hp, formatCharSwitch_isSome_iff]
      simp
  constructor
  · rintro ⟨st', st, hr, hs⟩
    exact ⟨(hnul hr).mp ⟨st', hs⟩, (run_exists_iff env start h0).mp ⟨st, hr⟩⟩
  · rintro ⟨hend, hstrings⟩
    obtain ⟨st, hr⟩ := (run_exists_iff env start h0).mpr hstrings
    obtain ⟨st', hs⟩ := (hnul hr).mpr hend
    exact ⟨st', st, hr, hs⟩

/-- Where the functions read nothing behind the NUL of a format, they end there, in the loop. -/
theorem endsAt_format_iff {n : Nat} (h0 : 0 ∉ fmt) :
    (∀ i, Examines env (terminated fmt 0 after) i → i ≤ fmt.length) ∧
        (printfScanner env).EndsAt (terminated fmt 0 after) start n st ↔
      n = fmt.length ∧ run (printfStep env) start fmt = some st ∧ st.place = .loop := by
  have hends := @endsAt_terminated_iff _ _ (printfScanner env) start st n fmt 0 after h0
    fun q a h => (printfDone_iff.mp h).2
  constructor
  · rintro ⟨hle, hend⟩
    obtain ⟨hn, hrun, hdone⟩ := hends.mp ⟨fun i p hp => hle i ⟨p, hp⟩, hend⟩
    exact ⟨hn, hrun, (printfDone_iff.mp hdone).1⟩
  · rintro ⟨hn, hrun, hloop⟩
    obtain ⟨hle, hend⟩ := hends.mpr ⟨hn, hrun, printfDone_iff.mpr ⟨hloop, rfl⟩⟩
    exact ⟨fun i ⟨p, hp⟩ => hle i p hp, hend⟩

/-! ### The two functions -/

theorem int32_eq_self_iff (n : Nat) : int32 n = n ↔ n < 2 ^ 31 := by
  simp only [int32]
  omega

/-- What holds of the scanning code with either of the functions to print with. -/
theorem printfWith_keeps_iff (puts : List UInt8 → Console → Console) (env : PrintfEnv)
    (after : Nat → UInt8) (k : Console) (h0 : 0 ∉ fmt) :
    KeepsToFormat (fun format bound => printfWith puts env format bound k) env fmt after ↔
      ¬ EndsInConversion fmt ∧ StringsEnd env fmt ∧ fmt.length < 2 ^ 31 := by
  constructor
  · rintro ⟨hle, bound, r, hr, hret⟩
    obtain ⟨n, st, -, hend, rfl⟩ := printfWith_eq_some_iff.mp hr
    obtain ⟨rfl, hrun, hloop⟩ := (endsAt_format_iff h0).mp ⟨hle, hend⟩
    have hplace : st.place = fmt.foldl FormatPlace.after .loop := run_place hrun
    refine ⟨not_not.mpr (hplace.symm.trans hloop), ?_, (int32_eq_self_iff _).mp hret⟩
    exact (run_exists_iff env start h0).mp ⟨st, hrun⟩
  · rintro ⟨hplace, hstrings, hlen⟩
    obtain ⟨st, hrun⟩ := (run_exists_iff env start h0).mpr hstrings
    obtain ⟨hle, hend⟩ := (endsAt_format_iff h0).mpr
      ⟨rfl, hrun, (run_place hrun).trans (not_not.mp hplace)⟩
    refine ⟨hle, fmt.length + 1,
      ⟨puts st.out k, int32 fmt.length, st.out, st.args⟩, ?_, (int32_eq_self_iff _).mpr hlen⟩
    exact printfWith_eq_some_iff.mpr ⟨fmt.length, st, Nat.lt_succ_self _, hend, rfl⟩

/-- **The end of the format.** `printf` and `multi_printf` read nothing behind the NUL of their
format and return its length, exactly if it does not end in a conversion, the strings it prints
have a NUL and the length is an `int32_t`. -/
theorem printf_keepsToFormat_iff (k : Console) (env : PrintfEnv) (fmt : List UInt8)
    (after : Nat → UInt8) (h0 : 0 ∉ fmt) :
    ∀ call ∈ [k.printf env, k.multiPrintf env], KeepsToFormat call env fmt after ↔
      ¬ EndsInConversion fmt ∧ StringsEnd env fmt ∧ fmt.length < 2 ^ 31 := by
  intro call hcall
  obtain rfl | rfl : call = k.printf env ∨ call = k.multiPrintf env := by simpa using hcall
  · exact printfWith_keeps_iff Console.puts env after k h0
  · exact printfWith_keeps_iff Console.multiPuts env after k h0

/-- A `%x` in the middle of a text. -/
theorem printf_keepsToFormat_iff_sample :
    (0 : UInt8) ∉ [97, 37, 120, 98] ∧
      KeepsToFormat (powerOn.con.multiPrintf ⟨fun _ => 7, fun _ => 0⟩) ⟨fun _ => 7, fun _ => 0⟩
        [97, 37, 120, 98] fun _ => 99 := by
  refine ⟨by decide, ?_⟩
  refine (printf_keepsToFormat_iff powerOn.con ⟨fun _ => 7, fun _ => 0⟩ [97, 37, 120, 98] _
    (by decide) _ (by simp)).mpr ?_
  exact ⟨by decide, by decide, by decide⟩

/-- The format `%` makes both functions read on behind its NUL. -/
theorem not_printf_keepsToFormat : ¬ ∀ (k : Console) (env : PrintfEnv) (fmt : List UInt8)
    (after : Nat → UInt8), 0 ∉ fmt →
      ∀ call ∈ [k.printf env, k.multiPrintf env], KeepsToFormat call env fmt after := by
  intro hformat
  have hnul : (0 : UInt8) ∉ [37] := by decide
  have hkeeps := hformat powerOn.con ⟨fun _ => 0, fun _ => 0⟩ [37] (fun _ => 65) hnul
    _ List.mem_cons_self
  have hreads : Examines ⟨fun _ => 0, fun _ => 0⟩ (terminated [37] 0 fun _ => 65) 2 :=
    (examines_behind_iff hnul).mpr ⟨by decide, by decide⟩
  exact absurd (hkeeps.1 2 hreads) (by decide)

end LinuxLikeKernel
