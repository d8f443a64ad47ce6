import LinuxLikeKernel.FormatEnd
import Mathlib.Data.List.TakeWhile

/-!
# Written text

`term_write` hands its text to `printf` or `multi_printf` as the format. A `%` in the text is then
the start of a conversion, and a conversion reads words of the stack that nobody has passed.

## Main definitions

- `Kernel.termWriteIn` — `term_write` with all that its call of `printf` can come to read
- `IsTextLength` — the number of bytes that `term_write` is to print
- `WritesText` — it prints those bytes, returns their number and reads nothing else

## Main results

- `run_printfText`, `printfWith_of_printfText` — a text that reads no argument
- `printf_refines`, `termWrite_refines` — `Kernel.printf` and `termWrite` do what the two functions
  do, whatever lies on the stack
- `run_length` — a text is not longer than what is printed for it, without arguments
- `writesText_iff`, `termWrite_writesText_iff` — when `term_write` writes its text
-/

namespace LinuxLikeKernel
open Transition Scanner PrintfState Kernel

/-- What the running terminal is printed on with. -/
def Kernel.putsFunction (s : Kernel) : List UInt8 → Console → Console :=
  if s.con.curTermId = some s.con.nowTermId then Console.puts else Console.multiPuts

/-- `term_write`, where `printf` finds `env` for its arguments and `after` behind the NUL of
`temp_buf`: the state it leaves, and what the call of `printf` or `multi_printf` has done. With a
negative length the size of `temp_buf` is not positive. -/
def Kernel.termWriteIn (s : Kernel) (env : PrintfEnv) (after : Nat → UInt8) (buf : Nat → UInt8)
    (length : Int) (bound : Nat) : Option (Kernel × Printed) :=
  if length < 0 then none
  else
    let temp := writeText buf length
    let printed :=
      if s.con.curTermId = some s.con.nowTermId then
        s.con.printf env (terminated temp 0 after) bound
      else s.con.multiPrintf env (terminated temp 0 after) bound
    printed.map fun r => ((s.setCon r.con).ret temp.length, r)

/-- `n` is the index of the first NUL in the first `length` bytes of `buf`, or `length` if there
is none. -/
structure IsTextLength (buf : Nat → UInt8) (length : Int) (n : Nat) : Prop where
  le : n ≤ length
  ne_zero : ∀ i < n, buf i ≠ 0
  eq_zero : n < length → buf n = 0

/-- The first `n` bytes of a buffer. -/
def firstBytes (buf : Nat → UInt8) (n : Nat) : List UInt8 := (List.range n).map buf

/-- `term_write` depends on no byte of its buffer after the one of index `n` or from `length` on,
reads nothing behind the NUL of `temp_buf` and no argument, puts exactly the first `n` bytes on the
running terminal and returns `n`. -/
structure WritesText (s : Kernel) (env : PrintfEnv) (after : Nat → UInt8) (buf : Nat → UInt8)
    (length : Int) (n : Nat) : Prop where
  buffer : ∀ buf', (∀ i ≤ n, i < length → buf' i = buf i) →
    s.termWriteIn env after buf' length = s.termWriteIn env after buf length
  format : ∀ i, Examines env (terminated (writeText buf length) 0 after) i → i ≤ n
  result : ∃ bound r, s.termWriteIn env after buf length bound =
      some ((s.print (firstBytes buf n)).ret n, r) ∧
    r.out = firstBytes buf n ∧ r.args = 0

/-! ### The text -/

variable {buf : Nat → UInt8} {length : Int} {n : Nat}

theorem writeText_of_textLength (h : IsTextLength buf length n) :
    writeText buf length = firstBytes buf n := by
  obtain ⟨m, hm⟩ : ∃ m, length.toNat = n + m := ⟨length.toNat - n, by have := h.le; omega⟩
  have hfirst : ∀ c ∈ firstBytes buf n, c ≠ 0 := by
    intro c hc
    obtain ⟨i, hi, rfl⟩ := List.mem_map.mp hc
    exact h.ne_zero i (List.mem_range.mp hi)
  have hsplit : (List.range length.toNat).map buf =
      firstBytes buf n ++ (List.range m).map fun i => buf (n + i) := by
    rw [hm, List.range_add, List.map_append, List.map_map]
    rfl
  rw [writeText, hsplit, List.takeWhile_append_of_pos (by simpa using hfirst)]
  cases m with
  | zero => simp
  | succ m =>
    have hnul : buf n = 0 := h.eq_zero (by omega)
    simp [List.range_succ_eq_map, hnul]

theorem zero_notMem_writeText : (0 : UInt8) ∉ writeText buf length := by
  intro h
  simpa using List.mem_takeWhile_imp h

theorem exists_textLength (buf : Nat → UInt8) (h : 0 ≤ length) :
    ∃ n, IsTextLength buf length n := by
  classical
  by_cases hnul : ∃ i : Nat, (i : Int) < length ∧ buf i = 0
  · refine ⟨Nat.find hnul, ?_, fun i hi => ?_, fun _ => (Nat.find_spec hnul).2⟩
    · have := (Nat.find_spec hnul).1
      omega
    · have hbefore := Nat.find_min hnul hi
      have hspec := (Nat.find_spec hnul).1
      exact fun hzero => hbefore ⟨by omega, hzero⟩
  · refine ⟨length.toNat, ?_, fun i hi hzero => hnul ⟨i, ?_, hzero⟩, fun hlt => ?_⟩
    · omega
    · omega
    · omega

theorem IsTextLength.unique {m : Nat} (h : IsTextLength buf length n)
    (h' : IsTextLength buf length m) : n = m := by
  have hn := h.le
  have hm := h'.le
  rcases Nat.lt_trichotomy n m with hlt | heq | hgt
  · exact absurd (h.eq_zero (by omega)) (h'.ne_zero n hlt)
  · exact heq
  · exact absurd (h'.eq_zero (by omega)) (h.ne_zero m hgt)

theorem IsTextLength.congr {buf' : Nat → UInt8} (h : IsTextLength buf length n)
    (heq : ∀ i ≤ n, (i : Int) < length → buf' i = buf i) : IsTextLength buf' length n := by
  have hle := h.le
  refine ⟨hle, fun i hi => ?_, fun hlt => ?_⟩
  · rw [heq i (by omega) (by omega)]
    exact h.ne_zero i hi
  · rw [heq n (Nat.le_refl _) hlt]
    exact h.eq_zero hlt

theorem firstBytes_congr {buf' : Nat → UInt8} (heq : ∀ i < n, buf' i = buf i) :
    firstBytes buf' n = firstBytes buf n :=
  List.map_congr_left fun i hi => heq i (List.mem_range.mp hi)

/-! ### The scan of a text -/

variable {env : PrintfEnv} {st st' : PrintfState}

@[simp] theorem put_put (st : PrintfState) (a b : List UInt8) :
    (st.put a).put b = st.put (a ++ b) := by
  simp [put]

@[simp] theorem goTo_put (st : PrintfState) (p : FormatPlace) (a : List UInt8) :
    (st.goTo p).put a = st.put a := rfl

/-- Where `printfText` tells what a text prints, the scan prints that and reads no argument. -/
theorem run_printfText {cs out : List UInt8} (h0 : 0 ∉ cs)
    (h : printfText (decide (st.place ≠ .loop)) cs = some out) :
    run (printfStep env) st cs = some (st.put out) := by
  induction cs generalizing st out with
  | nil =>
    cases hp : st.place with
    | loop =>
      simp only [hp, ne_eq, not_true_eq_false, decide_false, printfText, Option.some.injEq] at h
      subst h
      obtain ⟨place, args, o⟩ := st
      obtain rfl : place = .loop := hp
      simp [put]
    | formatCharSwitch alternate => simp [hp, printfText] at h
  | cons c cs ih =>
    obtain ⟨hc, hcs⟩ : (0 : UInt8) ≠ c ∧ (0 : UInt8) ∉ cs := by simpa using h0
    cases hp : st.place with
    | loop =>
      simp only [hp, ne_eq, not_true_eq_false, decide_false, printfText] at h
      split_ifs at h with h37
      · have hstep : printfStep env st c = some (st.goTo (.formatCharSwitch false)) := by
          rw [printfStep_loop hp, if_neg hc.symm, if_pos h37]
        rw [run_cons hstep, ih hcs (by simpa [goTo] using h), goTo_put]
      · obtain ⟨out, hout, rfl⟩ := Option.map_eq_some_iff.mp h
        have hstep : printfStep env st c = some (st.put [c]) := by
          rw [printfStep_loop hp, if_neg hc.symm, if_neg h37]
        rw [run_cons hstep, ih hcs (by simpa [put] using hout), put_put]
        rfl
    | formatCharSwitch alternate =>
      simp only [hp, ne_eq, reduceCtorEq, not_false_eq_true, decide_true, printfText] at h
      have hstep : printfStep env st c = _ := printfStep_formatCharSwitch hp
      simp only [formatCharSwitch] at hstep
      -- `printfText` tells nothing of the conversions that read an argument
      split_ifs at h with h37 h35 hnone
      · obtain ⟨out, hout, rfl⟩ := Option.map_eq_some_iff.mp h
        rw [if_pos h37] at hstep
        rw [run_cons hstep, ih hcs (by simpa [put] using hout), put_put, h37]
        rfl
      · rw [if_neg h37, if_pos h35] at hstep
        rw [run_cons hstep, ih hcs (by simpa [goTo] using h), goTo_put]
      · obtain ⟨h120, h117, h100, h99, h115⟩ : c ≠ 120 ∧ c ≠ 117 ∧ c ≠ 100 ∧ c ≠ 99 ∧ c ≠ 115 := by
          simpa [not_or] using hnone
        rw [if_neg h37, if_neg h35, if_neg h120, if_neg h117, if_neg h100, if_neg h99,
          if_neg h115] at hstep
        rw [run_cons hstep, ih hcs (by simpa [goTo] using h), goTo_put]

/-- Without arguments a text prints at most as many characters as it has. -/
theorem run_length {cs : List UInt8} (h : run (printfStep env) st cs = some st') :
    st.args ≤ st'.args ∧
      (st'.args = st.args → st'.out.length ≤ st.out.length + cs.length) := by
  induction cs generalizing st with
  | nil =>
    obtain rfl := Option.some.inj h
    exact ⟨Nat.le_refl _, fun _ => Nat.le_refl _⟩
  | cons c cs ih =>
    obtain ⟨m, hm, hr⟩ := run_cons_eq_some.mp h
    obtain ⟨hle, hlen⟩ := ih hr
    have hargs := printfStep_args hm
    refine ⟨by omega, fun heq => ?_⟩
    have htakes : st.place.takes c = false := by
      rw [← Bool.toNat_eq_zero]
      omega
    have hout := printfStep_out hm htakes
    have := hlen (by omega)
    simp only [List.length_cons]
    omega

/-- Without arguments a text with a `%` prints less than it has. -/
theorem run_length_lt {cs : List UInt8} (hp : st.place = .loop)
    (h : run (printfStep env) st cs = some st') (hargs : st'.args = st.args) (h37 : 37 ∈ cs) :
    st'.out.length < st.out.length + cs.length := by
  induction cs generalizing st with
  | nil => cases h37
  | cons c cs ih =>
    obtain ⟨m, hm, hr⟩ := run_cons_eq_some.mp h
    obtain ⟨-, hlen⟩ := run_length hr
    rw [printfStep_loop hp] at hm
    split_ifs at hm with h0 hc
    · obtain rfl := Option.some.inj hm
      have := hlen hargs
      simp only [goTo, List.length_cons] at this ⊢
      omega
    · obtain rfl := Option.some.inj hm
      have hcs : 37 ∈ cs := (List.mem_cons.mp h37).resolve_left fun h => hc h.symm
      have := ih rfl hr hargs hcs
      simp only [put, List.length_append, List.length_cons, List.length_nil] at this ⊢
      omega

/-- A call of `printf` or `multi_printf` for a text that reads no argument. -/
theorem printfWith_of_printfText (puts : List UInt8 → Console → Console) (env : PrintfEnv)
    (after : Nat → UInt8) (k : Console) {cs out : List UInt8} (h0 : 0 ∉ cs)
    (h : printfText false cs = some out) :
    (∀ i, Examines env (terminated cs 0 after) i → i ≤ cs.length) ∧
      ∃ bound, printfWith puts env (terminated cs 0 after) bound k =
        some ⟨puts out k, int32 cs.length, out, 0⟩ := by
  have hrun : run (printfStep env) start cs = some (start.put out) := run_printfText h0 h
  obtain ⟨hle, hend⟩ := (endsAt_format_iff h0).mpr ⟨rfl, hrun, rfl⟩
  refine ⟨hle, cs.length + 1, ?_⟩
  exact printfWith_eq_some_iff.mpr ⟨_, _, Nat.lt_succ_self _, hend, rfl⟩

/-- **Refinement.** The messages that the kernel prints with `Kernel.printf` have no `%`, and that
is what `printf` does for them. -/
theorem printf_refines (s : Kernel) {cs : List UInt8} (h0 : 0 ∉ cs) (h37 : 37 ∉ cs)
    (env : PrintfEnv) (after : Nat → UInt8) :
    ∃ bound r, s.con.printf env (terminated cs 0 after) bound = some r ∧
      s.printf cs = s.setCon r.con := by
  obtain ⟨-, bound, hr⟩ := printfWith_of_printfText Console.puts env after s.con h0
    (printfText_of_plain h37)
  exact ⟨bound, _, hr, rfl⟩

example : 0 ∉ noSpaceText ∧ 37 ∉ noSpaceText ∧ 0 ∉ lastShellText ∧ 37 ∉ lastShellText := by
  decide

/-! ### `term_write` -/

variable {s s' : Kernel} {after : Nat → UInt8}

theorem print_eq (s : Kernel) (out : List UInt8) :
    s.print out = s.setCon (s.putsFunction out s.con) := by
  simp only [print, putsFunction]
  split_ifs <;> rfl

theorem termWriteIn_eq_some_iff {bound : Nat} {r : Printed} (hlen : 0 ≤ length) :
    s.termWriteIn env after buf length bound = some (s', r) ↔
      printfWith s.putsFunction env (terminated (writeText buf length) 0 after) bound s.con =
          some r ∧ s' = (s.setCon r.con).ret (writeText buf length).length := by
  have hprint : (if s.con.curTermId = some s.con.nowTermId then
        s.con.printf env (terminated (writeText buf length) 0 after) bound
      else s.con.multiPrintf env (terminated (writeText buf length) 0 after) bound) =
      printfWith s.putsFunction env (terminated (writeText buf length) 0 after) bound s.con := by
    simp only [putsFunction]
    split_ifs <;> rfl
  simp only [termWriteIn, if_neg (Int.not_lt.mpr hlen), hprint, Option.map_eq_some_iff]
  constructor
  · rintro ⟨r', hr', heq⟩
    obtain ⟨rfl, rfl⟩ := Prod.mk.inj heq
    exact ⟨hr', rfl⟩
  · rintro ⟨hr, rfl⟩
    exact ⟨r, hr, rfl⟩

/-- The call of `printf` or `multi_printf` for a text that reads no argument. -/
theorem termWriteIn_of_printfText (s : Kernel) (env : PrintfEnv) (after : Nat → UInt8)
    {out : List UInt8} (hlen : 0 ≤ length)
    (h : printfText false (writeText buf length) = some out) :
    (∀ i, Examines env (terminated (writeText buf length) 0 after) i →
        i ≤ (writeText buf length).length) ∧
      ∃ bound r, s.termWriteIn env after buf length bound =
          some ((s.print out).ret (writeText buf length).length, r) ∧ r.out = out ∧ r.args = 0 := by
  obtain ⟨hle, bound, hr⟩ :=
    printfWith_of_printfText s.putsFunction env after s.con zero_notMem_writeText h
  exact ⟨hle, bound, _, (termWriteIn_eq_some_iff hlen).mpr ⟨hr, by rw [print_eq]⟩, rfl, rfl⟩

/-- **Refinement.** What `termWrite` does is what `term_write` does, whatever its call of `printf`
could find behind `temp_buf` and on the stack. -/
theorem termWrite_refines (h : s.termWrite buf length = some s') (env : PrintfEnv)
    (after : Nat → UInt8) :
    ∃ bound r, s.termWriteIn env after buf length bound = some (s', r) ∧ r.args = 0 := by
  simp only [termWrite] at h
  split_ifs at h with hlen
  obtain ⟨out, hout, rfl⟩ := Option.map_eq_some_iff.mp h
  obtain ⟨-, bound, r, hr, -, hargs⟩ :=
    termWriteIn_of_printfText s env after (Int.not_lt.mp hlen) hout
  exact ⟨bound, r, hr, hargs⟩

/-- `term_write` reads its buffer up to the first NUL. -/
theorem termWriteIn_congr {buf' : Nat → UInt8} (h : IsTextLength buf length n)
    (heq : ∀ i ≤ n, (i : Int) < length → buf' i = buf i) :
    s.termWriteIn env after buf' length = s.termWriteIn env after buf length := by
  have hle := h.le
  have htext : writeText buf' length = writeText buf length := by
    rw [writeText_of_textLength h, writeText_of_textLength (h.congr heq)]
    exact firstBytes_congr fun i hi => heq i (by omega) (by omega)
  funext bound
  simp only [termWriteIn, htext]

theorem writesText_iff (hn : IsTextLength buf length n) :
    WritesText s env after buf length n ↔ ∀ i < n, buf i ≠ 37 := by
  have hlen : 0 ≤ length := by
    have := hn.le
    omega
  have htext := writeText_of_textLength hn
  have hlength : (firstBytes buf n).length = n := by simp [firstBytes]
  have hplain : (∀ i < n, buf i ≠ 37) ↔ 37 ∉ firstBytes buf n := by
    simp [firstBytes]
  rw [hplain]
  constructor
  · rintro ⟨-, hle, bound, r, hr, hout, hargs⟩ h37
    obtain ⟨m, st, -, hend, rfl⟩ :=
      printfWith_eq_some_iff.mp ((termWriteIn_eq_some_iff hlen).mp hr).1
    rw [← hlength, ← htext] at hle
    obtain ⟨-, hrun, -⟩ := (endsAt_format_iff zero_notMem_writeText).mp ⟨hle, hend⟩
    -- a `%` makes the text that is printed shorter than the one that is written
    rw [htext] at hrun
    have hlt := run_length_lt rfl hrun hargs h37
    simp only [start, List.length_nil] at hlt
    rw [show st.out = firstBytes buf n from hout] at hlt
    omega
  · intro h37
    obtain ⟨hle, bound, r, hr, hout, hargs⟩ :=
      termWriteIn_of_printfText s env after hlen (printfText_of_plain (htext ▸ h37))
    rw [htext, hlength] at hr hle
    refine ⟨fun buf' heq => termWriteIn_congr hn heq, ?_, bound, r, hr, hout.trans htext, hargs⟩
    rw [htext]
    exact hle

/-- **Written text.** `term_write` prints the bytes of its buffer up to the first NUL or the length,
as they are and in order, returns their number and reads nothing else, exactly if there is no `%`
among them. -/
theorem termWrite_writesText_iff (s : Kernel) (env : PrintfEnv) (after buf : Nat → UInt8)
    (length : Int) (h : 0 ≤ length) :
    ∃ n, IsTextLength buf length n ∧
      (WritesText s env after buf length n ↔ ∀ i < n, buf i ≠ 37) := by
  obtain ⟨n, hn⟩ := exists_textLength buf h
  exact ⟨n, hn, writesText_iff hn⟩

/-- Two letters and a NUL in a buffer of five bytes. -/
theorem termWrite_writesText_iff_sample :
    (0 : Int) ≤ 5 ∧ WritesText powerOn ⟨fun _ => 7, fun _ => 0⟩ (fun _ => 37)
      (fun i => if i = 2 then 0 else 65) 5 2 := by
  refine ⟨by decide, ?_⟩
  obtain ⟨n, hn, hiff⟩ := termWrite_writesText_iff powerOn ⟨fun _ => 7, fun _ => 0⟩ (fun _ => 37)
    (fun i => if i = 2 then 0 else 65) 5 (by decide)
  obtain rfl : n = 2 := hn.unique ⟨by decide, by decide, by decide⟩
  exact hiff.mpr (by decide)

/-- The text `50%x` prints a word of the stack. -/
theorem not_termWrite_writesText : ¬ ∀ (s : Kernel) (env : PrintfEnv) (after buf : Nat → UInt8)
    (length : Int) (n : Nat), IsTextLength buf length n → WritesText s env after buf length n := by
  intro hwritten
  have hn : IsTextLength (fun i => [(53 : UInt8), 48, 37, 120].getD i 0) 4 4 :=
    ⟨by decide, by decide, by decide⟩
  have hwrites := hwritten powerOn ⟨fun _ => 7, fun _ => 0⟩ (fun _ => 0) _ 4 4 hn
  exact (writesText_iff hn).mp hwrites 2 (by decide) rfl

end LinuxLikeKernel
