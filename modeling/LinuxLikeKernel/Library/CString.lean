import LinuxLikeKernel.Library.Memory

/-!
# Strings in memory

A string lies in memory with a NUL behind it. Its length and its bytes are found by going up to the
NUL, and an index that comes from each end reverses it in place.

## Main definitions

- `CString.At` — the string at an address
- `CString.length`, `CString.bytes` — going up to the NUL
- `CString.reverseLoop` — reversing in place

## Main results

- `At.length_eq`, `At.bytes_eq` — what is found is the string
- `reverseLoop_apply`, `at_reverse` — the bytes are those of the reversed string
-/

namespace CString
open ByteMemory

/-- The string at `s`. -/
structure At (m : Mem) (s : Nat) (text : List UInt8) : Prop where
  char : ∀ i (h : i < text.length), m (s + i) = text[i]
  nul : m (s + text.length) = 0
  ne_nul : ∀ c ∈ text, c ≠ 0

variable {m m' : Mem} {s : Nat} {text : List UInt8}

theorem At.congr (h : At m s text) (heq : ∀ i ≤ text.length, m' (s + i) = m (s + i)) :
    At m' s text where
  char i hi := (heq i (Nat.le_of_lt hi)).trans (h.char i hi)
  nul := (heq _ (Nat.le_refl _)).trans h.nul
  ne_nul := h.ne_nul

theorem At.nil (h : m s = 0) : At m s [] :=
  ⟨fun _ hi => absurd hi (Nat.not_lt_zero _), h, by simp⟩

/-- A character in front. -/
theorem At.cons (h : At m (s + 1) text) {c : UInt8} (hc : m s = c) (hne : c ≠ 0) :
    At m s (c :: text) where
  char i hi := by
    cases i with
    | zero => exact hc
    | succ i =>
      have hget := h.char i (Nat.lt_of_succ_lt_succ hi)
      rw [Nat.add_right_comm] at hget
      exact hget
  nul := by
    have hnul := h.nul
    rw [Nat.add_right_comm] at hnul
    exact hnul
  ne_nul b hb := by
    obtain rfl | hb := List.mem_cons.mp hb
    · exact hne
    · exact h.ne_nul b hb

/-- Characters in front. -/
theorem At.append {front : List UInt8} (h : At m (s + front.length) text)
    (hchar : ∀ i (h : i < front.length), m (s + i) = front[i]) (hne : ∀ c ∈ front, c ≠ 0) :
    At m s (front ++ text) := by
  induction front generalizing s with
  | nil => exact h
  | cons c front ih =>
    rw [List.length_cons, Nat.add_comm front.length, ← Nat.add_assoc] at h
    refine (ih h (fun i hi => ?_) fun b hb => hne b (List.mem_cons_of_mem _ hb)).cons ?_ ?_
    · rw [Nat.add_assoc, Nat.add_comm 1]
      exact hchar (i + 1) (Nat.succ_lt_succ hi)
    · exact hchar 0 (Nat.zero_lt_succ _)
    · exact hne c List.mem_cons_self

/-! ### Going up to the NUL -/

/-- The length of the string at `s`, counted from `len` on, if its NUL is among the next `bound`
bytes. -/
def length (m : Mem) (s : Nat) : Nat → Nat → Option Nat
  | 0, _ => none
  | bound + 1, len => if m (s + len) ≠ 0 then length m s bound (len + 1) else some len

/-- The bytes of the string at `s` from index `i` on, if its NUL is among the next `bound` ones. -/
def bytes (m : Mem) (s : Nat) : Nat → Nat → Option (List UInt8)
  | 0, _ => none
  | bound + 1, i =>
    if m (s + i) ≠ 0 then (bytes m s bound (i + 1)).map (m (s + i) :: ·) else some []

theorem At.ne_zero_iff (h : At m s text) {i : Nat} (hi : i ≤ text.length) :
    m (s + i) ≠ 0 ↔ i < text.length := by
  constructor
  · intro hne
    refine Nat.lt_of_le_of_ne hi fun heq => hne ?_
    rw [heq]
    exact h.nul
  · intro hlt
    rw [h.char i hlt]
    exact h.ne_nul _ (List.getElem_mem hlt)

theorem At.length_eq (h : At m s text) {bound i : Nat} (hi : i ≤ text.length)
    (hb : text.length - i < bound) : length m s bound i = some text.length := by
  induction bound generalizing i with
  | zero => omega
  | succ bound ih =>
    by_cases hlt : i < text.length
    · rw [length, if_pos ((h.ne_zero_iff hi).mpr hlt), ih hlt (by omega)]
    · rw [length, if_neg fun hne => hlt ((h.ne_zero_iff hi).mp hne)]
      congr 1
      omega

theorem At.bytes_eq (h : At m s text) {bound i : Nat} (hi : i ≤ text.length)
    (hb : text.length - i < bound) : bytes m s bound i = some (text.drop i) := by
  induction bound generalizing i with
  | zero => omega
  | succ bound ih =>
    by_cases hlt : i < text.length
    · rw [bytes, if_pos ((h.ne_zero_iff hi).mpr hlt), ih hlt (by omega), h.char i hlt,
        List.drop_eq_getElem_cons hlt]
      rfl
    · rw [bytes, if_neg fun hne => hlt ((h.ne_zero_iff hi).mp hne),
        List.drop_eq_nil_of_le (Nat.le_of_not_lt hlt)]

/-! ### Reversing -/

/-- Indices from both ends exchange the bytes at `s` until they meet. -/
def reverseLoop (s beg stop : Nat) (m : Mem) : Mem :=
  if beg < stop then
    let tmp := m (s + stop)
    let m := store m (s + stop) (m (s + beg))
    reverseLoop s (beg + 1) (stop - 1) (store m (s + beg) tmp)
  else m
termination_by stop - beg

/-- Each byte between the indices comes from the other side. -/
theorem reverseLoop_apply (s beg stop : Nat) (m : Mem) (a : Nat) :
    reverseLoop s beg stop m a =
      if s + beg ≤ a ∧ a ≤ s + stop then m (s + beg + stop - (a - s)) else m a := by
  fun_induction reverseLoop s beg stop m with
  | case1 beg stop m hlt tmp m₁ ih =>
    rw [ih]
    by_cases hbeg : a = s + beg
    · rw [if_neg (by omega), if_pos (by omega), hbeg, store_self]
      show m (s + stop) = _
      congr 1
      omega
    · by_cases hstop : a = s + stop
      · rw [if_neg (by omega), if_pos (by omega), store_of_ne _ _ hbeg, hstop]
        refine (store_self ..).trans ?_
        congr 1
        omega
      · by_cases hin : s + beg ≤ a ∧ a ≤ s + stop
        · -- between the two that are exchanged
          rw [if_pos (by omega), if_pos hin, store_of_ne _ _ (by omega)]
          refine (store_of_ne _ _ (by omega)).trans ?_
          congr 1
          omega
        · rw [if_neg (by omega), if_neg hin, store_of_ne _ _ hbeg]
          exact store_of_ne _ _ hstop
  | case2 beg stop m hge =>
    split
    · congr 1
      omega
    · rfl

/-- A string with its bytes the wrong way round, and the NUL behind them, is reversed in place. -/
theorem at_reverse (hchar : ∀ i (h : i < text.length), m (s + i) = text[i])
    (hnul : m (s + text.length) = 0) (hne : ∀ c ∈ text, c ≠ 0) :
    At (reverseLoop s 0 (text.length - 1) m) s text.reverse where
  char i hi := by
    rw [List.length_reverse] at hi
    rw [reverseLoop_apply, if_pos (by omega), List.getElem_reverse, ← hchar]
    congr 1
    omega
  nul := by
    rw [List.length_reverse, reverseLoop_apply]
    split
    · have hempty : s + 0 + (text.length - 1) - (s + text.length - s) = s + text.length := by omega
      rw [hempty]
      exact hnul
    · exact hnul
  ne_nul c hc := hne c (List.mem_reverse.mp hc)

end CString
