import Mathlib.Algebra.Group.Nat.Hom
import Mathlib.Logic.Function.Basic

/-!
# Walks through memory

A pointer walks through memory with a stride and stores at each place where it stands, or two
pointers walk and what is at the one is stored at the other. Addresses are elements of an additive
monoid, so that they can wrap around, and the stride can go down.

## Main definitions

- `Strides.fill` — one byte is stored along a walk
- `Strides.copy` — two pointers walk, and the bytes along the one go to the other
- `Strides.Apart` — two walks have no place in common

## Main results

- `fill_add`, `copy_add` — a walk after another
- `fill_of_mem`, `fill_of_not_mem` — the memory after `fill`
- `copy_of_mem`, `copy_of_not_mem` — the memory after `copy`, if no byte is stored to before it is
  read
-/

namespace Strides

variable {α β : Type*} [AddMonoid α]

/-- A walk from the second place on. -/
theorem add_succ_nsmul (p δ : α) (i : Nat) : p + δ + i • δ = p + (i + 1) • δ := by
  rw [add_assoc, succ_nsmul']

/-- A place that is not on a walk is not its first one, nor on the rest. -/
theorem ne_of_not_mem {δ p a : α} {n : Nat} (h : ∀ i < n + 1, a ≠ p + i • δ) :
    a ≠ p ∧ ∀ i < n, a ≠ p + δ + i • δ := by
  constructor
  · have := h 0 (Nat.zero_lt_succ n)
    rwa [zero_nsmul, add_zero] at this
  · intro i hi
    rw [add_succ_nsmul]
    exact h (i + 1) (Nat.succ_lt_succ hi)

/-- Two walks have no place in common. -/
def Apart (δ : α) (n : Nat) (d s : α) : Prop := ∀ i < n, ∀ j < n, d + i • δ ≠ s + j • δ

theorem Apart.take {δ d s : α} {n k : Nat} (h : Apart δ n d s) (hk : k ≤ n) : Apart δ k d s :=
  fun i hi j hj => h i (Nat.lt_of_lt_of_le hi hk) j (Nat.lt_of_lt_of_le hj hk)

/-- The rest of two walks that have no place in common. -/
theorem Apart.drop {δ d s : α} {n k : Nat} (h : Apart δ (n + k) d s) :
    Apart δ k (d + n • δ) (s + n • δ) := by
  intro i hi j hj
  rw [add_assoc, add_assoc, ← add_nsmul, ← add_nsmul]
  exact h (n + i) (Nat.add_lt_add_left hi n) (n + j) (Nat.add_lt_add_left hj n)

variable [DecidableEq α]

/-- `while (n--) { *p = b; p += δ; }` -/
def fill (δ : α) (b : β) : Nat → α → (α → β) → α → β
  | 0, _, m => m
  | n + 1, p, m => fill δ b n (p + δ) (Function.update m p b)

/-- `while (n--) { *d = *s; d += δ; s += δ; }` -/
def copy (δ : α) : Nat → α → α → (α → β) → α → β
  | 0, _, _, m => m
  | n + 1, d, s, m => copy δ n (d + δ) (s + δ) (Function.update m d (m s))

variable {δ : α} {b : β} {m : α → β} {p d s a : α} {n : Nat}

theorem fill_add (δ : α) (b : β) (n k : Nat) (p : α) (m : α → β) :
    fill δ b (n + k) p m = fill δ b k (p + n • δ) (fill δ b n p m) := by
  induction n generalizing p m with
  | zero => rw [Nat.zero_add, zero_nsmul, add_zero, fill]
  | succ n ih => rw [Nat.add_right_comm, fill, ih, add_succ_nsmul, fill]

theorem copy_add (δ : α) (n k : Nat) (d s : α) (m : α → β) :
    copy δ (n + k) d s m = copy δ k (d + n • δ) (s + n • δ) (copy δ n d s m) := by
  induction n generalizing d s m with
  | zero => rw [Nat.zero_add, zero_nsmul, add_zero, add_zero, copy]
  | succ n ih => rw [Nat.add_right_comm, copy, ih, add_succ_nsmul, add_succ_nsmul, copy]

/-- **Frame rule.** A byte that is not on the walk keeps its value. -/
theorem fill_of_not_mem (h : ∀ i < n, a ≠ p + i • δ) : fill δ b n p m a = m a := by
  induction n generalizing p m with
  | zero => rfl
  | succ n ih =>
    obtain ⟨hhead, hrest⟩ := ne_of_not_mem h
    rw [fill, ih hrest, Function.update_of_ne hhead]

theorem fill_of_mem {i : Nat} (hi : i < n) : fill δ b n p m (p + i • δ) = b := by
  induction n generalizing p m i with
  | zero => exact absurd hi (Nat.not_lt_zero i)
  | succ n ih =>
    rw [fill]
    cases i with
    | zero =>
      rw [zero_nsmul, add_zero]
      by_cases hlater : ∃ j < n, p = p + δ + j • δ
      · -- the walk comes back
        obtain ⟨j, hj, heq⟩ := hlater
        have hback := ih (p := p + δ) (m := Function.update m p b) hj
        rwa [← heq] at hback
      · rw [fill_of_not_mem fun j hj heq => hlater ⟨j, hj, heq⟩, Function.update_self]
    | succ i =>
      rw [← add_succ_nsmul]
      exact ih (Nat.lt_of_succ_lt_succ hi)

/-- **Frame rule.** A byte that is not on the walk of the destination keeps its value. -/
theorem copy_of_not_mem (h : ∀ i < n, a ≠ d + i • δ) : copy δ n d s m a = m a := by
  induction n generalizing d s m with
  | zero => rfl
  | succ n ih =>
    obtain ⟨hhead, hrest⟩ := ne_of_not_mem h
    rw [copy, ih hrest, Function.update_of_ne hhead]

/-- The last turn of a walk that has not stored to the byte it reads there. -/
theorem copy_succ_of_unread (h : ∀ i < n, s + n • δ ≠ d + i • δ) :
    copy δ (n + 1) d s m = Function.update (copy δ n d s m) (d + n • δ) (m (s + n • δ)) := by
  rw [copy_add, copy, copy, copy_of_not_mem h]

/-- If the walk of the destination comes to no place twice, and to no place of the source before
the source does, the bytes of the source are at the destination in the end. -/
theorem copy_of_mem (honce : ∀ i j, i < j → j < n → d + i • δ ≠ d + j • δ)
    (hunread : ∀ i j, i < j → j < n → s + j • δ ≠ d + i • δ) {i : Nat} (hi : i < n) :
    copy δ n d s m (d + i • δ) = m (s + i • δ) := by
  induction n generalizing d s m i with
  | zero => exact absurd hi (Nat.not_lt_zero i)
  | succ n ih =>
    rw [copy]
    cases i with
    | zero =>
      have hhead : ∀ j < n, d ≠ d + δ + j • δ := by
        intro j hj
        have := honce 0 (j + 1) (Nat.zero_lt_succ j) (Nat.succ_lt_succ hj)
        rwa [zero_nsmul, add_zero, ← add_succ_nsmul] at this
      rw [zero_nsmul, add_zero, add_zero, copy_of_not_mem hhead, Function.update_self]
    | succ i =>
      have hi := Nat.lt_of_succ_lt_succ hi
      have hread : s + (i + 1) • δ ≠ d := by
        have := hunread 0 (i + 1) (Nat.zero_lt_succ i) (Nat.succ_lt_succ hi)
        rwa [zero_nsmul, add_zero] at this
      rw [← add_succ_nsmul, ih ?_ ?_ hi, add_succ_nsmul, Function.update_of_ne hread]
      · intro j k hjk hk
        rw [add_succ_nsmul, add_succ_nsmul]
        exact honce (j + 1) (k + 1) (Nat.succ_lt_succ hjk) (Nat.succ_lt_succ hk)
      · intro j k hjk hk
        rw [add_succ_nsmul, add_succ_nsmul]
        exact hunread (j + 1) (k + 1) (Nat.succ_lt_succ hjk) (Nat.succ_lt_succ hk)

end Strides
