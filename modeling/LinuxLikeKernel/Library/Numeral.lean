import Mathlib.Data.Nat.Digits.Lemmas

/-!
# Numerals

Texts that denote numbers in a radix: their characters are digits below the radix, the one of the
highest place first.

## Main definitions

- `Numeral.read` — the number that a text denotes
- `IsNumeral` — the text of a number as one writes it, without leading zeros

## Main results

- `Numeral.read_map_digits` — the digits of a number denote it
- `isNumeral_digits` — and are its numeral
-/

namespace Numeral

variable {α : Type*} (digitOf : α → Option Nat) (radix : Nat)

/-- Reading one character more. -/
def readChar (n : Nat) (c : α) : Option Nat :=
  (digitOf c).bind fun d => if d < radix then some (n * radix + d) else none

/-- The number that a text denotes, if all its characters are digits below the radix. -/
def read (text : List α) : Option Nat := text.foldlM (readChar digitOf radix) 0

/-- The numeral of a number: it denotes the number, and it starts with a zero only if it is the
zero. -/
structure IsNumeral (n : Nat) (text : List α) : Prop where
  ne_nil : text ≠ []
  read : read digitOf radix text = some n
  leading : n ≠ 0 → digitOf (text.head ne_nil) ≠ some 0
  zero : n = 0 → text.length = 1

variable {digitOf radix}

theorem read_concat {text : List α} {c : α} {n d : Nat} (h : read digitOf radix text = some n)
    (hc : digitOf c = some d) (hd : d < radix) :
    read digitOf radix (text ++ [c]) = some (n * radix + d) := by
  rw [read, List.foldlM_append, ← read, h]
  simp [readChar, hc, hd]

/-- Zeros in front do not matter. -/
theorem read_zeros {zero : α} (hzero : digitOf zero = some 0) (hr : 0 < radix) (k : Nat)
    (text : List α) :
    read digitOf radix (List.replicate k zero ++ text) = read digitOf radix text := by
  have hzeros : read digitOf radix (List.replicate k zero) = some 0 := by
    induction k with
    | zero => rfl
    | succ k ih =>
      rw [List.replicate_succ', read_concat ih hzero hr, Nat.zero_mul]
  rw [read, List.foldlM_append, ← read, hzeros]
  rfl

variable {char : Nat → α}

/-- **Round trip.** The digits of a number, the lowest place last, denote it. -/
theorem read_map_digits (hchar : ∀ d < radix, digitOf (char d) = some d) (hr : 1 < radix)
    (n : Nat) : read digitOf radix ((Nat.digits radix n).map char).reverse = some n := by
  have hread : ∀ ds : List Nat, (∀ d ∈ ds, d < radix) →
      read digitOf radix (ds.map char).reverse = some (Nat.ofDigits radix ds) := by
    intro ds hds
    induction ds with
    | nil => rfl
    | cons d ds ih =>
      have hd := hds d List.mem_cons_self
      have hrest := ih fun x hx => hds x (List.mem_cons_of_mem _ hx)
      rw [List.map_cons, List.reverse_cons, read_concat hrest (hchar d hd) hd, Nat.ofDigits_cons]
      congr 1
      rw [Nat.mul_comm, Nat.add_comm]
  rw [hread _ fun d hd => Nat.digits_lt_base hr hd, Nat.ofDigits_digits]

/-- The digits of a number other than zero are its numeral. -/
theorem isNumeral_digits (hchar : ∀ d < radix, digitOf (char d) = some d) (hr : 1 < radix)
    {n : Nat} (hn : n ≠ 0) :
    IsNumeral digitOf radix n ((Nat.digits radix n).map char).reverse := by
  have hne : Nat.digits radix n ≠ [] := Nat.digits_ne_nil_iff_ne_zero.mpr hn
  refine ⟨by simpa using hne, read_map_digits hchar hr n, fun _ => ?_, fun h => absurd h hn⟩
  rw [List.head_reverse, List.getLast_map, hchar _ (Nat.digits_lt_base hr (List.getLast_mem hne))]
  intro h
  exact Nat.getLast_digit_ne_zero radix hn (Option.some.inj h)

end Numeral
