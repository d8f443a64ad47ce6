import Mathlib.Data.BitVec
import Mathlib.Tactic.Ring

/-!
# Words on a stack

Words of 32 bits in a memory of bytes with 32-bit addresses, and a stack of them that grows down.
Addresses wrap; a block of at most 2^32 bytes is given by its start and its length.

## Main definitions

- `Within` — an address is in a block
- `load`, `store` — a word in memory, its lowest byte first
- `Holds` — the words of a list stand in memory, one behind the other
- `pushed` — the memory after words have been pushed

## Main results

- `holds_pushed`, `pushed_of_not_within` — what is pushed is there, and nothing else changes
-/

namespace StackWords

/-- The address is one of the `n` from `a` on. -/
def Within (a : BitVec 32) (n : Nat) (x : BitVec 32) : Prop := (x - a).toNat < n

/-- The word at an address. -/
def load (mem : BitVec 32 → BitVec 8) (a : BitVec 32) : BitVec 32 :=
  mem (a + 3) ++ mem (a + 2) ++ mem (a + 1) ++ mem a

def store (mem : BitVec 32 → BitVec 8) (a v : BitVec 32) : BitVec 32 → BitVec 8 :=
  fun x => if (x - a).toNat < 4 then v.extractLsb' (8 * (x - a).toNat) 8 else mem x

/-- The words stand in memory from `a` on. -/
def Holds (mem : BitVec 32 → BitVec 8) : BitVec 32 → List (BitVec 32) → Prop
  | _, [] => True
  | a, w :: ws => load mem a = w ∧ Holds mem (a + 4) ws

/-- The number of bytes of so many words. -/
def size (n : Nat) : BitVec 32 := BitVec.ofNat 32 (4 * n)

/-- The memory after the words have been pushed below `sp`, the last of the list first. -/
def pushed (mem : BitVec 32 → BitVec 8) (sp : BitVec 32) : List (BitVec 32) → BitVec 32 → BitVec 8
  | [] => mem
  | w :: ws => store (pushed mem sp ws) (sp - size (ws.length + 1)) w

variable {mem mem' : BitVec 32 → BitVec 8} {a b x sp v w : BitVec 32} {k n : Nat}
  {ws vs : List (BitVec 32)}

/-! ### Blocks -/

theorem Within.shift (h : Within (a + BitVec.ofNat 32 k) n x) (hkn : k + n ≤ 2 ^ 32) :
    Within a (k + n) x := by
  have heq : x - a = (x - (a + BitVec.ofNat 32 k)) + BitVec.ofNat 32 k := by
    rw [← BitVec.sub_sub, BitVec.sub_add_cancel]
  rw [Within] at h ⊢
  rw [heq, BitVec.toNat_add, BitVec.toNat_ofNat]
  omega

theorem size_add (n k : Nat) : size (n + k) = size n + size k := by
  rw [size, Nat.mul_add, BitVec.ofNat_add, size, size]

theorem size_succ (n : Nat) : size (n + 1) = size n + 4 := by
  rw [size, Nat.mul_succ, BitVec.ofNat_add]
  rfl

theorem Within.mono (h : Within a k x) (hkn : k ≤ n) : Within a n x := Nat.lt_of_lt_of_le h hkn

/-! ### A word -/

/-- The top of a stack of more words. -/
theorem Within.below (h : Within (sp - size n) (4 * n) x) (hnk : n ≤ k) (hk : 4 * k ≤ 2 ^ 32) :
    Within (sp - size k) (4 * k) x := by
  obtain ⟨d, rfl⟩ := Nat.exists_eq_add_of_le hnk
  have heq : sp - size n = sp - size (n + d) + BitVec.ofNat 32 (4 * d) := by
    rw [size_add, size, size]
    ring
  rw [heq] at h
  exact (h.shift (by omega)).mono (by omega)

/-- Blocks one behind the other. -/
theorem not_within_of_le (hab : a.toNat + n ≤ b.toNat) (hb : b.toNat + k ≤ 2 ^ 32)
    (h : Within a n x) : ¬Within b k x := by
  intro h'
  rw [Within, BitVec.toNat_sub] at h h'
  have hx := x.isLt
  omega

theorem add_within (hkn : k < n) (hn : n ≤ 2 ^ 32) : Within a n (a + BitVec.ofNat 32 k) := by
  rw [Within, add_sub_cancel_left, BitVec.toNat_ofNat]
  omega

theorem load_congr (h : ∀ x, Within a 4 x → mem' x = mem x) : load mem' a = load mem a := by
  have hat : ∀ k < 4, mem' (a + BitVec.ofNat 32 k) = mem (a + BitVec.ofNat 32 k) :=
    fun k hk => h _ (add_within hk (by decide))
  have h0 := hat 0 (by decide)
  rw [BitVec.add_zero] at h0
  rw [load, load, h0]
  exact congrArg (· ++ mem a) (congrArg₂ (· ++ ·) (congrArg₂ (· ++ ·) (hat 3 (by decide))
    (hat 2 (by decide))) (hat 1 (by decide)))

theorem load_store_self : load (store mem a v) a = v := by
  have hat : ∀ k < 4, store mem a v (a + BitVec.ofNat 32 k) = v.extractLsb' (8 * k) 8 := by
    intro k hk
    have hlt : (a + BitVec.ofNat 32 k - a).toNat = k := by
      rw [add_sub_cancel_left, BitVec.toNat_ofNat]
      omega
    rw [store, hlt, if_pos hk]
  have h0 := hat 0 (by decide)
  have h1 : store mem a v (a + 1) = _ := hat 1 (by decide)
  have h2 : store mem a v (a + 2) = _ := hat 2 (by decide)
  have h3 : store mem a v (a + 3) = _ := hat 3 (by decide)
  rw [BitVec.add_zero] at h0
  rw [load, h0, h1, h2, h3]
  ext i hi
  grind

theorem store_of_not_within (h : ¬Within a 4 x) : store mem a v x = mem x := if_neg h

theorem store_store : store (store mem a v) a w = store mem a w := by
  funext x
  simp only [store]
  split <;> rfl

/-! ### Words in a row -/

theorem Holds.congr (h : Holds mem a ws) (hlen : 4 * ws.length ≤ 2 ^ 32)
    (heq : ∀ x, Within a (4 * ws.length) x → mem' x = mem x) : Holds mem' a ws := by
  induction ws generalizing a with
  | nil => trivial
  | cons w ws ih =>
    rw [List.length_cons] at hlen heq
    refine ⟨(load_congr fun x hx => heq x (hx.mono (by omega))).trans h.1, ih h.2 (by omega) ?_⟩
    intro x hx
    have hshift := Within.shift (k := 4) hx (by omega)
    exact heq x (hshift.mono (by omega))

theorem holds_append : Holds mem a (ws ++ vs) ↔
    Holds mem a ws ∧ Holds mem (a + size ws.length) vs := by
  induction ws generalizing a with
  | nil => simp [Holds, size]
  | cons w ws ih =>
    have hsum : a + 4 + size ws.length = a + size (ws.length + 1) := by
      rw [size_succ]
      ring
    rw [List.cons_append, Holds, ih, hsum, Holds, and_assoc, List.length_cons]

/-- A word at its place in the row. -/
theorem Holds.load_eq (h : Holds mem a ws) (hk : k < ws.length) :
    load mem (a + size k) = ws[k] := by
  induction ws generalizing a k with
  | nil => cases hk
  | cons w ws ih =>
    cases k with
    | zero => rw [size, Nat.mul_zero, BitVec.add_zero]; exact h.1
    | succ k =>
      have hsum : a + size (k + 1) = a + 4 + size k := by
        rw [size_succ]
        ring
      rw [hsum, ih h.2 (Nat.lt_of_succ_lt_succ hk), List.getElem_cons_succ]

/-! ### Pushing -/

theorem pushed_of_not_within (hlen : 4 * ws.length ≤ 2 ^ 32)
    (h : ¬Within (sp - size ws.length) (4 * ws.length) x) : pushed mem sp ws x = mem x := by
  induction ws with
  | nil => rfl
  | cons w ws ih =>
    rw [List.length_cons] at hlen h
    have hsp : sp - size (ws.length + 1) + BitVec.ofNat 32 4 = sp - size ws.length := by
      rw [size_succ]
      change sp - (size ws.length + 4) + 4 = _
      ring
    rw [pushed, store_of_not_within fun hx => h (hx.mono (by omega))]
    refine ih (by omega) fun hx => h ?_
    rw [← hsp] at hx
    exact (hx.shift (by omega)).mono (by omega)

theorem holds_pushed (hlen : 4 * ws.length ≤ 2 ^ 32) :
    Holds (pushed mem sp ws) (sp - size ws.length) ws := by
  induction ws with
  | nil => trivial
  | cons w ws ih =>
    rw [List.length_cons] at hlen ⊢
    have hsp : sp - size (ws.length + 1) + 4 = sp - size ws.length := by
      rw [size_succ]
      ring
    refine ⟨load_store_self, ?_⟩
    rw [hsp]
    refine (ih (by omega)).congr (by omega) fun x hx => store_of_not_within fun hx' => ?_
    -- the new word is below the others
    rw [Within] at hx hx'
    have heq : x - (sp - size (ws.length + 1)) = x - (sp - size ws.length) + 4 := by
      rw [size_succ]
      ring
    rw [heq, BitVec.toNat_add] at hx'
    change ((x - (sp - size ws.length)).toNat + 4) % 2 ^ 32 < 4 at hx'
    omega

theorem pushed_append : pushed mem sp (ws ++ vs) =
    pushed (pushed mem sp vs) (sp - size vs.length) ws := by
  induction ws with
  | nil => rfl
  | cons w ws ih =>
    have hsp : sp - size (ws.length + vs.length + 1) =
        sp - size vs.length - size (ws.length + 1) := by
      rw [size_succ, size_succ, size_add]
      ring
    rw [List.cons_append, pushed, ih, List.length_append, hsp, pushed]

end StackWords
