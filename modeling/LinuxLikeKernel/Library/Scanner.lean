import LinuxLikeKernel.Library.Run
import Mathlib.Data.List.Basic

/-!
# Scanners

A scanner walks over a tape from its first cell, one cell at a time, and looks at the cell it is
on. It stays at a cell where it is done, and also at one for which it has no step. What it does up
to a cell is a run of its step function over the cells before.

## Main definitions

- `Scanner` — a step function, and where the scanner is done
- `Scanner.ComesTo` — the scanner looks at a cell, in a state
- `Scanner.EndsAt` — it is done there
- `Scanner.scan` — the scan with a bound on its steps
- `terminated` — a tape that holds a word and a terminator after it

## Main results

- `Scanner.scan_eq_some_iff` — a bounded scan gives what the scanner ends with
- `Scanner.endsAt_terminated_iff` — a scanner that only a terminator ends
-/

namespace Transition

variable {σ ε : Type*} {step : σ → ε → Option σ}

theorem run_concat {s s' : σ} {es : List ε} {e : ε} :
    run step s (es ++ [e]) = some s' ↔ ∃ m, run step s es = some m ∧ step m e = some s' := by
  rw [run_append, Option.bind_eq_some_iff]
  refine exists_congr fun m => and_congr_right fun _ => ?_
  rw [run_cons_eq_some]
  simp

end Transition

open Transition

/-- A step for each cell that the scanner goes past, and the cells at which it is done. -/
structure Scanner (σ α : Type*) where
  step : σ → α → Option σ
  done : σ → α → Bool
  step_done : ∀ q a, done q a = true → step q a = none

/-- The first `n` cells of a tape. -/
def cells {α : Type*} (tape : Nat → α) (n : Nat) : List α := (List.range n).map tape

/-- The tape with the word `w`, the terminator `z` and then `after`. -/
def terminated {α : Type*} (w : List α) (z : α) (after : Nat → α) (i : Nat) : α :=
  (w ++ [z]).getD i (after i)

section Tapes

variable {α : Type*} {tape : Nat → α} {w : List α} {z : α} {after : Nat → α}

theorem cells_succ (n : Nat) : cells tape (n + 1) = cells tape n ++ [tape n] := by
  simp [cells, List.range_succ]

theorem terminated_of_lt {i : Nat} (h : i < w.length) : terminated w z after i = w[i] := by
  simp [terminated, List.getElem?_append_left h, h]

@[simp] theorem terminated_length : terminated w z after w.length = z := by
  simp [terminated]

@[simp] theorem cells_terminated : cells (terminated w z after) w.length = w := by
  refine List.ext_getElem (by simp [cells]) fun i _ hi => ?_
  simp only [cells, List.getElem_map, List.getElem_range, terminated_of_lt hi]

end Tapes

namespace Scanner

variable {σ α : Type*}

/-- The scanner that starts in `q` comes to look at cell `n`, and is then in `q'`. -/
def ComesTo (S : Scanner σ α) (tape : Nat → α) (q : σ) (n : Nat) (q' : σ) : Prop :=
  run S.step q (cells tape n) = some q'

/-- The scanner comes to cell `n` and is done there. -/
def EndsAt (S : Scanner σ α) (tape : Nat → α) (q : σ) (n : Nat) (q' : σ) : Prop :=
  S.ComesTo tape q n q' ∧ S.done q' (tape n) = true

/-- The scan from cell `i` on, with a bound on the number of cells it looks at: the cell and the
state that it ends with. -/
def scan (S : Scanner σ α) (tape : Nat → α) : Nat → σ → Nat → Option (Nat × σ)
  | 0, _, _ => none
  | bound + 1, q, i =>
    if S.done q (tape i) then some (i, q)
    else (S.step q (tape i)).bind fun q' => S.scan tape bound q' (i + 1)

variable {S : Scanner σ α} {tape : Nat → α} {q q' q'' : σ} {i m n : Nat}

theorem comesTo_zero : S.ComesTo tape q 0 q := rfl

theorem comesTo_succ_iff :
    S.ComesTo tape q (n + 1) q'' ↔ ∃ q', S.ComesTo tape q n q' ∧ S.step q' (tape n) = some q'' := by
  rw [ComesTo, cells_succ]
  exact run_concat

theorem ComesTo.unique (h : S.ComesTo tape q n q') (h' : S.ComesTo tape q n q'') : q' = q'' :=
  Option.some.inj (h.symm.trans h')

/-- A scanner looks at the cells in order. -/
theorem ComesTo.of_le (h : S.ComesTo tape q n q') (hm : m ≤ n) : ∃ q'', S.ComesTo tape q m q'' := by
  induction n generalizing q' with
  | zero =>
    obtain rfl : m = 0 := by omega
    exact ⟨q', h⟩
  | succ n ih =>
    rcases Nat.lt_or_ge n m with hlt | hge
    · obtain rfl : m = n + 1 := by omega
      exact ⟨q', h⟩
    · obtain ⟨p, hp, -⟩ := comesTo_succ_iff.mp h
      exact ih hp hge

/-- A scanner looks at nothing after a cell for which it has no step. -/
theorem ComesTo.le_of_step (h : S.ComesTo tape q n q') (hs : S.step q' (tape n) = none)
    (h' : S.ComesTo tape q m q'') : m ≤ n := by
  by_contra hlt
  obtain ⟨p, hp⟩ := h'.of_le (m := n + 1) (by omega)
  obtain ⟨r, hr, hstep⟩ := comesTo_succ_iff.mp hp
  obtain rfl := h.unique hr
  rw [hs] at hstep
  cases hstep

/-- A scanner looks at nothing after the cell where it is done. -/
theorem EndsAt.le (h : S.EndsAt tape q n q') (h' : S.ComesTo tape q m q'') : m ≤ n :=
  h.1.le_of_step (S.step_done _ _ h.2) h'

theorem EndsAt.unique (h : S.EndsAt tape q n q') (h' : S.EndsAt tape q m q'') :
    m = n ∧ q'' = q' := by
  have hmn : m = n := Nat.le_antisymm (h.le h'.1) (h'.le h.1)
  subst hmn
  exact ⟨rfl, h'.1.unique h.1⟩

/-- A scan that goes on from cell `i` finds the end of the whole scan. -/
theorem scan_from_iff {bound : Nat} {p : σ} (hp : S.ComesTo tape q i p) :
    S.scan tape bound p i = some (n, q') ↔ i ≤ n ∧ n < i + bound ∧ S.EndsAt tape q n q' := by
  induction bound generalizing i p with
  | zero =>
    constructor
    · intro h
      cases h
    · rintro ⟨h, h', -⟩
      omega
  | succ bound ih =>
    simp only [scan]
    by_cases hdone : S.done p (tape i) = true
    · have hend : S.EndsAt tape q i p := ⟨hp, hdone⟩
      rw [if_pos hdone]
      constructor
      · intro h
        obtain ⟨rfl, rfl⟩ := Prod.mk.inj (Option.some.inj h)
        exact ⟨Nat.le_refl _, by omega, hend⟩
      · rintro ⟨-, -, h⟩
        obtain ⟨rfl, rfl⟩ := hend.unique h
        rfl
    · rw [if_neg hdone]
      -- the scan does not end on this cell, so an end is at a later one
      have hlater : ∀ {r}, S.EndsAt tape q n r → i ≤ n → i + 1 ≤ n := by
        intro r h hin
        rcases Nat.lt_or_ge i n with hlt | hge
        · exact hlt
        · obtain rfl : i = n := by omega
          obtain rfl := hp.unique h.1
          exact absurd h.2 hdone
      cases hstep : S.step p (tape i) with
      | none =>
        constructor
        · intro h
          cases h
        · rintro ⟨hin, -, h⟩
          have := hp.le_of_step hstep h.1
          have := hlater h hin
          omega
      | some p' =>
        refine (ih (comesTo_succ_iff.mpr ⟨p, hp, hstep⟩)).trans ⟨?_, ?_⟩
        · rintro ⟨h, h', hend⟩
          exact ⟨by omega, by omega, hend⟩
        · rintro ⟨h, h', hend⟩
          exact ⟨hlater hend h, by omega, hend⟩

/-- A bounded scan gives what the scanner ends with, where that is within the bound. -/
theorem scan_eq_some_iff {bound : Nat} :
    S.scan tape bound q 0 = some (n, q') ↔ n < bound ∧ S.EndsAt tape q n q' := by
  refine (scan_from_iff comesTo_zero).trans ⟨?_, ?_⟩
  · rintro ⟨-, h, hend⟩
    exact ⟨by omega, hend⟩
  · rintro ⟨h, hend⟩
    exact ⟨Nat.zero_le _, by omega, hend⟩

/-- A scanner that nothing but a terminator ends, and that looks at nothing after the terminator
of its word, has read the word. -/
theorem endsAt_terminated_iff {w : List α} {z : α} {after : Nat → α} (hw : z ∉ w)
    (hz : ∀ q a, S.done q a = true → a = z) :
    (∀ i p, S.ComesTo (terminated w z after) q i p → i ≤ w.length) ∧
        S.EndsAt (terminated w z after) q n q' ↔
      n = w.length ∧ run S.step q w = some q' ∧ S.done q' z = true := by
  constructor
  · rintro ⟨hle, hend⟩
    have hn : n = w.length := by
      rcases Nat.lt_or_ge n w.length with hlt | hge
      · have hcell := hz _ _ hend.2
        rw [terminated_of_lt hlt] at hcell
        exact absurd (hcell ▸ List.getElem_mem hlt) hw
      · exact Nat.le_antisymm (hle n q' hend.1) hge
    subst hn
    obtain ⟨hcome, hdone⟩ := hend
    rw [terminated_length] at hdone
    rw [ComesTo, cells_terminated] at hcome
    exact ⟨rfl, hcome, hdone⟩
  · rintro ⟨rfl, hrun, hdone⟩
    have hend : S.EndsAt (terminated w z after) q w.length q' := by
      refine ⟨?_, ?_⟩
      · rw [ComesTo, cells_terminated]
        exact hrun
      · rw [terminated_length]
        exact hdone
    exact ⟨fun i p hp => hend.le hp, hend⟩

end Scanner
