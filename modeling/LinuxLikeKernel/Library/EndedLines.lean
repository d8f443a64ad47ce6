import Mathlib.Data.List.Basic
import Mathlib.Data.List.Flatten

/-!
# Ended lines

A line ends with a mark that is nowhere else in it. Lines put one after the other, with the start of
one more line behind them, can be told apart again.

## Main definitions

- `Ended` — the mark ends the line

## Main results

- `mem_iff_ne_nil`, `exists_concat_iff`, `ended_iff` — when there is an ended line in the text, at
  its end, or nothing else
-/

namespace EndedLines

variable {α : Type*} {mark : α} {line text rest : List α} {lines : List (List α)}

/-- The mark ends the line, and is not in it before. -/
def Ended (mark : α) (line : List α) : Prop := ∃ cs, line = cs ++ [mark] ∧ mark ∉ cs

theorem ended_concat (h : mark ∉ rest) : Ended mark (rest ++ [mark]) := ⟨rest, rfl, h⟩

theorem Ended.mem (h : Ended mark line) : mark ∈ line := by
  obtain ⟨cs, rfl, -⟩ := h
  exact List.mem_append_right _ List.mem_cons_self

theorem Ended.ne_nil (h : Ended mark line) : line ≠ [] := List.ne_nil_of_mem h.mem

theorem flatten_eq_nil_iff (h : ∀ line ∈ lines, Ended mark line) :
    lines.flatten = [] ↔ lines = [] := by
  constructor
  · intro hnil
    by_contra hne
    obtain ⟨line, hline⟩ := List.exists_mem_of_ne_nil _ hne
    exact (h line hline).ne_nil (List.flatten_eq_nil_iff.mp hnil _ hline)
  · rintro rfl
    rfl

/-- There is a mark in the text exactly if there is an ended line. -/
theorem mem_iff_ne_nil (h : ∀ line ∈ lines, Ended mark line) (hrest : mark ∉ rest) :
    mark ∈ lines.flatten ++ rest ↔ lines ≠ [] := by
  rw [List.mem_append, or_iff_left hrest, List.mem_flatten]
  constructor
  · rintro ⟨line, hline, -⟩
    exact List.ne_nil_of_mem hline
  · intro hne
    obtain ⟨line, hline⟩ := List.exists_mem_of_ne_nil _ hne
    exact ⟨line, hline, (h line hline).mem⟩

/-- The text ends with a mark exactly if it ends with an ended line. -/
theorem exists_concat_iff (h : ∀ line ∈ lines, Ended mark line) (hrest : mark ∉ rest) :
    (∃ cs, lines.flatten ++ rest = cs ++ [mark]) ↔ lines ≠ [] ∧ rest = [] := by
  constructor
  · rintro ⟨cs, hcs⟩
    have hmem : mark ∈ lines.flatten ++ rest := by
      rw [hcs]
      exact List.mem_append_right _ List.mem_cons_self
    refine ⟨(mem_iff_ne_nil h hrest).mp hmem, ?_⟩
    -- otherwise the mark would be the last element of the rest
    by_contra hne
    have hlast := congrArg List.getLast? hcs
    rw [List.getLast?_append_of_ne_nil _ hne, List.getLast?_concat] at hlast
    exact hrest (List.mem_of_getLast? hlast)
  · rintro ⟨hne, rfl⟩
    obtain ⟨front, line, rfl⟩ := (List.eq_nil_or_concat' lines).resolve_left hne
    obtain ⟨cs, rfl, -⟩ := h line (List.mem_append_right _ List.mem_cons_self)
    exact ⟨front.flatten ++ cs, by simp⟩

/-- The text is one ended line exactly if that is all there is. -/
theorem ended_iff (h : ∀ line ∈ lines, Ended mark line) (hrest : mark ∉ rest) :
    Ended mark (lines.flatten ++ rest) ↔ lines = [lines.flatten ++ rest] ∧ rest = [] := by
  constructor
  · rintro ⟨cs, hcs, hfirst⟩
    obtain ⟨hne, rfl⟩ := (exists_concat_iff h hrest).mp ⟨cs, hcs⟩
    rw [List.append_nil] at hcs ⊢
    refine ⟨?_, rfl⟩
    cases lines with
    | nil => exact absurd rfl hne
    | cons line later =>
      cases later with
      | nil => simp
      | cons line' later =>
        -- the mark of the first line comes before the last one
        refine absurd ?_ hfirst
        have hended : ∀ l ∈ line' :: later, Ended mark l :=
          fun l hl => h l (List.mem_cons_of_mem _ hl)
        have hlater : (line' :: later).flatten ≠ [] :=
          fun hnil => List.cons_ne_nil _ _ ((flatten_eq_nil_iff hended).mp hnil)
        have hdrop := congrArg List.dropLast hcs
        rw [List.flatten_cons, List.dropLast_append_of_ne_nil hlater, List.dropLast_concat] at hdrop
        rw [← hdrop]
        exact List.mem_append_left _ (h line List.mem_cons_self).mem
  · rintro ⟨hone, -⟩
    have hmem := List.mem_singleton_self (lines.flatten ++ rest)
    rw [← hone] at hmem
    exact h _ hmem

end EndedLines
