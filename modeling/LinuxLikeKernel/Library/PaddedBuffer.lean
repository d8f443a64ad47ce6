import Mathlib.Data.List.GetD
import Mathlib.Logic.Function.Basic

/-!
# Padded buffers

An array of a fixed capacity that holds a list: the elements of the list, none of which is the
padding, then padding to the end. The array is a function on indices that may go on behind the
capacity.

## Main definitions

- `Holds` — a buffer holds a list

## Main results

- `Holds.concat`, `Holds.dropLast` — an element is put after the last one, or taken away
- `Holds.map_range` — the list is what the buffer has up to its length
-/

namespace PaddedBuffer

variable {α : Type*} {cap : Nat} {pad : α} {buf buf' : Nat → α} {content : List α}

/-- The buffer holds the list. -/
structure Holds (cap : Nat) (pad : α) (buf : Nat → α) (content : List α) : Prop where
  length_le : content.length ≤ cap
  cell : ∀ j < cap, buf j = content.getD j pad
  ne_pad : ∀ a ∈ content, a ≠ pad

theorem holds_nil (h : ∀ j < cap, buf j = pad) : Holds cap pad buf [] :=
  ⟨Nat.zero_le _, h, fun _ ha => nomatch ha⟩

theorem Holds.congr (h : Holds cap pad buf content) (hbuf : ∀ j < cap, buf' j = buf j) :
    Holds cap pad buf' content :=
  ⟨h.length_le, fun j hj => (hbuf j hj).trans (h.cell j hj), h.ne_pad⟩

theorem Holds.getElem (h : Holds cap pad buf content) {j : Nat} (hj : j < content.length) :
    buf j = content[j] := by
  rw [h.cell j (Nat.lt_of_lt_of_le hj h.length_le)]
  exact List.getD_eq_getElem _ _ hj

/-- The padding is what comes after the list. -/
theorem Holds.eq_pad_iff (h : Holds cap pad buf content) {j : Nat} (hj : j < cap) :
    buf j = pad ↔ content.length ≤ j := by
  constructor
  · intro hpad
    by_contra hlt
    have hget := h.getElem (Nat.lt_of_not_le hlt)
    exact h.ne_pad _ (List.getElem_mem _) (hget.symm.trans hpad)
  · intro hle
    rw [h.cell j hj]
    exact List.getD_eq_default _ _ hle

theorem Holds.map_range (h : Holds cap pad buf content) :
    (List.range content.length).map buf = content := by
  apply List.ext_getElem
  · simp
  · intro j hj hj'
    simp only [List.getElem_map, List.getElem_range]
    exact h.getElem hj'

theorem Holds.concat (h : Holds cap pad buf content) {a : α} (hlt : content.length < cap)
    (ha : a ≠ pad) :
    Holds cap pad (Function.update buf content.length a) (content ++ [a]) := by
  refine ⟨?_, fun j hj => ?_, fun b hb => ?_⟩
  · rw [List.length_append, List.length_singleton]
    exact hlt
  · by_cases heq : j = content.length
    · subst heq
      simp
    · rw [Function.update_of_ne heq, h.cell j hj]
      obtain hin | hout := Nat.lt_or_ge j content.length
      · simp [List.getD_eq_getElem?_getD, List.getElem?_append_left hin]
      · rw [List.getD_eq_default _ _ hout, List.getD_eq_default]
        simp only [List.length_append, List.length_singleton]
        omega
  · obtain hb | hb := List.mem_append.mp hb
    · exact h.ne_pad b hb
    · rw [List.mem_singleton.mp hb]
      exact ha

theorem Holds.dropLast (h : Holds cap pad buf content) :
    Holds cap pad (Function.update buf (content.length - 1) pad) content.dropLast := by
  refine ⟨?_, fun j hj => ?_, fun a ha => h.ne_pad a (List.dropLast_subset _ ha)⟩
  · have := h.length_le
    rw [List.length_dropLast]
    omega
  · by_cases heq : j = content.length - 1
    · subst heq
      rw [Function.update_self, List.getD_eq_default]
      exact Nat.le_of_eq List.length_dropLast
    · rw [Function.update_of_ne heq, h.cell j hj]
      obtain hin | hout := Nat.lt_or_ge j (content.length - 1)
      · have hlt : j < content.dropLast.length := by
          rwa [List.length_dropLast]
        rw [List.getD_eq_getElem _ _ hlt, List.getElem_dropLast]
        exact List.getD_eq_getElem _ _ (by omega)
      · rw [List.getD_eq_default _ _ (by omega), List.getD_eq_default]
        rw [List.length_dropLast]
        exact hout

/-- The last element, from the buffer. -/
theorem Holds.getLast (h : Holds cap pad buf content) (hne : content ≠ []) :
    buf (content.length - 1) = content.getLast hne := by
  have hpos := List.length_pos_iff.mpr hne
  rw [h.getElem (by omega), List.getLast_eq_getElem]

end PaddedBuffer
