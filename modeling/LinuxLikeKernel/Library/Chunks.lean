import Mathlib.Data.List.Basic

/-!
# Reading a list in chunks

A reader keeps a position in some contents. A read asks for a number of elements, gets as many as
there are from the position on, and moves the position past them.

## Main definitions

- `Chunks.ReadsFrom` — a sequence of such reads, from a position on
- `Chunks.total` — how far the reads have moved the position

## Main results

- `Chunks.flatMap_snd` — the chunks make up the contents
- `Chunks.length_eq`, `Chunks.nil_of_nil` — how long a chunk is, and that the end is final
-/

namespace Chunks

variable {α : Type*} {contents : List α} {p n : Nat} {c : List α}

/-- Each read is a number of elements that are asked for, and the chunk that the reader gets. -/
def ReadsFrom (contents : List α) : Nat → List (Nat × List α) → Prop
  | _, [] => True
  | p, (n, c) :: reads => c = (contents.drop p).take n ∧ ReadsFrom contents (p + c.length) reads

/-- The number of elements read. -/
def total (reads : List (Nat × List α)) : Nat := (reads.flatMap Prod.snd).length

@[simp] theorem total_nil : total ([] : List (Nat × List α)) = 0 := rfl

@[simp] theorem total_cons (x : Nat × List α) (reads : List (Nat × List α)) :
    total (x :: reads) = x.2.length + total reads := by
  simp only [total, List.flatMap_cons, List.length_append]

@[simp] theorem total_append (reads reads' : List (Nat × List α)) :
    total (reads ++ reads') = total reads + total reads' := by
  simp only [total, List.flatMap_append, List.length_append]

theorem readsFrom_append {reads reads' : List (Nat × List α)} :
    ReadsFrom contents p (reads ++ reads') ↔
      ReadsFrom contents p reads ∧ ReadsFrom contents (p + total reads) reads' := by
  induction reads generalizing p with
  | nil => simp [ReadsFrom]
  | cons x reads ih => simp only [List.cons_append, ReadsFrom, ih, total_cons, and_assoc,
      Nat.add_assoc]

/-- One more read. -/
theorem ReadsFrom.concat {reads : List (Nat × List α)} (h : ReadsFrom contents p reads)
    (hc : c = (contents.drop (p + total reads)).take n) :
    ReadsFrom contents p (reads ++ [(n, c)]) :=
  readsFrom_append.mpr ⟨h, hc, trivial⟩

/-- **No loss, no repetition.** The chunks one after the other are a piece of the contents. -/
theorem flatMap_snd {reads : List (Nat × List α)} (h : ReadsFrom contents p reads) :
    reads.flatMap Prod.snd = (contents.drop p).take (total reads) := by
  induction reads generalizing p with
  | nil => simp
  | cons x reads ih =>
    obtain ⟨hc, hrest⟩ := h
    have hlen : (contents.drop p).take x.2.length = x.2 := by
      rw [hc, List.length_take, List.take_eq_take_iff]
      omega
    rw [List.flatMap_cons, ih hrest, total_cons, List.take_add, hlen, List.drop_drop]

/-- A chunk is as long as it is asked for, up to the end of the contents. -/
theorem length_eq {reads reads' : List (Nat × List α)}
    (h : ReadsFrom contents 0 (reads ++ (n, c) :: reads')) :
    c.length = min n (contents.length - total reads) := by
  obtain ⟨-, hc, -⟩ := readsFrom_append.mp h
  rw [hc, List.length_take, List.length_drop, Nat.zero_add]

/-- The position stays in the contents. -/
theorem total_le {reads : List (Nat × List α)} (h : ReadsFrom contents 0 reads) :
    total reads ≤ contents.length := by
  have hlen := congrArg List.length (flatMap_snd h)
  rw [List.drop_zero, List.length_take] at hlen
  have : total reads = min (total reads) contents.length := hlen
  omega

/-- **The end is final.** After a read that asks for something and gets nothing the others get
nothing. -/
theorem nil_of_nil {reads reads' : List (Nat × List α)}
    (h : ReadsFrom contents 0 (reads ++ (n, []) :: reads')) (hn : 0 < n) :
    ∀ x ∈ reads', x.2 = [] := by
  have hend := (length_eq h).symm
  have hle := total_le (readsFrom_append.mp h).1
  rw [List.length_nil] at hend
  intro x hx
  obtain ⟨before, after, rfl⟩ := List.append_of_mem hx
  have hsplit : ReadsFrom contents 0 ((reads ++ (n, []) :: before) ++ (x.1, x.2) :: after) := by
    simpa using h
  have hx' := length_eq hsplit
  rw [total_append] at hx'
  exact List.eq_nil_of_length_eq_zero (by omega)

end Chunks
