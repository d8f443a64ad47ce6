import Mathlib.Data.List.Basic
import Mathlib.Logic.Function.Basic

/-!
# Lists of linked nodes

Nodes with a pointer to the next one, as a function from nodes to pointers, and the list that
following the pointers from a head goes through. That there is such a list says that the pointers
do not run in a circle.

## Main definitions

- `Links` — the pointers from a head go through the nodes of a list, and end
- `Reaches` — a node is met on the way, whether it ends or not
- `search`, `forEach`, `holderOf` — loops along the pointers, with a bound on their turns

## Main results

- `Links.push`, `Links.push_again` — a new node in front of a list keeps it one, a node of the list
  put in front of it once more does not
- `Links.unlink` — a node is taken out
- `Links.search`, `Links.forEach`, `Links.holderOf` — the loops end, and with what
-/

namespace PointerList

variable {ι σ : Type*}

/-- From `head` the pointers go through the nodes of the list, and end. -/
def Links (next : ι → Option ι) : Option ι → List ι → Prop
  | head, [] => head = none
  | head, i :: l => head = some i ∧ Links next (next i) l

/-- The node is met on the way from `head`. -/
inductive Reaches (next : ι → Option ι) : Option ι → ι → Prop
  | here (i : ι) : Reaches next (some i) i
  | there {i j : ι} (h : Reaches next (next i) j) : Reaches next (some i) j

variable {next next' : ι → Option ι} {head : Option ι} {l l' l₁ l₂ : List ι} {i j : ι}

/-- There is only one such list. -/
theorem Links.unique (h : Links next head l) (h' : Links next head l') : l = l' := by
  induction l generalizing head l' with
  | nil =>
    cases l' with
    | nil => rfl
    | cons i l' => exact absurd (h.symm.trans h'.1) (by simp)
  | cons i l ih =>
    cases l' with
    | nil => exact absurd (h'.symm.trans h.1) (by simp)
    | cons j l' =>
      obtain rfl := Option.some.inj (h.1.symm.trans h'.1)
      rw [ih h.2 h'.2]

/-- The list depends on the pointers of its nodes only. -/
theorem Links.congr (h : Links next head l) (hnext : ∀ i ∈ l, next' i = next i) :
    Links next' head l := by
  induction l generalizing head with
  | nil => exact h
  | cons i l ih =>
    refine ⟨h.1, ?_⟩
    rw [hnext i List.mem_cons_self]
    exact ih h.2 fun j hj => hnext j (List.mem_cons_of_mem _ hj)

/-- The way from a node of the list on. -/
theorem Links.from (h : Links next head (l₁ ++ i :: l₂)) : Links next (some i) (i :: l₂) := by
  induction l₁ generalizing head with
  | nil => exact ⟨rfl, h.2⟩
  | cons j l₁ ih => exact ih h.2

/-- No node comes twice: from there on the way would be as long as a part of it. -/
theorem Links.nodup (h : Links next head l) : l.Nodup := by
  induction l generalizing head with
  | nil => exact List.nodup_nil
  | cons i l ih =>
    refine List.nodup_cons.mpr ⟨fun hi => ?_, ih h.2⟩
    obtain ⟨l₁, l₂, rfl⟩ := List.append_of_mem hi
    have hlong : Links next (some i) (i :: (l₁ ++ i :: l₂)) := ⟨rfl, h.2⟩
    have hlen := congrArg List.length (hlong.unique (Links.from h.2))
    simp at hlen
    omega

/-- A node is not among those before it. -/
theorem Links.not_mem (h : Links next head (l₁ ++ i :: l₂)) : i ∉ l₁ :=
  fun hi => (List.nodup_append.mp h.nodup).2.2 i hi i List.mem_cons_self rfl

theorem Links.mem_of_reaches (h : Links next head l) (hi : Reaches next head i) : i ∈ l := by
  induction hi generalizing l with
  | here i =>
    cases l with
    | nil => cases h
    | cons j l =>
      obtain rfl := Option.some.inj h.1
      exact List.mem_cons_self
  | there _ ih =>
    cases l with
    | nil => cases h
    | cons j l =>
      obtain rfl := Option.some.inj h.1
      exact List.mem_cons_of_mem _ (ih h.2)

theorem Links.reaches (h : Links next head l) (hi : i ∈ l) : Reaches next head i := by
  induction l generalizing head with
  | nil => cases hi
  | cons j l ih =>
    obtain rfl := h.1
    obtain rfl | hi := List.mem_cons.mp hi
    · exact .here i
    · exact .there (ih h.2 hi)

/-! ### Changes -/

section changes

variable [DecidableEq ι]

/-- A new node is put in front. -/
theorem Links.push (h : Links next head l) (hi : i ∉ l) :
    Links (Function.update next i head) (some i) (i :: l) := by
  refine ⟨rfl, ?_⟩
  rw [Function.update_self]
  exact h.congr fun j hj => Function.update_of_ne (ne_of_mem_of_not_mem hj hi) ..

/-- What a node points to does not matter on the way there. -/
theorem Links.reaches_update (h : Links next head (l₁ ++ i :: l₂)) (hi : i ∉ l₁)
    (p : Option ι) : Reaches (Function.update next i p) head i := by
  induction l₁ generalizing head with
  | nil =>
    obtain rfl := h.1
    exact .here i
  | cons j l₁ ih =>
    obtain rfl := h.1
    have hne : j ≠ i := fun he => hi (he ▸ List.mem_cons_self)
    refine .there ?_
    rw [Function.update_of_ne hne]
    exact ih h.2 fun hmem => hi (List.mem_cons_of_mem _ hmem)

/-- **A circle.** Once a node of the list is put in front of it, the way from it comes back to it
and does not end. -/
theorem Links.push_again (h : Links next head l) (hi : i ∈ l) (l' : List ι) :
    ¬ Links (Function.update next i head) (some i) l' := by
  intro h'
  obtain ⟨l₁, l₂, rfl⟩ := List.append_of_mem hi
  have hfirst := h.not_mem
  have hback := h.reaches_update hfirst head
  cases l' with
  | nil => cases h'
  | cons j l' =>
    have hnodup := h'.nodup
    obtain ⟨hj, h'⟩ := h'
    obtain rfl := Option.some.inj hj
    rw [Function.update_self] at h'
    exact (List.nodup_cons.mp hnodup).1 (h'.mem_of_reaches hback)

/-- A node is made to point to another list. -/
theorem Links.relink {p : Option ι} (h : Links next head (l₁ ++ i :: l₂)) (hi : i ∉ l₁)
    (hp : Links (Function.update next i p) p l) :
    Links (Function.update next i p) head (l₁ ++ i :: l) := by
  induction l₁ generalizing head with
  | nil =>
    refine ⟨h.1, ?_⟩
    rw [Function.update_self]
    exact hp
  | cons j l₁ ih =>
    have hne : j ≠ i := fun he => hi (he ▸ List.mem_cons_self)
    refine ⟨h.1, ?_⟩
    rw [Function.update_of_ne hne]
    exact ih h.2 fun hmem => hi (List.mem_cons_of_mem _ hmem)

/-- A pointer is stored: in the head, or in a node. -/
def store (next : ι → Option ι) (head : Option ι) :
    Option ι → Option ι → (ι → Option ι) × Option ι
  | none, p => (next, p)
  | some i, p => (Function.update next i p, head)

/-- A node is taken out: what has pointed to it points to the next one. -/
theorem Links.unlink (h : Links next head (l₁ ++ i :: l₂)) :
    Links (store next head l₁.getLast? (next i)).1 (store next head l₁.getLast? (next i)).2
      (l₁ ++ l₂) := by
  obtain rfl | ⟨m, j, rfl⟩ := l₁.eq_nil_or_concat'
  · exact h.2
  · rw [List.getLast?_concat]
    rw [List.append_assoc] at h ⊢
    refine h.relink h.not_mem (h.from.2.2.congr fun k hk => Function.update_of_ne ?_ ..)
    -- the node before is not one of those behind
    rintro rfl
    have hnodup := h.from.nodup
    exact (List.nodup_cons.mp hnodup).1 (List.mem_cons_of_mem _ hk)

end changes

/-! ### Loops -/

/-- The loop that looks along the pointers for a node: `none` when its turns are used up. -/
def search (next : ι → Option ι) (found : ι → Bool) : Nat → Option ι → Option (Option ι)
  | 0, _ => none
  | _ + 1, none => some none
  | n + 1, some i => if found i then some (some i) else search next found n (next i)

theorem Links.search (h : Links next head l) (found : ι → Bool) {n : Nat} (hn : l.length < n) :
    search next found n head = some (l.find? found) := by
  induction l generalizing head n with
  | nil =>
    obtain rfl := h
    obtain ⟨m, rfl⟩ := Nat.exists_eq_add_of_lt hn
    simp [PointerList.search]
  | cons i l ih =>
    obtain rfl := h.1
    obtain ⟨m, rfl⟩ : ∃ m, n = m + 1 := ⟨n - 1, by simp at hn; omega⟩
    rw [PointerList.search, List.find?_cons]
    cases hfound : found i with
    | true => rfl
    | false => exact ih h.2 (by simpa using hn)

/-- The loop that does something at each node, and goes on with what the node points to then. -/
def forEach (next : σ → ι → Option ι) (body : ι → σ → σ) : Nat → Option ι → σ → Option σ
  | 0, _, _ => none
  | _ + 1, none, s => some s
  | n + 1, some i, s => forEach next body n (next (body i s) i) (body i s)

theorem Links.forEach {next : σ → ι → Option ι} {body : ι → σ → σ} {s : σ}
    (h : Links (next s) head l) (hbody : ∀ i s, next (body i s) = next s) {n : Nat}
    (hn : l.length < n) :
    forEach next body n head s = some (l.foldl (fun s i => body i s) s) := by
  induction l generalizing head n s with
  | nil =>
    obtain rfl := h
    obtain ⟨m, rfl⟩ : ∃ m, n = m + 1 := ⟨n - 1, by simp at hn; omega⟩
    rfl
  | cons i l ih =>
    obtain rfl := h.1
    obtain ⟨m, rfl⟩ : ∃ m, n = m + 1 := ⟨n - 1, by simp at hn; omega⟩
    rw [PointerList.forEach, List.foldl_cons]
    refine ih ?_ (by simpa using hn)
    rw [hbody]
    exact h.2

/-- What is stored in the head, or in a node. -/
def load (next : ι → Option ι) (head : Option ι) : Option ι → Option ι
  | none => head
  | some i => next i

/-- The loop that looks for what holds the pointer to a node, from the head or a node on. With no
pointer left to follow it has no result. -/
def holderOf [DecidableEq ι] (next : ι → Option ι) (head : Option ι) (target : ι) :
    Nat → Option ι → Option (Option ι)
  | 0, _ => none
  | n + 1, place =>
    if load next head place = some target then some place
    else match load next head place with
      | none => none
      | some j => holderOf next head target n (some j)

theorem Links.holderOf_from [DecidableEq ι] (place : Option ι)
    (h : Links next (load next head place) (l₁ ++ i :: l₂)) {n : Nat} (hn : l₁.length < n) :
    holderOf next head i n place = some (l₁.getLast?.or place) := by
  induction l₁ generalizing place n with
  | nil =>
    obtain ⟨m, rfl⟩ : ∃ m, n = m + 1 := ⟨n - 1, by simp at hn; omega⟩
    rw [holderOf, if_pos h.1]
    rfl
  | cons j l₁ ih =>
    obtain ⟨m, rfl⟩ : ∃ m, n = m + 1 := ⟨n - 1, by simp at hn; omega⟩
    have hne : load next head place ≠ some i := by
      intro he
      obtain rfl := Option.some.inj (he.symm.trans h.1)
      exact h.not_mem List.mem_cons_self
    rw [holderOf, if_neg hne, h.1]
    refine (ih (some j) h.2 (by simpa using hn)).trans ?_
    rw [List.getLast?_cons]
    cases l₁.getLast? <;> rfl

/-- It is the node before, or the head. -/
theorem Links.holderOf [DecidableEq ι] (h : Links next head (l₁ ++ i :: l₂)) {n : Nat}
    (hn : l₁.length < n) : holderOf next head i n none = some l₁.getLast? :=
  (Links.holderOf_from none h hn).trans (by rw [Option.or_none])

end PointerList
