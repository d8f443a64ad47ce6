import Mathlib.Data.List.Basic

/-!
# Byte memory

Memory as a function from addresses to bytes, the stores a piece of code makes as a list,
and counted loops over it.

## Main definitions

- `store`, `storeAll` — one store, and a list of stores in order
- `copy` — the memory after a block copy between blocks that do not overlap
- `forRange` — the loop `for (i = 0; i < n; i++)`
- `forLog` — what the turns of such a loop do, as a list of actions
-/

namespace ByteMemory

abbrev Mem := Nat → UInt8

/-- A store: the address and the byte that goes there. -/
abbrev Store := Nat × UInt8

def store (m : Mem) (a : Nat) (v : UInt8) : Mem := fun b => if b = a then v else m b

theorem store_apply (m : Mem) (a : Nat) (v : UInt8) (b : Nat) :
    store m a v b = if b = a then v else m b := rfl

@[simp] theorem store_self (m : Mem) (a : Nat) (v : UInt8) : store m a v a = v := if_pos rfl

theorem store_of_ne (m : Mem) {a b : Nat} (v : UInt8) (h : b ≠ a) : store m a v b = m b :=
  if_neg h

def storeAll (m : Mem) (ws : List Store) : Mem := ws.foldl (fun m w => store m w.1 w.2) m

@[simp] theorem storeAll_nil (m : Mem) : storeAll m [] = m := rfl

@[simp] theorem storeAll_cons (m : Mem) (w : Store) (ws : List Store) :
    storeAll m (w :: ws) = storeAll (store m w.1 w.2) ws := rfl

/-- **Frame rule.** A byte no store names keeps its value. -/
theorem storeAll_of_forall_ne {m : Mem} {ws : List Store} {a : Nat}
    (h : ∀ w ∈ ws, w.1 ≠ a) : storeAll m ws a = m a := by
  induction ws generalizing m with
  | nil => rfl
  | cons w ws ih =>
    rw [storeAll_cons, ih fun w' hw' => h w' (List.mem_cons_of_mem _ hw'),
      store_of_ne _ _ (h w List.mem_cons_self).symm]

/-- At an address that is stored to, what is left does not depend on what was there. -/
theorem storeAll_eq_of_exists {ws : List Store} {a : Nat} (h : ∃ w ∈ ws, w.1 = a) (m m' : Mem) :
    storeAll m ws a = storeAll m' ws a := by
  induction ws generalizing m m' with
  | nil => simp at h
  | cons v vs ih =>
    rw [storeAll_cons, storeAll_cons]
    by_cases hlater : ∃ w ∈ vs, w.1 = a
    · exact ih hlater _ _
    · have hframe : ∀ w ∈ vs, w.1 ≠ a := fun w hw he => hlater ⟨w, hw, he⟩
      obtain ⟨w, hw, he⟩ := h
      obtain rfl : w = v := (List.mem_cons.mp hw).resolve_right fun hv => hframe w hv he
      subst he
      rw [storeAll_of_forall_ne hframe, storeAll_of_forall_ne hframe, store_self, store_self]

/-- Where all stores agree, what they store is there. -/
theorem storeAll_eq_of_forall {m : Mem} {ws : List Store} {a : Nat} {b : UInt8}
    (hex : ∃ w ∈ ws, w.1 = a) (hall : ∀ w ∈ ws, w.1 = a → w.2 = b) : storeAll m ws a = b := by
  induction ws generalizing m with
  | nil => simp at hex
  | cons v vs ih =>
    rw [storeAll_cons]
    by_cases hlater : ∃ w ∈ vs, w.1 = a
    · exact ih hlater fun w hw => hall w (List.mem_cons_of_mem _ hw)
    · have hframe : ∀ w ∈ vs, w.1 ≠ a := fun w hw he => hlater ⟨w, hw, he⟩
      obtain ⟨w, hw, he⟩ := hex
      obtain rfl : w = v := (List.mem_cons.mp hw).resolve_right fun hv => hframe w hv he
      rw [storeAll_of_forall_ne hframe, ← he, store_self]
      exact hall w List.mem_cons_self he

/-- Every store is visible: some memory is changed by it. -/
theorem exists_storeAll_ne {ws : List Store} {w : Store} (hw : w ∈ ws) :
    ∃ m : Mem, storeAll m ws w.1 ≠ m w.1 := by
  let v := storeAll (fun _ => 0) ws w.1
  refine ⟨fun _ => v + 1, ?_⟩
  rw [storeAll_eq_of_exists ⟨w, hw, rfl⟩ _ fun _ => 0]
  show v ≠ v + 1
  simp

/-- **Frame rule**, exactly. The bytes outside a set of addresses are left alone, whatever the
memory, by the stores into the set and by no others. -/
theorem storeAll_frame_iff {ws : List Store} {P : Nat → Prop} :
    (∀ (m : Mem) a, ¬ P a → storeAll m ws a = m a) ↔ ∀ w ∈ ws, P w.1 := by
  constructor
  · intro h w hw
    obtain ⟨m, hm⟩ := exists_storeAll_ne hw
    exact not_not.mp fun hno => hm (h m w.1 hno)
  · intro h m a ha
    refine storeAll_of_forall_ne fun w hw he => ha ?_
    exact he ▸ h w hw

/-- The memory after `n` bytes from `src` on have been copied to `dst`, for blocks that do
not overlap. -/
def copy (m : Mem) (dst src n : Nat) : Mem :=
  fun a => if dst ≤ a ∧ a < dst + n then m (src + (a - dst)) else m a

theorem copy_of_lt {m : Mem} {dst src n k : Nat} (h : k < n) :
    copy m dst src n (dst + k) = m (src + k) := by
  have hk : dst ≤ dst + k ∧ dst + k < dst + n := by omega
  simp [copy, hk]

theorem copy_of_not_mem {m : Mem} {dst src n a : Nat} (h : a < dst ∨ dst + n ≤ a) :
    copy m dst src n a = m a := by
  have ha : ¬(dst ≤ a ∧ a < dst + n) := by omega
  simp [copy, ha]

/-- The loop `for (i = 0; i < n; i++) body`. -/
def forRange {α : Type*} : Nat → (Nat → α → α) → α → α
  | 0, _, x => x
  | n + 1, body, x => body n (forRange n body x)

@[simp] theorem forRange_zero {α : Type*} (body : Nat → α → α) (x : α) :
    forRange 0 body x = x := rfl

/-- **Loop invariant rule.** -/
theorem forRange_induction {α : Type*} {body : Nat → α → α} {x : α} (P : Nat → α → Prop)
    (n : Nat) (h0 : P 0 x) (hstep : ∀ i y, i < n → P i y → P (i + 1) (body i y)) :
    P n (forRange n body x) := by
  induction n with
  | zero => exact h0
  | succ n ih =>
    exact hstep n _ (Nat.lt_succ_self n) (ih fun i y hi => hstep i y (by omega))

/-- A loop that stores one byte everywhere in a block. -/
theorem forRange_store_apply (m : Mem) (dst : Nat) (v : UInt8) (n a : Nat) :
    forRange n (fun i m => store m (dst + i) v) m a =
      if dst ≤ a ∧ a < dst + n then v else m a := by
  refine forRange_induction (fun i (y : Mem) => y a = if dst ≤ a ∧ a < dst + i then v else m a) n
    (if_neg (by omega)).symm ?_
  intro i y _ hy
  by_cases ha : a = dst + i
  · rw [ha, store_self, if_pos (by omega)]
  · rw [store_of_ne _ _ ha, hy]
    refine if_congr ?_ rfl rfl
    omega

/-- A block copy is the loop over its bytes. -/
theorem copy_eq_forRange {m : Mem} {dst src n : Nat} (h : src + n ≤ dst ∨ dst + n ≤ src) :
    copy m dst src n = forRange n (fun i m => store m (dst + i) (m (src + i))) m := by
  refine (forRange_induction (fun i y => y = copy m dst src i) n ?_ ?_).symm
  · funext a
    exact (copy_of_not_mem (by omega)).symm
  · rintro i _ hi rfl
    funext a
    have hread : copy m dst src i (src + i) = m (src + i) := copy_of_not_mem (by omega)
    by_cases ha : a = dst + i
    · rw [ha, store_self, hread, copy_of_lt (Nat.lt_succ_self i)]
    · rw [store_of_ne _ _ ha]
      simp only [copy]
      refine if_congr ?_ rfl rfl
      omega

/-! ### Logs of loops -/

/-- The actions of a loop in order, if turn `i` does the actions `body i x` in the state `x`. -/
def forLog {α ω : Type*} (act : α → ω → α) (body : Nat → α → List ω) : Nat → α → List ω
  | 0, _ => []
  | n + 1, x => forLog act body n x ++ body n ((forLog act body n x).foldl act x)

end ByteMemory
