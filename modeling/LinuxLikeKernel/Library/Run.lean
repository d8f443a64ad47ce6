import Mathlib.Algebra.GroupWithZero.Nat
import Mathlib.Data.Option.Basic

/-!
# Runs of a partial step function

A system is a step function `σ → ε → Option σ`: an event that is not enabled, or whose
outcome is not defined, has no step. A guard is a condition on the state before a step and
the event taken there. The rules below carry an invariant along the runs whose steps all
meet a guard, and turn a guard that is exact for one step into one that is exact for runs.

## Main definitions

- `Transition.run` — the state a list of events leads to
- `Transition.Guarded` — every step of the run is taken where the guard holds
- `Transition.Along` — a property holds in every state the run goes through
- `Transition.logged` — a step with a record of it
-/

namespace Transition

variable {σ τ ε : Type*}

/-- The state reached from `s` by the events in order, if every one of them has a step. -/
def run (step : σ → ε → Option σ) : σ → List ε → Option σ
  | s, [] => some s
  | s, e :: es => (step s e).bind fun s' => run step s' es

/-- Every event of the run from `s` is taken in a state where the guard allows it. -/
def Guarded (step : σ → ε → Option σ) (guard : σ → ε → Prop) : σ → List ε → Prop
  | _, [] => True
  | s, e :: es => guard s e ∧ ∀ s', step s e = some s' → Guarded step guard s' es

/-- Every state of the run from `s`, the first and the last included, has the property. -/
def Along (step : σ → ε → Option σ) (P : σ → Prop) : σ → List ε → Prop
  | s, [] => P s
  | s, e :: es => P s ∧ ∀ s', step s e = some s' → Along step P s' es

variable {step : σ → ε → Option σ} {guard guard' : σ → ε → Prop} {P : σ → Prop}

/-- A concrete run can be checked against a guard by running it. -/
instance decidableGuarded [∀ s e, Decidable (guard s e)] :
    ∀ s es, Decidable (Guarded step guard s es)
  | _, [] => isTrue trivial
  | s, e :: es =>
    match h : step s e with
    | none => decidable_of_iff (guard s e) (by simp [Guarded, h])
    | some s' =>
      have := decidableGuarded s' es
      decidable_of_iff (guard s e ∧ Guarded step guard s' es) (by simp [Guarded, h])

@[simp] theorem run_nil (s : σ) : run step s [] = some s := rfl

theorem run_cons {s s' : σ} {e : ε} {es : List ε} (h : step s e = some s') :
    run step s (e :: es) = run step s' es := by
  rw [run, h, Option.bind_some]

theorem run_cons_eq_some {s s' : σ} {e : ε} {es : List ε} :
    run step s (e :: es) = some s' ↔ ∃ m, step s e = some m ∧ run step m es = some s' := by
  exact Option.bind_eq_some_iff

/-- One run after another. -/
theorem run_append (s : σ) (es fs : List ε) :
    run step s (es ++ fs) = (run step s es).bind fun m => run step m fs := by
  induction es generalizing s with
  | nil => rfl
  | cons e es ih =>
    rw [List.cons_append, run, run, Option.bind_assoc]
    congr 1
    funext m
    exact ih m

theorem Guarded.mono (h : ∀ s e, guard s e → guard' s e) {s : σ} {es : List ε}
    (hg : Guarded step guard s es) : Guarded step guard' s es := by
  induction es generalizing s with
  | nil => trivial
  | cons e es ih => exact ⟨h s e hg.1, fun s' hs => ih (hg.2 s' hs)⟩

/-- A run is always guarded by a condition that always holds. -/
theorem Guarded.of_forall (h : ∀ s e, guard s e) (s : σ) (es : List ε) :
    Guarded step guard s es := by
  induction es generalizing s with
  | nil => trivial
  | cons e es ih => exact ⟨h s e, fun s' _ => ih s'⟩

/-- **Invariant rule.** What the guarded steps preserve holds at the end of a guarded run. -/
theorem Guarded.invariant (hstep : ∀ s e s', P s → guard s e → step s e = some s' → P s')
    {s s' : σ} {es : List ε} (h0 : P s) (hg : Guarded step guard s es)
    (hr : run step s es = some s') : P s' := by
  induction es generalizing s with
  | nil =>
    obtain rfl := Option.some.inj hr
    exact h0
  | cons e es ih =>
    obtain ⟨m, hm, hr⟩ := run_cons_eq_some.mp hr
    exact ih (hstep s e m h0 hg.1 hm) (hg.2 m hm) hr

theorem Along.mono {Q : σ → Prop} (h : ∀ s, P s → Q s) {s : σ} {es : List ε}
    (ha : Along step P s es) : Along step Q s es := by
  induction es generalizing s with
  | nil => exact h s ha
  | cons e es ih => exact ⟨h s ha.1, fun s' hs => ih (ha.2 s' hs)⟩

/-- **Invariant rule.** What the guarded steps preserve holds all along a guarded run. -/
theorem Guarded.along (hstep : ∀ s e s', P s → guard s e → step s e = some s' → P s')
    {s : σ} {es : List ε} (h0 : P s) (hg : Guarded step guard s es) : Along step P s es := by
  induction es generalizing s with
  | nil => exact h0
  | cons e es ih =>
    exact ⟨h0, fun s' hs => ih (hstep s e s' h0 hg.1 hs) (hg.2 s' hs)⟩

/-- **Invariant rule**, for an invariant that depends on a count of the events so far. -/
theorem Guarded.invariant_count {Q : Nat → σ → Prop} (count : ε → Nat)
    (hstep : ∀ k s e s', Q k s → guard s e → step s e = some s' → Q (k + count e) s')
    {k : Nat} {s s' : σ} {es : List ε} (h0 : Q k s) (hg : Guarded step guard s es)
    (hr : run step s es = some s') : Q (k + (es.map count).sum) s' := by
  induction es generalizing s k with
  | nil =>
    obtain rfl := Option.some.inj hr
    exact h0
  | cons e es ih =>
    obtain ⟨m, hm, hr⟩ := run_cons_eq_some.mp hr
    rw [List.map_cons, List.sum_cons, ← Nat.add_assoc]
    exact ih (hstep k s e m h0 hg.1 hm) (hg.2 m hm) hr

/-- **Invariant rule**, for runs with no guard. -/
theorem run_invariant (hstep : ∀ s e s', P s → step s e = some s' → P s')
    {s s' : σ} {es : List ε} (h0 : P s) (hr : run step s es = some s') : P s' := by
  induction es generalizing s with
  | nil =>
    obtain rfl := Option.some.inj hr
    exact h0
  | cons e es ih =>
    obtain ⟨m, hm, hr⟩ := run_cons_eq_some.mp hr
    exact ih (hstep s e m h0 hm) hr

/-- **Exact guards.** Among the steps of a domain, which preserve an invariant: if, from a state
with the property, a step keeps it exactly when the guard allows the step, then the property
holds all along a run from such a state exactly when every step of the run is allowed. -/
theorem along_iff_guarded {I : σ → Prop} {dom : σ → ε → Prop}
    (hinv : ∀ s e s', I s → dom s e → step s e = some s' → I s')
    (hexact : ∀ s e s', I s → P s → dom s e → step s e = some s' → (P s' ↔ guard s e))
    {s : σ} {es : List ε} (hI : I s) (h0 : P s) (hdom : Guarded step dom s es)
    (hrun : (run step s es).isSome) : Along step P s es ↔ Guarded step guard s es := by
  induction es generalizing s with
  | nil => exact ⟨fun _ => trivial, fun _ => h0⟩
  | cons e es ih =>
    obtain ⟨s', hs'⟩ := Option.isSome_iff_exists.mp hrun
    obtain ⟨m, hm, hr⟩ := run_cons_eq_some.mp hs'
    have hrest : (run step m es).isSome := by rw [hr]; rfl
    have huniq : ∀ m', step s e = some m' → m' = m := by
      intro m' hm'
      exact Option.some.inj (hm'.symm.trans hm)
    have hIm := hinv s e m hI hdom.1 hm
    have hexact' := hexact s e m hI h0 hdom.1 hm
    constructor
    · rintro ⟨-, h⟩
      have hP : P m := by
        cases es with
        | nil => exact h m hm
        | cons _ _ => exact (h m hm).1
      refine ⟨hexact'.mp hP, fun m' hm' => ?_⟩
      obtain rfl := huniq m' hm'
      exact (ih hIm hP (hdom.2 m' hm) hrest).mp (h m' hm)
    · rintro ⟨hg, h⟩
      have hP : P m := hexact'.mpr hg
      refine ⟨h0, fun m' hm' => ?_⟩
      obtain rfl := huniq m' hm'
      exact (ih hIm hP (hdom.2 m' hm) hrest).mpr (h m' hm)

/-- What holds of every step between two states with the property is a guard of a run along which
the property holds. -/
theorem Along.guarded (hstep : ∀ s e s', P s → step s e = some s' → P s' → guard s e) {s : σ}
    {es : List ε} (ha : Along step P s es) (hrun : (run step s es).isSome) :
    Guarded step guard s es := by
  induction es generalizing s with
  | nil => trivial
  | cons e es ih =>
    obtain ⟨s', hs'⟩ := Option.isSome_iff_exists.mp hrun
    obtain ⟨m, hm, hr⟩ := run_cons_eq_some.mp hs'
    have hm' : P m := by
      cases es with
      | nil => exact ha.2 m hm
      | cons _ _ => exact (ha.2 m hm).1
    refine ⟨hstep s e m ha.1 hm hm', fun m' heq => ?_⟩
    obtain rfl := Option.some.inj (heq.symm.trans hm)
    exact ih (ha.2 m' hm) (by rw [hr]; rfl)

/-- The steps of a run along which a property holds lead to states with it. -/
theorem Along.steps {s : σ} {es : List ε} (ha : Along step P s es) :
    Guarded step (fun s e => ∀ s', step s e = some s' → P s') s es := by
  induction es generalizing s with
  | nil => trivial
  | cons e es ih =>
    refine ⟨fun s' hs => ?_, fun s' hs => ih (ha.2 s' hs)⟩
    cases es with
    | nil => exact ha.2 s' hs
    | cons _ _ => exact (ha.2 s' hs).1

/-- Where the property makes all steps defined, a run along which it holds is one. -/
theorem Along.run_isSome (h : ∀ s, P s → ∀ e, (step s e).isSome) {s : σ} {es : List ε}
    (ha : Along step P s es) : (run step s es).isSome := by
  induction es generalizing s with
  | nil => rfl
  | cons e es ih =>
    obtain ⟨m, hm⟩ := Option.isSome_iff_exists.mp (h s ha.1 e)
    rw [run_cons hm]
    exact ih (ha.2 m hm)

/-- What the steps between states with a property preserve holds all along a run along which the
property holds. -/
theorem Along.strengthen {Q : σ → Prop}
    (hstep : ∀ s e s', P s → Q s → step s e = some s' → P s' → Q s') {s : σ} {es : List ε}
    (h0 : Q s) (ha : Along step P s es) : Along step (fun s => P s ∧ Q s) s es := by
  induction es generalizing s with
  | nil => exact ⟨ha, h0⟩
  | cons e es ih =>
    refine ⟨⟨ha.1, h0⟩, fun s' hs => ?_⟩
    have hP : P s' := by
      cases es with
      | nil => exact ha.2 s' hs
      | cons _ _ => exact (ha.2 s' hs).1
    exact ih (hstep s e s' ha.1 h0 hs hP) (ha.2 s' hs)

/-- A step function that is defined everywhere has all runs. -/
theorem run_isSome (h : ∀ s e, (step s e).isSome) (s : σ) (es : List ε) :
    (run step s es).isSome := by
  induction es generalizing s with
  | nil => rfl
  | cons e es ih =>
    obtain ⟨m, hm⟩ := Option.isSome_iff_exists.mp (h s e)
    rw [run_cons hm]
    exact ih m

/-- Two guards that agree on the steps of a domain agree on its runs. -/
theorem guarded_iff_guarded {I : σ → Prop} {dom : σ → ε → Prop}
    (hinv : ∀ s e s', I s → dom s e → step s e = some s' → I s')
    (hexact : ∀ s e s', I s → dom s e → step s e = some s' → (guard s e ↔ guard' s e))
    {s : σ} {es : List ε} (hI : I s) (hdom : Guarded step dom s es)
    (hrun : (run step s es).isSome) : Guarded step guard s es ↔ Guarded step guard' s es := by
  induction es generalizing s with
  | nil => exact Iff.rfl
  | cons e es ih =>
    obtain ⟨s', hs'⟩ := Option.isSome_iff_exists.mp hrun
    obtain ⟨m, hm, hr⟩ := run_cons_eq_some.mp hs'
    have hrest : (run step m es).isSome := by rw [hr]; rfl
    refine and_congr (hexact s e m hI hdom.1 hm) (forall_congr' fun m' => ?_)
    refine imp_congr_right fun hm' => ?_
    obtain rfl := Option.some.inj (hm.symm.trans hm')
    exact ih (hinv s e m hI hdom.1 hm) (hdom.2 m hm) hrest

/-- Two guards that agree wherever an invariant holds agree on the runs that preserve it. -/
theorem guarded_congr {I : σ → Prop} {dom : σ → ε → Prop}
    (hinv : ∀ s e s', I s → dom s e → step s e = some s' → I s')
    (hexact : ∀ s e, I s → dom s e → (guard s e ↔ guard' s e)) {s : σ} {es : List ε} (hI : I s)
    (hdom : Guarded step dom s es) : Guarded step guard s es ↔ Guarded step guard' s es := by
  induction es generalizing s with
  | nil => exact Iff.rfl
  | cons e es ih =>
    refine and_congr (hexact s e hI hdom.1) (forall_congr' fun m => ?_)
    exact imp_congr_right fun hm => ih (hinv s e m hI hdom.1 hm) (hdom.2 m hm)

/-! ### Logs -/

/-- A step with a record of it. -/
def logged (step : σ → ε → Option σ) (record : σ → ε → σ → τ → τ) (x : σ × τ) (e : ε) :
    Option (σ × τ) := (step x.1 e).map fun s' => (s', record x.1 e s' x.2)

theorem logged_eq_some {record : σ → ε → σ → τ → τ} {x x' : σ × τ} {e : ε} :
    logged step record x e = some x' ↔
      step x.1 e = some x'.1 ∧ x'.2 = record x.1 e x'.1 x.2 := by
  obtain ⟨s', log'⟩ := x'
  simp only [logged, Option.map_eq_some_iff, Prod.mk.injEq]
  constructor
  · rintro ⟨m, hm, rfl, rfl⟩
    exact ⟨hm, rfl⟩
  · rintro ⟨hs, rfl⟩
    exact ⟨s', hs, rfl, rfl⟩

/-- The log only watches: a logged run goes through the states of the run. -/
theorem fst_run_logged (record : σ → ε → σ → τ → τ) (x : σ × τ) (es : List ε) :
    (run (logged step record) x es).map Prod.fst = run step x.1 es := by
  induction es generalizing x with
  | nil => rfl
  | cons e es ih =>
    rw [run, run, logged, Option.bind_map, Option.map_bind]
    congr 1
    funext s'
    exact ih _

end Transition
