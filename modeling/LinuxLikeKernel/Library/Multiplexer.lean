import Mathlib.Logic.Function.Basic

/-!
# Stations behind one front

Several stations share one input. A command goes to the station in front, and a selection brings
another one there. What a station has become in the end depends on the commands that came while
it was in front, whatever came in between.

## Main definitions

- `Bank`, `Bank.step` — the stations, and what an input does
- `commandsAt` — the commands that come while a station is in front

## Main results

- `station_run` — a station after a list of inputs
-/

namespace Multiplexer

variable {ι κ σ : Type*} [DecidableEq ι]

inductive Input (ι κ : Type*)
  | command (c : κ)
  | select (i : ι)

/-- The stations, one of them in front. -/
@[ext] structure Bank (ι σ : Type*) where
  front : ι
  station : ι → σ

/-- The effect of an input, if `act` is that of commands. -/
def Bank.step (act : ι → κ → σ → σ) (b : Bank ι σ) : Input ι κ → Bank ι σ
  | .command c =>
    { b with station := Function.update b.station b.front (act b.front c (b.station b.front)) }
  | .select i => { b with front := i }

def Bank.run (act : ι → κ → σ → σ) (b : Bank ι σ) (l : List (Input ι κ)) : Bank ι σ :=
  l.foldl (Bank.step act) b

/-- The commands that come while station `a` is in front, where `i` is at first. -/
def commandsAt (a : ι) : ι → List (Input ι κ) → List κ
  | _, [] => []
  | i, .command c :: l => if i = a then c :: commandsAt a i l else commandsAt a i l
  | _, .select i :: l => commandsAt a i l

theorem commandsAt_commands (a : ι) (cs : List κ) :
    commandsAt a a (cs.map .command) = cs := by
  induction cs with
  | nil => rfl
  | cons c cs ih => rw [List.map_cons, commandsAt, if_pos rfl, ih]

theorem front_run_commands (act : ι → κ → σ → σ) (b : Bank ι σ) (cs : List κ) :
    (b.run act (cs.map .command)).front = b.front := by
  induction cs generalizing b with
  | nil => rfl
  | cons c cs ih => exact ih (b.step act (.command c))

/-- **Non-interference.** A station after a list of inputs is what the commands that came while
it was in front have made of it. -/
theorem station_run (act : ι → κ → σ → σ) (a : ι) (b : Bank ι σ) (l : List (Input ι κ)) :
    (b.run act l).station a =
      (commandsAt a b.front l).foldl (fun x c => act a c x) (b.station a) := by
  induction l generalizing b with
  | nil => rfl
  | cons e l ih =>
    refine (ih (b.step act e)).trans ?_
    cases e with
    | command c =>
      simp only [Bank.step, commandsAt]
      split
      · rename_i hfront
        subst hfront
        rw [Function.update_self, List.foldl_cons]
      · rename_i hfront
        rw [Function.update_of_ne (Ne.symm hfront)]
    | select i => rfl

end Multiplexer
