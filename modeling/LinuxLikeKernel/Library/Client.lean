import Mathlib.Control.Basic

/-!
# Programs that call a service

A program is a tree: it has a result, or it makes a call and goes on by the reply. A service
relates a state and a call to the replies it can give and the states after them. What a program
does is a log of calls and replies; it is one of the program's if these are the calls the program
makes, and one of the service's if these are the replies the service gives.

## Main definitions

- `Prog` — programs, with `ask` for a call whose reply is the result
- `Does`, `Serves` — the logs of a program and of a service
- `Settles` — all that a program can do with a service

## Main results

- `Settles.bind` — one program after another
- `Settles.prefix_of_does` — a log of both is the beginning of what is settled
-/

namespace Client

variable {κ ρ σ α β : Type}

/-- A program that makes calls `κ` and gets replies `ρ`. -/
inductive Prog (κ ρ α : Type)
  | done (a : α)
  | call (c : κ) (next : ρ → Prog κ ρ α)

namespace Prog

def bind : Prog κ ρ α → (α → Prog κ ρ β) → Prog κ ρ β
  | .done a, f => f a
  | .call c next, f => .call c fun r => (next r).bind f

instance : Monad (Prog κ ρ) where
  pure := .done
  bind := bind

/-- A call. -/
def ask (c : κ) : Prog κ ρ ρ := .call c .done

/-- The result of a program that has come to its end. -/
def result : Prog κ ρ α → Option α
  | .done a => some a
  | .call .. => none

theorem eq_done_of_result {p : Prog κ ρ α} {a : α} (h : p.result = some a) : p = .done a := by
  cases p with
  | done b => rw [Option.some.inj h]
  | call c next => cases h

end Prog

/-- The program makes the calls of the log, and with the replies there it goes on as stated. -/
inductive Does : Prog κ ρ α → List (κ × ρ) → Prog κ ρ α → Prop
  | nil {p : Prog κ ρ α} : Does p [] p
  | cons {c : κ} {r : ρ} {next : ρ → Prog κ ρ α} {log : List (κ × ρ)} {q : Prog κ ρ α}
      (h : Does (next r) log q) : Does (.call c next) ((c, r) :: log) q

/-- The service gives the replies of the log to its calls, one after the other. -/
inductive Serves (serve : σ → κ → ρ → σ → Prop) : σ → List (κ × ρ) → σ → Prop
  | nil {s : σ} : Serves serve s [] s
  | cons {s m t : σ} {c : κ} {r : ρ} {log : List (κ × ρ)} (hfirst : serve s c r m)
      (h : Serves serve m log t) : Serves serve s ((c, r) :: log) t

variable {serve : σ → κ → ρ → σ → Prop} {s t u : σ} {c : κ} {r : ρ} {a : α} {b : β}
  {log log' : List (κ × ρ)} {p q : Prog κ ρ α}

theorem Serves.concat (h : Serves serve s log t) (hlast : serve t c r u) :
    Serves serve s (log ++ [(c, r)]) u := by
  induction h with
  | nil => exact .cons hlast .nil
  | cons hfirst _ ih => exact .cons hfirst (ih hlast)

/-- The one reply that the service can give to a call, and the state after it. -/
def OnlyReply (serve : σ → κ → ρ → σ → Prop) (s : σ) (c : κ) (r : ρ) (t : σ) : Prop :=
  ∀ r' t', serve s c r' t' ↔ r' = r ∧ t' = t

/-- Every reply the program gets is the only one that the service can give. Here are the calls and
replies to its end, its result, and the state of the service after it. -/
inductive Settles (serve : σ → κ → ρ → σ → Prop) :
    σ → Prog κ ρ α → List (κ × ρ) → α → σ → Prop
  | done {s : σ} {a : α} : Settles serve s (.done a) [] a s
  | call {s m t : σ} {c : κ} {r : ρ} {next : ρ → Prog κ ρ α} {log : List (κ × ρ)} {a : α}
      (honly : OnlyReply serve s c r m) (h : Settles serve m (next r) log a t) :
      Settles serve s (.call c next) ((c, r) :: log) a t

namespace Settles

theorem ask (honly : OnlyReply serve s c r t) : Settles serve s (.ask c) [(c, r)] r t :=
  .call honly .done

theorem bind {f : α → Prog κ ρ β} (h : Settles serve s p log a t)
    (h' : Settles serve t (f a) log' b u) : Settles serve s (p >>= f) (log ++ log') b u := by
  induction h with
  | done => exact h'
  | call honly _ ih => exact .call honly (ih h')

/-- A call before the rest. -/
theorem ask_bind {f : ρ → Prog κ ρ β} (honly : OnlyReply serve s c r t)
    (h : Settles serve t (f r) log b u) : Settles serve s (.ask c >>= f) ((c, r) :: log) b u :=
  .call honly h

/-- What a program has done so far with the service is the beginning of what it does to its end,
and the rest is settled from there. -/
theorem prefix_of_does (h : Settles serve s p log a t) (hp : Does p log' q)
    (hs : Serves serve s log' u) : ∃ rest, log = log' ++ rest ∧ Settles serve u q rest a t := by
  induction hp generalizing s log with
  | nil =>
    cases hs
    exact ⟨log, rfl, h⟩
  | cons _ ih =>
    cases hs with
    | cons hfirst hs =>
      cases h with
      | call honly h =>
        obtain ⟨rfl, rfl⟩ := (honly _ _).mp hfirst
        obtain ⟨rest, rfl, hrest⟩ := ih h hs
        exact ⟨rest, rfl, hrest⟩

end Settles

end Client
