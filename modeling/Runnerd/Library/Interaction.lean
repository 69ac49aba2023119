import Mathlib.Logic.Basic

/-!
# Programs that make calls

An `Interaction` is what a process still has to do: it ends, it throws, or it makes a call and goes
on with the answer. Somebody else gives the answers, so several of them can take turns.
-/

/-- A program that calls `c : C`, is answered with an `R c`, and returns an `α` or throws an `ε`. -/
inductive Interaction (C : Type) (R : C → Type) (ε α : Type) : Type where
  | done (a : α)
  | throw (e : ε)
  | call (c : C) (next : R c → Interaction C R ε α)

namespace Interaction

variable {C : Type} {R : C → Type} {ε α β : Type}

def bind : Interaction C R ε α → (α → Interaction C R ε β) → Interaction C R ε β
  | .done a, f => f a
  | .throw e, _ => .throw e
  | .call c next, f => .call c fun answer => (next answer).bind f

instance : Monad (Interaction C R ε) where
  pure := .done
  bind := bind

instance : MonadExcept ε (Interaction C R ε) where
  throw := .throw
  tryCatch := go
where
  /-- A handler goes on where the exception was thrown. -/
  go {α : Type} : Interaction C R ε α → (ε → Interaction C R ε α) → Interaction C R ε α
    | .done a, _ => .done a
    | .throw e, handler => handler e
    | .call c next, handler => .call c fun answer => go (next answer) handler

end Interaction
