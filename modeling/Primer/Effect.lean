import Primer.Diagnostic

/-!
# Computations that can fail

An effect on a state ends with a value, with a diagnostic, or out of fuel. A failed effect keeps
the state it had reached, so that work can go on after the failure.
-/

namespace Primer

/-- How a computation on a state ends. -/
inductive Outcome (σ α : Type) where
  | done (value : α) (state : σ)
  | failed (diagnostic : Diagnostic) (state : σ)
  | exhausted

/-- A computation on a state. -/
def Effect (σ α : Type) := σ → Outcome σ α

namespace Effect

variable {σ α β : Type}

@[inline] protected def pure (a : α) : Effect σ α := fun s => .done a s

@[inline] protected def bind (x : Effect σ α) (f : α → Effect σ β) : Effect σ β := fun s =>
  match x s with
  | .done a t => f a t
  | .failed d t => .failed d t
  | .exhausted => .exhausted

instance : Monad (Effect σ) where
  pure := Effect.pure
  bind := Effect.bind

/-- Ends out of fuel. -/
@[inline] def exhausted : Effect σ α := fun _ => .exhausted

/-- Fails with a diagnostic. -/
@[inline] def fail (d : Diagnostic) : Effect σ α := fun s => .failed d s

/-- Looks at the state. -/
@[inline] def read (f : σ → α) : Effect σ α := fun s => .done (f s) s

/-- Changes the state and gives a value. -/
@[inline] def step (f : σ → α × σ) : Effect σ α := fun s =>
  let (a, t) := f s
  .done a t

/-- Gives a value or fails with a fault at a place. -/
@[inline] def ofExcept (p : Position) : Except Fault α → Effect σ α
  | .ok a => Effect.pure a
  | .error f => fail ⟨f, p⟩

/-- Gives a value or fails with a fault at a place. -/
@[inline] def ofOption (p : Position) (fault : Fault) : Option α → Effect σ α
  | some a => Effect.pure a
  | none => fail ⟨fault, p⟩

/-- Turns a failure into a value. -/
@[inline] def attempt (x : Effect σ α) : Effect σ (Except Diagnostic α) := fun s =>
  match x s with
  | .done a t => .done (.ok a) t
  | .failed d t => .done (.error d) t
  | .exhausted => .exhausted

@[simp] theorem pure_apply (a : α) (s : σ) : (pure a : Effect σ α) s = .done a s := rfl

theorem bind_apply (x : Effect σ α) (f : α → Effect σ β) (s : σ) :
    (x >>= f) s = match x s with
      | .done a t => f a t
      | .failed d t => .failed d t
      | .exhausted => .exhausted := rfl

instance : LawfulMonad (Effect σ) :=
  LawfulMonad.mk' (Effect σ)
    (fun x => by
      funext s
      change (x >>= pure) s = x s
      rw [bind_apply]
      cases x s <;> rfl)
    (fun _ _ => rfl)
    (fun x f g => by
      funext s
      simp only [bind_apply]
      cases x s <;> rfl)

end Effect

end Primer
