import Primer.Machine

/-!
# What runs a program

The evaluator is written once, for every kind of computation that can look at a machine, change
it, fail and go on after a failure. One kind only runs the machine. A kind may also watch the run:
it is told which job is being carried out, and what the calls that have not ended set aside.
-/

namespace Primer

/-- A piece of work of the evaluator that a kind of computation can watch. -/
inductive Job where
  /-- The value of an expression. -/
  | expr (e : Expr)
  /-- The value of an expression for a slot of a type. -/
  | exprFor (e : Expr) (target : Ty)
  /-- A call of a declared function. -/
  | call (name : String) (arguments : List Expr) (p : Position)
  /-- A statement, which may fail. -/
  | stmt (s : Stmt)
  /-- The end of the running call by a failure. -/
  | failCall (d : Diagnostic)

/-- What comes of a job. -/
abbrev Job.Result : Job → Type
  | expr _ => Value
  | exprFor _ _ => Value
  | call _ _ _ => Value
  | stmt _ => Unit
  | failCall _ => Unit

/-- A kind of computation that runs programs. -/
class Runs (ρ : Type → Type) extends Monad ρ where
  /-- Ends out of fuel. -/
  exhausted {α : Type} : ρ α
  /-- Looks at the machine, unless it refuses. -/
  look {α : Type} : (Machine → Except Diagnostic α) → ρ α
  /-- Changes the machine and gives a value. -/
  step {α : Type} : (Machine → α × Machine) → ρ α
  /-- Turns a failure into a value. -/
  attempt {α : Type} : ρ α → ρ (Except Diagnostic α)
  /-- Carries out a job. -/
  within (t : Job) : ρ t.Result → ρ t.Result
  /-- Runs while a call has set its caller aside. -/
  aside {α : Type} : Caller → ρ α → ρ α

/-- A step of a running program. -/
abbrev Eval (α : Type) := Effect Machine α

instance : Runs (Effect Machine) where
  exhausted := Effect.exhausted
  look f := fun m =>
    match f m with
    | .ok a => .done a m
    | .error d => .failed d m
  step := Effect.step
  attempt := Effect.attempt
  within _ x := x
  aside _ x := x

end Primer
