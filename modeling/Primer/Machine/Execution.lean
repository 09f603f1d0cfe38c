import Primer.Machine.Eval

/-!
# Running a program

All functions are known before the first statement runs. A jump that reaches the top level is
reported and ends the run.
-/

namespace Primer

namespace Machine

/-- The machine that knows one function more; a second one of the same name is reported. -/
def register (m : Machine) (f : Function) : Machine :=
  match m.register? f with
  | some m => m
  | none => m.note ⟨.functionAlreadyDeclared f.name, f.span.start⟩

end Machine

/-- Runs the statements of a program until one leaves a jump behind. -/
def Eval.topLevel {ρ : Type → Type} [Runs ρ] : Nat → List Stmt → ρ Unit
  | 0, _ => Runs.exhausted
  | _ + 1, [] => return ()
  | n + 1, .function _ :: rest => topLevel n rest
  | n + 1, s :: rest => do
    stmt n s
    match ← Runs.step Machine.takeSignal with
    | some signal => update (·.note (Machine.unconsumed signal s.position))
    | none => topLevel n rest

/-- The machine before the first statement of a program, which knows all its functions. -/
def Program.loaded (limit : Nat) (p : Program) : Machine :=
  p.functions.foldl Machine.register (Machine.fresh limit)

/-- The machine at the end of a run, unless the fuel does not last. -/
def Program.execute (fuel limit : Nat) (p : Program) : Option Machine :=
  match (Eval.topLevel fuel p.body : Eval Unit) (p.loaded limit) with
  | .done _ m => some m
  | .failed _ m => some m
  | .exhausted => none

end Primer
