import Primer.Checker.Analysis

/-!
# When function bodies are checked

A check reads the statements at top level up to the first that can enter a function, then the body
of every function, and then the other statements (`Program.analyze_eq`). So each body is checked
once, and all of them after the same statements, the prelude.
-/

namespace Primer

namespace Checker

theorem topLevel_nil : ∀ (ss : List Stmt) (c : Checker), topLevel [] ss c = stmts ss c
  | [], _ => rfl
  | s :: ss, c => by
    simp only [topLevel, List.foldl_nil, ite_self, topLevel_nil ss, stmts]

/-- The pending bodies are checked in one place. -/
theorem topLevel_eq (pending : List Function) : ∀ (ss : List Stmt) (c : Checker),
    topLevel pending ss c = stmts (ss.dropWhile (!·.callsFunction))
      (pending.foldl function (stmts (ss.takeWhile (!·.callsFunction)) c))
  | [], _ => rfl
  | s :: ss, c => by
    cases hs : s.callsFunction
    · simp [topLevel, hs, topLevel_eq pending ss, stmts]
    · simp [topLevel, hs, topLevel_nil, stmts]

end Checker

namespace Program

variable (p : Program)

/-- The statements before the first that can enter a function. -/
def opening : List Stmt := p.body.takeWhile (!·.callsFunction)

/-- The statements from the first that can enter a function on. -/
def remainder : List Stmt := p.body.dropWhile (!·.callsFunction)

theorem body_eq : p.body = p.opening ++ p.remainder := List.takeWhile_append_dropWhile.symm

/-- The check of the statements before the first that can enter a function. -/
def prelude : Checker := Checker.stmts p.opening (p.functions.foldl Checker.register {})

/-- The check of all statements and bodies. -/
def checked : Checker := Checker.stmts p.remainder (p.functions.foldl Checker.function p.prelude)

/-- A check looks at every statement and every body once. -/
theorem analyze_eq : p.analyze = ⟨(p.checked.entryPoint p.functions.length).listing,
    (p.checked.entryPoint p.functions.length).report⟩ := by
  simp only [analyze, Checker.topLevel_eq, checked, prelude, opening, remainder]

end Program

end Primer
