import Primer.Checker

/-!
# Checking a program

The bodies of functions are checked before the first top-level statement that can run them, against
the globals declared up to there: those are all a body can see when it first runs. A program with
functions needs exactly one `start`.
-/

namespace Primer

mutual

/-- Whether running an expression can enter a declared function. -/
def Expr.callsFunction : Expr → Bool
  | .call _ name arguments => (Builtin.ofName? name).isNone || anyCallsFunction arguments
  | .method _ receiver _ arguments => receiver.callsFunction || anyCallsFunction arguments
  | .arithmetic _ _ left right => left.callsFunction || right.callsFunction
  | .relational _ _ left right => left.callsFunction || right.callsFunction
  | .logical _ _ left right => left.callsFunction || right.callsFunction
  | .negate _ operand => operand.callsFunction
  | .not _ operand => operand.callsFunction
  | .group _ inner => inner.callsFunction
  | .cast _ _ operand => operand.callsFunction
  | .index _ target index => target.callsFunction || index.callsFunction
  | .cell _ target index column =>
    target.callsFunction || index.callsFunction || column.callsFunction
  | .vector _ items => anyCallsFunction items
  | .matrix _ rows => anyCallsFunction rows
  | .int .. => false
  | .double .. => false
  | .bool .. => false
  | .char .. => false
  | .string .. => false
  | .name .. => false
  | .newList .. => false

/-- Whether running one of the expressions can enter a declared function. -/
def anyCallsFunction : List Expr → Bool
  | [] => false
  | e :: rest => e.callsFunction || anyCallsFunction rest

end

mutual

/-- Whether running a statement can enter a declared function. -/
def Stmt.callsFunction : Stmt → Bool
  | .start .. => true
  | .function _ => false
  | .breakOut _ => false
  | .continueOn _ => false
  | .declare _ _ _ value => value.any Expr.callsFunction
  | .assign _ _ value => value.callsFunction
  | .assignIndex _ target index column value =>
    target.callsFunction || index.callsFunction || value.callsFunction ||
      column.any Expr.callsFunction
  | .step _ target _ => target.callsFunction
  | .block b => blockCallsFunction b
  | .branch _ test body otherwise =>
    test.callsFunction || blockCallsFunction body || optionalCallsFunction otherwise
  | .switch _ scrutinee cases fallback =>
    scrutinee.callsFunction || casesCallFunction cases || defaultCallsFunction fallback
  | .whileLoop _ test body => test.callsFunction || blockCallsFunction body
  | .doLoop _ body test => test.callsFunction || blockCallsFunction body
  | .forLoop _ first test next body =>
    optionalCallsFunction first || test.any Expr.callsFunction || optionalCallsFunction next ||
      blockCallsFunction body
  | .giveBack _ value => value.any Expr.callsFunction
  | .print _ value => value.callsFunction
  | .expression _ value => value.callsFunction

def blockCallsFunction : BlockOf Stmt → Bool
  | ⟨body, _⟩ => stmtsCallFunction body

def stmtsCallFunction : List Stmt → Bool
  | [] => false
  | s :: rest => s.callsFunction || stmtsCallFunction rest

def optionalCallsFunction : Option Stmt → Bool
  | none => false
  | some s => s.callsFunction

def casesCallFunction : List (CaseOf Stmt) → Bool
  | [] => false
  | c :: rest => caseCallsFunction c || casesCallFunction rest

def caseCallsFunction : CaseOf Stmt → Bool
  | ⟨value, body, _⟩ => value.callsFunction || stmtsCallFunction body

def defaultCallsFunction : Option (List Stmt) → Bool
  | none => false
  | some body => stmtsCallFunction body

end

namespace Checker

/-- Makes a function known, unless its name is reserved or taken. -/
def register (c : Checker) (f : Function) : Checker :=
  if (Builtin.ofName? f.name).isSome then c.note (.reservedFunctionName f.name) f.span.start
  else if c.functions.has f.name then c.note (.functionAlreadyDeclared f.name) f.span.start
  else { c with
    listing := (c.listing.record (Row.ofFunction f c.scopes.path)).2
    functions := c.functions.add f.name f }

/-- Checks the statements of a program, and the pending function bodies before the first statement
that can run one or, if there is none, at the end. -/
def topLevel : List Function → List Stmt → Checker → Checker
  | pending, [], c => pending.foldl function c
  | pending, s :: rest, c =>
    if s.callsFunction then topLevel [] rest (stmt s (pending.foldl function c))
    else topLevel pending rest (stmt s c)

/-- The complaint about the number of `start` statements. -/
def entryPoint (c : Checker) (functions : Nat) : Checker :=
  match c.entries with
  | 0 => if functions = 0 then c else c.note .missingEntryPoint .whole
  | 1 => c
  | n => c.note (.multipleEntryPoints n) .whole

end Checker

/-- What checking a program finds. -/
structure Analysis where
  listing : Listing
  report : Report

/-- Checks a program without running it. -/
def Program.analyze (p : Program) : Analysis :=
  let c := p.functions.foldl Checker.register {}
  let c := (Checker.topLevel p.functions p.body c).entryPoint p.functions.length
  ⟨c.listing, c.report⟩

end Primer
