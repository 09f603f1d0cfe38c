import Primer.Checker.Infer
import Primer.Listing

/-!
# Checking statements

The checker walks every statement once, in source order, and opens the scopes that running it
would open. It declares names, lists them and collects diagnostics.
-/

namespace Primer

/-- The state of a check. -/
structure Checker extends Names where
  listing : Listing := {}
  report : Report := {}
  /-- The function whose body is being checked. -/
  current : Option Function := none
  /-- Whether that body has a `return` with a value. -/
  returnFound : Bool := false
  /-- The number of `start` statements met. -/
  entries : Nat := 0

namespace Checker

variable {α : Type}

def note (c : Checker) (fault : Fault) (p : Position) : Checker :=
  { c with report := c.report.push ⟨fault, p⟩ }

/-- A result, with its diagnostics reported. -/
def judge (c : Checker) (j : Judged α) : α × Checker :=
  (j.value, { c with report := c.report.append j.notes })

/-- The diagnostics of a result, reported. -/
def observe (c : Checker) (j : Judged α) : Checker := (c.judge j).2

def enterScope (c : Checker) : Checker := { c with scopes := c.scopes.push }

def leaveScope (c : Checker) : Checker := { c with scopes := c.scopes.pop }

def enterLabelled (c : Checker) (label : String) : Checker :=
  { c with scopes := (c.scopes.pushLabel label).push }

def leaveLabelled (c : Checker) : Checker := { c with scopes := c.scopes.pop.popLabel }

/-- Declares a name in the innermost scope and lists it. A second declaration of the name is
reported and not listed. -/
def declare (c : Checker) (name : String) (ty : Ty) (category : Category) (p : Position) :
    Checker :=
  let d : Declaration := ⟨name, ty, category, p, c.scopes.path⟩
  match c.scopes.declare d d with
  | .ok scopes =>
    { c with scopes, listing := (c.listing.record ⟨d, none, true⟩).2 }
  | .error e => { c with report := c.report.push e }

/-- The complaint about a value that does not fit where it is assigned. -/
def fits (owner : String) (expected received : Ty) (value : Expr) : Judged Unit :=
  if expected.isError || received.isError || expected.assignable received then pure ()
  else .note ⟨.typeMatchError owner expected.text received.text, value.position⟩

/-- The value of a declaration. -/
def initial (names : Names) (name : String) (ty : Ty) (value : Expr) : Judged Unit := do
  let received ← names.inferFor value ty
  fits name ty received value

/-- An assignment to a name. -/
def assignment (names : Names) (name : String) (value : Expr) (p : Position) : Judged Unit := do
  let expected ← names.lookup name p
  if expected.isError then
    let _ ← names.infer value
  else
    let received ← names.inferFor value expected
    fits name expected received value

/-- An assignment to an element. -/
def indexAssignment (names : Names) (target index : Expr) (column : Option Expr) (value : Expr)
    (p : Position) : Judged Unit := do
  let container ← names.infer target
  let expected ← names.inferElement container index column p
  let received ← names.infer value
  fits target.text expected received value

/-- The target of a step. -/
def stepTarget (names : Names) (target : Expr) (p : Position) : Judged Unit := do
  let t ← names.infer target
  if t.isError || t.isNumeric then pure ()
  else Judged.note ⟨.incDecNonNumeric t.text, p⟩

/-- A condition, which must be a bool. -/
def condition (names : Names) (e : Expr) (construct : String) : Judged Unit := do
  let t ← names.infer e
  if t.isError || t = .bool then pure ()
  else Judged.note ⟨.conditionNotBool construct t.text, e.position⟩

/-- The condition of a `for`, if there is one. -/
def goesOn (c : Checker) : Option Expr → Checker
  | some e => c.observe (condition c.toNames e "for")
  | none => c

/-- The value of a case, which must be comparable to what is switched on. -/
def caseValue (names : Names) (scrutinee : Ty) (value : Expr) : Judged Unit := do
  let t ← names.infer value
  if Judge.comparable t scrutinee || t.isError || scrutinee.isError then pure ()
  else Judged.note ⟨.incompatibleTypes "case" scrutinee.text t.text, value.position⟩

/-- A `return` with a value of a type, or without one. -/
def returned (c : Checker) (received : Option Ty) (p : Position) : Checker :=
  match c.current, received with
  | none, _ => c.note .returnOutsideFunction p
  | some f, some t =>
    if f.isProcedure then c.note (.voidReturnsValue f.name) p
    else
      let c := { c with returnFound := true }
      if t.isError || f.returns.assignable t then c
      else c.note (.returnTypeMismatch f.name f.returns.text t.text) p
  | some f, none => if f.isProcedure then c else c.note (.missingReturnValue f.name) p

mutual

/-- Checks a statement. -/
def stmt : Stmt → Checker → Checker
  | .declare span name ty value, c =>
    let c := match value with
      | some e => c.observe (initial c.toNames name ty e)
      | none => c
    c.declare name ty (.ofTy ty) span.start
  | .assign span name value, c => c.observe (assignment c.toNames name value span.start)
  | .assignIndex span target index column value, c =>
    c.observe (indexAssignment c.toNames target index column value span.start)
  | .step span target _, c => c.observe (stepTarget c.toNames target span.start)
  | .block b, c => block b c
  | .branch _ test body otherwise, c =>
    let c := c.observe (condition c.toNames test "if")
    optional otherwise (block body c)
  | .switch _ scrutinee branches fallback, c =>
    let (t, c) := c.judge (c.infer scrutinee)
    let c := cases t branches (c.enterLabelled (Label.ofSwitch scrutinee))
    (default fallback c).leaveLabelled
  | .whileLoop _ test body, c =>
    let c := c.enterLabelled (Label.ofWhile test)
    let c := c.observe (condition c.toNames test "while")
    (block body c).leaveLabelled
  | .doLoop _ body test, c =>
    let c := block body (c.enterLabelled (Label.ofDo test))
    (c.observe (condition c.toNames test "do-while")).leaveLabelled
  | .forLoop _ first test next body, c =>
    let c := (optional first (c.enterLabelled (Label.ofFor test))).goesOn test
    (block body (optional next c)).leaveLabelled
  | .breakOut _, c => c
  | .continueOn _, c => c
  | .print _ value, c => c.observe (c.infer value)
  | .function f, c =>
    if c.scopes.atGlobal && c.current.isNone then c
    else c.note (.nestedFunctionDeclaration f.name) f.span.start
  | .giveBack span value, c =>
    match value with
    | some e =>
      let (t, c) := c.judge (c.infer e)
      c.returned (some t) span.start
    | none => c.returned none span.start
  | .start span name arguments, c =>
    let c := { c with entries := c.entries + 1 }
    c.observe (c.inferCall name arguments span.start)
  | .expression _ value, c => c.observe (c.infer value)

/-- Checks statements in order. -/
def stmts : List Stmt → Checker → Checker
  | [], c => c
  | s :: rest, c => stmts rest (stmt s c)

/-- Checks the statements of a block in a scope of their own. -/
def block : BlockOf Stmt → Checker → Checker
  | ⟨body, _⟩, c => (stmts body c.enterScope).leaveScope

/-- Checks a statement that may be left out. -/
def optional : Option Stmt → Checker → Checker
  | none, c => c
  | some s, c => stmt s c

/-- Checks the cases of a switch, all in one scope. -/
def cases (scrutinee : Ty) : List (CaseOf Stmt) → Checker → Checker
  | [], c => c
  | branch :: rest, c => cases scrutinee rest (case scrutinee branch c)

/-- Checks one case of a switch. -/
def case (scrutinee : Ty) : CaseOf Stmt → Checker → Checker
  | ⟨value, body, _⟩, c => stmts body (c.observe (caseValue c.toNames scrutinee value))

/-- Checks the default of a switch. -/
def default : Option (List Stmt) → Checker → Checker
  | none, c => c
  | some body, c => stmts body c

end

/-- Declares a parameter, unless the function already has one of its name. -/
def parameter (f : Function) (c : Checker) (q : Parameter) : Checker :=
  if c.scopes.declaredHere q.name then c.note (.duplicateParameter q.name f.name) q.position
  else c.declare q.name q.ty .parameter q.position

/-- Opens the scope of a function and declares its parameters. -/
def enterFunction (c : Checker) (f : Function) : Checker :=
  f.parameters.foldl (parameter f)
    { c.enterLabelled (Label.ofFunction f.name) with current := some f, returnFound := false }

/-- Checks the body of a function in a scope with its parameters. -/
def function (c : Checker) (f : Function) : Checker :=
  let inner := stmts f.body.body (c.enterFunction f)
  let inner := if f.isProcedure || inner.returnFound then inner
    else inner.note (.missingReturn f.name) f.span.start
  { inner.leaveLabelled with current := c.current, returnFound := c.returnFound }

end Checker

end Primer
