import Primer.Expr

/-!
# Statements and programs

Blocks, cases and function declarations are records over the type of statements they hold, which
`Stmt` ties back to itself.
-/

namespace Primer

/-- Statements between curly brackets. -/
structure BlockOf (σ : Type) where
  body : List σ
  span : Span

/-- One `case` of a switch, its span up to the end of its last statement. -/
structure CaseOf (σ : Type) where
  value : Expr
  body : List σ
  span : Span

structure Parameter where
  name : String
  ty : Ty
  position : Position
deriving DecidableEq, Repr

/-- A function, or a procedure if it returns `void`. -/
structure FunctionOf (σ : Type) where
  name : String
  parameters : List Parameter
  returns : Ty
  body : BlockOf σ
  span : Span

/-- A statement. Every one carries the span of its source, where it is not that of its part. -/
inductive Stmt where
  | declare (span : Span) (name : String) (ty : Ty) (initial : Option Expr)
  | assign (span : Span) (name : String) (value : Expr)
  | assignIndex (span : Span) (target index : Expr) (column : Option Expr) (value : Expr)
  | step (span : Span) (target : Expr) (up : Bool)
  | block (block : BlockOf Stmt)
  | branch (span : Span) (condition : Expr) (body : BlockOf Stmt) (otherwise : Option Stmt)
  | switch (span : Span) (scrutinee : Expr) (cases : List (CaseOf Stmt))
      (fallback : Option (List Stmt))
  | whileLoop (span : Span) (condition : Expr) (body : BlockOf Stmt)
  | doLoop (span : Span) (body : BlockOf Stmt) (condition : Expr)
  | forLoop (span : Span) (first : Option Stmt) (condition : Option Expr) (next : Option Stmt)
      (body : BlockOf Stmt)
  | breakOut (span : Span)
  | continueOn (span : Span)
  | print (span : Span) (value : Expr)
  | function (declaration : FunctionOf Stmt)
  | giveBack (span : Span) (value : Option Expr)
  | start (span : Span) (name : String) (arguments : List Expr)
  | expression (span : Span) (value : Expr)

abbrev Block := BlockOf Stmt

abbrev Case := CaseOf Stmt

abbrev Function := FunctionOf Stmt

namespace Stmt

/-- Where a statement stands. -/
def span : Stmt → Span
  | declare s _ _ _ => s
  | assign s _ _ => s
  | assignIndex s _ _ _ _ => s
  | step s _ _ => s
  | block b => b.span
  | branch s _ _ _ => s
  | switch s _ _ _ => s
  | whileLoop s _ _ => s
  | doLoop s _ _ => s
  | forLoop s _ _ _ _ => s
  | breakOut s => s
  | continueOn s => s
  | print s _ => s
  | function d => d.span
  | giveBack s _ => s
  | start s _ _ => s
  | expression s _ => s

/-- Where a statement begins. -/
def position (s : Stmt) : Position := s.span.start

/-- The function a statement declares. -/
def function? : Stmt → Option Function
  | function d => some d
  | _ => none

end Stmt

namespace FunctionOf

variable {σ : Type}

def isProcedure (f : FunctionOf σ) : Bool := f.returns == .void

/-- A declaration without its names and body: `add(int, int) : int`. -/
def signature (f : FunctionOf σ) : String :=
  f.name ++ "(" ++ ", ".intercalate (f.parameters.map (·.ty.text)) ++ ") : " ++ f.returns.text

end FunctionOf

/-- A program: its statements in source order. -/
structure Program where
  body : List Stmt

/-- The functions declared at top level, in source order. -/
def Program.functions (p : Program) : List Function := p.body.filterMap Stmt.function?

namespace Label

/-! The names of the scopes that statements open. -/

def ofFunction (name : String) : String := "func(" ++ name ++ ")"

def ofSwitch (scrutinee : Expr) : String := "switch(" ++ scrutinee.text ++ ")"

def ofWhile (condition : Expr) : String := "while(" ++ condition.text ++ ")"

def ofDo (condition : Expr) : String := "do-while(" ++ condition.text ++ ")"

def ofFor (condition : Option Expr) : String :=
  "for(" ++ (condition.map Expr.text).getD "" ++ ")"

end Label

end Primer
