import Primer.Builtin
import Primer.Checker.Judged
import Primer.Scope
import Primer.Stmt

/-!
# The types of expressions

An expression gets a type from the names in scope and the declared functions. Where it has none it
gets `error` and a diagnostic; a part of type `error` has been reported already and brings no
further one.
-/

namespace Primer

/-- What an expression can refer to. -/
structure Names where
  scopes : Scopes Declaration := {}
  functions : Frame Function := []

/-- The complaint about two types an operator does not take together. -/
def incompatibleTypes (symbol : String) (left right : Ty) (p : Position) : Judged Ty :=
  .reject (.incompatibleTypes symbol left.text right.text) p .error

/-- The complaint about a type an operator does not take. -/
def invalidOperandType (symbol : String) (t : Ty) (p : Position) : Judged Ty :=
  .reject (.invalidOperand symbol t.text) p .error

/-- The complaint about two types in one literal. -/
def incompatibleElements (first second : Ty) (p : Position) : Judged Ty :=
  .reject (.incompatibleElementTypes first.text second.text) p .error

/-- The type of a name. -/
def Names.lookup (names : Names) (name : String) (p : Position) : Judged Ty :=
  match names.scopes.lookup name p with
  | .ok d => pure d.ty
  | .error d => ⟨.error, [d]⟩

namespace Judge

/-- The type of `left op right` for an arithmetic operator. -/
def arithmetic (op : ArithmeticOp) (left right : Ty) (p : Position) : Judged Ty :=
  if left.isError || right.isError then pure .error
  else if op = .add && (left = .string || right = .string) && left != .void && right != .void then
    pure .string
  else if !left.isNumeric || !right.isNumeric then incompatibleTypes op.symbol left right p
  else
    let integral := left.isIntegral && right.isIntegral
    match op with
    | .divide => pure .double
    | .modulo => if integral then pure .int else incompatibleTypes op.symbol left right p
    | _ => pure (if integral then .int else .double)

/-- The type of `-operand`. -/
def negate (t : Ty) (p : Position) : Judged Ty :=
  match t with
  | .error => pure .error
  | .int => pure .int
  | .char => pure .int
  | .double => pure .double
  | t => invalidOperandType "-" t p

/-- Whether values of two types can be compared for equality. -/
def comparable (a b : Ty) : Bool := a == b || (a.isNumeric && b.isNumeric)

/-- The type of `left op right` for a relational operator. -/
def relational (op : RelationalOp) (left right : Ty) (p : Position) : Judged Ty :=
  if left.isError || right.isError then pure .error
  else if (if op.isEquality then comparable left right else left.isNumeric && right.isNumeric)
  then pure .bool
  else incompatibleTypes op.symbol left right p

/-- The type of `left op right` for a logical operator. -/
def logical (op : LogicalOp) (left right : Ty) (p : Position) : Judged Ty :=
  if left.isError || right.isError then pure .error
  else if left != .bool then invalidOperandType op.symbol left p
  else if right != .bool then invalidOperandType op.symbol right p
  else pure .bool

/-- The type of `!operand`. -/
def not (t : Ty) (p : Position) : Judged Ty :=
  match t with
  | .error => pure .error
  | .bool => pure .bool
  | t => invalidOperandType "!" t p

/-- The casts a program may write. A cast to the same type is not among them. -/
def legalCast : Ty → Ty → Bool
  | .int, .double => true
  | .double, .int => true
  | .int, .string => true
  | .int, .char => true
  | .double, .string => true
  | .char, .int => true
  | .char, .double => true
  | _, _ => false

/-- The type of a cast. -/
def cast (target source : Ty) (p : Position) : Judged Ty :=
  if source.isError then pure .error
  else if legalCast source target then pure target
  else .reject (.invalidCast source.text target.text) p .error

/-- Whether a type can index. -/
def index (t : Ty) (p : Position) : Judged Bool :=
  match t with
  | .int => pure true
  | .error => pure false
  | t => .reject (.indexNotInt t.text) p false

/-- The type of an element, given whether there are two indices and whether they are valid. -/
def element (container : Ty) (two valid : Bool) (p : Position) : Judged Ty :=
  if container.isError || !valid then pure .error
  else match container, two with
    | .vector b, false => pure (.scalar b)
    | .list b, false => pure (.scalar b)
    | .matrix b, false => pure (.vector b)
    | .matrix b, true => pure (.scalar b)
    | .vector _, true => .reject (.doubleIndexOnNonMatrix container.text) p .error
    | .list _, true => .reject (.doubleIndexOnNonMatrix container.text) p .error
    | other, _ => .reject (.notIndexable other.text) p .error

/-- Whether items over a scalar can be searched for a value of a type. -/
def searchable (base : Scalar) (needle : Ty) : Bool :=
  (Ty.scalar base).assignable needle || needle.assignable (.scalar base)

/-- The type of a built-in function on arguments it takes. -/
def builtinType? (b : Builtin) : List Ty → Option Ty
  | [t] =>
    match b with
    | .round => if t.isNumeric then some .int else none
    | .length => if t = .string || t.isContainer then some .int else none
    | .toString => if t = .void then none else some .string
    | _ => none
  | [t, u] =>
    match b, t, u with
    | .find, .string, .string => some .int
    | .find, .vector base, u => if searchable base u then some .int else none
    | .find, .list base, u => if searchable base u then some .int else none
    | .startsWith, .string, .string => some .bool
    | _, _, _ => none
  | _ => none

/-- The type of a built-in function on arguments of the right number. -/
def builtin (b : Builtin) (types : List Ty) (p : Position) : Judged Ty :=
  if types.any Ty.isError then pure .error
  else match builtinType? b types with
    | some t => pure t
    | none =>
      .reject (.invalidBuiltinArgument b.name (", ".intercalate (types.map Ty.text))) p .error

/-- The complaint about a method a type does not have. -/
def unknownMethod (name : String) (receiver : Ty) (p : Position) : Judged Ty :=
  if receiver.isError then pure .error
  else .reject (.unknownMethod name receiver.text) p .error

/-- The type of a method that takes an argument of a type, or the complaint about the argument. -/
def argument (m : Method) (fits : Bool) (expected received result : Ty) (p : Position) :
    Judged Ty :=
  if fits then pure result
  else .reject (.argumentTypeMatchError m.name 1 expected.text received.text) p .error

/-- The type of a method on a receiver and an argument without errors. -/
def methodOn (m : Method) (receiver arg : Ty) (p : Position) : Judged Ty :=
  match m, receiver with
  | .append, .list b => argument m ((Ty.scalar b).assignable arg) (.scalar b) arg .void p
  | .remove, .list b => argument m (arg == .int) .int arg (.scalar b) p
  | .find, .vector b => argument m (searchable b arg) (.scalar b) arg .bool p
  | .find, .list b => argument m (searchable b arg) (.scalar b) arg .bool p
  | .find, .string => argument m (arg == .string || arg == .char) .string arg .bool p
  | .startsWith, .string => argument m (Ty.string.assignable arg) .string arg .bool p
  | m, receiver => unknownMethod m.name receiver p

/-- The type of a method call. -/
def method (name : String) (receiver : Ty) (types : List Ty) (p : Position) : Judged Ty :=
  match Method.ofName? name with
  | none => unknownMethod name receiver p
  | some m =>
    match checkArity m.name m.arity types.length, types with
    | .error fault, _ => .reject fault p .error
    | .ok _, [] => pure .error
    | .ok _, arg :: _ =>
      if receiver.isError || types.any Ty.isError then pure .error
      else methodOn m receiver arg p

/-- The type of the elements of a literal, given that of the first. -/
def elements (p : Position) : Ty → List Ty → Judged Ty
  | first, [] =>
    match first.scalar? with
    | some b => pure (.vector b)
    | none => incompatibleElements first first p
  | first, t :: rest =>
    match first.unify? t with
    | some u => elements p u rest
    | none => incompatibleElements first t p

/-- The type of a vector literal. -/
def vector (types : List Ty) (p : Position) : Judged Ty :=
  match types with
  | [] => .reject .emptyAggregateLiteral p .error
  | t :: rest => if types.any Ty.isError then pure .error else elements p t rest

/-- The complaint about an argument that does not fit its parameter. -/
def parameter (f : Function) (i : Nat) (q : Parameter) (received : Ty) (p : Position) :
    Judged Unit :=
  if received.isError || q.ty.assignable received then pure ()
  else .note ⟨.argumentTypeMatchError f.name (i + 1) q.ty.text received.text, p⟩

/-- The type of a call: of a built-in function first, then of a declared one. The arguments are
looked at only if there are as many as the function takes. -/
def call (names : Names) (name : String) (count : Nat) (p : Position)
    (types : Unit → Judged (List Ty)) (fits : Function → Judged Unit) : Judged Ty :=
  match Builtin.ofName? name with
  | some b =>
    match checkArity b.name b.arity count with
    | .error fault => .reject fault p .error
    | .ok _ => do builtin b (← types ()) p
  | none =>
    match names.functions.find? name with
    | none => .reject (.undeclaredFunction name) p .error
    | some f =>
      match checkArity f.name f.parameters.length count with
      | .error fault => .reject fault p f.returns
      | .ok _ => do
        fits f
        return f.returns

end Judge

namespace Names

mutual

/-- The type of an expression. -/
def infer (names : Names) : Expr → Judged Ty
  | .int _ _ => pure .int
  | .double _ _ => pure .double
  | .bool _ _ => pure .bool
  | .char _ _ => pure .char
  | .string _ _ => pure .string
  | .name span name => names.lookup name span.start
  | .arithmetic span op left right => do
    let a ← names.infer left
    let b ← names.infer right
    Judge.arithmetic op a b span.start
  | .negate span operand => do
    let t ← names.infer operand
    Judge.negate t span.start
  | .relational span op left right => do
    let a ← names.infer left
    let b ← names.infer right
    Judge.relational op a b span.start
  | .logical span op left right => do
    let a ← names.infer left
    let b ← names.infer right
    Judge.logical op a b span.start
  | .not span operand => do
    let t ← names.infer operand
    Judge.not t span.start
  | .cast span target operand => do
    let t ← names.infer operand
    Judge.cast target t span.start
  | .group _ inner => names.infer inner
  | .call span name arguments =>
    Judge.call names name arguments.length span.start (fun _ => names.inferAll arguments)
      (fun f => names.inferArguments f 0 f.parameters arguments)
  | .method span receiver name arguments => do
    let r ← names.infer receiver
    let types ← names.inferAll arguments
    Judge.method name r types span.start
  | .index span target index => do
    let container ← names.infer target
    let i ← names.infer index
    let valid ← Judge.index i index.position
    Judge.element container false valid span.start
  | .cell span target index column => do
    let container ← names.infer target
    let i ← names.infer index
    let validRow ← Judge.index i index.position
    let j ← names.infer column
    let validColumn ← Judge.index j column.position
    Judge.element container true (validRow && validColumn) span.start
  | .vector span items => do
    let types ← names.inferAll items
    Judge.vector types span.start
  | .matrix span rows => names.inferRows span.start none true rows
  | .newList _ (some base) => pure (.list base)
  | .newList span none =>
    .reject (.newListOutsideList "an untyped context") span.start .error

/-- The types of expressions. -/
def inferAll (names : Names) : List Expr → Judged (List Ty)
  | [] => pure []
  | e :: rest => do
    let t ← names.infer e
    let ts ← names.inferAll rest
    return t :: ts

/-- Whether the arguments of a call fit the parameters. -/
def inferArguments (names : Names) (f : Function) (i : Nat) (parameters : List Parameter) :
    List Expr → Judged Unit
  | [] => pure ()
  | e :: rest =>
    match parameters with
    | [] => pure ()
    | q :: parameters => do
      let t ← names.infer e
      Judge.parameter f i q t e.position
      names.inferArguments f (i + 1) parameters rest

/-- The type of a matrix from the rows that are left, given the scalar of those before and whether
they were all vectors. -/
def inferRows (names : Names) (p : Position) (base : Option Scalar) (valid : Bool) :
    List Expr → Judged Ty
  | [] =>
    match base, valid with
    | some b, true => pure (.matrix b)
    | none, true => .reject .emptyAggregateLiteral p .error
    | _, false => pure .error
  | e :: rest => do
    match ← names.infer e with
    | .error => names.inferRows p base false rest
    | .vector b =>
      match base with
      | none => names.inferRows p (some b) valid rest
      | some c =>
        match Ty.unifyScalar? c b with
        | some u => names.inferRows p (some u) valid rest
        | none => incompatibleElements (.scalar c) (.scalar b) p
    | t =>
      Judged.note ⟨.matrixRowNotVector t.text, e.position⟩
      names.inferRows p base false rest

end

/-- The type of an expression for a slot of a type, from which `new List()` takes its base. -/
def inferFor (names : Names) (e : Expr) (target : Ty) : Judged Ty :=
  match e, target with
  | .newList _ none, .list b => pure (.list b)
  | .newList _ none, .error => pure .error
  | .newList span none, other => .reject (.newListOutsideList other.text) span.start .error
  | e, _ => names.infer e

/-- The type of a call by name. -/
def inferCall (names : Names) (name : String) (arguments : List Expr) (p : Position) :
    Judged Ty :=
  Judge.call names name arguments.length p (fun _ => names.inferAll arguments)
    (fun f => names.inferArguments f 0 f.parameters arguments)

/-- The type of an element of a container of a known type. -/
def inferElement (names : Names) (container : Ty) (index : Expr) (column : Option Expr)
    (p : Position) : Judged Ty := do
  let i ← names.infer index
  let validRow ← Judge.index i index.position
  match column with
  | none => Judge.element container false validRow p
  | some column =>
    let j ← names.infer column
    let validColumn ← Judge.index j column.position
    Judge.element container true (validRow && validColumn) p

end Names

end Primer
