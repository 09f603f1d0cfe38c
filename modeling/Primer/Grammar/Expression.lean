import Primer.Decimal.Reader
import Primer.Grammar.Cursor
import Primer.Grammar.Power

/-!
# Reading types and expressions

An expression is a head and what extends it, as long as the next token binds more tightly than the
context. Readers take fuel, which `Cursor.fuel` gives in plenty.
-/

namespace Primer.Grammar

open Effect (exhausted)
open Parse

/-- The array brackets after a type: a scalar becomes a vector, a vector a matrix. -/
def arrays : Nat → Ty → Parse Ty
  | 0, _ => exhausted
  | n + 1, left => do
    if (← kind) = .openBracket then
      let start := (← advance).span.start
      let _ ← expect .closeBracket
      match left, left.scalar? with
      | .vector base, _ => arrays n (.matrix base)
      | _, some base => arrays n (.vector base)
      | _, none => Effect.fail ⟨.unknownType (left.text ++ "[]"), start⟩
    else return left

/-- A type. -/
def type : Nat → Parse Ty
  | 0 => exhausted
  | n + 1 => do
    match ← kind with
    | .typeWord =>
      let token ← advance
      let ty ← Effect.ofOption token.span.start (.unknownType token.value)
        (Ty.ofName? token.value)
      arrays n ty
    | .listWord =>
      let start := (← advance).span.start
      let _ ← expect .less
      let element ← type n
      let _ ← expect .greater
      let base ← Effect.ofOption start (.unknownType ("List<" ++ element.text ++ ">"))
        element.scalar?
      arrays n (.list base)
    | _ => unexpectedDetailed "expected a type"

/-- The type of a variable or a parameter, which is not `void`. -/
def valueType (n : Nat) : Parse Ty := do
  let p ← position
  let ty ← type n
  if ty = .void then Effect.fail ⟨.unknownType ty.text, p⟩ else return ty

/-- The expression a single token stands for. -/
def ofToken (t : Token) : Except Fault Expr :=
  match t.kind with
  | .number =>
    if t.value.toList.contains '.' then
      match Decimal.readDouble? t.value with
      | some x => .ok (.double t.span x)
      | none => .error (.numberParseError t.value)
    else
      match Decimal.readInt? t.value with
      | some x => .ok (.int t.span x)
      | none => .error (.numberParseError t.value)
  | .identifier => .ok (.name t.span t.value)
  | .string => .ok (.string t.span t.value)
  | .char =>
    match t.value.toList with
    | [c] => .ok (.char t.span c)
    | _ => .error
      (.unexpectedTokenDetailed t.value "a char literal holds exactly one character")
  | .trueWord => .ok (.bool t.span true)
  | .falseWord => .ok (.bool t.span false)
  | _ => .error (.unexpectedToken t.value)

/-- An expression of one token. -/
def primary : Parse Expr := do
  let token ← advance
  Effect.ofExcept token.span.start (ofToken token)

/-- The scalar between the angle brackets of `new List<T>()`, if they are there. -/
def listBase (n : Nat) : Parse (Option Scalar) := do
  if (← kind) = .less then
    let _ ← advance
    let p ← position
    let element ← type n
    let _ ← expect .greater
    let base ← Effect.ofOption p (.unknownType element.text) element.scalar?
    return some base
  else return none

/-- `new List()` or `new List<T>()`. -/
def newList (n : Nat) : Parse Expr := do
  let start := (← advance).span.start
  let _ ← expectDetailed .listWord "only lists can be created with `new`"
  let base ← listBase n
  let _ ← expect .openParen
  let _ ← expect .closeParen
  return .newList (← spanFrom start) base

/-- An element of what was read before. A second index makes a cell of a matrix. -/
def indexed (left index : Expr) (span : Span) : Except Fault Expr :=
  match left with
  | .index _ target row => .ok (.cell span target row index)
  | .cell .. => .error (.unexpectedTokenDetailed "[" "at most two indices are allowed")
  | left => .ok (.index span left index)

mutual

/-- An expression in a context that binds as tightly as `p`. -/
def expr : Nat → Power → Parse Expr
  | 0, _ => exhausted
  | n + 1, p => do
    let left ← head n
    tail n p left

/-- The beginning of an expression: a literal, a name, or a form with a mark in front. -/
def head : Nat → Parse Expr
  | 0 => exhausted
  | n + 1 => do
    match ← kind with
    | .number | .identifier | .string | .char | .trueWord | .falseWord => primary
    | .dash =>
      let start := (← advance).span.start
      let operand ← expr n .unary
      return .negate ⟨start, operand.span.stop⟩ operand
    | .not =>
      let start := (← advance).span.start
      let operand ← expr n .unary
      return .not ⟨start, operand.span.stop⟩ operand
    | .openParen => parenthesised n
    | .openBracket =>
      let start := (← advance).span.start
      let rows := (← kind) = .openBracket
      let items ← arguments n .closeBracket
      let span ← spanFrom start
      return if rows then .matrix span items else .vector span items
    | .newWord => newList n
    | _ => unexpected

/-- `(expr)`, or a cast where a type stands between the parentheses. -/
def parenthesised : Nat → Parse Expr
  | 0 => exhausted
  | n + 1 => do
    let start := (← advance).span.start
    if (← kind).opensType then
      let target ← type n
      let _ ← expect .closeParen
      let operand ← expr n .unary
      return .cast ⟨start, operand.span.stop⟩ target operand
    else
      let inner ← expr n .lowest
      let _ ← expect .closeParen
      return .group (← spanFrom start) inner

/-- What extends an expression in a context that binds as tightly as `p`. -/
def tail : Nat → Power → Expr → Parse Expr
  | 0, _, _ => exhausted
  | n + 1, p, left => do
    if p.looser (← kind).power then
      let left ← extension n left
      tail n p left
    else return left

/-- An expression with one operator, call, index or method more. -/
def extension : Nat → Expr → Parse Expr
  | 0, _ => exhausted
  | n + 1, left => do
    let kind ← kind
    match kind.binary?, kind with
    | some op, _ =>
      let _ ← advance
      let right ← expr n op.rightPower
      return op.build left right
    | none, .openParen =>
      match left with
      | .name _ name =>
        let _ ← advance
        let args ← arguments n .closeParen
        return .call (← spanFrom left.span.start) name args
      | _ => unexpectedDetailed "only named functions can be called"
    | none, .openBracket =>
      let _ ← advance
      let index ← expr n .lowest
      let _ ← expect .closeBracket
      let span ← spanFrom left.span.start
      Effect.ofExcept index.span.start (indexed left index span)
    | none, .dot =>
      let _ ← advance
      let name ← expectDetailed .identifier "expected a method name after `.`"
      let _ ← expect .openParen
      let args ← arguments n .closeParen
      return .method (← spanFrom left.span.start) left name.value args
    | none, _ => unexpected

/-- Expressions with commas between them, up to and with `closing`. -/
def arguments : Nat → TokenKind → Parse (List Expr)
  | 0, _ => exhausted
  | n + 1, closing => do
    if (← kind) = closing then
      let _ ← advance
      return []
    else
      let item ← expr n .lowest
      if (← kind) = closing then
        let _ ← advance
        return [item]
      else
        let _ ← expect .comma
        let rest ← arguments n closing
        return item :: rest

end

end Primer.Grammar
