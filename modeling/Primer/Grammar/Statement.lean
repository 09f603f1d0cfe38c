import Primer.Grammar.Expression
import Primer.Stmt
import Primer.Token.Lexer

/-!
# Reading statements and programs

Most statements are settled by their first token. The others are simple statements: assignments,
steps and expressions, which also stand in the header of a `for`. Reading stops at the first
mistake.
-/

namespace Primer

namespace Grammar

open Effect (exhausted)
open Parse

/-- An assignment to a name or an element. -/
def assignment (span : Span) (target value : Expr) : Stmt :=
  match target with
  | .name _ name => .assign span name value
  | .index _ container index => .assignIndex span container index none value
  | .cell _ container index column => .assignIndex span container index (some column) value
  | other => .expression span other

/-- An assignment, a step or an expression, without the semicolon. -/
def simple (n : Nat) : Parse Stmt := do
  let start ← position
  let target ← expr n .lowest
  match ← kind with
  | .assignment =>
    if target.isTarget then
      let _ ← advance
      let value ← expr n .lowest
      return assignment (← spanFrom start) target value
    else unexpectedDetailed "left side of `=` cannot be assigned"
  | .plusPlus =>
    if target.isTarget then
      let _ ← advance
      return .step (← spanFrom start) target true
    else unexpectedDetailed "only variables and elements can be incremented"
  | .minusMinus =>
    if target.isTarget then
      let _ ← advance
      return .step (← spanFrom start) target false
    else unexpectedDetailed "only variables and elements can be incremented"
  | _ => return .expression (← spanFrom start) target

/-- `var name: type` with an optional value, without the semicolon. -/
def declaration (n : Nat) : Parse Stmt := do
  let start := (← expect .varWord).span.start
  let name ← expectDetailed .identifier "expected identifier during variable declaration"
  let _ ← expectDetailed .colon "expected `:` and a type after the variable name"
  let ty ← valueType n
  if (← kind) = .assignment then
    let _ ← advance
    let value ← expr n .lowest
    return .declare (← spanFrom start) name.value ty (some value)
  else return .declare (← spanFrom start) name.value ty none

/-- An expression between parentheses. -/
def condition (n : Nat) : Parse Expr := do
  let _ ← expect .openParen
  let value ← expr n .lowest
  let _ ← expect .closeParen
  return value

/-- `break;` or `continue;`. -/
def jump (make : Span → Stmt) : Parse Stmt := do
  let start := (← advance).span.start
  let _ ← expect .semicolon
  return make (← spanFrom start)

/-- `return;` or `return value;`. -/
def giveBack (n : Nat) : Parse Stmt := do
  let start := (← advance).span.start
  if (← kind) = .semicolon then
    let _ ← advance
    return .giveBack (← spanFrom start) none
  else
    let value ← expr n .lowest
    let _ ← expect .semicolon
    return .giveBack (← spanFrom start) (some value)

/-- `print(value);`. -/
def print (n : Nat) : Parse Stmt := do
  let start := (← advance).span.start
  let value ← condition n
  let _ ← expect .semicolon
  return .print (← spanFrom start) value

/-- `start name(arguments);`. -/
def start (n : Nat) : Parse Stmt := do
  let begin := (← advance).span.start
  let name ← expectDetailed .identifier "expected the name of the entry function"
  let _ ← expect .openParen
  let args ← arguments n .closeParen
  let _ ← expect .semicolon
  return .start (← spanFrom begin) name.value args

/-- Typed parameters with commas between them, up to and with the closing parenthesis. -/
def parameters : Nat → Parse (List Parameter)
  | 0 => exhausted
  | n + 1 => do
    if (← kind) = .closeParen then
      let _ ← advance
      return []
    else
      let p ← position
      let ty ← valueType n
      let name ← expectDetailed .identifier "expected a parameter name"
      if (← kind) = .closeParen then
        let _ ← advance
        return [⟨name.value, ty, p⟩]
      else
        let _ ← expect .comma
        let rest ← parameters n
        return ⟨name.value, ty, p⟩ :: rest

/-- The first part of a `for` header. -/
def forFirst (n : Nat) : Parse (Option Stmt) := do
  match ← kind with
  | .semicolon => return none
  | .varWord => return some (← declaration n)
  | _ => return some (← simple n)

/-- The condition of a `for` header. -/
def forCondition (n : Nat) : Parse (Option Expr) := do
  if (← kind) = .semicolon then return none else return some (← expr n .lowest)

/-- The last part of a `for` header. -/
def forNext (n : Nat) : Parse (Option Stmt) := do
  if (← kind) = .closeParen then return none else return some (← simple n)

/-- The tokens that end the statements of a block. -/
def endsBlock : TokenKind → Bool
  | .closeCurly | .eof => true
  | _ => false

/-- The tokens that end the statements of a case. -/
def endsCase : TokenKind → Bool
  | .caseWord | .defaultWord | .closeCurly | .eof => true
  | _ => false

mutual

/-- A statement. -/
def stmt : Nat → Parse Stmt
  | 0 => exhausted
  | n + 1 => do
    match ← kind with
    | .varWord =>
      let s ← declaration n
      let _ ← expect .semicolon
      return s
    | .typeWord | .listWord => return .function (← function n)
    | .ifWord => branch n
    | .switchWord => switch n
    | .whileWord =>
      let start := (← advance).span.start
      let test ← condition n
      let body ← block n
      return .whileLoop (← spanFrom start) test body
    | .doWord =>
      let start := (← advance).span.start
      let body ← block n
      let _ ← expect .whileWord
      let test ← condition n
      let _ ← expect .semicolon
      return .doLoop (← spanFrom start) body test
    | .forWord =>
      let start := (← advance).span.start
      let _ ← expect .openParen
      let first ← forFirst n
      let _ ← expect .semicolon
      let test ← forCondition n
      let _ ← expect .semicolon
      let next ← forNext n
      let _ ← expect .closeParen
      let body ← block n
      return .forLoop (← spanFrom start) first test next body
    | .openCurly => return .block (← block n)
    | .breakWord => jump .breakOut
    | .continueWord => jump .continueOn
    | .returnWord => giveBack n
    | .startWord => start n
    | .printWord => print n
    | _ =>
      let s ← simple n
      let _ ← expect .semicolon
      return s

/-- Statements up to a token that ends them, which is not taken. -/
def stmts : Nat → (TokenKind → Bool) → Parse (List Stmt)
  | 0, _ => exhausted
  | n + 1, ends => do
    if ends (← kind) then return []
    else
      let s ← stmt n
      let rest ← stmts n ends
      return s :: rest

/-- Statements between curly brackets. -/
def block : Nat → Parse Block
  | 0 => exhausted
  | n + 1 => do
    let start := (← expect .openCurly).span.start
    let body ← stmts n endsBlock
    let _ ← expect .closeCurly
    return ⟨body, ← spanFrom start⟩

/-- `if` with an optional `else`, which takes a block or another `if`. -/
def branch : Nat → Parse Stmt
  | 0 => exhausted
  | n + 1 => do
    let start := (← advance).span.start
    let test ← condition n
    let body ← block n
    if (← kind) = .elseWord then
      let _ ← advance
      if (← kind) = .ifWord then
        let other ← branch n
        return .branch (← spanFrom start) test body (some other)
      else
        let other ← block n
        return .branch (← spanFrom start) test body (some (.block other))
    else return .branch (← spanFrom start) test body none

/-- `switch` with its cases and, after them, an optional `default`. -/
def switch : Nat → Parse Stmt
  | 0 => exhausted
  | n + 1 => do
    let start := (← advance).span.start
    let scrutinee ← condition n
    let _ ← expect .openCurly
    let cases ← cases n
    let fallback ← fallback n
    let _ ← expectDetailed .closeCurly "expected `case`, `default` or `\x7d` in switch"
    return .switch (← spanFrom start) scrutinee cases fallback

/-- The cases of a switch. -/
def cases : Nat → Parse (List Case)
  | 0 => exhausted
  | n + 1 => do
    if (← kind) = .caseWord then
      let start := (← advance).span.start
      let value ← expr n .lowest
      let _ ← expect .colon
      let body ← stmts n endsCase
      let span ← spanFrom start
      let rest ← cases n
      return ⟨value, body, span⟩ :: rest
    else return []

/-- The `default` of a switch. -/
def fallback : Nat → Parse (Option (List Stmt))
  | 0 => exhausted
  | n + 1 => do
    if (← kind) = .defaultWord then
      let _ ← advance
      let _ ← expect .colon
      let body ← stmts n endsCase
      return some body
    else return none

/-- `type name(parameters)` and a block. -/
def function : Nat → Parse Function
  | 0 => exhausted
  | n + 1 => do
    let start ← position
    let returns ← type n
    let name ← expectDetailed .identifier "expected a function name after the return type"
    let _ ← expect .openParen
    let params ← parameters n
    let body ← block n
    return ⟨name.value, params, returns, body, ← spanFrom start⟩

end

end Grammar

namespace Parse

/-- An expression in a context that binds as tightly as `p`. -/
def expr (p : Power) : Parse Expr := fun c => Grammar.expr c.fuel p c

def type : Parse Ty := fun c => Grammar.type c.fuel c

def valueType : Parse Ty := fun c => Grammar.valueType c.fuel c

def stmt : Parse Stmt := fun c => Grammar.stmt c.fuel c

def block : Parse Block := fun c => Grammar.block c.fuel c

/-- Statements up to the end of the text. -/
def program : Parse Program := fun c =>
  (Program.mk <$> Grammar.stmts c.fuel (· == .eof)) c

end Parse

namespace Program

/-- The program a list of tokens spells. -/
def ofTokens (tokens : List Token) : Except Diagnostic Program :=
  let c := Cursor.ofTokens tokens
  match Parse.program c with
  | .done p _ => .ok p
  | .failed d _ => .error d
  | .exhausted => .error c.unexpected

/-- The program a source text spells. -/
def ofSource (source : String) : Except Diagnostic Program :=
  match Token.read source with
  | .ok tokens => ofTokens tokens
  | .error d => .error d

end Program

end Primer
