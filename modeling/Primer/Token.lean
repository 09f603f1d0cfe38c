import Primer.Position

/-!
# Tokens

The kinds of token, their names, and the reserved words. Words are reserved whatever the case of
their letters.
-/

namespace Primer

/-- The kinds of token. -/
inductive TokenKind where
  | eof
  | number
  | string
  | char
  | identifier
  | openBracket
  | closeBracket
  | openCurly
  | closeCurly
  | openParen
  | closeParen
  | assignment
  | equals
  | not
  | notEquals
  | less
  | lessEquals
  | greater
  | greaterEquals
  | or
  | and
  | caret
  | dot
  | semicolon
  | colon
  | comma
  | plusPlus
  | minusMinus
  | plus
  | dash
  | slash
  | star
  | starStar
  | percent
  | varWord
  | ifWord
  | elseWord
  | whileWord
  | forWord
  | doWord
  | switchWord
  | caseWord
  | defaultWord
  | breakWord
  | continueWord
  | returnWord
  | startWord
  | printWord
  | newWord
  | trueWord
  | falseWord
  | listWord
  | typeWord
deriving DecidableEq, Repr

namespace TokenKind

/-- The name a kind goes by in listings. -/
def name : TokenKind → String
  | eof => "EOF"
  | number => "Number"
  | string => "String"
  | char => "Char"
  | identifier => "Identifier"
  | openBracket => "OpenBracket"
  | closeBracket => "CloseBracket"
  | openCurly => "OpenCurly"
  | closeCurly => "CloseCurly"
  | openParen => "OpenParen"
  | closeParen => "CloseParen"
  | assignment => "Assignment"
  | equals => "Equals"
  | not => "Not"
  | notEquals => "NotEquals"
  | less => "Less"
  | lessEquals => "LessEquals"
  | greater => "Greater"
  | greaterEquals => "GreaterEquals"
  | or => "Or"
  | and => "And"
  | caret => "Caret"
  | dot => "Dot"
  | semicolon => "Semicolon"
  | colon => "Colon"
  | comma => "Comma"
  | plusPlus => "PlusPlus"
  | minusMinus => "MinusMinus"
  | plus => "Plus"
  | dash => "Dash"
  | slash => "Slash"
  | star => "Star"
  | starStar => "StarStar"
  | percent => "Percent"
  | varWord => "Var"
  | ifWord => "If"
  | elseWord => "Else"
  | whileWord => "While"
  | forWord => "For"
  | doWord => "Do"
  | switchWord => "Switch"
  | caseWord => "Case"
  | defaultWord => "Default"
  | breakWord => "Break"
  | continueWord => "Continue"
  | returnWord => "Return"
  | startWord => "Start"
  | printWord => "Print"
  | newWord => "New"
  | trueWord => "True"
  | falseWord => "False"
  | listWord => "List"
  | typeWord => "TypeName"

/-- All kinds. -/
def all : List TokenKind := [
  eof, number, string, char, identifier, openBracket, closeBracket, openCurly, closeCurly,
  openParen, closeParen, assignment, equals, not, notEquals, less, lessEquals, greater,
  greaterEquals, or, and, caret, dot, semicolon, colon, comma, plusPlus, minusMinus, plus, dash,
  slash, star, starStar, percent, varWord, ifWord, elseWord, whileWord, forWord, doWord,
  switchWord, caseWord, defaultWord, breakWord, continueWord, returnWord, startWord, printWord,
  newWord, trueWord, falseWord, listWord, typeWord]

/-- The kind of a name. -/
def ofName? (name : String) : Option TokenKind := all.find? (·.name == name)

/-- The kind of a reserved word in lower case. -/
def ofWord? : String → Option TokenKind
  | "var" => some varWord
  | "if" => some ifWord
  | "else" => some elseWord
  | "while" => some whileWord
  | "for" => some forWord
  | "do" => some doWord
  | "switch" => some switchWord
  | "case" => some caseWord
  | "default" => some defaultWord
  | "break" => some breakWord
  | "continue" => some continueWord
  | "return" => some returnWord
  | "start" => some startWord
  | "println" => some printWord
  | "print" => some printWord
  | "new" => some newWord
  | "true" => some trueWord
  | "false" => some falseWord
  | "list" => some listWord
  | "int" => some typeWord
  | "double" => some typeWord
  | "bool" => some typeWord
  | "boolean" => some typeWord
  | "char" => some typeWord
  | "string" => some typeWord
  | "void" => some typeWord
  | _ => none

/-- The marks with a fixed spelling, each after those it is the beginning of. -/
def marks : List (String × TokenKind) := [
  ("[", openBracket), ("]", closeBracket), ("\x7b", openCurly), ("\x7d", closeCurly),
  ("(", openParen), (")", closeParen), ("==", equals), ("!=", notEquals), ("!", not),
  ("=", assignment), ("<=", lessEquals), ("<", less), (">=", greaterEquals), (">", greater),
  ("||", or), ("&&", and), ("^", caret), (".", dot), (";", semicolon), (":", colon),
  (",", comma), ("++", plusPlus), ("--", minusMinus), ("+", plus), ("-", dash), ("/", slash),
  ("**", starStar), ("*", star), ("%", percent)]

end TokenKind

/-- A token with its place. The value of a literal is what it stands for, of a word its spelling. -/
structure Token where
  kind : TokenKind
  value : String
  span : Span
deriving DecidableEq, Repr

namespace Token

/-- The token that ends every list of tokens. -/
def eof (p : Position) : Token := ⟨.eof, "EOF", Span.empty p⟩

/-- A token as listings show it, with its value where the kind leaves it open. -/
def text (t : Token) : String :=
  match t.kind with
  | .string | .char | .identifier | .number => t.kind.name ++ " (" ++ t.value ++ ")"
  | kind => kind.name

end Token

end Primer
