import Primer.Diagnostic
import Primer.Text.Fold
import Primer.Token
import Primer.Token.Escape

/-!
# From text to tokens

The text is cut into pieces from the left. A piece is a gap, which is white space or a comment, or
a token; which one is settled by how the rest of the text begins. Where no piece can begin, the
text is refused at that place.
-/

namespace Primer

/-- What stands at the beginning of a text. Every piece has a first character; `more` counts the
others. -/
inductive Piece where
  | gap (more : Nat)
  | token (more : Nat) (kind : TokenKind) (value : String)
deriving Repr

namespace Piece

/-- The number of characters after the first. -/
def more : Piece → Nat
  | gap n => n
  | token n _ _ => n

/-- The tokens a piece gives: one, or none for a gap. -/
def tokens (span : Span) : Piece → List Token
  | gap _ => []
  | token _ kind value => [⟨kind, value, span⟩]

def isWordStart (c : Char) : Bool := c.isAlpha || c == '_'

def isWordPart (c : Char) : Bool := isWordStart c || c.isDigit

/-- How many leading characters satisfy a test. -/
def run (test : Char → Bool) (cs : List Char) : Nat := (cs.takeWhile test).length

/-- The length of a comment up to and with its end, counted behind its opening. -/
def commentEnd? : List Char → Option Nat
  | '*' :: '/' :: _ => some 2
  | _ :: rest => (commentEnd? rest).map (· + 1)
  | [] => none

/-- The length of a string up to and with its closing quote, counted behind the opening one. -/
def stringEnd? : List Char → Option Nat
  | '"' :: _ => some 1
  | '\\' :: c :: rest => if c = '\n' then none else (stringEnd? rest).map (· + 2)
  | c :: rest => if c = '\n' || c = '\\' then none else (stringEnd? rest).map (· + 1)
  | [] => none

/-- The length of a character literal with its closing quote, counted behind the opening one. -/
def charEnd? : List Char → Option Nat
  | '\\' :: c :: '\'' :: _ => if c = '\n' then none else some 3
  | c :: '\'' :: _ => if c = '\'' || c = '\\' || c = '\n' then none else some 2
  | _ => none

/-- The digits after the first of a number, with the decimals if there are any. -/
def numberRun (cs : List Char) : Nat :=
  let whole := run Char.isDigit cs
  match cs.drop whole with
  | '.' :: c :: rest => if c.isDigit then whole + 2 + run Char.isDigit rest else whole
  | _ => whole

/-- The kind of a word. -/
def wordKind (word : List Char) : TokenKind :=
  (TokenKind.ofWord? (Text.fold (String.ofList word))).getD .identifier

/-- A literal whose text runs up to `size` characters behind its opening quote. -/
def literal (kind : TokenKind) (rest : List Char) (size : Nat) : Piece :=
  token size kind (String.ofList (Token.unescape (rest.take (size - 1))))

/-- A mark with a fixed spelling. -/
def mark? (cs : List Char) : Option Piece :=
  (TokenKind.marks.find? fun m => m.1.toList.isPrefixOf cs).map fun m =>
    token (m.1.length - 1) m.2 m.1

/-- The piece at the beginning of the text `c :: rest`. -/
def read (c : Char) (rest : List Char) : Except Fault Piece :=
  if Text.isBlank c then .ok (gap (run Text.isBlank rest))
  else if c = '/' && rest.head? = some '/' then .ok (gap (run (· != '\n') rest))
  else if c = '/' && rest.head? = some '*' then
    match commentEnd? rest.tail with
    | some n => .ok (gap (n + 1))
    | none => .error (.unterminatedLiteral "comment")
  else if isWordStart c then
    let n := run isWordPart rest
    let word := c :: rest.take n
    .ok (token n (wordKind word) (String.ofList word))
  else if c.isDigit then
    let n := numberRun rest
    .ok (token n .number (String.ofList (c :: rest.take n)))
  else if c = '"' then
    match stringEnd? rest with
    | some n => .ok (literal .string rest n)
    | none => .error (.unterminatedLiteral "string")
  else if c = '\'' then
    match charEnd? rest with
    | some n => .ok (literal .char rest n)
    | none => .error (.unterminatedLiteral "char")
  else
    match mark? (c :: rest) with
    | some piece => .ok piece
    | none => .error (.unrecognisedToken (String.singleton c))

end Piece

namespace Token

/-- The tokens of a text that begins at a place, with the end of the text as the last. -/
def readFrom (p : Position) (cs : List Char) : Except Diagnostic (List Token) :=
  match cs with
  | [] => .ok [eof p]
  | c :: rest =>
    match Piece.read c rest with
    | .error fault => .error ⟨fault, p⟩
    | .ok piece =>
      let q := p.after (c :: rest.take piece.more)
      match readFrom q (rest.drop piece.more) with
      | .error d => .error d
      | .ok tokens => .ok (piece.tokens ⟨p, q⟩ ++ tokens)
termination_by cs.length
decreasing_by simp only [List.length_drop, List.length_cons]; omega

/-- The tokens of a source text. -/
def read (source : String) : Except Diagnostic (List Token) :=
  readFrom .start source.toList

end Token

end Primer
