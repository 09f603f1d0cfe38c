import Primer.Effect
import Primer.Token

/-!
# A place in a list of tokens

A cursor stands on a token and never moves past the end of the text. Readers of the grammar are
effects on it.
-/

namespace Primer

/-- A place in a list of tokens. -/
structure Cursor where
  current : Token
  following : List Token
  /-- The end of the token before the current one. -/
  lastEnd? : Option Position
deriving Repr

namespace Cursor

/-- Tokens that end in the end of the text, which is added where it is missing. -/
def closed (tokens : List Token) : List Token :=
  match tokens.getLast? with
  | none => [Token.eof .start]
  | some t => if t.kind = .eof then tokens else tokens ++ [Token.eof t.span.stop]

/-- The cursor on the first token. -/
def ofTokens (tokens : List Token) : Cursor :=
  match closed tokens with
  | [] => ⟨Token.eof .start, [], none⟩
  | t :: rest => ⟨t, rest, none⟩

def kind (c : Cursor) : TokenKind := c.current.kind

/-- Where the current token begins. -/
def position (c : Cursor) : Position := c.current.span.start

/-- Whether there is a token before the end of the text. -/
def hasTokens (c : Cursor) : Bool := c.kind != .eof

/-- Where the last token ended, or where the first one begins. -/
def lastEnd (c : Cursor) : Position := c.lastEnd?.getD c.position

/-- The stretch from a place to the end of the last token. -/
def spanFrom (c : Cursor) (start : Position) : Span := ⟨start, c.lastEnd⟩

/-- The kind of the token some places ahead. -/
def peek (c : Cursor) : Nat → TokenKind
  | 0 => c.kind
  | n + 1 => (c.following[n]?.map Token.kind).getD .eof

/-- The cursor on the next token. It stays on the end of the text. -/
def next (c : Cursor) : Cursor :=
  match c.following with
  | [] => c
  | t :: rest => if c.kind = .eof then c else ⟨t, rest, some c.current.span.stop⟩

/-- The current token does not belong here. -/
def unexpected (c : Cursor) : Diagnostic := ⟨.unexpectedToken c.current.value, c.position⟩

/-- The current token does not belong here, and why. -/
def unexpectedDetailed (c : Cursor) (message : String) : Diagnostic :=
  ⟨.unexpectedTokenDetailed c.current.value message, c.position⟩

/-- Enough for every reader: between two tokens readers nest less than eight deep. -/
def fuel (c : Cursor) : Nat := 8 * (c.following.length + 2)

end Cursor

/-- A reader of the grammar. -/
abbrev Parse (α : Type) := Effect Cursor α

namespace Parse

variable {α : Type}

def current : Parse Token := Effect.read Cursor.current

def kind : Parse TokenKind := Effect.read Cursor.kind

def position : Parse Position := Effect.read Cursor.position

def spanFrom (start : Position) : Parse Span := Effect.read (·.spanFrom start)

/-- Takes the current token. -/
def advance : Parse Token := Effect.step fun c => (c.current, c.next)

def unexpected : Parse α := fun c => .failed c.unexpected c

def unexpectedDetailed (message : String) : Parse α := fun c =>
  .failed (c.unexpectedDetailed message) c

/-- Takes a token of this kind. -/
def expect (kind : TokenKind) : Parse Token := fun c =>
  if c.kind = kind then .done c.current c.next else .failed c.unexpected c

/-- Takes a token of this kind, or says what it would have been. -/
def expectDetailed (kind : TokenKind) (message : String) : Parse Token := fun c =>
  if c.kind = kind then .done c.current c.next else .failed (c.unexpectedDetailed message) c

end Parse

end Primer
