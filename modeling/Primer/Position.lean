/-!
# Places in a source text

Lines and columns count from one, in characters; `0:0` stands for the whole program. A span runs
from its first character to the place just after its last. Lines and columns are unbounded numbers
where the program has words of 32 bits: sources of less than 2^32 characters are meant, in which no
place goes beyond a word.
-/

namespace Primer

/-- A line and a column, both counted from one. -/
structure Position where
  line : Nat
  column : Nat
deriving DecidableEq, Repr, Inhabited

namespace Position

/-- The place of what belongs to the whole program. -/
def whole : Position := ⟨0, 0⟩

/-- The first place of a text. -/
def start : Position := ⟨1, 1⟩

/-- The place after one character: a line feed opens the next line. -/
def next (p : Position) (c : Char) : Position :=
  if c = '\n' then ⟨p.line + 1, 1⟩ else ⟨p.line, p.column + 1⟩

/-- The place after a run of characters. -/
def after (p : Position) (cs : List Char) : Position :=
  cs.foldl next p

@[simp] theorem after_nil (p : Position) : p.after [] = p := rfl

theorem after_append (p : Position) (cs ds : List Char) :
    p.after (cs ++ ds) = (p.after cs).after ds := List.foldl_append

/-- A place as `line:column`. -/
def text (p : Position) : String :=
  toString p.line ++ ":" ++ toString p.column

end Position

/-- A stretch of the source, the end just after the last character. -/
structure Span where
  start : Position
  stop : Position
deriving DecidableEq, Repr, Inhabited

/-- The empty span at a place. -/
def Span.empty (p : Position) : Span := ⟨p, p⟩

end Primer
