/-!
# Lines and columns of text

A line ends at a line feed, and a carriage return right before it belongs to the ending. The text
after the last line feed is a line only if it is not empty.
-/

namespace Primer.Text

/-- A line read so far, in reverse, without the carriage return of its ending. -/
def dropReturn : List Char → List Char
  | '\r' :: line => line
  | line => line

/-- The lines of a text whose first line has been read, in reverse, up to here. -/
def linesFrom (line : List Char) : List Char → List (List Char)
  | [] => if line.isEmpty then [] else [line.reverse]
  | c :: rest =>
    if c = '\n' then (dropReturn line).reverse :: linesFrom [] rest
    else linesFrom (c :: line) rest

/-- The lines of a text. -/
def lines (cs : List Char) : List (List Char) :=
  linesFrom [] cs

/-- The line with a number counted from one. -/
def line? (source : String) : Nat → Option String
  | 0 => none
  | n + 1 => (lines source.toList)[n]?.map String.ofList

/-- A text after as many `fill` as bring it to a width. -/
def padStart (fill : Char) (width : Nat) (s : String) : String :=
  String.ofList (List.replicate (width - s.length) fill) ++ s

/-- A text before as many blanks as bring it to a width. -/
def padEnd (width : Nat) (s : String) : String :=
  s ++ String.ofList (List.replicate (width - s.length) ' ')

end Primer.Text
