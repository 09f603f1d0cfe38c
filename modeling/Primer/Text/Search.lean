/-!
# Text inside text

What follows a given beginning, what stands before a given end, and where a text first occurs in
another, counted in characters.
-/

namespace Primer.Text

/-- What follows `head` in a text that begins with it. -/
def after? (head cs : List Char) : Option (List Char) :=
  if head.isPrefixOf cs then some (cs.drop head.length) else none

/-- What stands before `tail` in a text that ends with it. -/
def before? (tail cs : List Char) : Option (List Char) :=
  if tail.isSuffixOf cs then some (cs.take (cs.length - tail.length)) else none

/-- The least index from which on the text begins with `needle`. -/
def find? (needle : List Char) : List Char → Option Nat
  | [] => if needle.isEmpty then some 0 else none
  | c :: rest =>
    if needle.isPrefixOf (c :: rest) then some 0 else (find? needle rest).map (· + 1)

end Primer.Text
