import Primer.Fault
import Primer.Position
import Primer.Text.Blank
import Primer.Text.Line

/-!
# Diagnostics

A fault at a place, and the report that collects them in the order in which they were found. A
sorted report goes by family, line and column; what is equal in these keeps its order.
-/

namespace Primer

/-- A fault at a place of the source. -/
structure Diagnostic where
  fault : Fault
  position : Position
deriving DecidableEq, Repr

namespace Diagnostic

/-- A diagnostic on one line. -/
def text (d : Diagnostic) : String :=
  "[" ++ d.fault.family.name ++ "] " ++ d.position.text ++ ": " ++ d.fault.message

/-- Whether `a` is listed no later than `b`. -/
def before (a b : Diagnostic) : Bool :=
  let x := a.fault.family.rank
  let y := b.fault.family.rank
  x < y || (x == y && (a.position.line < b.position.line ||
    (a.position.line == b.position.line && a.position.column ≤ b.position.column)))

/-- The indentation of a shown line. -/
def isIndent (c : Char) : Bool := c == ' ' || c == '\t'

/-- A line of the source with a pointer under a column. -/
def snippet (position : Position) (line : String) : String :=
  let number := toString position.line
  let bar := Text.padStart ' ' (number.length + 2) "|"
  let shown := line.toList.dropWhile isIndent
  let removed := line.length - shown.length
  bar ++ "\n" ++
    number ++ " | " ++ String.ofList (Text.trimEnd shown) ++ "\n" ++
    bar ++ " " ++ Text.padStart '-' (max 1 (position.column - removed)) "^" ++ "\n"

/-- A diagnostic with its advice and, if its line exists, the line it points into. -/
def render (d : Diagnostic) (file source : String) : String :=
  let advice := match d.fault.advice? with
    | some a => " (" ++ a ++ ")"
    | none => ""
  "Error: " ++ d.fault.name ++ advice ++ "\n" ++
    "-> " ++ file ++ ":" ++ d.position.text ++ "\n" ++
    ((Text.line? source d.position.line).map (snippet d.position)).getD ""

end Diagnostic

/-- The diagnostics of a pass, in the order in which they were found. -/
structure Report where
  entries : Array Diagnostic := #[]
deriving Repr

namespace Report

def empty : Report := {}

def push (r : Report) (d : Diagnostic) : Report := ⟨r.entries.push d⟩

def append (r : Report) (ds : List Diagnostic) : Report := ⟨r.entries ++ ds.toArray⟩

def size (r : Report) : Nat := r.entries.size

def isEmpty (r : Report) : Bool := r.entries.isEmpty

def toList (r : Report) : List Diagnostic := r.entries.toList

/-- The diagnostics by family, line and column. -/
def sorted (r : Report) : List Diagnostic := r.toList.mergeSort Diagnostic.before

/-- How many diagnostics have a fault of this name. -/
def countNamed (r : Report) (name : String) : Nat :=
  r.toList.countP (·.fault.name == name)

/-- All diagnostics as they are shown, sorted. -/
def render (r : Report) (file source : String) : String :=
  String.join (r.sorted.map (·.render file source))

end Report

end Primer
