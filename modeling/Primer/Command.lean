import Primer.Session

/-!
# The command line

A command names a file and what is wanted of it. It prints what the program prints, on request the
listing of symbols, and on the error stream the diagnostics. The exit code is 1 if there are any
and 2 if the file cannot be read.
-/

namespace Primer

/-- Why a file has no text. -/
inductive Unreadable where
  | missing
  | notText
deriving DecidableEq, Repr

def Unreadable.reason : Unreadable → String
  | missing => "No such file or directory (os error 2)"
  | notText => "stream did not contain valid UTF-8"

/-- What is wanted of a file. -/
structure Command where
  file : String
  /-- Stop after the check. -/
  analyzeOnly : Bool := false
  /-- Print the listing of the last pass. -/
  symbols : Bool := false
  /-- The calls that may run at once. -/
  limit : Nat := Machine.defaultLimit

/-- What a command prints, and its exit code. -/
structure Printed where
  out : String
  err : String
  exit : Nat

namespace Command

/-- The text of a file. -/
def decode (bytes : ByteArray) : Except Unreadable String :=
  match String.fromUTF8? bytes with
  | some text => .ok text
  | none => .error .notText

/-- The limit of calls: from the flag, else from the environment, else the default. -/
def chooseLimit (flag environment : Option Nat) : Nat :=
  flag.getD (environment.getD Machine.defaultLimit)

/-- Reads arguments into a command, given the file if it has been met already. -/
def readArguments (file : Option String) (c : Command) : List String → Option Command
  | [] => file.map fun file => { c with file }
  | "--analyze-only" :: rest => readArguments file { c with analyzeOnly := true } rest
  | "--symbols" :: rest => readArguments file { c with symbols := true } rest
  | "--verbose" :: rest => readArguments file c rest
  | "-v" :: rest => readArguments file c rest
  | "--max-call-depth" :: n :: rest =>
    match n.toNat? with
    | some limit => readArguments file { c with limit } rest
    | none => none
  | argument :: rest => if file.isSome then none else readArguments (some argument) c rest

/-- The command that arguments spell, with the limit the environment gives. -/
def ofArguments (environment : Option Nat) (arguments : List String) : Option Command :=
  readArguments none { file := "", limit := chooseLimit none environment } arguments

/-- Lines of output. -/
def unlines (lines : List String) : String := String.join (lines.map (· ++ "\n"))

/-- What a command prints for a session. -/
def display (c : Command) (source : String) (s : Session) : Printed where
  out := unlines (s.output.toList ++ if c.symbols then s.listing.lines s.store else [])
  err := s.rendered c.file source
  exit := if s.report.isEmpty then 0 else 1

/-- What a command prints for the text of its file, unless the fuel does not last. -/
def run (fuel : Nat) (c : Command) : Except Unreadable String → Option Printed
  | .error e => some ⟨"", "Failed to read " ++ c.file ++ ": " ++ e.reason ++ "\n", 2⟩
  | .ok source =>
    if c.analyzeOnly then some (c.display source (Session.check source))
    else (Session.run fuel c.limit source).map (c.display source)

end Command

end Primer
