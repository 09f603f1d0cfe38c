import Primer.Command

/-!
# The program

Reads the file a command names, runs the command and prints what it gives.
-/

namespace Primer

/-- More steps than a program can take in a lifetime. -/
def plenty : Nat := 1000000000000000000

/-- The text of a file. -/
def readText (file : String) : IO (Except Unreadable String) := do
  try
    return Command.decode (← IO.FS.readBinFile file)
  catch _ => return .error .missing

end Primer

/-- Runs the command that the arguments spell. -/
def main (arguments : List String) : IO UInt32 := do
  let environment ← IO.getEnv "INTERPRETER_MAX_CALL_DEPTH"
  match Primer.Command.ofArguments (environment.bind String.toNat?) arguments with
  | none =>
    IO.eprintln "usage: [--analyze-only] [--symbols] [--max-call-depth N] [-v] FILE"
    return 2
  | some command =>
    match command.run Primer.plenty (← Primer.readText command.file) with
    | none => return 3
    | some printed =>
      IO.print printed.out
      IO.eprint printed.err
      return UInt32.ofNat printed.exit
