import Primer.Checker.Analysis
import Primer.Grammar.Statement
import Primer.Machine.Execution

/-!
# From a source text to what it does

A source is read, then checked, and runs only if neither finds a fault.
-/

namespace Primer

/-- What came of a source text. -/
structure Session where
  report : Report := {}
  /-- The names the check met. -/
  analysis : Listing := {}
  /-- The names the run met, with their values in the store. -/
  execution : Listing := {}
  store : Store := {}
  output : Array String := #[]
  /-- Whether the program ran. -/
  ran : Bool := false

namespace Session

/-- Checks a source text. -/
def check (source : String) : Session :=
  match Program.ofSource source with
  | .error d => { report := Report.empty.push d }
  | .ok p =>
    let analysis := p.analyze
    { report := analysis.report, analysis := analysis.listing }

/-- Checks a source text and, if it has no faults, runs it, unless the fuel does not last. -/
def run (fuel limit : Nat) (source : String) : Option Session :=
  match Program.ofSource source with
  | .error d => some { report := Report.empty.push d }
  | .ok p =>
    let analysis := p.analyze
    if analysis.report.isEmpty then
      (p.execute fuel limit).map fun m =>
        { report := m.report, analysis := analysis.listing, execution := m.listing,
          store := m.store, output := m.output, ran := true }
    else some { report := analysis.report, analysis := analysis.listing }

/-- The listing of the last pass. -/
def listing (s : Session) : Listing := if s.ran then s.execution else s.analysis

/-- All diagnostics as they are shown. -/
def rendered (s : Session) (file source : String) : String := s.report.render file source

end Session

end Primer
