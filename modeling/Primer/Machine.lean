import Primer.Effect
import Primer.Builtin
import Primer.Listing
import Primer.Scope
import Primer.Stmt

/-!
# The state of a running program

A machine holds the scopes, the store, what has been printed and reported, and what is pending: a
jump on its way to the construct that owns it, or the failure of a call on its way to the call.
-/

namespace Primer

/-- A pending jump. -/
inductive Signal where
  | breakLoop
  | breakSwitch
  | continueLoop
  | giveBack (value : Value)

/-- What a `break` can leave. -/
inductive Construct where
  | loop
  | switch
deriving DecidableEq, Repr

/-- The word for a jump that nothing took. -/
def Signal.word : Signal → String
  | breakLoop => "Break"
  | breakSwitch => "Break"
  | continueLoop => "Continue"
  | giveBack _ => "Return"

/-- Whether two jumps are the same, with the same value in every part. -/
def Signal.same (s : Store) : Signal → Signal → Bool
  | breakLoop, breakLoop => true
  | breakSwitch, breakSwitch => true
  | continueLoop, continueLoop => true
  | giveBack v, giveBack w => s.identical v w
  | _, _ => false

/-- The state of a running program. -/
structure Machine where
  scopes : Scopes Symbol := {}
  store : Store := {}
  listing : Listing := {}
  report : Report := {}
  functions : Frame Function := []
  signal : Option Signal := none
  failure : Option Diagnostic := none
  /-- The loops and switches of the running call, innermost first. -/
  constructs : List Construct := []
  /-- The number of calls that have not ended. -/
  depth : Nat := 0
  /-- The greatest number of calls that may run at once. -/
  limit : Nat
  output : Array String := #[]

/-- What a call sets aside of its caller. -/
structure Caller where
  detached : Detached Symbol
  constructs : List Construct

namespace Machine

/-- The calls that may run at once where nothing else is said. -/
def defaultLimit : Nat := 256

/-- A machine before the first statement. -/
def fresh (limit : Nat) : Machine := { limit }

def note (m : Machine) (d : Diagnostic) : Machine := { m with report := m.report.push d }

def print (m : Machine) (line : String) : Machine := { m with output := m.output.push line }

/-! ## Functions -/

/-- The machine that knows one function more, unless its name is taken. -/
def register? (m : Machine) (f : Function) : Option Machine :=
  if m.functions.has f.name then none
  else some { m with
    listing := (m.listing.record (Row.ofFunction f m.scopes.path)).2
    functions := m.functions.add f.name f }

def function? (m : Machine) (name : String) : Option Function := m.functions.find? name

/-! ## Scopes, constructs and calls -/

def enterScope (m : Machine) : Machine := { m with scopes := m.scopes.push }

def leaveScope (m : Machine) : Machine := { m with scopes := m.scopes.pop }

def enterLabelled (label : String) (m : Machine) : Machine :=
  { m with scopes := (m.scopes.pushLabel label).push }

def leaveLabelled (m : Machine) : Machine := { m with scopes := m.scopes.pop.popLabel }

def enterConstruct (c : Construct) (m : Machine) : Machine :=
  { m with constructs := c :: m.constructs }

def leaveConstruct (m : Machine) : Machine := { m with constructs := m.constructs.tail }

/-- Whether one call more may run. -/
def mayCall (m : Machine) : Bool := m.depth < m.limit

/-- Begins a call: only the globals stay visible, and no construct of the caller. -/
def enterCall (m : Machine) (name : String) : Caller × Machine :=
  let (detached, scopes) := m.scopes.detach
  (⟨detached, m.constructs⟩,
    enterLabelled (Label.ofFunction name)
      { m with scopes, constructs := [], depth := m.depth + 1 })

/-- Ends a call: the caller's scopes and constructs come back. -/
def leaveCall (m : Machine) (caller : Caller) : Machine :=
  let m := m.leaveLabelled
  { m with
    scopes := m.scopes.reattach caller.detached
    constructs := caller.constructs
    depth := m.depth - 1 }

def inCall (m : Machine) : Bool := 0 < m.depth

def loops (m : Machine) : Nat := m.constructs.count .loop

def switches (m : Machine) : Nat := m.constructs.count .switch

/-! ## Symbols -/

/-- The value a new symbol holds, and whether it is only the default of its type. -/
def initial (store : Store) (ty : Ty) : Option Value → Value × Bool × Store
  | some v => (v, false, store)
  | none => let (v, store) := store.default ty; (v, true, store)

/-- Adds a name to the innermost scope and lists it. -/
def introduce (m : Machine) (name : String) (ty : Ty) (category : Category) (p : Position)
    (value : Option Value) : Machine :=
  let declaration : Declaration := ⟨name, ty, category, p, m.scopes.path⟩
  let (v, holdsDefault, store) := initial m.store ty value
  let unlisted : Symbol := ⟨declaration, v, holdsDefault, none⟩
  let (row, listing) := m.listing.record (Row.ofSymbol unlisted)
  { m with scopes := m.scopes.add name { unlisted with row := some row }, listing, store }

/-- Declares a name in the innermost scope, which must not have it, and lists it. -/
def declare (m : Machine) (name : String) (ty : Ty) (category : Category) (p : Position)
    (value : Option Value) : Except Diagnostic Machine := do
  m.scopes.checkFree name p
  return m.introduce name ty category p value

def valueOf (m : Machine) (name : String) (p : Position) : Except Diagnostic Value :=
  (m.scopes.lookup name p).map Symbol.value

def typeOf (m : Machine) (name : String) (p : Position) : Except Diagnostic Ty :=
  (m.scopes.lookup name p).map (·.ty)

/-- A value as the symbol of a name takes it, and the row that lists the symbol. -/
def fit (m : Machine) (name : String) (v : Value) (p : Position) :
    Except Diagnostic (Value × Option Nat) :=
  match m.scopes.lookup name p with
  | .error d => .error d
  | .ok symbol =>
    match v.convert symbol.ty symbol.name with
    | .error f => .error ⟨f, p⟩
    | .ok w => .ok (w, symbol.row)

/-- Stores a value in the symbol of a name and in the row that lists it. -/
def replace (m : Machine) (name : String) (v : Value) (row : Option Nat) : Machine :=
  { m with
    scopes := m.scopes.change name fun s => { s with value := v, holdsDefault := false }
    listing := match row with
      | some i => m.listing.setValue i v
      | none => m.listing }

/-- Stores a value in a symbol, converted to its type, and in the row that lists it. -/
def assign (m : Machine) (name : String) (v : Value) (p : Position) :
    Except Diagnostic Machine := do
  let (w, row) ← m.fit name v p
  return m.replace name w row

/-! ## Jumps and failures -/

/-- Whether a jump or a failure is on its way. -/
def pending (m : Machine) : Bool := m.signal.isSome || m.failure.isSome

def isReturning (m : Machine) : Bool :=
  match m.signal with
  | some (.giveBack _) => true
  | _ => false

/-- Marks the running call as failed. -/
def fail (m : Machine) (d : Diagnostic) : Machine := { m with failure := some d }

/-- `break` leaves the innermost switch or loop. -/
def requestBreak (m : Machine) : Machine :=
  { m with signal := some (if m.constructs.head? = some .switch then .breakSwitch else .breakLoop) }

def requestContinue (m : Machine) : Machine := { m with signal := some .continueLoop }

def requestReturn (m : Machine) (v : Value) : Machine := { m with signal := some (.giveBack v) }

/-- Takes the pending jump if it is the expected one, and says whether it was. -/
def consume (m : Machine) (expected : Signal) : Bool × Machine :=
  match m.signal with
  | some s => if s.same m.store expected then (true, { m with signal := none }) else (false, m)
  | none => (false, m)

/-- Takes the value of a pending return. -/
def takeReturn (m : Machine) : Option Value × Machine :=
  match m.signal with
  | some (.giveBack v) => (some v, { m with signal := none })
  | _ => (none, m)

/-- Takes the pending jump, whatever it is. -/
def takeSignal (m : Machine) : Option Signal × Machine := (m.signal, { m with signal := none })

/-- Takes the failure of the running call. -/
def takeFailure (m : Machine) : Option Diagnostic × Machine :=
  (m.failure, { m with failure := none })

/-- Takes a `break` or `continue` of the innermost loop after one round, and says whether the loop
goes on. -/
def continueLooping (m : Machine) : Bool × Machine :=
  match m.consume .breakLoop with
  | (true, m) => (false, m)
  | (false, m) =>
    let (_, m) := m.consume .continueLoop
    (!m.pending, m)

/-- The complaint about a jump that nothing took. -/
def unconsumed (s : Signal) (p : Position) : Diagnostic := ⟨.unconsumedControlSignal s.word, p⟩

end Machine

end Primer
