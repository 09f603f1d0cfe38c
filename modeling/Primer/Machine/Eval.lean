import Primer.Machine.Job
import Primer.Value.Operator

/-!
# Running expressions and statements

A statement that fails at top level is reported and the next one runs. Inside a call the failure
ends the call, and with it the statement the call stands in. Every step spends fuel.
-/

namespace Primer

namespace Eval

open Runs (exhausted look step attempt within aside)

variable {ρ : Type → Type} [Runs ρ] {α : Type}

/-- Fails with a diagnostic. -/
def fail (d : Diagnostic) : ρ α := look fun _ => .error d

/-- Looks at the machine. -/
def read (f : Machine → α) : ρ α := look fun m => .ok (f m)

/-- Changes the machine. -/
def update (f : Machine → Machine) : ρ Unit := step fun m => ((), f m)

/-- Gives a value or fails with a diagnostic. -/
def ofResult : Except Diagnostic α → ρ α
  | .ok a => pure a
  | .error d => fail d

/-- Gives a value or fails with a fault at a place. -/
def ofExcept (p : Position) : Except Fault α → ρ α
  | .ok a => pure a
  | .error f => fail ⟨f, p⟩

/-- Gives a value or fails with a fault at a place. -/
def ofOption (p : Position) (fault : Fault) : Option α → ρ α
  | some a => pure a
  | none => fail ⟨fault, p⟩

/-- Looks at the store, unless it refuses. -/
def ask (p : Position) (f : Store → Except Fault α) : ρ α := look fun m =>
  match f m.store with
  | .ok a => .ok a
  | .error fault => .error ⟨fault, p⟩

/-- Gives a value and changes the store. -/
def onStore (f : Store → α × Store) : ρ α := step fun m =>
  let (a, store) := f m.store
  (a, { m with store })

/-- Gives a value and edits the store, unless the edit is refused. -/
def edit (p : Position) (f : Store → Except Fault (α × Edit)) : ρ α := do
  let (a, e) ← ask p f
  update fun m => { m with store := e.apply m.store }
  return a

/-- Declares a name in the innermost scope, which must not have it. -/
def declare (name : String) (ty : Ty) (category : Category) (p : Position)
    (value : Option Value) : ρ Unit := do
  look (·.scopes.checkFree name p)
  update (·.introduce name ty category p value)

/-- Stores a value in the symbol of a name, converted to its type. -/
def assign (name : String) (v : Value) (p : Position) : ρ Unit := do
  let (w, row) ← look (·.fit name v p)
  update (·.replace name w row)

/-- Writes a value to the slot that one or two indices pick. -/
def write (container : Value) (row : Int64) (column : Option Int64) (v : Value) (owner : String)
    (p : Position) : ρ Unit :=
  edit p fun s => ((), ·) <$> s.write container row column v owner

/-- Runs between two changes of the machine. The second is made also after a failure. -/
def between (enter leave : Machine → Machine) (x : ρ α) : ρ α := do
  update enter
  let result ← attempt x
  update leave
  ofResult result

def inScope (x : ρ α) : ρ α := between Machine.enterScope Machine.leaveScope x

def inLabelled (label : String) (x : ρ α) : ρ α :=
  between (Machine.enterLabelled label) Machine.leaveLabelled x

def inConstruct (c : Construct) (x : ρ α) : ρ α :=
  between (Machine.enterConstruct c) Machine.leaveConstruct x

/-- Runs the body of a call, unless too many calls are running. -/
def inCall (name : String) (p : Position) (x : ρ α) : ρ α := do
  let caller ← look fun m =>
    if m.mayCall then .ok (m.enterCall name).1 else .error ⟨.callDepthExceeded m.limit, p⟩
  aside caller (between (fun m => (m.enterCall name).2) (·.leaveCall caller) x)

/-- Keeps a failure for the running call, or reports it where no call runs. -/
def guarded (x : ρ Unit) : ρ Unit := do
  match ← attempt x with
  | .ok _ => return ()
  | .error d =>
    if ← read Machine.inCall then within (.failCall d) (update (·.fail d))
    else update (·.note d)

/-- Declares a variable with its value, or with its default if the value fails. -/
def declareWith (name : String) (ty : Ty) (p : Position) (value : ρ Value) : ρ Unit := do
  let category := Category.ofTy ty
  match ← attempt value with
  | .ok v => declare name ty category p (some v)
  | .error d =>
    declare name ty category p none
    fail d

/-- The arguments as the parameters take them; each argument is complained about at its place. -/
def convertArguments (f : Function) :
    Nat → List Parameter → List (Value × Position) → Except Diagnostic (List Value)
  | i, q :: parameters, (v, p) :: arguments =>
    match v.coerce? q.ty with
    | some w => (w :: ·) <$> convertArguments f (i + 1) parameters arguments
    | none => .error ⟨.argumentTypeMatchError f.name (i + 1) q.ty.text v.ty.text, p⟩
  | _, _, _ => .ok []

/-- Declares the parameters of a call with their values. -/
def declareParameters : List Parameter → List Value → ρ Unit
  | q :: parameters, v :: values => do
    declare q.name q.ty .parameter q.position (some v)
    declareParameters parameters values
  | _, _ => return ()

/-- What the body of a call gives back once it has stopped: its failure, or the value returned. -/
def conclude (f : Function) : ρ Value := do
  match ← step Machine.takeFailure with
  | some d => fail d
  | none =>
    let returned ← step Machine.takeReturn
    match ← step Machine.takeSignal with
    | some signal => update (·.note (Machine.unconsumed signal f.span.start))
    | none => pure ()
    return returned.getD .void

/-- The value of a call: nothing for a procedure, or what was returned as the declared type. -/
def callResult (f : Function) (returned : Value) : Except Fault Value :=
  if f.isProcedure then .ok .void else returned.convert f.returns f.name

mutual

/-- The value of an expression. -/
def expr : Nat → Expr → ρ Value
  | 0, _ => exhausted
  | n + 1, e => within (.expr e) <|
    let p := e.position
    match e with
    | .int _ v => return .int v
    | .double _ v => return .double v
    | .bool _ v => return .bool v
    | .char _ v => return .char v
    | .string _ v => return .string v
    | .name _ name => look (·.valueOf name p)
    | .arithmetic _ op left right => do
      let a ← expr n left
      let b ← expr n right
      ask p (·.arithmetic op a b)
    | .negate _ operand => do
      let v ← expr n operand
      ofExcept p v.negate
    | .relational _ op left right => do
      let a ← expr n left
      let b ← expr n right
      return .bool (← ask p (·.relational op a b))
    | .logical _ op left right => do
      let v ← expr n left
      let a ← ofExcept p (v.truth op)
      match op, a with
      | .and, false => return .bool false
      | .or, true => return .bool true
      | .xor, a =>
        let w ← expr n right
        let b ← ofExcept p (w.truth op)
        return .bool (a != b)
      | op, _ =>
        let w ← expr n right
        return .bool (← ofExcept p (w.truth op))
    | .not _ operand => do
      let v ← expr n operand
      ofExcept p v.not
    | .cast _ target operand => do
      let v ← expr n operand
      ofExcept p (v.cast target)
    | .group _ inner => expr n inner
    | .call _ name arguments =>
      match Builtin.ofName? name with
      | some b => do
        let values ← exprs n arguments
        ask p (b.call · values)
      | none => call n name arguments p
    | .method _ receiver name arguments => do
      let r ← expr n receiver
      let values ← exprs n arguments
      match Method.ofName? name with
      | some m => edit p (m.call · r values)
      | none => fail ⟨.unknownMethod name r.ty.text, p⟩
    | .index _ target index => do
      let container ← expr n target
      let i ← indexOf n index
      ask p (·.element container i)
    | .cell _ target index column => do
      let container ← expr n target
      let i ← indexOf n index
      let row ← ask p (·.element container i)
      let j ← indexOf n column
      ask p (·.cell container row j)
    | .vector _ items => do
      let values ← exprs n items
      let base ← ofExcept p (Value.commonBase none values)
      onStore (·.vector base values)
    | .matrix _ rows => do
      let values ← exprs n rows
      let base ← ofExcept p (Value.commonRowBase none values)
      onStore (·.matrix base values)
    | .newList _ (some base) => do
      let q ← onStore (·.alloc base #[])
      return .list q
    | .newList _ none => fail ⟨.newListOutsideList "an untyped context", p⟩

/-- The values of expressions, from left to right. -/
def exprs : Nat → List Expr → ρ (List Value)
  | 0, _ => exhausted
  | _ + 1, [] => return []
  | n + 1, e :: rest => do
    let v ← expr n e
    let vs ← exprs n rest
    return v :: vs

/-- The value of an expression for a slot of a type, from which `new List()` takes its base. -/
def exprFor : Nat → Expr → Ty → ρ Value
  | 0, _, _ => exhausted
  | n + 1, e, target => within (.exprFor e target) <|
    match e, target with
    | .newList _ none, .list base => do
      let q ← onStore (·.alloc base #[])
      return .list q
    | .newList span none, other => fail ⟨.newListOutsideList other.text, span.start⟩
    | e, _ => expr n e

/-- The value of an index, which must be an int. -/
def indexOf : Nat → Expr → ρ Int64
  | 0, _ => exhausted
  | n + 1, e => do
    match ← expr n e with
    | .int i => return i
    | v => fail ⟨.indexNotInt v.ty.text, e.position⟩

/-- The value of an index, if there is one. -/
def indexOf? : Nat → Option Expr → ρ (Option Int64)
  | 0, _ => exhausted
  | _ + 1, none => return none
  | n + 1, some e => do return some (← indexOf n e)

/-- The value of a condition, which must be a bool. -/
def condition : Nat → Expr → String → ρ Bool
  | 0, _, _ => exhausted
  | n + 1, e, construct => do
    match ← expr n e with
    | .bool b => return b
    | v => fail ⟨.conditionNotBool construct v.ty.text, e.position⟩

/-- The value of the condition of a `for`, which goes on where there is none. -/
def goesOn : Nat → Option Expr → ρ Bool
  | 0, _ => exhausted
  | _ + 1, none => return true
  | n + 1, some e => condition n e "for"

/-- Calls a declared function. The arguments are evaluated in the caller's scopes. -/
def call : Nat → String → List Expr → Position → ρ Value
  | 0, _, _, _ => exhausted
  | n + 1, name, arguments, p => within (.call name arguments p) do
    let f? ← read (·.function? name)
    let f ← ofOption p (.undeclaredFunction name) f?
    ofExcept p (checkArity f.name f.parameters.length arguments.length)
    let values ← exprs n arguments
    let bound ← ofResult
      (convertArguments f 0 f.parameters (values.zip (arguments.map Expr.position)))
    let returned ← inCall f.name p do
      declareParameters f.parameters bound
      stmts n f.body.body
      conclude f
    ofExcept p (callResult f returned)

/-- Runs a statement and takes care of its failure. -/
def stmt : Nat → Stmt → ρ Unit
  | 0, _ => exhausted
  | n + 1, s => guarded (perform n s)

/-- Runs statements in order until a jump or a failure is on its way. -/
def stmts : Nat → List Stmt → ρ Unit
  | 0, _ => exhausted
  | _ + 1, [] => return ()
  | n + 1, s :: rest => do
    stmt n s
    if ← read Machine.pending then return () else stmts n rest

/-- Runs the statements of a block in a scope of their own. -/
def block : Nat → Block → ρ Unit
  | 0, _ => exhausted
  | n + 1, b => inScope (stmts n b.body)

/-- Runs a statement, which may fail. -/
def perform : Nat → Stmt → ρ Unit
  | 0, _ => exhausted
  | n + 1, s => within (.stmt s) <|
    let p := s.position
    match s with
    | .declare _ name ty none => declare name ty (.ofTy ty) p none
    | .declare _ name ty (some value) =>
      declareWith name ty p do
        let v ← exprFor n value ty
        ofExcept p (v.convert ty name)
    | .assign _ name value => do
      let target ← look (·.typeOf name p)
      let v ← exprFor n value target
      assign name v p
    | .assignIndex _ target index column value => do
      let container ← expr n target
      let i ← indexOf n index
      let j ← indexOf? n column
      let v ← expr n value
      write container i j v target.text p
    | .step _ (.name _ name) up => do
      let v ← look (·.valueOf name p)
      let w ← ofExcept p (v.step up)
      assign name w p
    | .step _ (.index span target index) up => do
      let container ← expr n target
      let i ← indexOf n index
      let v ← ask p (·.element container i)
      let w ← ofExcept p (v.step up)
      write container i none w (Expr.index span target index).text p
    | .step _ (.cell span target index column) up => do
      let container ← expr n target
      let i ← indexOf n index
      let j ← indexOf n column
      let row ← ask p (·.element container i)
      let v ← ask p (·.element row j)
      let w ← ofExcept p (v.step up)
      write container i (some j) w (Expr.cell span target index column).text p
    | .step _ target _ => fail ⟨.incDecNonNumeric target.text, p⟩
    | .block b => block n b
    | .branch _ test body otherwise => do
      if ← condition n test "if" then block n body
      else match otherwise with
        | some s => stmt n s
        | none => return ()
    | .switch _ scrutinee cases fallback => do
      let v ← expr n scrutinee
      inLabelled (Label.ofSwitch scrutinee)
        (inConstruct .switch (switch n v cases fallback false))
    | .whileLoop _ test body =>
      inLabelled (Label.ofWhile test) (inConstruct .loop (whileLoop n test body))
    | .doLoop _ body test =>
      inLabelled (Label.ofDo test) (inConstruct .loop (doLoop n body test))
    | .forLoop _ first test next body =>
      inLabelled (Label.ofFor test) do
        header n first
        inConstruct .loop (forLoop n test next body)
    | .breakOut _ => update Machine.requestBreak
    | .continueOn _ => update Machine.requestContinue
    | .print _ value => do
      let v ← expr n value
      update fun m => m.print (m.store.text v)
    | .function _ => return ()
    | .giveBack _ none => update (·.requestReturn .void)
    | .giveBack _ (some value) => do
      let v ← expr n value
      update (·.requestReturn v)
    | .start _ name arguments => do
      let _ ← call n name arguments p
    | .expression _ value => do
      let _ ← expr n value

/-- Runs a statement of the header of a `for`, if there is one. -/
def header : Nat → Option Stmt → ρ Unit
  | 0, _ => exhausted
  | _ + 1, none => return ()
  | n + 1, some s => perform n s

/-- Runs the cases of a switch from the first that matches on, then the default. -/
def switch : Nat → Value → List Case → Option (List Stmt) → Bool → ρ Unit
  | 0, _, _, _, _ => exhausted
  | _ + 1, _, [], none, _ => return ()
  | n + 1, _, [], some body, _ => do
    stmts n body
    let _ ← step (·.consume .breakSwitch)
  | n + 1, v, c :: rest, fallback, false => do
    let w ← expr n c.value
    if ← read (·.store.equal v w) then switch n v (c :: rest) fallback true
    else switch n v rest fallback false
  | n + 1, v, c :: rest, fallback, true => do
    stmts n c.body
    if ← step (·.consume .breakSwitch) then return ()
    else if ← read Machine.pending then return ()
    else switch n v rest fallback true

/-- The rounds of a `while`. -/
def whileLoop : Nat → Expr → Block → ρ Unit
  | 0, _, _ => exhausted
  | n + 1, test, body => do
    if ← condition n test "while" then
      block n body
      if ← step Machine.continueLooping then whileLoop n test body else return ()
    else return ()

/-- The rounds of a `do`. -/
def doLoop : Nat → Block → Expr → ρ Unit
  | 0, _, _ => exhausted
  | n + 1, body, test => do
    block n body
    if ← step Machine.continueLooping then
      if ← condition n test "do-while" then doLoop n body test else return ()
    else return ()

/-- The rounds of a `for`. -/
def forLoop : Nat → Option Expr → Option Stmt → Block → ρ Unit
  | 0, _, _, _ => exhausted
  | n + 1, test, next, body => do
    if ← goesOn n test then
      block n body
      if ← step Machine.continueLooping then
        header n next
        forLoop n test next body
      else return ()
    else return ()

end

end Eval

end Primer
