import Mathlib
import Primer.Checker.Analysis
import Primer.Machine.Eval
import Primer.Proofs.SmallLetters

/-!
# Names in another spelling

A respelling writes every name of a program with its plain letters in another case, which leaves it
the same name. A diagnostic about a respelled program can differ only in what it says
(`Diagnostic.Matches`).
-/

namespace Primer

/-- A way to write names that changes the case of plain letters only. -/
structure Respelling where
  spell : String → String
  alike : ∀ s, Text.plainLower (spell s) = Text.plainLower s

namespace Respelling

instance : CoeFun Respelling fun _ => String → String := ⟨spell⟩

/-- Names as they are written. -/
def same : Respelling := ⟨id, fun _ => rfl⟩

/-- Names with their plain letters small. -/
def lower : Respelling := ⟨Text.plainLower, Text.plainLower_plainLower⟩

@[simp] theorem same_apply (s : String) : same s = s := rfl

@[simp] theorem lower_apply (s : String) : lower s = Text.plainLower s := rfl

@[simp] theorem fold_apply (f : Respelling) (s : String) : Text.fold (f s) = Text.fold s := by
  rw [← Text.fold_plainLower, f.alike, Text.fold_plainLower]

end Respelling

/-! ## Programs -/

mutual

/-- An expression with all names respelled. -/
def Expr.respell (f : Respelling) : Expr → Expr
  | .int span v => .int span v
  | .double span v => .double span v
  | .bool span v => .bool span v
  | .char span v => .char span v
  | .string span v => .string span v
  | .name span name => .name span (f name)
  | .arithmetic span op left right => .arithmetic span op (left.respell f) (right.respell f)
  | .negate span operand => .negate span (operand.respell f)
  | .relational span op left right => .relational span op (left.respell f) (right.respell f)
  | .logical span op left right => .logical span op (left.respell f) (right.respell f)
  | .not span operand => .not span (operand.respell f)
  | .cast span target operand => .cast span target (operand.respell f)
  | .group span inner => .group span (inner.respell f)
  | .call span name arguments => .call span (f name) (respellAll f arguments)
  | .method span receiver name arguments =>
    .method span (receiver.respell f) (f name) (respellAll f arguments)
  | .index span target index => .index span (target.respell f) (index.respell f)
  | .cell span target index column =>
    .cell span (target.respell f) (index.respell f) (column.respell f)
  | .vector span items => .vector span (respellAll f items)
  | .matrix span rows => .matrix span (respellAll f rows)
  | .newList span base => .newList span base

def respellAll (f : Respelling) : List Expr → List Expr
  | [] => []
  | e :: es => e.respell f :: respellAll f es

end

def Parameter.respell (f : Respelling) (q : Parameter) : Parameter := { q with name := f q.name }

mutual

/-- A statement with all names respelled. -/
def Stmt.respell (f : Respelling) : Stmt → Stmt
  | .declare span name ty value => .declare span (f name) ty (value.map (Expr.respell f))
  | .assign span name value => .assign span (f name) (value.respell f)
  | .assignIndex span target index column value =>
    .assignIndex span (target.respell f) (index.respell f) (column.map (Expr.respell f))
      (value.respell f)
  | .step span target up => .step span (target.respell f) up
  | .block b => .block (respellBlock f b)
  | .branch span test body otherwise =>
    .branch span (test.respell f) (respellBlock f body) (respellOptional f otherwise)
  | .switch span scrutinee cases fallback =>
    .switch span (scrutinee.respell f) (respellCases f cases) (respellDefault f fallback)
  | .whileLoop span test body => .whileLoop span (test.respell f) (respellBlock f body)
  | .doLoop span body test => .doLoop span (respellBlock f body) (test.respell f)
  | .forLoop span first test next body =>
    .forLoop span (respellOptional f first) (test.map (Expr.respell f)) (respellOptional f next)
      (respellBlock f body)
  | .breakOut span => .breakOut span
  | .continueOn span => .continueOn span
  | .print span value => .print span (value.respell f)
  | .function g => .function (respellFunction f g)
  | .giveBack span value => .giveBack span (value.map (Expr.respell f))
  | .start span name arguments => .start span (f name) (respellAll f arguments)
  | .expression span value => .expression span (value.respell f)

def respellStmts (f : Respelling) : List Stmt → List Stmt
  | [] => []
  | s :: ss => s.respell f :: respellStmts f ss

def respellBlock (f : Respelling) : BlockOf Stmt → BlockOf Stmt
  | ⟨body, span⟩ => ⟨respellStmts f body, span⟩

def respellOptional (f : Respelling) : Option Stmt → Option Stmt
  | none => none
  | some s => some (s.respell f)

def respellCases (f : Respelling) : List (CaseOf Stmt) → List (CaseOf Stmt)
  | [] => []
  | k :: ks => respellCase f k :: respellCases f ks

def respellCase (f : Respelling) : CaseOf Stmt → CaseOf Stmt
  | ⟨value, body, span⟩ => ⟨value.respell f, respellStmts f body, span⟩

def respellDefault (f : Respelling) : Option (List Stmt) → Option (List Stmt)
  | none => none
  | some body => some (respellStmts f body)

def respellFunction (f : Respelling) : FunctionOf Stmt → FunctionOf Stmt
  | ⟨name, parameters, returns, body, span⟩ =>
    ⟨f name, parameters.map (Parameter.respell f), returns, respellBlock f body, span⟩

end

/-- A program with all names respelled. -/
def Program.respell (f : Respelling) (p : Program) : Program := ⟨p.body.map (Stmt.respell f)⟩

section

variable (f : Respelling)

@[simp] theorem Expr.span_respell (e : Expr) : (e.respell f).span = e.span := by
  cases e <;> rfl

@[simp] theorem Expr.position_respell (e : Expr) : (e.respell f).position = e.position :=
  congrArg Span.start (e.span_respell f)

@[simp] theorem respellAll_eq (es : List Expr) : respellAll f es = es.map (Expr.respell f) := by
  induction es with
  | nil => rfl
  | cons e es ih => exact congrArg (e.respell f :: ·) ih

@[simp] theorem respellStmts_eq (ss : List Stmt) :
    respellStmts f ss = ss.map (Stmt.respell f) := by
  induction ss with
  | nil => rfl
  | cons s ss ih => exact congrArg (s.respell f :: ·) ih

@[simp] theorem respellOptional_eq (s : Option Stmt) :
    respellOptional f s = s.map (Stmt.respell f) := by
  cases s <;> rfl

@[simp] theorem respellCases_eq (ks : List (CaseOf Stmt)) :
    respellCases f ks = ks.map (respellCase f) := by
  induction ks with
  | nil => rfl
  | cons k ks ih => exact congrArg (respellCase f k :: ·) ih

@[simp] theorem respellDefault_eq (d : Option (List Stmt)) :
    respellDefault f d = d.map (List.map (Stmt.respell f)) := by
  cases d <;> simp [respellDefault]

@[simp] theorem respellBlock_body (b : Block) :
    (respellBlock f b).body = b.body.map (Stmt.respell f) := by
  cases b
  exact respellStmts_eq f _

@[simp] theorem respellBlock_span (b : Block) : (respellBlock f b).span = b.span := by
  cases b
  rfl

@[simp] theorem respellCase_value (k : Case) : (respellCase f k).value = k.value.respell f := by
  cases k
  rfl

@[simp] theorem respellCase_body (k : Case) :
    (respellCase f k).body = k.body.map (Stmt.respell f) := by
  cases k
  exact respellStmts_eq f _

section

variable (g : Function)

@[simp] theorem respellFunction_name : (respellFunction f g).name = f g.name := by
  cases g
  rfl

@[simp] theorem respellFunction_parameters :
    (respellFunction f g).parameters = g.parameters.map (Parameter.respell f) := by
  cases g
  rfl

@[simp] theorem respellFunction_returns : (respellFunction f g).returns = g.returns := by
  cases g
  rfl

@[simp] theorem respellFunction_body :
    (respellFunction f g).body = respellBlock f g.body := by
  cases g
  rfl

@[simp] theorem respellFunction_span : (respellFunction f g).span = g.span := by
  cases g
  rfl

@[simp] theorem respellFunction_isProcedure :
    (respellFunction f g).isProcedure = g.isProcedure := by
  cases g
  rfl

end

@[simp] theorem Stmt.span_respell (s : Stmt) : (s.respell f).span = s.span := by
  cases s with
  | block b => exact respellBlock_span f b
  | function g => exact respellFunction_span f g
  | _ => rfl

@[simp] theorem Stmt.position_respell (s : Stmt) : (s.respell f).position = s.position :=
  congrArg Span.start (s.span_respell f)

@[simp] theorem Stmt.function?_respell (s : Stmt) :
    (s.respell f).function? = s.function?.map (respellFunction f) := by
  cases s <;> rfl

end

mutual

theorem Expr.respell_same : ∀ e : Expr, e.respell .same = e
  | .int .. | .double .. | .bool .. | .char .. | .string .. | .name .. | .newList .. => rfl
  | .arithmetic _ _ left right | .relational _ _ left right | .logical _ _ left right
  | .index _ left right => by
    simp only [Expr.respell, left.respell_same, right.respell_same]
  | .negate _ e | .not _ e | .cast _ _ e | .group _ e => by simp only [Expr.respell, e.respell_same]
  | .call _ _ es | .vector _ es | .matrix _ es => by
    simp only [Expr.respell, respellAll_same es, Respelling.same_apply]
  | .method _ receiver _ es => by
    simp only [Expr.respell, receiver.respell_same, respellAll_same es, Respelling.same_apply]
  | .cell _ target index column => by
    simp only [Expr.respell, target.respell_same, index.respell_same, column.respell_same]

theorem respellAll_same (es : List Expr) : respellAll .same es = es := by
  cases es with
  | nil => rfl
  | cons e es => simp only [respellAll, e.respell_same, respellAll_same es]

end

theorem Expr.respell_same_eq : Expr.respell .same = id := funext Expr.respell_same

mutual

theorem Stmt.respell_same : ∀ s : Stmt, s.respell .same = s
  | .declare .. | .assign .. | .assignIndex .. | .step .. | .breakOut .. | .continueOn ..
  | .print .. | .giveBack .. | .start .. | .expression .. => by
    simp [Stmt.respell, Expr.respell_same_eq]
  | .block b => by simp only [Stmt.respell, respellBlock_same b]
  | .branch _ _ body otherwise => by
    simp only [Stmt.respell, Expr.respell_same, respellBlock_same body,
      respellOptional_same otherwise]
  | .switch _ _ cases fallback => by
    simp only [Stmt.respell, Expr.respell_same, respellCases_same cases,
      respellDefault_same fallback]
  | .whileLoop _ _ body | .doLoop _ body _ => by
    simp only [Stmt.respell, Expr.respell_same, respellBlock_same body]
  | .forLoop _ first _ next body => by
    simp only [Stmt.respell, Expr.respell_same_eq, Option.map_id_fun, id,
      respellOptional_same first, respellOptional_same next, respellBlock_same body]
  | .function g => by simp only [Stmt.respell, respellFunction_same g]

theorem respellStmts_same (ss : List Stmt) : respellStmts .same ss = ss := by
  cases ss with
  | nil => rfl
  | cons s ss => simp only [respellStmts, s.respell_same, respellStmts_same ss]

theorem respellBlock_same : ∀ b, respellBlock .same b = b
  | ⟨body, _⟩ => by simp only [respellBlock, respellStmts_same body]

theorem respellOptional_same (s : Option Stmt) : respellOptional .same s = s := by
  cases s with
  | none => rfl
  | some s => simp only [respellOptional, s.respell_same]

theorem respellCases_same (ks : List (CaseOf Stmt)) : respellCases .same ks = ks := by
  cases ks with
  | nil => rfl
  | cons k ks => simp only [respellCases, respellCase_same k, respellCases_same ks]

theorem respellCase_same : ∀ k, respellCase .same k = k
  | ⟨_, body, _⟩ => by simp only [respellCase, Expr.respell_same, respellStmts_same body]

theorem respellDefault_same (d : Option (List Stmt)) : respellDefault .same d = d := by
  cases d with
  | none => rfl
  | some body => simp only [respellDefault, respellStmts_same body]

theorem respellFunction_same : ∀ g, respellFunction .same g = g
  | ⟨_, parameters, _, body, _⟩ => by
    have hq : Parameter.respell .same = id := rfl
    simp only [respellFunction, respellBlock_same body, hq, List.map_id_fun, id,
      Respelling.same_apply]

end

/-! ## Diagnostics -/

/-- What becomes of a fault where names are respelled: it may say something else. -/
structure Fault.Matches (f : Respelling) (a b : Fault) : Prop where
  name : b.name = a.name
  family : b.family = a.family
  same : f = .same → b = a

/-- What becomes of a diagnostic where names are respelled. -/
structure Diagnostic.Matches (f : Respelling) (d d' : Diagnostic) : Prop where
  fault : d.fault.Matches f d'.fault
  position : d'.position = d.position

/-- Two results that are the same value, or both a failure. -/
inductive Concurs {ε α : Type} (M : ε → ε → Prop) : Except ε α → Except ε α → Prop
  | ok (a : α) : Concurs M (.ok a) (.ok a)
  | error {e e' : ε} (h : M e e') : Concurs M (.error e) (.error e')

section

variable {f : Respelling} {ε α β : Type} {M : ε → ε → Prop} {a b : Fault} {d d' : Diagnostic}

theorem Fault.Matches.refl (a : Fault) : a.Matches f a := ⟨rfl, rfl, fun _ => rfl⟩

theorem Fault.Matches.at (h : a.Matches f b) (p : Position) :
    (Diagnostic.mk a p).Matches f ⟨b, p⟩ := ⟨h, rfl⟩

theorem Diagnostic.Matches.refl (d : Diagnostic) : d.Matches f d := ⟨.refl _, rfl⟩

theorem Diagnostic.Matches.eq (h : d.Matches .same d') : d' = d := by
  obtain ⟨a, p⟩ := d
  obtain ⟨b, q⟩ := d'
  obtain ⟨h, rfl⟩ := h
  cases h.same rfl
  rfl

theorem Concurs.eq {r r' : Except Diagnostic α} (h : Concurs (Diagnostic.Matches .same) r r') :
    r' = r := by
  cases h with
  | ok => rfl
  | error h => rw [h.eq]

theorem Concurs.ok_eq {a b : α} (h : Concurs M (.ok a) (.ok b)) : b = a := by
  cases h
  rfl

theorem Concurs.refl {r : Except ε α} (hM : ∀ e, M e e) : Concurs M r r := by
  cases r
  · exact .error (hM _)
  · exact .ok _

theorem Concurs.bind {r r' : Except ε α} {g g' : α → Except ε β} (h : Concurs M r r')
    (hg : ∀ a, Concurs M (g a) (g' a)) : Concurs M (r >>= g) (r' >>= g') := by
  cases h with
  | ok a => exact hg a
  | error h => exact .error h

theorem Concurs.map {r r' : Except ε α} (h : Concurs M r r') (g : α → β) :
    Concurs M (g <$> r) (g <$> r') := by
  cases h with
  | ok a => exact .ok (g a)
  | error h => exact .error h

theorem concurs_checkArity (name : String) (expected received : Nat) :
    Concurs (Fault.Matches f) (checkArity name expected received)
      (checkArity (f name) expected received) := by
  simp only [checkArity]
  split
  · exact .error ⟨rfl, rfl, by rintro rfl; rfl⟩
  · split
    · exact .error ⟨rfl, rfl, by rintro rfl; rfl⟩
    · exact .ok ()

theorem concurs_convert {owner owner' : String} (h : f = .same → owner' = owner) (ty : Ty)
    (v : Value) : Concurs (Fault.Matches f) (v.convert ty owner) (v.convert ty owner') := by
  simp only [Value.convert]
  split
  · exact .ok _
  · exact .error ⟨rfl, rfl, fun hf => by rw [h hf]⟩

theorem concurs_write {owner owner' : String} (h : f = .same → owner' = owner) (s : Store)
    (container : Value) (row : Int64) (column : Option Int64) (v : Value) :
    Concurs (Fault.Matches f) (s.write container row column v owner)
      (s.write container row column v owner') :=
  (Concurs.refl .refl).bind fun slot => (concurs_convert h slot.ty v).bind fun _ =>
    Concurs.refl .refl

theorem concurs_callResult (g : Function) (v : Value) :
    Concurs (Fault.Matches f) (Eval.callResult g v) (Eval.callResult (respellFunction f g) v) := by
  simp only [Eval.callResult, respellFunction_isProcedure, respellFunction_returns,
    respellFunction_name]
  cases g.isProcedure
  · exact concurs_convert (fun hf => by rw [hf, Respelling.same_apply]) _ _
  · exact .ok _

theorem concurs_convertArguments (g : Function) : ∀ (i : Nat) (qs : List Parameter)
    (vs : List (Value × Position)), Concurs (Diagnostic.Matches f)
      (Eval.convertArguments g i qs vs)
      (Eval.convertArguments (respellFunction f g) i (qs.map (Parameter.respell f)) vs)
  | _, [], _ => .ok _
  | _, _ :: _, [] => .ok _
  | i, q :: qs, (v, p) :: vs => by
    simp only [Eval.convertArguments, List.map_cons, Parameter.respell, respellFunction_name]
    split
    · exact (concurs_convertArguments g (i + 1) qs vs).map _
    · exact .error ⟨⟨rfl, rfl, by rintro rfl; rfl⟩, rfl⟩

end

end Primer
