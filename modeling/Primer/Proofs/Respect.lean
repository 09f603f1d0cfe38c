import Primer.Proofs.History
import Primer.Proofs.Isolation
import Primer.Proofs.Respelling

/-!
# What runs respect

The evaluator is one text over a few operations on machines. A relation between computations that
respects these operations holds between every part of the evaluator and the same part on the
program respelled (`Respected.related`), with the same fuel or, if running out of fuel is related to
everything, with more.
-/

namespace Primer

open Eval (fail read update ofResult ask onStore edit declare assign write between inScope
  inLabelled inConstruct inCall guarded declareWith declareParameters conclude)

/-! ## Steps that leave the names alone -/

/-- The part of a machine that the steps between two declarations look at and change, and whether
the running call has failed. -/
structure Core where
  store : Store
  signal : Option Signal
  constructs : List Construct
  output : Array String
  failed : Bool

namespace Machine

def core (m : Machine) : Core := ⟨m.store, m.signal, m.constructs, m.output, m.failure.isSome⟩

/-- The machine with another core, but with its own failure. -/
def withCore (m : Machine) (c : Core) : Machine :=
  { m with store := c.store, signal := c.signal, constructs := c.constructs, output := c.output }

/-- A step looks only at the core of the machine and changes nothing else. -/
structure Local {α : Type} (g : Machine → α × Machine) : Prop where
  frame : ∀ m, (g m).2 = m.withCore (g m).2.core
  value : ∀ {m m'}, m.core = m'.core → (g m).1 = (g m').1
  core : ∀ {m m'}, m.core = m'.core → (g m).2.core = (g m').2.core

section Local

variable {α β : Type} {m m' : Machine}

theorem core_eq_iff : m.core = m'.core ↔ m.store = m'.store ∧ m.signal = m'.signal ∧
    m.constructs = m'.constructs ∧ m.output = m'.output ∧
    m.failure.isSome = m'.failure.isSome := by
  simp [core]

/-- A step that is given by what it does to the core. -/
theorem local_of (g : Core → α × Core) :
    Local fun m => ((g m.core).1, m.withCore (g m.core).2) where
  frame _ := rfl
  value h := by rw [h]
  core {m m'} h := by
    have hf : m.failure.isSome = m'.failure.isSome := congrArg Core.failed h
    rw [h]
    simp only [Machine.core, withCore, hf]

theorem local_read {g : Machine → α} (hg : ∀ {m m'}, m.core = m'.core → g m = g m') :
    Local fun m => (g m, m) where
  frame _ := rfl
  value h := hg h
  core h := h

theorem Local.bind {g : Machine → α × Machine} {k : α → Machine → β × Machine} (hg : Local g)
    (hk : ∀ a, Local (k a)) : Local fun m => k (g m).1 (g m).2 where
  frame m := by
    have h := (hk (g m).1).frame (g m).2
    generalize (k (g m).1 (g m).2).2 = t at h ⊢
    rw [h, hg.frame m]
    rfl
  value {m m'} h := by
    rw [hg.value h]
    exact (hk _).value (hg.core h)
  core {m m'} h := by
    rw [hg.value h]
    exact (hk _).core (hg.core h)

theorem local_onStore (g : Store → α × Store) :
    Local fun m => ((g m.store).1, { m with store := (g m.store).2 }) :=
  local_of fun c => ((g c.store).1, { c with store := (g c.store).2 })

theorem local_edit (e : Edit) : Local fun m => ((), { m with store := e.apply m.store }) :=
  local_onStore fun s => ((), e.apply s)

theorem local_print (v : Value) : Local fun m => ((), m.print (m.store.text v)) :=
  local_of fun c => ((), { c with output := c.output.push (c.store.text v) })

theorem local_enterConstruct (k : Construct) : Local fun m => ((), m.enterConstruct k) :=
  local_of fun c => ((), { c with constructs := k :: c.constructs })

theorem local_leaveConstruct : Local fun m => ((), m.leaveConstruct) :=
  local_of fun c => ((), { c with constructs := c.constructs.tail })

theorem local_requestBreak : Local fun m => ((), m.requestBreak) :=
  local_of fun c => ((), { c with
    signal := some (if c.constructs.head? = some .switch then .breakSwitch else .breakLoop) })

theorem local_requestContinue : Local fun m => ((), m.requestContinue) :=
  local_of fun c => ((), { c with signal := some .continueLoop })

theorem local_requestReturn (v : Value) : Local fun m => ((), m.requestReturn v) :=
  local_of fun c => ((), { c with signal := some (.giveBack v) })

theorem local_takeSignal : Local takeSignal :=
  local_of fun c => (c.signal, { c with signal := none })

theorem pending_of_core (h : m.core = m'.core) : m.pending = m'.pending := by
  obtain ⟨-, hg, -, -, hf⟩ := core_eq_iff.1 h
  simp only [pending, hg, hf]

theorem consume_eq (m : Machine) (expected : Signal) : m.consume expected =
    let taken := m.signal.any (·.same m.store expected)
    (taken, { m with signal := if taken then none else m.signal }) := by
  obtain ⟨_, _, _, _, _, g, _, _, _, _, _⟩ := m
  rcases g with _ | g
  · rfl
  · simp only [consume, Option.any_some]
    split <;> simp_all

theorem local_consume (expected : Signal) : Local (·.consume expected) := by
  simp only [consume_eq]
  exact local_of fun c =>
    let taken := c.signal.any (·.same c.store expected)
    (taken, { c with signal := if taken then none else c.signal })

theorem local_continueLooping : Local continueLooping := by
  let settle : Bool → Machine → Bool × Machine := fun _ m => (!m.pending, m)
  let next : Bool → Machine → Bool × Machine
    | true, m => (false, m)
    | false, m => settle (m.consume .continueLoop).1 (m.consume .continueLoop).2
  have hsettle : ∀ b, Local (settle b) := fun _ =>
    local_read fun h => by rw [pending_of_core h]
  have hnext : ∀ b, Local (next b)
    | true => local_read fun _ => rfl
    | false => (local_consume .continueLoop).bind hsettle
  refine cast (congrArg Local (funext fun m => ?_)) ((local_consume .breakLoop).bind hnext)
  rw [continueLooping]
  rcases m.consume .breakLoop with ⟨_ | _, _⟩ <;> rfl

end Local

end Machine

/-! ## How operations end -/

namespace Eval

variable {α β : Type}

theorem step_bind (g : Machine → α × Machine) (k : α → Eval β) (m : Machine) :
    (Runs.step g >>= k) m = k (g m).1 (g m).2 := rfl

@[simp] theorem within_eq (j : Job) (x : Eval j.Result) : Runs.within j x = x := rfl

theorem between_apply (enter leave : Machine → Machine) (x : Eval α) (m : Machine) :
    between enter leave x m = (x (enter m)).onState leave := by
  change Effect.bind _ _ _ = _
  simp only [Effect.bind, Runs.attempt, Effect.attempt]
  rcases x (enter m) with _ | _ | _ <;> rfl

theorem guarded_apply (x : Eval Unit) (m : Machine) : guarded x m = match x m with
    | .done _ t => .done () t
    | .failed d t => .done () (if t.inCall then t.fail d else t.note d)
    | .exhausted => .exhausted := by
  change Effect.bind _ _ _ = _
  simp only [Effect.bind, Runs.attempt, Effect.attempt]
  rcases x m with _ | ⟨d, t⟩ | _
  · rfl
  · change Effect.bind _ _ _ = _
    simp only [Effect.bind, read, Runs.look]
    cases t.inCall <;> rfl
  · rfl

/-- A statement keeps its failure to itself. -/
theorem stmt_ne_failed (n : Nat) (s : Stmt) (m t : Machine) (d : Diagnostic) :
    (stmt n s : Eval Unit) m ≠ .failed d t := by
  cases n with
  | zero => rintro ⟨⟩
  | succ n =>
    rw [stmt, guarded_apply]
    split <;> rintro ⟨⟩

theorem stmts_ne_failed : ∀ (n : Nat) (ss : List Stmt) (m t : Machine) (d : Diagnostic),
    (stmts n ss : Eval Unit) m ≠ .failed d t
  | 0, _, _, _, _ => by rintro ⟨⟩
  | _ + 1, [], _, _, _ => by rintro ⟨⟩
  | n + 1, s :: ss, m, t, d => by
    rw [stmts, Effect.bind_apply]
    cases hr : (stmt n s : Eval Unit) m with
    | done _ u =>
      change Effect.bind _ _ _ ≠ _
      simp only [Effect.bind, read, Runs.look]
      cases u.pending
      · exact stmts_ne_failed n ss u t d
      · rintro ⟨⟩
    | failed => exact absurd hr (stmt_ne_failed n s _ _ _)
    | exhausted => rintro ⟨⟩

theorem declareWith_apply (name : String) (ty : Ty) (p : Position) (x : Eval Value)
    (m : Machine) : declareWith name ty p x m = match x m with
    | .done v t => (declare name ty (.ofTy ty) p (some v) : Eval Unit) t
    | .failed d t => (declare name ty (.ofTy ty) p none >>= fun _ => fail d : Eval Unit) t
    | .exhausted => .exhausted := by
  change Effect.bind _ _ _ = _
  simp only [Effect.bind, Runs.attempt, Effect.attempt]
  rcases x m with _ | _ | _ <;> rfl

/-- The end of a call without a failure: the value that was returned, and the complaint about any
other jump. -/
def concluded (g : Function) (m : Machine) : Value × Machine :=
  let settled := { m with failure := none, signal := none }
  match m.signal with
  | some (.giveBack v) => (v, settled)
  | some jump => (.void, settled.note (Machine.unconsumed jump g.span.start))
  | none => (.void, settled)

theorem conclude_apply (g : Function) (m : Machine) : (conclude g : Eval Value) m =
    match m.failure with
    | some d => .failed d { m with failure := none }
    | none => .done (concluded g m).1 (concluded g m).2 := by
  obtain ⟨_, _, _, _, _, signal, failure, _, _, _, _⟩ := m
  unfold conclude
  rw [step_bind]
  simp only [Machine.takeFailure]
  rcases failure with _ | d
  · dsimp only
    rw [step_bind, step_bind]
    rcases signal with _ | _ | _ | _ | _ <;> rfl
  · rfl

theorem topLevel_function {ρ : Type → Type} [Runs ρ] {s : Stmt} {g : Function}
    (hs : s.function? = some g) (n : Nat) (ss : List Stmt) :
    (topLevel (n + 1) (s :: ss) : ρ Unit) = topLevel n ss := by
  cases s <;> first | rfl | cases hs

theorem topLevel_cons {ρ : Type → Type} [Runs ρ] {s : Stmt} (hs : s.function? = none) (n : Nat)
    (ss : List Stmt) : (topLevel (n + 1) (s :: ss) : ρ Unit) = (do
      stmt n s
      match ← Runs.step Machine.takeSignal with
      | some jump => update (·.note (Machine.unconsumed jump s.position))
      | none => topLevel n ss) := by
  cases s <;> first | rfl | cases hs

end Eval

theorem Watched.run_inCall {α : Type} (callers : List Caller) (name : String) (p : Position)
    (x : Watched α) (m : Machine) : run callers (inCall name p x) m =
      if m.mayCall then (run ((m.enterCall name).1 :: callers) x (m.enterCall name).2).onState
        (·.leaveCall (m.enterCall name).1)
      else .failed ⟨.callDepthExceeded m.limit, p⟩ m := by
  rw [inCall, run_bind, Effect.bind_apply, run_look]
  simp only [Runs.look]
  cases m.mayCall
  · rfl
  · simp only [↓reduceIte, run_aside, run_between]
    exact Eval.between_apply ..

/-! ## What is noted on the way -/

namespace Watched

section Events

variable {α β : Type} {callers : List Caller} {m t : Machine} {x : Watched α} {k : α → Watched β}
  {e : Event}

theorem events_bind (he : e ∈ (x callers m).events) : e ∈ ((x >>= k) callers m).events := by
  simp only [Bind.bind]
  split
  · exact List.mem_append_left _ he
  · exact he
  · exact he

theorem run_done {a : α} (h : run callers x m = .done a t) :
    (x callers m).result = some (.ok a) ∧ (x callers m).last = t := by
  simp only [run] at h
  split at h <;> cases h
  exact ⟨‹_›, rfl⟩

theorem run_failed {d : Diagnostic} (h : run callers x m = .failed d t) :
    (x callers m).result = some (.error d) ∧ (x callers m).last = t := by
  simp only [run] at h
  split at h <;> cases h
  exact ⟨‹_›, rfl⟩

theorem events_bind_next {a : α} (h : run callers x m = .done a t)
    (he : e ∈ (k a callers t).events) : e ∈ ((x >>= k) callers m).events := by
  obtain ⟨hr, rfl⟩ := run_done h
  simp only [Bind.bind, hr]
  exact List.mem_append_right _ he

theorem events_between {enter leave : Machine → Machine}
    (he : e ∈ (x callers (enter m)).events) : e ∈ (between enter leave x callers m).events :=
  events_bind_next (a := ()) (t := enter m) rfl (events_bind (x := Runs.attempt x) he)

theorem events_inCall {name : String} {p : Position} (hm : m.mayCall = true)
    (he : e ∈ (x ((m.enterCall name).1 :: callers) (m.enterCall name).2).events) :
    e ∈ (inCall name p x callers m).events := by
  have hlook : run callers (Runs.look fun m =>
      if m.mayCall then .ok (m.enterCall name).1
      else .error ⟨.callDepthExceeded m.limit, p⟩) m = .done (m.enterCall name).1 m := by
    rw [run_look]
    simp only [Runs.look, if_pos hm]
  exact events_bind_next hlook (events_between he)

theorem events_within {j : Job} {x : Watched j.Result} (he : e ∈ (x callers m).events) :
    e ∈ (Runs.within j x callers m).events :=
  List.mem_cons_of_mem _ (List.mem_append_left _ he)

/-- A job that fails is noted. -/
theorem fails_within {j : Job} {x : Watched j.Result} {d : Diagnostic}
    (h : run callers x m = .failed d t) :
    .fails j d t ∈ (Runs.within j x callers m).events := by
  obtain ⟨hr, rfl⟩ := run_failed h
  refine List.mem_cons_of_mem _ (List.mem_append_right _ ?_)
  simp only [closing, hr, List.mem_singleton]

end Events

end Watched

/-! ## Relations between computations -/

theorem Watched.pure_bind {α β : Type} (a : α) (k : α → Watched β) : pure a >>= k = k a := rfl

/-- A relation between computations on a program and computations on the program respelled that
every operation of the evaluator respects. With `slack` everything is related to running out of
fuel. -/
structure Respected (f : Respelling) (slack : Prop) (R : ∀ α, Watched α → Eval α → Prop) :
    Prop where
  pure {α} (a : α) : R α (pure a) (pure a)
  bind {α β x y} {k : α → Watched β} {k' : α → Eval β} (hx : R α x y)
    (hk : ∀ a, R β (k a) (k' a)) : R β (x >>= k) (y >>= k')
  exhausted {α} {y : Eval α} (hy : slack ∨ y = Runs.exhausted) : R α Runs.exhausted y
  within {j x y} (h : R j.Result x y) : R j.Result (Runs.within j x) y
  look {α} {g g' : Machine → Except Diagnostic α}
    (h : ∀ m m', m.core = m'.core → Concurs (Diagnostic.Matches f) (g m) (g' m')) :
    R α (Runs.look g) (Runs.look g')
  step {α} {g : Machine → α × Machine} (h : Machine.Local g) : R α (Runs.step g) (Runs.step g)
  valueOf (name p) : R Value (Runs.look (·.valueOf name p)) (Runs.look (·.valueOf (f name) p))
  typeOf (name p) : R Ty (Runs.look (·.typeOf name p)) (Runs.look (·.typeOf (f name) p))
  function {α name} {k : Option Function → Watched α} {k' : Option Function → Eval α}
    (hsome : ∀ g, R α (k (some g)) (k' (some (respellFunction f g))))
    (hnone : R α (k none) (k' none)) :
    R α (read (·.function? name) >>= k) (read (·.function? (f name)) >>= k')
  declare (name ty category p value) :
    R Unit (declare name ty category p value) (declare (f name) ty category p value)
  declareWith {n e y} (name ty p) (h : R Value (Eval.exprFor n e ty) y) :
    R Unit (declareWith name ty p (Eval.exprFor n e ty >>= fun v =>
        Eval.ofExcept p (v.convert ty name)))
      (declareWith (f name) ty p (y >>= fun v => Eval.ofExcept p (v.convert ty (f name))))
  assign (name v p) : R Unit (assign name v p) (assign (f name) v p)
  inScope {x y} (h : R Unit x y) : R Unit (inScope x) (inScope y)
  inLabelled {x y label label'} (hlabel : f = .same → label' = label) (h : R Unit x y) :
    R Unit (inLabelled label x) (inLabelled label' y)
  inConstruct {x y} (c) (h : R Unit x y) : R Unit (inConstruct c x) (inConstruct c y)
  inCall {x y} (name p) (h : R Value x y) : R Value (inCall name p x) (inCall (f name) p y)
  conclude (g) : R Value (conclude g) (conclude (respellFunction f g))
  guarded {n s y} (h : R Unit (Eval.perform n s) y) :
    R Unit (guarded (Eval.perform n s)) (guarded y)
  note {d d'} (h : d.Matches f d') : R Unit (update (·.note d)) (update (·.note d'))

namespace Respected

variable {f : Respelling} {slack : Prop} {R : ∀ α, Watched α → Eval α → Prop} {α β : Type}

section Rules

variable (h : Respected f slack R)
include h

theorem fail {d d' : Diagnostic} (hd : d.Matches f d') : R α (fail d) (fail d') :=
  h.look fun _ _ _ => .error hd

theorem read {g : Machine → α} (hg : ∀ {m m'}, m.core = m'.core → g m = g m') :
    R α (read g) (read g) :=
  h.look fun _ _ hm => hg hm ▸ .ok _

theorem update {g : Machine → Machine} (hg : Machine.Local fun m => ((), g m)) :
    R Unit (update g) (update g) := h.step hg

theorem ofResult {r r' : Except Diagnostic α} (hr : Concurs (Diagnostic.Matches f) r r') :
    R α (ofResult r) (ofResult r') := by
  cases hr with
  | ok a => exact h.pure a
  | error hd => exact h.fail hd

theorem ofExcept {r r' : Except Fault α} (p : Position) (hr : Concurs (Fault.Matches f) r r') :
    R α (Eval.ofExcept p r) (Eval.ofExcept p r') := by
  cases hr with
  | ok a => exact h.pure a
  | error hd => exact h.fail (hd.at p)

theorem judge {r : Except Fault α} (p : Position) :
    R α (Eval.ofExcept p r) (Eval.ofExcept p r) := h.ofExcept p (.refl .refl)

theorem asks {g g' : Store → Except Fault α} (p : Position)
    (hg : ∀ s, Concurs (Fault.Matches f) (g s) (g' s)) : R α (ask p g) (ask p g') := by
  refine h.look fun m m' hm => ?_
  have hr := hg m'.store
  rw [(Machine.core_eq_iff.1 hm).1]
  generalize g m'.store = r, g' m'.store = r' at hr ⊢
  cases hr with
  | ok a => exact .ok a
  | error hd => exact .error (hd.at p)

theorem ask {g : Store → Except Fault α} (p : Position) : R α (ask p g) (ask p g) :=
  h.asks p fun _ => .refl .refl

theorem onStore (g : Store → α × Store) : R α (onStore g) (onStore g) :=
  h.step (Machine.local_onStore g)

theorem edits {g g' : Store → Except Fault (α × Edit)} (p : Position)
    (hg : ∀ s, Concurs (Fault.Matches f) (g s) (g' s)) : R α (edit p g) (edit p g') :=
  h.bind (h.asks p hg) fun ⟨a, e⟩ => h.bind (h.step (Machine.local_edit e)) fun _ => h.pure a

theorem write (container : Value) (row : Int64) (column : Option Int64) (v : Value)
    {owner owner' : String} (howner : f = .same → owner' = owner) (p : Position) :
    R Unit (write container row column v owner p) (write container row column v owner' p) :=
  h.edits p fun s => (concurs_write howner s container row column v).map _

theorem declareParameters : ∀ (qs : List Parameter) (vs : List Value),
    R Unit (declareParameters qs vs) (declareParameters (qs.map (Parameter.respell f)) vs)
  | [], _ => h.pure ()
  | _ :: _, [] => h.pure ()
  | q :: qs, _ :: vs => h.bind (h.declare q.name q.ty .parameter q.position _) fun _ =>
    declareParameters qs vs

end Rules

end Respected

@[simp] theorem Builtin.ofName?_respell (f : Respelling) (name : String) :
    Builtin.ofName? (f name) = Builtin.ofName? name := by
  simp only [ofName?, f.fold_apply]

@[simp] theorem Method.ofName?_respell (f : Respelling) (name : String) :
    Method.ofName? (f name) = Method.ofName? name := by
  simp only [ofName?, f.fold_apply]

/-- Every part of the evaluator, and the same part on what is respelled. -/
structure Related (f : Respelling) (R : ∀ α, Watched α → Eval α → Prop) (n n' : Nat) : Prop where
  expr e : R _ (Eval.expr n e) (Eval.expr n' (e.respell f))
  exprs es : R _ (Eval.exprs n es) (Eval.exprs n' (es.map (Expr.respell f)))
  exprFor e t : R _ (Eval.exprFor n e t) (Eval.exprFor n' (e.respell f) t)
  indexOf e : R _ (Eval.indexOf n e) (Eval.indexOf n' (e.respell f))
  indexOf? e : R _ (Eval.indexOf? n e) (Eval.indexOf? n' (e.map (Expr.respell f)))
  condition e c : R _ (Eval.condition n e c) (Eval.condition n' (e.respell f) c)
  goesOn e : R _ (Eval.goesOn n e) (Eval.goesOn n' (e.map (Expr.respell f)))
  call g es p : R _ (Eval.call n g es p) (Eval.call n' (f g) (es.map (Expr.respell f)) p)
  stmt s : R _ (Eval.stmt n s) (Eval.stmt n' (s.respell f))
  stmts ss : R _ (Eval.stmts n ss) (Eval.stmts n' (ss.map (Stmt.respell f)))
  block b : R _ (Eval.block n b) (Eval.block n' (respellBlock f b))
  perform s : R _ (Eval.perform n s) (Eval.perform n' (s.respell f))
  header s : R _ (Eval.header n s) (Eval.header n' (s.map (Stmt.respell f)))
  switch v ks d b : R _ (Eval.switch n v ks d b)
    (Eval.switch n' v (ks.map (respellCase f)) (d.map (List.map (Stmt.respell f))) b)
  whileLoop e b : R _ (Eval.whileLoop n e b) (Eval.whileLoop n' (e.respell f) (respellBlock f b))
  doLoop b e : R _ (Eval.doLoop n b e) (Eval.doLoop n' (respellBlock f b) (e.respell f))
  forLoop e s b : R _ (Eval.forLoop n e s b)
    (Eval.forLoop n' (e.map (Expr.respell f)) (s.map (Stmt.respell f)) (respellBlock f b))

namespace Related

variable {f : Respelling} {slack : Prop} {R : ∀ α, Watched α → Eval α → Prop} {n n' : Nat}

section Step

variable (h : Respected f slack R) (ih : Related f R n n')
include h ih

theorem expr_succ (e : Expr) : R _ (Eval.expr (n + 1) e) (Eval.expr (n' + 1) (e.respell f)) := by
  simp only [Eval.expr]
  refine h.within (j := .expr e) ?_
  rw [Eval.within_eq]
  cases e with
  | int | double | bool | char | string => exact h.pure _
  | name _ name => exact h.valueOf name _
  | arithmetic _ _ left right =>
    exact h.bind (ih.expr left) fun _ => h.bind (ih.expr right) fun _ => h.ask _
  | negate _ operand | not _ operand | cast _ _ operand =>
    exact h.bind (ih.expr operand) fun _ => h.judge _
  | relational _ _ left right =>
    exact h.bind (ih.expr left) fun _ => h.bind (ih.expr right) fun _ =>
      h.bind (h.ask _) fun _ => h.pure _
  | logical _ op left right =>
    refine h.bind (ih.expr left) fun _ => h.bind (h.judge _) fun a => ?_
    cases op <;> cases a <;> first
      | exact h.pure _
      | exact h.bind (ih.expr right) fun _ => h.bind (h.judge _) fun _ => h.pure _
  | group _ inner => exact ih.expr inner
  | call _ name arguments =>
    simp only [Expr.respell, respellAll_eq, Builtin.ofName?_respell]
    split
    · exact h.bind (ih.exprs arguments) fun _ => h.ask _
    · exact ih.call name arguments _
  | method _ receiver name arguments =>
    simp only [Expr.respell, respellAll_eq, Method.ofName?_respell]
    refine h.bind (ih.expr receiver) fun r => h.bind (ih.exprs arguments) fun _ => ?_
    split
    · exact h.edits _ fun _ => .refl .refl
    · exact h.fail ⟨⟨rfl, rfl, by rintro rfl; rfl⟩, rfl⟩
  | index _ target index =>
    exact h.bind (ih.expr target) fun _ => h.bind (ih.indexOf index) fun _ => h.ask _
  | cell _ target index column =>
    exact h.bind (ih.expr target) fun _ => h.bind (ih.indexOf index) fun _ =>
      h.bind (h.ask _) fun _ => h.bind (ih.indexOf column) fun _ => h.ask _
  | vector _ items | matrix _ items =>
    simp only [Expr.respell, respellAll_eq]
    exact h.bind (ih.exprs items) fun _ => h.bind (h.judge _) fun _ => h.onStore _
  | newList _ base =>
    cases base with
    | none => exact h.fail (.refl _)
    | some => exact h.bind (h.onStore _) fun _ => h.pure _

theorem exprs_succ (es : List Expr) :
    R _ (Eval.exprs (n + 1) es) (Eval.exprs (n' + 1) (es.map (Expr.respell f))) := by
  cases es with
  | nil => exact h.pure _
  | cons e es => exact h.bind (ih.expr e) fun _ => h.bind (ih.exprs es) fun _ => h.pure _

theorem exprFor_succ (e : Expr) (t : Ty) :
    R _ (Eval.exprFor (n + 1) e t) (Eval.exprFor (n' + 1) (e.respell f) t) := by
  simp only [Eval.exprFor]
  refine h.within (j := .exprFor e t) ?_
  rw [Eval.within_eq]
  -- Only a list without a type is looked at together with its target.
  cases e with
  | newList _ base =>
    rcases base with _ | _
    · cases t <;> first
        | exact h.bind (h.onStore _) fun _ => h.pure _
        | exact h.fail (.refl _)
    · exact ih.expr _
  | _ => exact ih.expr _

theorem indexOf_succ (e : Expr) :
    R _ (Eval.indexOf (n + 1) e) (Eval.indexOf (n' + 1) (e.respell f)) := by
  simp only [Eval.indexOf, Expr.position_respell]
  refine h.bind (ih.expr e) fun v => ?_
  cases v <;> first
    | exact h.pure _
    | exact h.fail (.refl _)

theorem condition_succ (e : Expr) (c : String) :
    R _ (Eval.condition (n + 1) e c) (Eval.condition (n' + 1) (e.respell f) c) := by
  simp only [Eval.condition, Expr.position_respell]
  refine h.bind (ih.expr e) fun v => ?_
  cases v <;> first
    | exact h.pure _
    | exact h.fail (.refl _)

theorem call_succ (name : String) (es : List Expr) (p : Position) :
    R _ (Eval.call (n + 1) name es p)
      (Eval.call (n' + 1) (f name) (es.map (Expr.respell f)) p) := by
  simp only [Eval.call]
  refine h.within (j := .call name es p) ?_
  rw [Eval.within_eq]
  refine h.function (fun g => ?_) (h.fail ⟨⟨rfl, rfl, by rintro rfl; rfl⟩, rfl⟩)
  simp only [Eval.ofOption, Watched.pure_bind, pure_bind, respellFunction_name,
    respellFunction_parameters, List.length_map, List.map_map, Function.comp_def,
    Expr.position_respell, respellFunction_body, respellBlock_body]
  have hbody : ∀ vs, R _ (do
      Eval.declareParameters g.parameters vs
      Eval.stmts n g.body.body
      Eval.conclude g) (do
      Eval.declareParameters (g.parameters.map (Parameter.respell f)) vs
      Eval.stmts n' (g.body.body.map (Stmt.respell f))
      Eval.conclude (respellFunction f g)) := fun vs =>
    h.bind (h.declareParameters _ vs) fun _ => h.bind (ih.stmts _) fun _ => h.conclude g
  exact h.bind (h.ofExcept p (concurs_checkArity ..)) fun _ => h.bind (ih.exprs es) fun vs =>
    h.bind (h.ofResult (concurs_convertArguments g 0 _ _)) fun bound =>
      h.bind (h.inCall _ p (hbody bound)) fun v => h.ofExcept p (concurs_callResult g v)

theorem stmts_succ (ss : List Stmt) :
    R _ (Eval.stmts (n + 1) ss) (Eval.stmts (n' + 1) (ss.map (Stmt.respell f))) := by
  cases ss with
  | nil => exact h.pure _
  | cons s ss =>
    refine h.bind (ih.stmt s) fun _ => h.bind (h.read Machine.pending_of_core) fun b => ?_
    cases b
    · exact ih.stmts ss
    · exact h.pure _

theorem block_succ (b : Block) :
    R _ (Eval.block (n + 1) b) (Eval.block (n' + 1) (respellBlock f b)) := by
  simp only [Eval.block, respellBlock_body]
  exact h.inScope (ih.stmts _)

theorem step_succ (span : Span) (target : Expr) (up : Bool) :
    R _ (Eval.perform (n + 1) (.step span target up))
      (Eval.perform (n' + 1) (.step span (target.respell f) up)) := by
  have hfails : ∀ {e e' : Expr} (p : Position), e' = e.respell f →
      R Unit (Eval.fail ⟨.incDecNonNumeric e.text, p⟩) (Eval.fail ⟨.incDecNonNumeric e'.text, p⟩) :=
    fun {e e'} p he => h.fail ⟨⟨rfl, rfl, by
      rintro rfl
      rw [he, Expr.respell_same]⟩, rfl⟩
  have howner : ∀ {e : Expr}, f = .same → (e.respell f).text = e.text := by
    rintro e rfl
    rw [e.respell_same]
  simp only [Eval.perform]
  refine h.within (j := .stmt _) ?_
  rw [Eval.within_eq]
  cases target with
  | name _ name =>
    exact h.bind (h.valueOf name _) fun _ => h.bind (h.judge _) fun _ => h.assign name _ _
  | index span target index =>
    exact h.bind (ih.expr target) fun _ => h.bind (ih.indexOf index) fun _ =>
      h.bind (h.ask _) fun _ => h.bind (h.judge _) fun _ =>
        h.write _ _ _ _ (howner (e := .index span target index)) _
  | cell span target index column =>
    exact h.bind (ih.expr target) fun _ => h.bind (ih.indexOf index) fun _ =>
      h.bind (ih.indexOf column) fun _ => h.bind (h.ask _) fun _ => h.bind (h.ask _) fun _ =>
        h.bind (h.judge _) fun _ => h.write _ _ _ _ (howner (e := .cell span target index column)) _
  | _ => exact hfails _ rfl

theorem perform_succ (s : Stmt) :
    R _ (Eval.perform (n + 1) s) (Eval.perform (n' + 1) (s.respell f)) := by
  have htext : ∀ (e : Expr), f = .same → (e.respell f).text = e.text := by
    rintro e rfl
    rw [e.respell_same]
  cases s
  case step span target up => exact step_succ h ih span target up
  all_goals
    simp only [Eval.perform]
    refine h.within (j := .stmt _) ?_
    rw [Eval.within_eq, Stmt.position_respell, Stmt.respell]
  case declare _ name ty value =>
    cases value with
    | none => exact h.declare name ty _ _ none
    | some e => exact h.declareWith name ty _ (ih.exprFor e ty)
  case assign _ name value =>
    exact h.bind (h.typeOf name _) fun t => h.bind (ih.exprFor value t) fun v => h.assign name v _
  case assignIndex _ target index column value =>
    exact h.bind (ih.expr target) fun c => h.bind (ih.indexOf index) fun i =>
      h.bind (ih.indexOf? column) fun j => h.bind (ih.expr value) fun v =>
        h.write c i j v (htext target) _
  case block b => exact ih.block b
  case branch _ test body otherwise =>
    simp only [respellOptional_eq]
    refine h.bind (ih.condition test _) fun b => ?_
    cases b
    · cases otherwise with
      | none => exact h.pure _
      | some s => exact ih.stmt s
    · exact ih.block body
  case switch _ e ks d =>
    simp only [respellCases_eq, respellDefault_eq]
    exact h.bind (ih.expr e) fun v => h.inLabelled (fun hf => by simp [Label.ofSwitch, htext e hf])
      (h.inConstruct _ (ih.switch v ks d false))
  case whileLoop _ test body =>
    exact h.inLabelled (fun hf => by simp [Label.ofWhile, htext test hf])
      (h.inConstruct _ (ih.whileLoop test body))
  case doLoop _ body test =>
    exact h.inLabelled (fun hf => by simp [Label.ofDo, htext test hf])
      (h.inConstruct _ (ih.doLoop body test))
  case forLoop _ first test next body =>
    simp only [respellOptional_eq]
    refine h.inLabelled ?_ (h.bind (ih.header first) fun _ =>
      h.inConstruct _ (ih.forLoop test next body))
    rintro rfl
    cases test <;> simp [Expr.respell_same]
  case breakOut => exact h.update Machine.local_requestBreak
  case continueOn => exact h.update Machine.local_requestContinue
  case print _ value =>
    exact h.bind (ih.expr value) fun v => h.update (Machine.local_print v)
  case function => exact h.pure _
  case giveBack _ value =>
    cases value with
    | none => exact h.update (Machine.local_requestReturn .void)
    | some e => exact h.bind (ih.expr e) fun v => h.update (Machine.local_requestReturn v)
  case start _ name es =>
    simp only [respellAll_eq]
    exact h.bind (ih.call name es _) fun _ => h.pure _
  case expression _ value => exact h.bind (ih.expr value) fun _ => h.pure _

theorem switch_succ (v : Value) (ks : List Case) (d : Option (List Stmt)) (found : Bool) :
    R _ (Eval.switch (n + 1) v ks d found) (Eval.switch (n' + 1) v (ks.map (respellCase f))
      (d.map (List.map (Stmt.respell f))) found) := by
  cases ks with
  | nil =>
    cases d with
    | none => exact h.pure _
    | some ss =>
      exact h.bind (ih.stmts ss) fun _ => h.bind (h.step (Machine.local_consume _)) fun _ =>
        h.pure _
  | cons k ks =>
    cases found
    · simp only [List.map_cons, Eval.switch, respellCase_value]
      refine h.bind (ih.expr k.value) fun w => h.bind (h.read fun hm => ?_) fun b => ?_
      · rw [(Machine.core_eq_iff.1 hm).1]
      · cases b
        · exact ih.switch v ks d false
        · exact ih.switch v (k :: ks) d true
    · simp only [List.map_cons, Eval.switch, respellCase_body]
      refine h.bind (ih.stmts k.body) fun _ => h.bind (h.step (Machine.local_consume _)) fun b => ?_
      cases b
      · refine h.bind (h.read Machine.pending_of_core) fun b => ?_
        cases b
        · exact ih.switch v ks d true
        · exact h.pure _
      · exact h.pure _

theorem whileLoop_succ (test : Expr) (body : Block) :
    R _ (Eval.whileLoop (n + 1) test body)
      (Eval.whileLoop (n' + 1) (test.respell f) (respellBlock f body)) := by
  refine h.bind (ih.condition test _) fun b => ?_
  cases b
  · exact h.pure _
  · refine h.bind (ih.block body) fun _ => h.bind (h.step Machine.local_continueLooping) fun b => ?_
    cases b
    · exact h.pure _
    · exact ih.whileLoop test body

theorem doLoop_succ (body : Block) (test : Expr) :
    R _ (Eval.doLoop (n + 1) body test)
      (Eval.doLoop (n' + 1) (respellBlock f body) (test.respell f)) := by
  refine h.bind (ih.block body) fun _ => h.bind (h.step Machine.local_continueLooping) fun b => ?_
  cases b
  · exact h.pure _
  · refine h.bind (ih.condition test _) fun b => ?_
    cases b
    · exact h.pure _
    · exact ih.doLoop body test

theorem forLoop_succ (test : Option Expr) (next : Option Stmt) (body : Block) :
    R _ (Eval.forLoop (n + 1) test next body) (Eval.forLoop (n' + 1) (test.map (Expr.respell f))
      (next.map (Stmt.respell f)) (respellBlock f body)) := by
  refine h.bind (ih.goesOn test) fun b => ?_
  cases b
  · exact h.pure _
  · refine h.bind (ih.block body) fun _ => h.bind (h.step Machine.local_continueLooping) fun b => ?_
    cases b
    · exact h.pure _
    · exact h.bind (ih.header next) fun _ => ih.forLoop test next body

end Step

end Related

variable {f : Respelling} {slack : Prop} {R : ∀ α, Watched α → Eval α → Prop}

/-- Every part of the evaluator is related to the same part on what is respelled. -/
theorem Respected.related (h : Respected f slack R) : ∀ {n n' : Nat}, n ≤ n' → slack ∨ n = n' →
    Related f R n n'
  | 0, n', _, hn => by
    rcases hn with hs | rfl
    · constructor <;> intros <;> exact h.exhausted (.inl hs)
    · constructor <;> intros <;> exact h.exhausted (.inr rfl)
  | n + 1, 0, hle, _ => absurd hle (Nat.not_succ_le_zero n)
  | n + 1, n' + 1, hle, hn => by
    have ih : Related f R n n' := h.related (Nat.le_of_succ_le_succ hle) (hn.imp id Nat.succ.inj)
    exact {
      expr := ih.expr_succ h
      exprs := ih.exprs_succ h
      exprFor := ih.exprFor_succ h
      indexOf := ih.indexOf_succ h
      indexOf? := fun e => by
        cases e with
        | none => exact h.pure _
        | some e => exact h.bind (ih.indexOf e) fun _ => h.pure _
      condition := ih.condition_succ h
      goesOn := fun e => by
        cases e with
        | none => exact h.pure _
        | some e => exact ih.condition e "for"
      call := ih.call_succ h
      stmt := fun s => h.guarded (ih.perform s)
      stmts := ih.stmts_succ h
      block := ih.block_succ h
      perform := ih.perform_succ h
      header := fun s => by
        cases s with
        | none => exact h.pure _
        | some s => exact ih.perform s
      switch := ih.switch_succ h
      whileLoop := ih.whileLoop_succ h
      doLoop := ih.doLoop_succ h
      forLoop := ih.forLoop_succ h }

/-- The statements of a program are related to those of the program respelled. -/
theorem Respected.topLevel (h : Respected f slack R) : ∀ (n : Nat) (ss : List Stmt),
    R Unit (Eval.topLevel n ss) (Eval.topLevel n (ss.map (Stmt.respell f)))
  | 0, _ => h.exhausted (.inr rfl)
  | _ + 1, [] => h.pure ()
  | n + 1, s :: ss => by
    have hrest := h.topLevel n ss
    have hs' := s.function?_respell f
    cases hs : s.function? with
    | some g =>
      rw [hs] at hs'
      rw [List.map_cons, Eval.topLevel_function hs, Eval.topLevel_function hs']
      exact hrest
    | none =>
      rw [hs] at hs'
      rw [List.map_cons, Eval.topLevel_cons hs, Eval.topLevel_cons hs', s.position_respell f]
      refine h.bind ((h.related n.le_refl (.inr rfl)).stmt s) fun _ =>
        h.bind (h.step Machine.local_takeSignal) fun g => ?_
      cases g with
      | none => exact hrest
      | some g => exact h.note (.refl _)

end Primer
