import Primer.Proofs.Watch

/-!
# The history of a program

A watched run ends as the run without a watch does (`execute_eq`), so what its notes tell holds of
the run itself. The evaluator is one text for both, and every part of it is checked to respect the
passage from the one to the other.
-/

namespace Primer

namespace Watched

open Eval

variable {α β : Type}

/-- How a watched computation ends. -/
def run (callers : List Caller) (x : Watched α) : Eval α := fun m =>
  match (x callers m).result with
  | some (.ok a) => .done a (x callers m).last
  | some (.error d) => .failed d (x callers m).last
  | none => .exhausted

section Run

variable (callers : List Caller)

@[simp] theorem run_pure (a : α) : run callers (pure a) = pure a := rfl

@[simp] theorem run_exhausted : run callers (Runs.exhausted : Watched α) = Runs.exhausted := rfl

@[simp] theorem run_bind (x : Watched α) (f : α → Watched β) :
    run callers (x >>= f) = run callers x >>= fun a => run callers (f a) := by
  funext m
  simp only [run, Bind.bind, Effect.bind]
  rcases (x callers m).result with _ | _ | _ <;> rfl

@[simp] theorem run_look (f : Machine → Except Diagnostic α) :
    run callers (Runs.look f) = Runs.look f := by
  funext m
  simp only [run, Runs.look]
  cases f m <;> rfl

@[simp] theorem run_step (f : Machine → α × Machine) :
    run callers (Runs.step f) = Runs.step f := rfl

@[simp] theorem run_attempt (x : Watched α) :
    run callers (Runs.attempt x) = Runs.attempt (run callers x) := by
  funext m
  simp only [run, Runs.attempt, Effect.attempt]
  rcases (x callers m).result with _ | _ | _ <;> rfl

@[simp] theorem run_within (job : Job) (x : Watched job.Result) :
    run callers (Runs.within job x) = Runs.within job (run callers x) := rfl

@[simp] theorem run_aside (caller : Caller) (x : Watched α) :
    run callers (Runs.aside caller x) = Runs.aside caller (run (caller :: callers) x) := rfl

@[simp] theorem run_fail (d : Diagnostic) : run callers (fail d : Watched α) = fail d :=
  run_look ..

@[simp] theorem run_read (f : Machine → α) : run callers (read f) = read f := run_look ..

@[simp] theorem run_update (f : Machine → Machine) : run callers (update f) = update f :=
  run_step ..

@[simp] theorem run_ofResult (r : Except Diagnostic α) :
    run callers (ofResult r) = ofResult r := by
  cases r <;> simp [ofResult]

@[simp] theorem run_ofExcept (p : Position) (r : Except Fault α) :
    run callers (Eval.ofExcept p r) = Eval.ofExcept p r := by
  cases r <;> simp [Eval.ofExcept]

@[simp] theorem run_ofOption (p : Position) (fault : Fault) (r : Option α) :
    run callers (ofOption p fault r) = ofOption p fault r := by
  cases r <;> simp [ofOption]

@[simp] theorem run_ask (p : Position) (f : Store → Except Fault α) :
    run callers (ask p f) = ask p f := run_look ..

@[simp] theorem run_onStore (f : Store → α × Store) : run callers (onStore f) = onStore f :=
  run_step ..

@[simp] theorem run_edit (p : Position) (f : Store → Except Fault (α × Edit)) :
    run callers (edit p f) = edit p f := by
  simp [edit]

@[simp] theorem run_between (enter leave : Machine → Machine) (x : Watched α) :
    run callers (between enter leave x) = between enter leave (run callers x) := by
  simp [between]

@[simp] theorem run_declare (name : String) (ty : Ty) (category : Category) (p : Position)
    (value : Option Value) :
    run callers (declare name ty category p value) = declare name ty category p value := by
  simp [declare]

@[simp] theorem run_guarded (x : Watched Unit) :
    run callers (guarded x) = guarded (run callers x) := by
  simp only [guarded, run_bind, run_attempt]
  congr 1
  funext r
  rcases r with d | _
  · simp only [run_bind, run_read]
    congr 1
    funext b
    cases b
    · simp
    · exact run_within ..
  · rfl

@[simp] theorem run_declareWith (name : String) (ty : Ty) (p : Position) (value : Watched Value) :
    run callers (declareWith name ty p value) = declareWith name ty p (run callers value) := by
  simp only [declareWith, run_bind, run_attempt]
  congr 1
  funext r
  rcases r with d | _ <;> simp

@[simp] theorem run_declareParameters : ∀ (parameters : List Parameter) (values : List Value),
    run callers (declareParameters parameters values) = declareParameters parameters values
  | [], _ => by simp [declareParameters]
  | _ :: _, [] => by simp [declareParameters]
  | q :: parameters, v :: values => by
    simp [declareParameters, run_declareParameters parameters values]

@[simp] theorem run_conclude (f : Function) : run callers (conclude f) = conclude f := by
  simp only [conclude, run_bind, run_step]
  congr 1
  funext r
  cases r with
  | some d => simp
  | none =>
    simp only [run_bind, run_step]
    congr 1
    funext r
    congr 1
    funext s
    cases s <;> simp

end Run

/-- Every part of the evaluator ends with and without a watch in the same way. -/
structure Unwatched (n : Nat) : Prop where
  expr : ∀ callers e, run callers (expr n e) = expr n e
  exprs : ∀ callers es, run callers (exprs n es) = exprs n es
  exprFor : ∀ callers e t, run callers (exprFor n e t) = exprFor n e t
  indexOf : ∀ callers e, run callers (indexOf n e) = indexOf n e
  indexOf? : ∀ callers e, run callers (indexOf? n e) = indexOf? n e
  condition : ∀ callers e c, run callers (condition n e c) = condition n e c
  goesOn : ∀ callers e, run callers (goesOn n e) = goesOn n e
  call : ∀ callers f es p, run callers (call n f es p) = call n f es p
  stmt : ∀ callers s, run callers (stmt n s) = stmt n s
  stmts : ∀ callers ss, run callers (stmts n ss) = stmts n ss
  block : ∀ callers b, run callers (block n b) = block n b
  perform : ∀ callers s, run callers (perform n s) = perform n s
  header : ∀ callers s, run callers (header n s) = header n s
  switch : ∀ callers v cs d b, run callers (switch n v cs d b) = switch n v cs d b
  whileLoop : ∀ callers e b, run callers (whileLoop n e b) = whileLoop n e b
  doLoop : ∀ callers b e, run callers (doLoop n b e) = doLoop n b e
  forLoop : ∀ callers e s b, run callers (forLoop n e s b) = forLoop n e s b

section Step

variable {n : Nat} (ih : Unwatched n) (callers : List Caller)
include ih

theorem Unwatched.expr_succ (e : Expr) :
    run callers (Eval.expr (n + 1) e) = Eval.expr (n + 1) e := by
  simp only [Eval.expr]
  refine (run_within ..).trans (congrArg _ ?_)
  cases e with
  | logical _ op left right =>
    simp only [run_bind, ih.expr, run_ofExcept]
    congr 1
    funext v
    congr 1
    funext a
    cases op <;> cases a <;> simp [ih.expr]
  | call _ name arguments =>
    dsimp only
    split <;> simp [ih.exprs, ih.call]
  | method _ receiver name arguments =>
    simp only [run_bind, ih.expr, ih.exprs]
    congr 1
    funext v
    congr 1
    funext a
    split <;> simp
  | newList _ base => cases base <;> simp
  | _ => simp [ih.expr, ih.exprs, ih.indexOf]

theorem Unwatched.exprs_succ (es : List Expr) :
    run callers (Eval.exprs (n + 1) es) = Eval.exprs (n + 1) es := by
  cases es with
  | nil => simp [Eval.exprs]
  | cons e es => simp [Eval.exprs, ih.expr, ih.exprs]

theorem Unwatched.exprFor_succ (e : Expr) (t : Ty) :
    run callers (Eval.exprFor (n + 1) e t) = Eval.exprFor (n + 1) e t := by
  simp only [Eval.exprFor]
  refine (run_within ..).trans (congrArg _ ?_)
  split <;> simp [ih.expr]

theorem Unwatched.indexOf_succ (e : Expr) :
    run callers (Eval.indexOf (n + 1) e) = Eval.indexOf (n + 1) e := by
  simp only [Eval.indexOf, run_bind, ih.expr]
  congr 1
  funext v
  cases v <;> simp

theorem Unwatched.condition_succ (e : Expr) (construct : String) :
    run callers (Eval.condition (n + 1) e construct) = Eval.condition (n + 1) e construct := by
  simp only [Eval.condition, run_bind, ih.expr]
  congr 1
  funext v
  cases v <;> simp

theorem Unwatched.call_succ (f : String) (es : List Expr) (p : Position) :
    run callers (Eval.call (n + 1) f es p) = Eval.call (n + 1) f es p := by
  simp only [Eval.call]
  refine (run_within ..).trans (congrArg _ ?_)
  simp [ih.exprs, ih.stmts, inCall]

theorem Unwatched.stmts_succ : ∀ ss, run callers (Eval.stmts (n + 1) ss) = Eval.stmts (n + 1) ss
  | [] => by simp [Eval.stmts]
  | s :: ss => by
    simp only [Eval.stmts, run_bind, ih.stmt, run_read]
    congr 1
    funext _
    congr 1
    funext b
    cases b <;> simp [ih.stmts]

theorem Unwatched.perform_succ (s : Stmt) :
    run callers (Eval.perform (n + 1) s) = Eval.perform (n + 1) s := by
  simp only [Eval.perform]
  refine (run_within ..).trans (congrArg _ ?_)
  cases s with
  | declare _ name ty value => cases value <;> simp [ih.exprFor]
  | step _ target up => cases target <;> simp [ih.expr, ih.indexOf, assign, write]
  | branch _ test body otherwise =>
    simp only [run_bind, ih.condition]
    congr 1
    funext b
    cases b <;> cases otherwise <;> simp [ih.block, ih.stmt]
  | forLoop _ first test next body =>
    simp [ih.header, ih.forLoop, inLabelled, inConstruct]
  | giveBack _ value => cases value <;> simp [ih.expr]
  | _ =>
    simp [ih.expr, ih.exprFor, ih.indexOf, ih.indexOf?, ih.call, ih.block, ih.switch,
      ih.whileLoop, ih.doLoop, assign, write, inLabelled, inConstruct]

theorem Unwatched.switch_succ (v : Value) : ∀ cases fallback found,
    run callers (Eval.switch (n + 1) v cases fallback found) =
      Eval.switch (n + 1) v cases fallback found
  | [], none, _ => by simp [Eval.switch]
  | [], some _, _ => by simp [Eval.switch, ih.stmts]
  | c :: rest, fallback, false => by
    simp only [Eval.switch, run_bind, ih.expr, run_read]
    congr 1
    funext w
    congr 1
    funext b
    cases b <;> simp [ih.switch]
  | c :: rest, fallback, true => by
    simp only [Eval.switch, run_bind, ih.stmts, run_step]
    congr 1
    funext _
    congr 1
    funext b
    cases b
    · simp only [run_bind, run_read, Bool.false_eq_true, ↓reduceIte]
      congr 1
      funext b
      cases b <;> simp [ih.switch]
    · simp

theorem Unwatched.whileLoop_succ (test : Expr) (body : Block) :
    run callers (Eval.whileLoop (n + 1) test body) = Eval.whileLoop (n + 1) test body := by
  simp only [Eval.whileLoop, run_bind, ih.condition]
  congr 1
  funext b
  cases b
  · simp
  · simp only [↓reduceIte, run_bind, ih.block, run_step]
    congr 1
    funext _
    congr 1
    funext b
    cases b <;> simp [ih.whileLoop]

theorem Unwatched.doLoop_succ (body : Block) (test : Expr) :
    run callers (Eval.doLoop (n + 1) body test) = Eval.doLoop (n + 1) body test := by
  simp only [Eval.doLoop, run_bind, ih.block, run_step]
  congr 1
  funext _
  congr 1
  funext b
  cases b
  · simp
  · simp only [↓reduceIte, run_bind, ih.condition]
    congr 1
    funext b
    cases b <;> simp [ih.doLoop]

theorem Unwatched.forLoop_succ (test : Option Expr) (next : Option Stmt) (body : Block) :
    run callers (Eval.forLoop (n + 1) test next body) = Eval.forLoop (n + 1) test next body := by
  simp only [Eval.forLoop, run_bind, ih.goesOn]
  congr 1
  funext b
  cases b
  · simp
  · simp only [↓reduceIte, run_bind, ih.block, run_step]
    congr 1
    funext _
    congr 1
    funext b
    cases b <;> simp [ih.header, ih.forLoop]

end Step

theorem unwatched (n : Nat) : Unwatched n := by
  induction n with
  | zero =>
    constructor <;> intros <;> simp only [Eval.expr, Eval.exprs, Eval.exprFor, Eval.indexOf,
      Eval.indexOf?, Eval.condition, Eval.goesOn, Eval.call, Eval.stmt, Eval.stmts, Eval.block,
      Eval.perform, Eval.header, Eval.switch, Eval.whileLoop, Eval.doLoop, Eval.forLoop,
      run_exhausted]
  | succ n ih =>
    exact {
      expr := ih.expr_succ
      exprs := ih.exprs_succ
      exprFor := ih.exprFor_succ
      indexOf := ih.indexOf_succ
      indexOf? := by
        rintro callers (_ | e) <;> simp [Eval.indexOf?, ih.indexOf]
      condition := ih.condition_succ
      goesOn := by
        rintro callers (_ | e) <;> simp [Eval.goesOn, ih.condition]
      call := ih.call_succ
      stmt := by simp [Eval.stmt, ih.perform]
      stmts := ih.stmts_succ
      block := by simp [Eval.block, inScope, ih.stmts]
      perform := ih.perform_succ
      header := by
        rintro callers (_ | s) <;> simp [Eval.header, ih.perform]
      switch := ih.switch_succ
      whileLoop := ih.whileLoop_succ
      doLoop := ih.doLoop_succ
      forLoop := ih.forLoop_succ }

theorem run_topLevel (callers : List Caller) : ∀ n ss,
    run callers (Eval.topLevel n ss) = Eval.topLevel n ss
  | 0, _ => by simp only [Eval.topLevel, run_exhausted]
  | _ + 1, [] => by simp [Eval.topLevel]
  | n + 1, s :: ss => by
    cases s
    case function => simp only [Eval.topLevel, run_topLevel callers n]
    all_goals
      simp only [Eval.topLevel, run_bind, (unwatched n).stmt, run_step]
      congr 1
      funext _
      congr 1
      funext r
      cases r <;> simp [run_topLevel callers n]

end Watched

/-- A watched run of a program. -/
def Program.record (fuel limit : Nat) (p : Program) : Record (p.loaded limit) Unit :=
  (Eval.topLevel fuel p.body : Watched Unit) [] (p.loaded limit)

/-- What is noted of a run of a program. -/
def Program.history (fuel limit : Nat) (p : Program) : List Event := (p.record fuel limit).events

/-- A watched run of a program ends as the run without a watch does. -/
theorem Program.execute_eq (fuel limit : Nat) (p : Program) :
    p.execute fuel limit =
      (p.record fuel limit).result.map fun _ => (p.record fuel limit).last := by
  rw [Program.execute, ← Watched.run_topLevel [] fuel p.body, Watched.run, ← Program.record]
  rcases (p.record fuel limit).result with _ | _ | _ <;> rfl

/-- What holds of a fresh machine and stays when a function is made known or a fault reported
holds before the first statement. -/
theorem Program.loaded_induction {limit : Nat} {p : Program} {I : Machine → Prop}
    (hfresh : I (Machine.fresh limit)) (hnote : ∀ m d, I m → I (m.note d))
    (hadd : ∀ m f, f ∈ p.functions → I m →
      I { m with
        listing := (m.listing.record (Row.ofFunction f m.scopes.path)).2
        functions := m.functions.add f.name f }) : I (p.loaded limit) := by
  have hfold : ∀ (fs : List Function) (m : Machine), (∀ f ∈ fs, f ∈ p.functions) → I m →
      I (fs.foldl Machine.register m) := by
    intro fs
    induction fs with
    | nil => exact fun _ _ h => h
    | cons f fs ih =>
      intro m hfs hm
      refine ih _ (fun f hf => hfs f (List.mem_cons_of_mem _ hf)) ?_
      rw [Machine.register, Machine.register?]
      cases m.functions.has f.name
      · exact hadd m f (hfs f List.mem_cons_self) hm
      · exact hnote m _ hm
  exact hfold _ _ (fun _ h => h) hfresh

theorem Program.loaded_eq (limit : Nat) (p : Program) :
    p.loaded limit = { Machine.fresh limit with
      listing := (p.loaded limit).listing
      report := (p.loaded limit).report
      functions := (p.loaded limit).functions } := by
  refine p.loaded_induction (I := fun m => m = { Machine.fresh limit with
    listing := m.listing, report := m.report, functions := m.functions }) rfl ?_ ?_
  · intro m d hm
    rw [hm]
    rfl
  · intro m f _ hm
    rw [hm]

/-- A program finds only functions it declares. -/
theorem Program.mem_of_function_loaded {limit : Nat} {p : Program} {name : String} {f : Function}
    (h : (p.loaded limit).functions.find? name = some f) : f ∈ p.functions := by
  refine p.loaded_induction (I := fun m => ∀ name f, m.functions.find? name = some f →
    f ∈ p.functions) ?_ (fun _ _ h => h) ?_ name f h
  · intro name f h
    simp [Machine.fresh, Frame.find?] at h
  · intro m g hg hm name f h
    rw [Frame.find?_add] at h
    split at h
    · cases h
      exact hg
    · exact hm name f h

end Primer
