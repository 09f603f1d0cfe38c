import Primer.Proofs.Tracking

/-!
# Checks and runs resolve names alike

In every run of a program that checking has no complaint about, a name stands for a symbol of the
declaration the check found for it, unless a switch declares a name for its cases
(`Program.names_resolved`), and a call is one of the function the check found, unless a `start`
names a built-in function (`Program.calls_resolved`). Both exceptions are real: the cases of a
switch are checked one after the other and run from the first that matches, and a `start` is checked
like a call but runs declared functions only.
-/

namespace Primer

/-! ## Names -/

/-- A machine and the names of a check find the same declaration for a name. -/
def Machine.Finds (N : Names) (name : String) (m : Machine) : Prop :=
  ∃ s : Symbol, ∀ p, m.scopes.lookup name p = .ok s ∧ N.scopes.lookup name p = .ok s.toDeclaration

/-- The name a job looks up in the scopes, to read it or to change it. -/
def Job.name? : Job → Option String
  | .expr (.name _ name) => some name
  | .stmt (.assign _ name _) => some name
  | .stmt (.step _ (.name _ name) _) => some name
  | _ => none

/-- Checking a program comes to a job under names. -/
inductive Program.Sees (p : Program) : Names → Job → Prop
  | expr {N e} (h : p.Infers N e) : Sees p N (.expr e)
  | stmt {s ss c} (h : p.Walks (s :: ss) c) : Sees p c.toNames (.stmt s)

/-- What the notes of a run say about names: each one that is looked up, before and after the job,
is found as the check found it, and none is reported to be missing. -/
def Event.NamesResolved (p : Program) : Event → Prop
  | .steps _ _ t => ∀ d ∈ t.report.toList, d.fault.missesName = false
  | .enters j m => ∀ name, j.name? = some name → ∃ N, p.Sees N j ∧ m.Finds N name
  | .gives j _ m => ∀ name, j.name? = some name → ∃ N, p.Sees N j ∧ m.Finds N name
  | .fails _ d _ => d.fault.missesName = false

theorem Machine.Agrees.finds {N : Names} {m : Machine} {name : String} {o : Position}
    (h : m.Agrees N) (hn : (N.lookup name o).notes = []) : m.Finds N name := by
  simp only [Names.lookup, Scopes.lookup] at hn
  rcases hd : N.scopes.get? name with _ | d
  · simp [hd] at hn
  · obtain ⟨s, hs, rfl⟩ := h.symbol hd
    exact ⟨s, fun p => by simp [Scopes.lookup, hs, hd]⟩

/-- A machine that sees the names of the check stays on course, unless a switch declares a name for
its cases. -/
def Course.ofNames {p : Program} (hproper : p.Proper) (hclean : p.analyze.report.isEmpty = true)
    (hcases : p.everywhere Stmt.declaresInNoCase = true) : Course p where
  Holds N m := m.Agrees N
  Allows f := f.missesName = false
  clean := hclean
  allows := Fault.missesName_of_isResolved
  functions h := h.functions
  keeps h hk := h.keeps hk
  enterScope h := h.enterScope
  enterLabelled label h := h.enterLabelled label
  enterConstruct _ h := ⟨h.functions, h.frames, h.labels, h.globals, h.top⟩
  declare {c m name _ _ _} _ hs h := by
    -- The check would have noted a name that is taken.
    have hfree : c.scopes.declaredHere name = false := by
      cases hf : c.scopes.declaredHere name
      · rfl
      · rw [Checker.declare_of_taken hf] at hs
        exact absurd hs Checker.silent_note
    rw [Checker.declare_of_free hfree, if_neg (by simp [h.free hfree])]
    exact h.introduce
  enterCall hc hf hg h := h.enterCall hc.atTop.1 hc.atTop.2 hf hg
  loaded limit := (Program.agrees_loaded hclean limit).2
  lookup {_ _ _ _ o' _} h hn hd := by
    obtain ⟨s, hs⟩ := h.finds hn
    cases (hs o').1.symm.trans hd
  starts := .inr fun f hf => by cases f <;> first | rfl | cases hf
  mode := .inl ⟨hproper, hcases⟩

theorem Program.Sees.finds {p : Program} {N : Names} {j : Job} {name : String} {m : Machine}
    (h : p.Sees N j) (hclean : p.analyze.report.isEmpty = true) (hname : j.name? = some name)
    (hm : m.Agrees N) : m.Finds N name := by
  cases h with
  | @expr _ e he =>
    have hn := he.silent hclean
    cases e <;> cases hname
    exact hm.finds hn
  | @stmt s ss c hs =>
    cases s with
    | assign =>
      cases hname
      have hn := (Checker.silent_observe.1 (hs.silentHead hclean)).2
      exact hm.finds (List.append_eq_nil_iff.1 hn).1
    | step _ target =>
      have hroot : p.Infers c.toNames target := .root hs (by simp [Checker.roots])
      have hn := hroot.silent hclean
      cases target <;> cases hname
      exact hm.finds hn
    | _ => cases hname

theorem Job.declares_of_name? {s : Stmt} {name : String} (h : (Job.stmt s).name? = some name) :
    s.declares = false := by
  cases s <;> first | rfl | cases h

theorem Event.Follows.namesResolved {p : Program} {hproper : p.Proper}
    {hclean : p.analyze.report.isEmpty = true}
    {hcases : p.everywhere Stmt.declaresInNoCase = true} {e : Event}
    (h : e.Follows (Course.ofNames hproper hclean hcases)) : e.NamesResolved p := by
  cases e with
  | steps callers m t => exact h.report
  | enters j m =>
    intro name hname
    cases j with
    | expr e =>
      obtain ⟨N, he, hm⟩ := h
      exact ⟨N, .expr he, (Program.Sees.expr he).finds hclean hname hm⟩
    | stmt s =>
      obtain ⟨ss, c, hs, hm⟩ := h
      exact ⟨_, .stmt hs, (Program.Sees.stmt hs).finds hclean hname hm⟩
    | _ => cases hname
  | gives j r m =>
    intro name hname
    cases j with
    | expr e =>
      obtain ⟨N, he, hm⟩ := h
      exact ⟨N, .expr he, (Program.Sees.expr he).finds hclean hname hm⟩
    | stmt s =>
      obtain ⟨ss, c, hs, hm⟩ := h
      rw [(Checker.stmt_keeps s c (Job.declares_of_name? hname)).names] at hm
      exact ⟨_, .stmt hs, (Program.Sees.stmt hs).finds hclean hname hm⟩
    | _ => cases hname
  | fails j d m => exact h

/-- In every run of a program that was read and that checking has no complaint about, where no
switch declares a name for its cases, every name that is reached stands for a symbol of the
declaration the check found, and none is reported to be missing. -/
theorem Program.names_resolved {tokens : List Token} {p : Program}
    (h : Program.ofTokens tokens = .ok p) (hclean : p.analyze.report.isEmpty = true)
    (hcases : p.everywhere Stmt.declaresInNoCase = true) (fuel limit : Nat) :
    (∀ e ∈ p.history fuel limit, e.NamesResolved p) ∧
      ∀ m, p.execute fuel limit = some m → ∀ d ∈ m.report.toList, d.fault.missesName = false := by
  obtain ⟨he, hm⟩ := (Course.ofNames (proper_of_ofTokens h) hclean hcases).run fuel limit
  exact ⟨fun e h => (he e h).namesResolved, fun m h => (hm m h).report⟩

/-- A variable that a loop counts down and, in each round, hides behind one of another type. -/
theorem Program.names_resolved_shadowed :
    let x : Expr := .name default "x"
    let p := Program.mk [.declare default "x" .int (some (.int default 2)),
      .whileLoop default (.relational default .greater x (.int default 0))
        ⟨[.step default x false, .declare default "x" .bool (some (.bool default true)),
          .print default x], default⟩]
    (∀ e ∈ p.history 40 1, e.NamesResolved p) ∧
      ∀ m, p.execute 40 1 = some m → ∀ d ∈ m.report.toList, d.fault.missesName = false :=
  Program.names_resolved (show Program.ofTokens
    [⟨.varWord, "var", default⟩, ⟨.identifier, "x", default⟩, ⟨.colon, ":", default⟩,
      ⟨.typeWord, "int", default⟩, ⟨.assignment, "=", default⟩, ⟨.number, "2", default⟩,
      ⟨.semicolon, ";", default⟩, ⟨.whileWord, "while", default⟩, ⟨.openParen, "(", default⟩,
      ⟨.identifier, "x", default⟩, ⟨.greater, ">", default⟩, ⟨.number, "0", default⟩,
      ⟨.closeParen, ")", default⟩, ⟨.openCurly, "\x7b", default⟩, ⟨.identifier, "x", default⟩,
      ⟨.minusMinus, "--", default⟩, ⟨.semicolon, ";", default⟩, ⟨.varWord, "var", default⟩,
      ⟨.identifier, "x", default⟩, ⟨.colon, ":", default⟩, ⟨.typeWord, "bool", default⟩,
      ⟨.assignment, "=", default⟩, ⟨.trueWord, "true", default⟩, ⟨.semicolon, ";", default⟩,
      ⟨.printWord, "println", default⟩, ⟨.openParen, "(", default⟩, ⟨.identifier, "x", default⟩,
      ⟨.closeParen, ")", default⟩, ⟨.semicolon, ";", default⟩, ⟨.closeCurly, "\x7d", default⟩]
      = .ok _ from rfl) rfl rfl 40 1

/-- A switch that skips the case in which a name is declared and runs one that assigns to it. -/
theorem Program.names_unresolved_skipped :
    let p := Program.mk [.switch default (.int default 2)
      [⟨.int default 1, [.declare default "x" .int (some (.int default 5)),
          .breakOut default], default⟩,
        ⟨.int default 2, [.assign default "x" (.int default 7)], default⟩] none]
    Program.ofTokens
      [⟨.switchWord, "switch", default⟩, ⟨.openParen, "(", default⟩, ⟨.number, "2", default⟩,
        ⟨.closeParen, ")", default⟩, ⟨.openCurly, "\x7b", default⟩, ⟨.caseWord, "case", default⟩,
        ⟨.number, "1", default⟩, ⟨.colon, ":", default⟩, ⟨.varWord, "var", default⟩,
        ⟨.identifier, "x", default⟩, ⟨.colon, ":", default⟩, ⟨.typeWord, "int", default⟩,
        ⟨.assignment, "=", default⟩, ⟨.number, "5", default⟩, ⟨.semicolon, ";", default⟩,
        ⟨.breakWord, "break", default⟩, ⟨.semicolon, ";", default⟩, ⟨.caseWord, "case", default⟩,
        ⟨.number, "2", default⟩, ⟨.colon, ":", default⟩, ⟨.identifier, "x", default⟩,
        ⟨.assignment, "=", default⟩, ⟨.number, "7", default⟩, ⟨.semicolon, ";", default⟩,
        ⟨.closeCurly, "\x7d", default⟩] = .ok p ∧
      p.analyze.report.isEmpty = true ∧
      (p.execute 40 1).map (fun m => m.report.toList.map Diagnostic.fault) =
        some [.undeclaredIdentifier "x"] :=
  ⟨rfl, rfl, rfl⟩

/-! ## Calls -/

/-- What a call can be a call of. -/
inductive Callee where
  | builtin (b : Builtin)
  | declared (f : Function)

namespace Callee

/-- What a name calls where functions are declared, in a check as in a run: a built-in function
first. -/
def ofName? (functions : Frame Function) (name : String) : Option Callee :=
  match Builtin.ofName? name with
  | some b => some (.builtin b)
  | none => (functions.find? name).map .declared

def arity : Callee → Nat
  | builtin b => b.arity
  | declared f => f.parameters.length

end Callee

/-- What the notes of a run say about calls: each one is of what the check found, with as many
arguments as that takes, and no function or argument is reported to be missing. -/
def Event.CallsResolved (p : Program) : Event → Prop
  | .steps _ _ t => ∀ d ∈ t.report.toList, d.fault.missesCall = false
  | .enters (.expr (.call span name arguments)) m => ∃ N callee,
    p.Sees N (.expr (.call span name arguments)) ∧
      Callee.ofName? N.functions name = some callee ∧
      Callee.ofName? m.functions name = some callee ∧ callee.arity = arguments.length
  | .enters (.stmt (.start span name arguments)) m => ∃ N f,
    p.Sees N (.stmt (.start span name arguments)) ∧
      Callee.ofName? N.functions name = some (.declared f) ∧
      m.function? name = some f ∧ f.parameters.length = arguments.length
  | .enters (.call name arguments _) m =>
    ∃ f, m.function? name = some f ∧ f.parameters.length = arguments.length
  | .fails _ d _ => d.fault.missesCall = false
  | _ => True

theorem Names.Calls.callee {N : Names} {name : String} {es : List Expr} {o : Position} {t : Ty}
    (h : N.Calls name es o t) :
    ∃ callee, Callee.ofName? N.functions name = some callee ∧ callee.arity = es.length := by
  cases h with
  | builtin hb hl => exact ⟨.builtin _, by simp [Callee.ofName?, hb], hl⟩
  | declared hb hf hl => exact ⟨.declared _, by simp [Callee.ofName?, hb, hf], hl⟩

/-- A machine that knows the functions of the check stays on course, unless a `start` names a
built-in function. -/
def Course.ofFunctions {p : Program} (hclean : p.analyze.report.isEmpty = true)
    (hstarts : p.everywhere Stmt.startsNoBuiltin = true) : Course p where
  Holds N m := m.functions = N.functions
  Allows f := f.missesCall = false
  clean := hclean
  allows := Fault.missesCall_of_isResolved
  functions h := h
  keeps h hk := (congrArg Names.functions hk.names).trans h
  enterScope h := h
  enterLabelled _ h := h
  enterConstruct _ h := h
  declare {c m name _ _ _} _ _ h := by
    rw [Checker.grows_declare.functions, ← h]
    split <;> rfl
  enterCall _ hf _ h := h.trans hf.symm
  loaded limit := (Program.agrees_loaded hclean limit).2.functions
  lookup {_ m name _ o' _} _ _ hd := by
    simp only [Scopes.lookup] at hd
    split at hd <;> cases hd
    rfl
  starts := .inl hstarts
  mode := .inr fun h hg hf => hg.functions.trans (h.trans hf.symm)

theorem Event.Follows.callsResolved {p : Program} {hclean : p.analyze.report.isEmpty = true}
    {hstarts : p.everywhere Stmt.startsNoBuiltin = true} {e : Event}
    (h : e.Follows (Course.ofFunctions hclean hstarts)) : e.CallsResolved p := by
  cases e with
  | steps callers m t => exact h.report
  | enters j m =>
    cases j with
    | expr e =>
      cases e with
      | call span name arguments =>
        obtain ⟨N, he, hm⟩ := h
        obtain ⟨callee, hN, hl⟩ := (Names.inferCall_calls (he.silent hclean)).callee
        refine ⟨N, callee, .expr he, hN, ?_, hl⟩
        rw [show m.functions = N.functions from hm]
        exact hN
      | _ => trivial
    | stmt s =>
      cases s with
      | start span name arguments =>
        obtain ⟨ss, c, hs, hm⟩ := h
        obtain ⟨hb, f, hf, hl⟩ := hs.started hclean hstarts
        refine ⟨_, f, .stmt hs, by simp [Callee.ofName?, hb, hf], ?_, hl⟩
        rw [Machine.function?, show m.functions = c.functions from hm]
        exact hf
      | _ => trivial
    | call name arguments o =>
      rcases h with hf | hall
      · exact hf
      · cases hall (.undeclaredFunction name) rfl
    | _ => trivial
  | gives => trivial
  | fails j d m => exact h

/-- In every run of a program that checking has no complaint about, where no `start` names a
built-in function, every call and every `start` that is reached is one of what the check found, and
no function or argument is reported to be missing. -/
theorem Program.calls_resolved {p : Program} (hclean : p.analyze.report.isEmpty = true)
    (hstarts : p.everywhere Stmt.startsNoBuiltin = true) (fuel limit : Nat) :
    (∀ e ∈ p.history fuel limit, e.CallsResolved p) ∧
      ∀ m, p.execute fuel limit = some m → ∀ d ∈ m.report.toList, d.fault.missesCall = false := by
  obtain ⟨he, hm⟩ := (Course.ofFunctions hclean hstarts).run fuel limit
  exact ⟨fun e h => (he e h).callsResolved, fun m h => (hm m h).report⟩

/-- A function that is started and calls a built-in function, both in other letter cases. -/
theorem Program.calls_resolved_builtin :
    let f : Function := ⟨"f", [⟨"n", .int, default⟩], .int, ⟨[.giveBack default (some
      (.call default "ROUND" [.name default "n"]))], default⟩, default⟩
    let p := Program.mk [.function f, .start default "F" [.int default 0]]
    (∀ e ∈ p.history 40 1, e.CallsResolved p) ∧
      ∀ m, p.execute 40 1 = some m → ∀ d ∈ m.report.toList, d.fault.missesCall = false :=
  Program.calls_resolved rfl rfl 40 1

/-- A built-in function that is started. -/
theorem Program.calls_unresolved_started :
    let p := Program.mk [.start default "round" [.int default 1]]
    Program.ofTokens
      [⟨.startWord, "start", default⟩, ⟨.identifier, "round", default⟩,
        ⟨.openParen, "(", default⟩, ⟨.number, "1", default⟩, ⟨.closeParen, ")", default⟩,
        ⟨.semicolon, ";", default⟩] = .ok p ∧
      p.analyze.report.isEmpty = true ∧
      (p.execute 40 1).map (fun m => m.report.toList.map Diagnostic.fault) =
        some [.undeclaredFunction "round"] :=
  ⟨rfl, rfl, rfl⟩

end Primer
