import Primer.Proofs.CheckedTwins
import Primer.Proofs.Placement
import Primer.Proofs.ReadRespelled
import Primer.Session

/-!
# The case of words does not matter

A program respelled is checked and run as the program itself: the check finds matching diagnostics
(`Program.analyze_respell`), and the runs end in machines that match (`Program.execute_respell`).
Two recased texts spell programs that are the same in lower case, so what comes of them differs in
nothing but in what is quoted (`Session.run_recased`).
-/

namespace Primer

variable {f : Respelling}

/-! ## Calls and functions -/

mutual

theorem Expr.callsFunction_respell : ∀ e : Expr, (e.respell f).callsFunction = e.callsFunction
  | .int .. | .double .. | .bool .. | .char .. | .string .. | .name .. | .newList .. => rfl
  | .arithmetic _ _ left right | .relational _ _ left right | .logical _ _ left right
  | .index _ left right => by
    simp only [Expr.respell, Expr.callsFunction, left.callsFunction_respell,
      right.callsFunction_respell]
  | .negate _ e | .not _ e | .cast _ _ e | .group _ e => by
    simp only [Expr.respell, Expr.callsFunction, e.callsFunction_respell]
  | .call _ _ es | .vector _ es | .matrix _ es => by
    simp only [Expr.respell, Expr.callsFunction, anyCallsFunction_respell es,
      Builtin.ofName?_respell]
  | .method _ receiver _ es => by
    simp only [Expr.respell, Expr.callsFunction, receiver.callsFunction_respell,
      anyCallsFunction_respell es]
  | .cell _ target index column => by
    simp only [Expr.respell, Expr.callsFunction, target.callsFunction_respell,
      index.callsFunction_respell, column.callsFunction_respell]

theorem anyCallsFunction_respell (es : List Expr) :
    anyCallsFunction (respellAll f es) = anyCallsFunction es := by
  cases es with
  | nil => rfl
  | cons e es =>
    simp only [respellAll, anyCallsFunction, e.callsFunction_respell, anyCallsFunction_respell es]

end

theorem any_callsFunction_respell (e : Option Expr) :
    (e.map (Expr.respell f)).any Expr.callsFunction = e.any Expr.callsFunction := by
  cases e with
  | none => rfl
  | some e => exact e.callsFunction_respell

mutual

theorem Stmt.callsFunction_respell : ∀ s : Stmt, (s.respell f).callsFunction = s.callsFunction
  | .start .. | .function _ | .breakOut _ | .continueOn _ => rfl
  | .declare _ _ _ value | .giveBack _ value => any_callsFunction_respell value
  | .assign _ _ value | .print _ value | .expression _ value => value.callsFunction_respell
  | .step _ target _ => target.callsFunction_respell
  | .assignIndex _ target index column value => by
    simp only [Stmt.respell, Stmt.callsFunction, Expr.callsFunction_respell,
      any_callsFunction_respell column]
  | .block b => blockCallsFunction_respell b
  | .branch _ test body otherwise => by
    simp only [Stmt.respell, Stmt.callsFunction, Expr.callsFunction_respell,
      blockCallsFunction_respell body, optionalCallsFunction_respell otherwise]
  | .switch _ scrutinee cases fallback => by
    simp only [Stmt.respell, Stmt.callsFunction, Expr.callsFunction_respell,
      casesCallFunction_respell cases, defaultCallsFunction_respell fallback]
  | .whileLoop _ test body | .doLoop _ body test => by
    simp only [Stmt.respell, Stmt.callsFunction, Expr.callsFunction_respell,
      blockCallsFunction_respell body]
  | .forLoop _ first test next body => by
    simp only [Stmt.respell, Stmt.callsFunction, any_callsFunction_respell test,
      optionalCallsFunction_respell first, optionalCallsFunction_respell next,
      blockCallsFunction_respell body]

theorem blockCallsFunction_respell : ∀ b : BlockOf Stmt,
    blockCallsFunction (respellBlock f b) = blockCallsFunction b
  | ⟨body, _⟩ => stmtsCallFunction_respell body

theorem stmtsCallFunction_respell (ss : List Stmt) :
    stmtsCallFunction (respellStmts f ss) = stmtsCallFunction ss := by
  cases ss with
  | nil => rfl
  | cons s ss =>
    simp only [respellStmts, stmtsCallFunction, s.callsFunction_respell,
      stmtsCallFunction_respell ss]

theorem optionalCallsFunction_respell (s : Option Stmt) :
    optionalCallsFunction (respellOptional f s) = optionalCallsFunction s := by
  cases s with
  | none => rfl
  | some s => exact s.callsFunction_respell

theorem casesCallFunction_respell (ks : List (CaseOf Stmt)) :
    casesCallFunction (respellCases f ks) = casesCallFunction ks := by
  cases ks with
  | nil => rfl
  | cons k ks =>
    simp only [respellCases, casesCallFunction, caseCallsFunction_respell k,
      casesCallFunction_respell ks]

theorem caseCallsFunction_respell : ∀ k : CaseOf Stmt,
    caseCallsFunction (respellCase f k) = caseCallsFunction k
  | ⟨value, body, _⟩ => by
    simp only [respellCase, caseCallsFunction, value.callsFunction_respell,
      stmtsCallFunction_respell body]

theorem defaultCallsFunction_respell (d : Option (List Stmt)) :
    defaultCallsFunction (respellDefault f d) = defaultCallsFunction d := by
  cases d with
  | none => rfl
  | some body => exact stmtsCallFunction_respell body

end

theorem Program.functions_respell (p : Program) :
    (p.respell f).functions = p.functions.map (respellFunction f) := by
  simp only [functions, respell, List.filterMap_map, List.map_filterMap, Function.comp_def,
    Stmt.function?_respell]

/-- The functions of one frame are those of the other respelled. -/
def Frame.Respelt (f : Respelling) (fr fr' : Frame Function) : Prop :=
  ∀ name, fr'.find? (f name) = (fr.find? name).map (respellFunction f)

namespace Frame.Respelt

variable {fr fr' : Frame Function}

theorem has (h : fr.Respelt f fr') (name : String) : fr'.has (f name) = fr.has name := by
  simp only [Frame.has, h name, Option.isSome_map]

theorem add (h : fr.Respelt f fr') (g : Function) :
    (fr.add g.name g).Respelt f (fr'.add (f g.name) (respellFunction f g)) := fun name => by
  simp only [find?_add, f.fold_apply, h name]
  split <;> rfl

end Frame.Respelt

/-! ## Checks -/

namespace Checker

variable {b b' c c' : Checker}

theorem register_matches (h : Matches f b b' c c') (g : Function) :
    Matches f b b' (c.register g) (c'.register (respellFunction f g)) := by
  have hfunctions : c.functions.Respelt f c'.functions := h.functions
  simp only [register, respellFunction_name, respellFunction_span, Builtin.ofName?_respell,
    hfunctions.has]
  split
  · refine h.note ?_ _
    exact ⟨rfl, rfl, by rintro rfl; rfl⟩
  · split
    · refine h.note ?_ _
      exact ⟨rfl, rfl, by rintro rfl; rfl⟩
    · exact { h with functions := hfunctions.add g }

theorem functions_matches {step : Checker → Function → Checker}
    (hstep : ∀ {c c'} (g : Function), Matches f b b' c c' →
      Matches f b b' (step c g) (step c' (respellFunction f g))) (gs : List Function)
    (h : Matches f b b' c c') :
    Matches f b b' (gs.foldl step c) ((gs.map (respellFunction f)).foldl step c') := by
  rw [List.foldl_map]
  exact List.foldl_rel h fun g _ _ _ h => hstep g h

theorem topLevel_matches : ∀ (ss : List Stmt) (gs : List Function) {c c' : Checker},
    Matches f b b' c c' → Matches f b b' (topLevel gs ss c)
      (topLevel (gs.map (respellFunction f)) (ss.map (Stmt.respell f)) c')
  | [], gs, _, _, h => functions_matches (fun g h => function_matches h g) gs h
  | s :: ss, gs, c, c', h => by
    simp only [List.map_cons, topLevel, s.callsFunction_respell]
    split
    · have hgs := functions_matches (fun g h => function_matches h g) gs h
      exact topLevel_matches ss [] (stmt_matches s hgs)
    · exact topLevel_matches ss gs (stmt_matches s h)

theorem entryPoint_matches (h : Matches f b b' c c') (hb : b'.entries = b.entries) (n : Nat) :
    Matches f b b' (c.entryPoint n) (c'.entryPoint n) := by
  obtain ⟨k, hk, hk'⟩ := h.entries
  have hentries : c'.entries = c.entries := by rw [hk', hk, hb]
  simp only [entryPoint, hentries]
  split
  · split
    · exact h
    · exact h.note (.refl _) _
  · exact h
  · exact h.note (.refl _) _

theorem matches_start : Matches f {} {} {} {} where
  scopes := ⟨.nil, .nil⟩
  functions _ := rfl
  current := rfl
  returnFound := rfl
  report := ⟨[], [], rfl, rfl, .nil⟩
  entries := ⟨0, rfl, rfl⟩

end Checker

/-- What is found in a program in another spelling matches what is found in the program. -/
theorem Program.analyze_respell (p : Program) :
    p.analyze.report.toList.Forall₂ (Diagnostic.Matches f) (p.respell f).analyze.report.toList := by
  have hregistered := Checker.functions_matches (fun g h => Checker.register_matches h g)
    p.functions (Checker.matches_start (f := f))
  have h := Checker.entryPoint_matches (Checker.topLevel_matches p.body p.functions hregistered) rfl
    p.functions.length
  simp only [analyze, functions_respell, List.length_map]
  obtain ⟨ds, ds', hds, hds', hmatch⟩ := h.report
  rw [hds]
  exact hds' ▸ hmatch

/-! ## Runs -/

theorem Machine.register_matches {m m' : Machine} (h : m.Matches f m') (g : Function) :
    (m.register g).Matches f (m'.register (respellFunction f g)) := by
  have hfunctions : m.functions.Respelt f m'.functions := h.functions
  simp only [register, register?, respellFunction_name, respellFunction_span, hfunctions.has]
  cases m.functions.has g.name with
  | true =>
    refine h.note ?_
    exact ⟨⟨rfl, rfl, by rintro rfl; rfl⟩, rfl⟩
  | false => exact { h with functions := hfunctions.add g }

theorem Program.loaded_respell (limit : Nat) (p : Program) :
    (p.loaded limit).Matches f ((p.respell f).loaded limit) := by
  have hfresh : (Machine.fresh limit).Matches f (Machine.fresh limit) := {
    scopes := ⟨.nil, .nil⟩
    core := rfl
    report := .nil
    functions := fun _ => rfl
    failure := .none
    depth := rfl
    limit := rfl }
  simp only [loaded, functions_respell, List.foldl_map]
  exact List.foldl_rel hfresh fun g _ _ _ h => Machine.register_matches h g

/-- A program in another spelling runs as the program does. -/
theorem Program.execute_respell (fuel limit : Nat) (p : Program) :
    Option.Rel (Machine.Matches f) (p.execute fuel limit) ((p.respell f).execute fuel limit) := by
  have h := (Watched.respected_twins f False).topLevel fuel p.body [] _ _ (p.loaded_respell limit)
  rw [Watched.run_topLevel] at h
  simp only [execute]
  change Outcome.Twins f False _ ((Eval.topLevel fuel (p.respell f).body : Eval Unit) _) at h
  generalize (Eval.topLevel fuel p.body : Eval Unit) (p.loaded limit) = r,
    (Eval.topLevel fuel (p.respell f).body : Eval Unit) ((p.respell f).loaded limit) = r' at h
  cases h with
  | done h => exact .some h
  | failed _ h => exact .some h
  | exhausted h =>
    obtain rfl := h.resolve_left id
    exact .none

/-! ## Sessions -/

/-- What a diagnostic is about: its name, its family and its place, whatever it quotes. -/
def Diagnostic.outline (d : Diagnostic) : String × Family × Position :=
  (d.fault.name, d.fault.family, d.position)

/-- What the diagnostics of a report are about, in their order. -/
def Report.outlines (r : Report) : List (String × Family × Position) :=
  r.toList.map Diagnostic.outline

theorem Diagnostic.Matches.outline {d d' : Diagnostic} (h : d.Matches f d') :
    d'.outline = d.outline := by
  simp only [Diagnostic.outline, h.fault.name, h.fault.family, h.position]

theorem Report.outlines_of_matches {r r' : Report}
    (h : r.toList.Forall₂ (Diagnostic.Matches f) r'.toList) : r'.outlines = r.outlines := by
  unfold outlines
  generalize r.toList = ds, r'.toList = ds' at h
  induction h with
  | nil => rfl
  | cons h _ ih => rw [List.map_cons, List.map_cons, h.outline, ih]

theorem Report.isEmpty_of_outlines {r r' : Report} (h : r'.outlines = r.outlines) :
    r'.isEmpty = r.isEmpty := by
  have hlength := congrArg List.length h
  simp only [outlines, List.length_map, toList, Array.length_toList] at hlength
  simp only [isEmpty, Array.isEmpty, hlength]

namespace Program

variable {p q : Program}

theorem analyze_alike (h : p.respell f = q.respell f) :
    q.analyze.report.outlines = p.analyze.report.outlines := by
  have hp := Report.outlines_of_matches (p.analyze_respell (f := f))
  rw [h] at hp
  exact (Report.outlines_of_matches q.analyze_respell).symm.trans hp

theorem execute_alike (h : p.respell f = q.respell f) (fuel limit : Nat) :
    Option.Rel (fun m m' => m'.output = m.output ∧ m'.report.outlines = m.report.outlines)
      (p.execute fuel limit) (q.execute fuel limit) := by
  have hp := p.execute_respell (f := f) fuel limit
  have hq := q.execute_respell (f := f) fuel limit
  rw [h] at hp
  generalize p.execute fuel limit = o, q.execute fuel limit = o',
    (q.respell f).execute fuel limit = o'' at hp hq
  cases hp with
  | none =>
    cases hq
    exact .none
  | some hm =>
    cases hq with
    | some hm' =>
      obtain ⟨-, -, -, ho, -⟩ := Machine.core_eq_iff.1 hm.core
      obtain ⟨-, -, -, ho', -⟩ := Machine.core_eq_iff.1 hm'.core
      exact .some ⟨ho'.trans ho.symm, (Report.outlines_of_matches hm'.report).symm.trans
        (Report.outlines_of_matches hm.report)⟩

/-- Tokens that are the same in lower case spell programs that are so, or have the same mistake. -/
theorem ofTokens_alike {ts us : List Token}
    (h : ts.map (Token.respell f) = us.map (Token.respell f)) :
    (∃ d d', ofTokens ts = .error d ∧ ofTokens us = .error d' ∧ d'.outline = d.outline) ∨
      ∃ p q, ofTokens ts = .ok p ∧ ofTokens us = .ok q ∧ p.respell f = q.respell f := by
  have hts := ofTokens_respell (f := f) ts
  have hus := ofTokens_respell (f := f) us
  rw [← h] at hus
  generalize ofTokens (ts.map (Token.respell f)) = common at hts hus
  generalize ofTokens ts = r, ofTokens us = r' at hts hus
  cases r with
  | error d =>
    cases hts with
    | error hd =>
      cases r' with
      | error d' =>
        cases hus with
        | error hd' => exact .inl ⟨d, d', rfl, rfl, hd'.outline.symm.trans hd.outline⟩
      | ok q => cases hus
  | ok p =>
    cases hts
    cases r' with
    | error d' => cases hus
    | ok q => exact .inr ⟨p, q, rfl, rfl, Concurs.ok_eq hus⟩

/-- Recased texts spell programs that are the same in lower case, or have the same mistake. -/
theorem ofSource_recased {s t : String} (h : Recased s.toList t.toList) :
    (∃ d d', ofSource s = .error d ∧ ofSource t = .error d' ∧ d'.outline = d.outline) ∨
      ∃ p q, ofSource s = .ok p ∧ ofSource t = .ok q ∧ p.respell .lower = q.respell .lower := by
  have hread := Token.readFrom_recased h .start
  unfold ofSource Token.read
  generalize Token.readFrom .start s.toList = r, Token.readFrom .start t.toList = r' at hread
  cases r with
  | error d =>
    cases r' with
    | error d' =>
      cases hread
      exact .inl ⟨d, d, rfl, rfl, rfl⟩
    | ok us => cases hread
  | ok ts =>
    cases r' with
    | error d' => cases hread
    | ok us => exact ofTokens_alike (Except.ok.inj hread).symm

end Program

namespace Session

/-- Two sessions that went the same way: they ran or did not, printed the same lines, and have
diagnostics of the same names and families at the same places, in the same order. -/
structure Agrees (s s' : Session) : Prop where
  ran : s'.ran = s.ran
  output : s'.output = s.output
  report : s'.report.outlines = s.report.outlines

/-- What comes of a text does not depend on the case in which its words are written. -/
theorem run_recased {s t : String} (h : Recased s.toList t.toList) (fuel limit : Nat) :
    Option.Rel Agrees (run fuel limit s) (run fuel limit t) := by
  unfold run
  rcases Program.ofSource_recased h with ⟨d, d', hs, ht, hd⟩ | ⟨p, q, hs, ht, hpq⟩
  · rw [hs, ht]
    exact .some ⟨rfl, rfl, congrArg (fun o => [o]) hd⟩
  · have hanalysis := Program.analyze_alike hpq
    rw [hs, ht]
    simp only [Report.isEmpty_of_outlines hanalysis]
    split
    · have hrun := Program.execute_alike hpq fuel limit
      generalize p.execute fuel limit = o, q.execute fuel limit = o' at hrun
      cases hrun with
      | none => exact .none
      | some h => exact .some ⟨rfl, h.1, h.2⟩
    · exact .some ⟨rfl, rfl, hanalysis⟩

/-- A name that is read in another case than it was declared in, beside a string in both. -/
theorem run_recased_total :
    let s := "VAR Total: INT = 2; PrintLn(total * TOTAL + \"Total\");"
    let t := "var TOTAL: int = 2; println(Total * total + \"Total\");"
    Recased s.toList t.toList ∧ Option.Rel Agrees (run 30 8 s) (run 30 8 t) ∧
      (run 30 8 s).any (fun r => r.ran && r.output == #["4Total"] && r.report.isEmpty) = true := by
  intro s t
  have h : Recased s.toList t.toList := by decide +kernel
  exact ⟨h, run_recased h 30 8, by decide +kernel⟩

end Session

end Primer
