import Primer.Proofs.Absorption
import Primer.Proofs.Placement

/-!
# One mistake, one complaint

Two checks that see the same names go alike, so a statement adds to the report what it adds to an
empty one. With a mistake in it, it adds the complaints about the mistake and no others, and it
declares what it declared without (`Checker.errors_absorbed`). An assignment to a name without a
declaration is a mistake of its own (`Checker.assign_undeclared`).
-/

namespace Primer

open Judged (Blames)

namespace Checker

open Names (Mistaken Spoils)

variable {N : Names} {ds : List Diagnostic} {x y : Expr} {c c' d d' : Checker}

/-! ## Checks that see the same -/

theorem silent_iff : c.Silent ↔ c.report.toList = [] := by
  simp [Silent, Report.isEmpty, Report.toList]

theorem observe_quiet {α : Type} {j : Judged α} (h : j.notes = []) : c.observe j = c := by
  simp [observe, judge, h, Report.append]

theorem judged_eq {α : Type} {j j' : Judged α} (h : j.Matches .same j') : j' = j :=
  congrArg₂ Judged.mk h.value (Report.eq_of_matches h.notes)

namespace Sees

variable (h : c.Sees c')
include h

theorem infer (e : Expr) : c'.infer e = c.infer e := by
  have hm := Names.infer_matches h.toMatches e
  rw [e.respell_same] at hm
  exact judged_eq hm

theorem condition (e : Expr) (construct : String) :
    Checker.condition c'.toNames e construct = Checker.condition c.toNames e construct := by
  have hm := condition_matches h.toMatches e construct
  rw [e.respell_same] at hm
  exact judged_eq hm

theorem caseValue (t : Ty) (e : Expr) :
    Checker.caseValue c'.toNames t e = Checker.caseValue c.toNames t e := by
  have hm := caseValue_matches h.toMatches t e
  rw [e.respell_same] at hm
  exact judged_eq hm

theorem observe {α : Type} {j j' : Judged α} : (c.observe j).Sees (c'.observe j') :=
  { h with }

theorem enterScope : c.enterScope.Sees c'.enterScope := h.begins.enterScope.sees

theorem enterLabelled (label label' : String) :
    (c.enterLabelled label).Sees (c'.enterLabelled label') :=
  (h.begins.enterLabelled label label').sees

theorem stmt (s : Stmt) : Matches .same c c' (Checker.stmt s c) (Checker.stmt s c') := by
  have hm := stmt_matches s h.begins
  rwa [s.respell_same] at hm

theorem stmts (ss : List Stmt) : Matches .same c c' (Checker.stmts ss c) (Checker.stmts ss c') := by
  have hm := stmts_matches ss h.begins
  rwa [respellStmts_same] at hm

theorem block (b : Block) : Matches .same c c' (Checker.block b c) (Checker.block b c') := by
  have hm := block_matches b h.begins
  rwa [respellBlock_same] at hm

theorem optional (s : Option Stmt) :
    Matches .same c c' (Checker.optional s c) (Checker.optional s c') := by
  have hm := optional_matches s h.begins
  rwa [respellOptional_same] at hm

theorem default (d : Option (List Stmt)) :
    Matches .same c c' (Checker.default d c) (Checker.default d c') := by
  have hm := default_matches d h.begins
  rwa [respellDefault_same] at hm

theorem cases (t : Ty) (ks : List Case) :
    Matches .same c c' (Checker.cases t ks c) (Checker.cases t ks c') := by
  have hm := cases_matches t ks h.begins
  rwa [respellCases_same] at hm

theorem enterFunction (f : Function) : (c.enterFunction f).Sees (c'.enterFunction f) := by
  have hm := enterFunction_matches h.begins f
  rw [respellFunction_same] at hm
  exact hm.sees

theorem function (f : Function) : Matches .same c c' (c.function f) (c'.function f) := by
  have hm := function_matches h.begins f
  rwa [respellFunction_same] at hm

theorem goesOn (e : Option Expr) : Matches .same c c' (c.goesOn e) (c'.goesOn e) := by
  have hm := h.begins.goesOn e
  rwa [Expr.respell_same_eq, Option.map_id] at hm

/-- Where the checks are in a statement, they see the same too. -/
theorem switched (e : Expr) (ks : List Case) : (switched e ks c).Sees (switched e ks c') := by
  unfold Checker.switched
  rw [h.infer e]
  exact ((h.observe.enterLabelled _ _).cases _ ks).sees

theorem looped (first : Option Stmt) (test : Option Expr) :
    (looped first test c).Sees (looped first test c') :=
  (((h.enterLabelled _ _).optional first).sees.goesOn test).sees

theorem nest (nest : Stmt.Nest) : (nest.reach c).Sees (nest.reach c') := by
  cases nest with
  | inBlock before => exact (h.enterScope.stmts before).sees
  | inBranch _ _ before => exact (h.observe.enterScope.stmts before).sees
  | inElse _ _ body => exact (h.observe.block body).sees
  | inCase _ e ks _ before => exact ((h.switched e ks).observe.stmts before).sees
  | inDefault _ e ks before => exact ((h.switched e ks).stmts before).sees
  | inWhile _ _ before => exact ((h.enterLabelled _ _).observe.enterScope.stmts before).sees
  | inDo _ before => exact ((h.enterLabelled _ _).enterScope.stmts before).sees
  | inFirst => exact h.enterLabelled _ _
  | inNext _ first test => exact h.looped first test
  | inFor _ first test next before =>
    exact (((h.looped first test).optional next).sees.enterScope.stmts before).sees

theorem hole (x : Expr) (hole : Stmt.Hole) : (hole.reach x c).Sees (hole.reach x c') := by
  cases hole with
  | case _ e before => exact h.switched e before
  | whileTest => exact h.enterLabelled _ _
  | doTest _ body => exact ((h.enterLabelled _ _).block body).sees
  | forTest _ first => exact ((h.enterLabelled _ _).optional first).sees
  | _ => exact h

omit h in
theorem site (site : Stmt.Site) (x : Expr) {c c' : Checker} (h : c.Sees c') :
    (site.reach x c).Sees (site.reach x c') := by
  obtain ⟨nests, hole, holes⟩ := site
  induction nests generalizing c c' with
  | nil => exact h.hole _ hole
  | cons nest nests ih => exact ih (h.nest nest)

end Sees

/-! ## Checks that differ in a complaint -/

/-- Two checks see the same, and only the second has reported anything. -/
structure Blamed (ds : List Diagnostic) (c c' : Checker) : Prop extends c.Sees c' where
  silent : c.Silent
  report : c'.report.toList = ds

namespace Blamed

theorem refl (h : c.Silent) : Blamed [] c c :=
  { Sees.refl c with
    silent := h
    report := silent_iff.1 h }

/-- What adds nothing to the one adds nothing to the other. -/
theorem of_matches (h : Blamed ds c c') (hm : Matches .same c c' d d') (hs : d.Silent) :
    Blamed ds d d' := by
  obtain ⟨es, hes, hes'⟩ := hm.report_eq
  have hnone : es = [] := by
    rw [silent_iff.1 hs] at hes
    exact (List.append_eq_nil_iff.1 hes.symm).2
  exact { hm.sees with
    silent := hs
    report := by rw [hes', hnone, List.append_nil, h.report] }

section

variable (h : Blamed ds c c')
include h

theorem stmts {ss : List Stmt} (hs : (stmts ss c).Silent) :
    Blamed ds (stmts ss c) (Checker.stmts ss c') :=
  h.of_matches (h.toSees.stmts ss) hs

theorem block {b : Block} (hs : (block b c).Silent) :
    Blamed ds (block b c) (Checker.block b c') :=
  h.of_matches (h.toSees.block b) hs

theorem optional {s : Option Stmt} (hs : (optional s c).Silent) :
    Blamed ds (optional s c) (Checker.optional s c') :=
  h.of_matches (h.toSees.optional s) hs

theorem default {d : Option (List Stmt)} (hs : (default d c).Silent) :
    Blamed ds (default d c) (Checker.default d c') :=
  h.of_matches (h.toSees.default d) hs

theorem cases {t : Ty} {ks : List Case} (hs : (cases t ks c).Silent) :
    Blamed ds (cases t ks c) (Checker.cases t ks c') :=
  h.of_matches (h.toSees.cases t ks) hs

theorem goesOn {e : Option Expr} (hs : (c.goesOn e).Silent) :
    Blamed ds (c.goesOn e) (c'.goesOn e) :=
  h.of_matches (h.toSees.goesOn e) hs

theorem tested {e : Expr} {construct : String}
    (hs : (c.observe (condition c.toNames e construct)).Silent) :
    Blamed ds (c.observe (condition c.toNames e construct))
      (c'.observe (condition c'.toNames e construct)) := by
  obtain ⟨-, hn⟩ := silent_observe.1 hs
  rw [h.toSees.condition, observe_quiet hn, observe_quiet hn]
  exact h

theorem declare {name : String} {ty : Ty} {category : Category} {p : Position}
    (hs : (c.declare name ty category p).Silent) :
    Blamed ds (c.declare name ty category p) (c'.declare name ty category p) :=
  h.of_matches (h.begins.declare name ty category p) hs

theorem returned {t : Option Ty} {p : Position} (hs : (c.returned t p).Silent) :
    Blamed ds (c.returned t p) (c'.returned t p) :=
  h.of_matches (h.begins.returned t p) hs

theorem enterLabelled (label label' : String) :
    Blamed ds (c.enterLabelled label) (c'.enterLabelled label') :=
  h.of_matches (h.begins.enterLabelled label label') h.silent

theorem leaveLabelled : Blamed ds c.leaveLabelled c'.leaveLabelled :=
  h.of_matches h.begins.leaveLabelled h.silent

theorem leaveScope : Blamed ds c.leaveScope c'.leaveScope :=
  h.of_matches h.begins.leaveScope h.silent

end

/-- What is complained about in the one result is all that is reported. -/
theorem observe {α : Type} {bad : α → Prop} {j j' : Judged α} (h : Blamed [] c c')
    (hj : Blames ds bad j j') (hs : (c.observe j).Silent) :
    Blamed ds (c.observe j) (c'.observe j') := by
  obtain ⟨-, hn⟩ := silent_observe.1 hs
  have hreport := h.report
  simp only [Report.toList] at hreport
  exact { h.toSees.observe with
    silent := hs
    report := by simp [Checker.observe, judge, Report.append, Report.toList, hreport, (hj hn).1] }

theorem condition (h : Blamed [] c c') (hspoils : c.toNames.Spoils ds x y) {construct : String}
    (hs : (c.observe (condition c.toNames x construct)).Silent) :
    Blamed ds (c.observe (Checker.condition c.toNames x construct))
      (c'.observe (Checker.condition c'.toNames y construct)) := by
  rw [h.toSees.condition]
  exact h.observe (condition_blames hspoils construct) hs

/-- Nothing is complained about in the cases of a switch on an error. -/
theorem cases_error {t : Ty} {ks : List Case} (h : Blamed ds c c')
    (hs : (Checker.cases t ks c).Silent) :
    Blamed ds (Checker.cases t ks c) (Checker.cases .error ks c') := by
  induction ks generalizing c c' with
  | nil => exact h
  | cons k ks ih =>
    obtain ⟨value, body, span⟩ := k
    refine ih ?_ hs
    have hcase := (cases_grows t ks _).silent hs
    obtain ⟨-, hn⟩ := silent_observe.1 ((stmts_grows body _).silent hcase)
    have hn' : (caseValue c'.toNames .error value).notes = [] := by
      rw [h.caseValue]
      exact caseValue_error hn
    simp only [Checker.case, observe_quiet hn, observe_quiet hn'] at hcase ⊢
    exact h.stmts hcase

end Blamed

theorem observed {α : Type} {bad : α → Prop} {j j' : Judged α} (hj : Blames ds bad j j')
    (hs : (c.observe j).Silent) : Blamed ds (c.observe j) (c.observe j') :=
  (Blamed.refl (silent_observe.1 hs).1).observe hj hs

/-- An error is returned where a value is that is not complained about. -/
theorem returned_error {t : Ty} {p : Position} (hs : (c.returned (some t) p).Silent) :
    c.returned (some .error) p = c.returned (some t) p := by
  obtain hf | ⟨f, hf⟩ := Option.eq_none_or_eq_some c.current
  · simp only [returned, hf] at hs
    exact absurd hs silent_note
  · simp only [returned, hf] at hs ⊢
    split_ifs at hs with hp ht
    · exact absurd hs silent_note
    · simp [hp, ht]
    · exact absurd hs silent_note

theorem stmts_append (ss us : List Stmt) (c : Checker) :
    stmts (ss ++ us) c = stmts us (stmts ss c) := by
  induction ss generalizing c with
  | nil => rfl
  | cons s ss ih => exact ih _

theorem cases_append (t : Ty) (ks ls : List Case) (c : Checker) :
    cases t (ks ++ ls) c = cases t ls (cases t ks c) := by
  induction ks generalizing c with
  | nil => rfl
  | cons k ks ih => exact ih _

theorem switched_blamed {ks : List Case} (h : c.toNames.Spoils ds x y)
    (hs : (switched x ks c).Silent) : Blamed ds (switched x ks c) (switched y ks c) := by
  have hentered := (cases_grows _ ks _).silent hs
  have hjudged : (c.observe (c.infer x)).Silent := hentered
  have hblamed := (observed h hjudged).enterLabelled (Label.ofSwitch x) (Label.ofSwitch y)
  unfold switched at hs ⊢
  -- Cases compare with an error or, where the mistake is in the arguments of a call, with the type.
  obtain hv | hv := (h (silent_observe.1 hjudged).2).2 <;> rw [hv]
  · exact hblamed.cases_error hs
  · exact hblamed.cases hs

/-- Where nothing is complained about in the first statement, nothing but `ds` is in the second. -/
abbrev Mistakes (c : Checker) (ds : List Diagnostic) (s s' : Stmt) : Prop :=
  (stmt s c).Silent → Blamed ds (stmt s c) (stmt s' c)

/-- A statement with a mistaken expression in it is complained about for the mistake only. -/
theorem hole_blamed {hole : Stmt.Hole} (h : (hole.reach x c).toNames.Mistaken ds x y) :
    c.Mistakes ds (hole.fill x) (hole.fill y) := by
  intro hs
  cases hole with
  | initial span name ty =>
    exact (observed (initial_blames h name ty) (grows_declare.silent hs)).declare hs
  | assigned span name => exact observed (assignment_blames h name span.start) hs
  | target span i j v => exact observed (target_blames h.infer i j v span.start) hs
  | index span t j v => exact observed (index_blames h.infer t j v span.start) hs
  | column span t i v => exact observed (column_blames h.infer t i v span.start) hs
  | value span t i j => exact observed (value_blames h.infer t i j span.start) hs
  | step span up => exact observed (step_blames h.infer span.start) hs
  | branch span body other =>
    have hbody := (optional_grows other _).silent hs
    have htest := (block_keeps body _).silent hbody
    exact ((observed (condition_blames h.infer "if") htest).block hbody).optional hs
  | scrutinee span ks d =>
    exact ((switched_blamed h.infer ((default_grows d _).silent hs)).default hs).leaveLabelled
  | case span e before body own after d =>
    have hcases := (default_grows d _).silent hs
    refine (Blamed.default ?_ hs).leaveLabelled
    rw [cases_append] at hcases ⊢
    rw [cases_append]
    have hafter := (cases_grows _ after _).silent hcases
    have hvalue := (stmts_grows body _).silent hafter
    exact ((observed (caseValue_blames h.infer _) hvalue).stmts hafter).cases hcases
  | whileTest span body =>
    have htest := (block_keeps body _).silent hs
    have hc : c.Silent := (silent_observe.1 htest).1
    have hspoils : (c.enterLabelled (Label.ofWhile x)).toNames.Spoils ds x y := h.infer
    -- The label spells the test out, so the paths differ; what is seen does not.
    have henter := (Blamed.refl hc).enterLabelled (Label.ofWhile x) (Label.ofWhile y)
    exact ((henter.condition hspoils htest).block hs).leaveLabelled
  | doTest span body =>
    have hbody := (silent_observe.1 hs).1
    have hentered := (block_keeps body _).silent hbody
    have hc : c.Silent := hentered
    have hspoils : (Checker.block body (c.enterLabelled (Label.ofDo x))).toNames.Spoils ds x y :=
      h.infer
    have henter := (Blamed.refl hc).enterLabelled (Label.ofDo x) (Label.ofDo y)
    exact ((henter.block hbody).condition hspoils hs).leaveLabelled
  | forTest span first next body =>
    have hnext := (block_keeps body _).silent hs
    have htest := (optional_grows next _).silent hnext
    have hfirst := (silent_observe.1 htest).1
    have hentered := (optional_grows first _).silent hfirst
    have hc : c.Silent := hentered
    have hspoils : (Checker.optional first (c.enterLabelled (Label.ofFor (some x)))).toNames.Spoils
      ds x y := h.infer
    have henter := (Blamed.refl hc).enterLabelled (Label.ofFor (some x)) (Label.ofFor (some y))
    have hpassed := (henter.optional hfirst).condition hspoils htest
    exact ((hpassed.optional hnext).block hs).leaveLabelled
  | print span => exact observed h.infer hs
  | giveBack span =>
    have hs : ((c.observe (c.infer x)).returned (some (c.infer x).value) span.start).Silent := hs
    have he := keeps_returned.silent hs
    have hspoils : c.toNames.Spoils ds x y := h.infer
    have hblamed := observed hspoils he
    change Blamed ds ((c.observe (c.infer x)).returned (some (c.infer x).value) span.start)
      ((c.observe (c.infer y)).returned (some (c.infer y).value) span.start)
    obtain hv | hv := (hspoils (silent_observe.1 he).2).2 <;> rw [hv]
    · have herror := returned_error hs
      rw [← herror] at hs ⊢
      exact hblamed.returned hs
    · exact hblamed.returned hs
  | start span name before after =>
    exact observed (h.infer.call name before after span.start) hs
  | expression span => exact observed h.infer hs

section Nest

variable {s s' : Stmt} {before after : List Stmt}

theorem stmts_blamed (h : (stmts before c).Mistakes ds s s')
    (hs : (stmts (before ++ s :: after) c).Silent) :
    Blamed ds (stmts (before ++ s :: after) c) (stmts (before ++ s' :: after) c) := by
  rw [stmts_append] at hs ⊢
  rw [stmts_append]
  exact (h ((stmts_grows after _).silent hs)).stmts hs

theorem block_blamed (own : Span) (h : (stmts before c.enterScope).Mistakes ds s s')
    (hs : (block ⟨before ++ s :: after, own⟩ c).Silent) :
    Blamed ds (block ⟨before ++ s :: after, own⟩ c) (block ⟨before ++ s' :: after, own⟩ c) :=
  (stmts_blamed h hs).leaveScope

/-- What is complained about in a statement is complained about in one that has it in it. -/
theorem nest_blamed {nest : Stmt.Nest} (h : (nest.reach c).Mistakes ds s s') :
    c.Mistakes ds (nest.fill s) (nest.fill s') := by
  intro hs
  cases nest with
  | inBlock before after own => exact block_blamed own h hs
  | inBranch span test before after own other =>
    exact (block_blamed own h ((optional_grows other _).silent hs)).optional hs
  | inElse span test body => exact h hs
  | inCase span e ks value before after own more d =>
    have hcases := (default_grows d _).silent hs
    refine (Blamed.default ?_ hs).leaveLabelled
    rw [cases_append] at hcases ⊢
    rw [cases_append]
    exact (stmts_blamed h ((cases_grows _ more _).silent hcases)).cases hcases
  | inDefault span e ks before after => exact (stmts_blamed h hs).leaveLabelled
  | inWhile span test before after own => exact (block_blamed own h hs).leaveLabelled
  | inDo span before after own test =>
    have hbody := keeps_observe.silent hs
    exact ((block_blamed own h hbody).tested hs).leaveLabelled
  | inFirst span test next body =>
    have hnext := (block_keeps body _).silent hs
    have htest := (optional_grows next _).silent hnext
    have hfirst := (keeps_goesOn test).silent htest
    exact ((((h hfirst).goesOn htest).optional hnext).block hs).leaveLabelled
  | inNext span first test body =>
    exact ((h ((block_keeps body _).silent hs)).block hs).leaveLabelled
  | inFor span first test next before after own => exact (block_blamed own h hs).leaveLabelled

end Nest

/-- However deep an error is in a statement, it is the only mistake. -/
theorem site_blamed {site : Stmt.Site} {x e : Expr}
    (he : ((site.reach x c).infer e).value = .error) (hu : e.isUntyped = false) :
    c.Mistakes ((site.reach x c).infer e).notes (site.fill x) (site.fill e) := by
  obtain ⟨nests, hole, holes⟩ := site
  induction nests generalizing c with
  | nil => exact hole_blamed (Names.mistaken_fill he hu holes x)
  | cons nest nests ih => exact nest_blamed (ih he)

/-! ## Names after a mistake -/

section Names

variable {s s' : Stmt}

theorem declare_names (h : c'.toNames = c.toNames) (name : String) (ty : Ty) (category : Category)
    (p : Position) :
    (c'.declare name ty category p).toNames = (c.declare name ty category p).toNames := by
  have hs : c'.scopes = c.scopes := congrArg Names.scopes h
  cases hfree : c.scopes.declaredHere name
  · rw [declare_of_free hfree, declare_of_free (hs ▸ hfree), h]
  · rw [declare_of_taken hfree, declare_of_taken (hs ▸ hfree)]
    exact h

/-- What a statement declares depends on the names in scope only. -/
theorem stmt_names (h : c'.toNames = c.toNames) : (stmt s c').toNames = (stmt s c).toNames := by
  fun_induction Stmt.declares s generalizing c c' with
  | case1 span name ty value =>
    cases value <;> refine declare_names ?_ name ty _ span.start <;> exact h
  | case2 span test body s ih =>
    refine ih ?_
    rw [(block_keeps body _).names, (block_keeps body _).names]
    exact h
  | case3 s hdeclare hbranch =>
    -- No other statement leaves a name behind.
    have hs := Stmt.declares.eq_3 s hdeclare hbranch
    rw [(stmt_keeps s c' hs).names, (stmt_keeps s c hs).names, h]

theorem branch_names (span : Span) (test test' : Expr) (body body' : Block) (other : Option Stmt) :
    (stmt (.branch span test' body' other) c).toNames =
      (stmt (.branch span test body other) c).toNames := by
  have hbody (e : Expr) (b : Block) :
      (block b (c.observe (condition c.toNames e "if"))).toNames = c.toNames :=
    (keeps_observe.trans (block_keeps b _)).names
  cases other with
  | none => exact (hbody test' body').trans (hbody test body).symm
  | some s => exact stmt_names ((hbody test' body').trans (hbody test body).symm)

theorem hole_names (hole : Stmt.Hole) :
    (stmt (hole.fill y) c).toNames = (stmt (hole.fill x) c).toNames := by
  cases hole with
  | initial span name ty =>
    refine declare_names ?_ name ty _ span.start
    rfl
  | branch span body other => exact branch_names span x y body body other
  | _ => exact (stmt_keeps _ c rfl).names.trans (stmt_keeps _ c rfl).names.symm

theorem nest_names {nest : Stmt.Nest}
    (h : (stmt s' (nest.reach c)).toNames = (stmt s (nest.reach c)).toNames) :
    (stmt (nest.fill s') c).toNames = (stmt (nest.fill s) c).toNames := by
  cases nest with
  | inElse => exact h
  | inBranch span test before after own other => exact branch_names span test test _ _ other
  | _ => exact (stmt_keeps _ c rfl).names.trans (stmt_keeps _ c rfl).names.symm

theorem site_names (site : Stmt.Site) (x y : Expr) :
    (stmt (site.fill y) c).toNames = (stmt (site.fill x) c).toNames := by
  obtain ⟨nests, hole, holes⟩ := site
  induction nests generalizing c with
  | nil => exact hole_names hole
  | cons nest nests ih => exact nest_names ih

end Names

/-! ## Bodies of functions -/

/-- The check, in a function with another body. -/
def within (c : Checker) (b : Block) : Checker :=
  { c with current := c.current.map fun f => { f with body := b } }

section Within

variable (b : Block)

theorem declare_within (name : String) (ty : Ty) (category : Category) (p : Position) :
    (c.within b).declare name ty category p = (c.declare name ty category p).within b := by
  cases hfree : c.scopes.declaredHere name
  · have hw : (c.within b).declare name ty category p = _ := declare_of_free hfree
    rw [hw, declare_of_free hfree]
    rfl
  · have hw : (c.within b).declare name ty category p = _ := declare_of_taken hfree
    rw [hw, declare_of_taken hfree]
    rfl

theorem returned_within (t : Option Ty) (p : Position) :
    (c.within b).returned t p = (c.returned t p).within b := by
  obtain hc | ⟨f, hc⟩ := Option.eq_none_or_eq_some c.current
  · simp [returned, within, hc, note]
  · have hw : (c.within b).current = some { f with body := b } := by simp [within, hc]
    cases t <;> simp only [returned, hc, hw, apply_ite (within · b)] <;> rfl

theorem goesOn_within (test : Option Expr) :
    (c.within b).goesOn test = (c.goesOn test).within b := by
  cases test <;> rfl

mutual

/-- What a check of a statement does does not depend on the body it stands in. -/
theorem stmt_within : ∀ (s : Stmt) (c : Checker), stmt s (c.within b) = (stmt s c).within b
  | .declare _ name ty none, _ => declare_within b name ty _ _
  | .declare _ name ty (some e), c =>
    declare_within (c := c.observe (initial c.toNames name ty e)) b name ty _ _
  | .assign .., _ | .assignIndex .., _ | .step .., _ | .print .., _ | .start .., _
  | .expression .., _ | .breakOut _, _ | .continueOn _, _ => rfl
  | .block body, c => block_within body c
  | .branch _ test body other, c => by
    have hbody := block_within body (c.observe (condition c.toNames test "if"))
    exact (congrArg (optional other) hbody).trans (optional_within other _)
  | .switch _ e ks d, c => by
    have hcases := cases_within (c.infer e).value ks
      ((c.observe (c.infer e)).enterLabelled (Label.ofSwitch e))
    exact congrArg leaveLabelled ((congrArg (default d) hcases).trans (default_within d _))
  | .whileLoop _ test body, c => by
    exact congrArg leaveLabelled (block_within body ((c.enterLabelled (Label.ofWhile test)).observe
      (condition (c.enterLabelled (Label.ofWhile test)).toNames test "while")))
  | .doLoop _ body test, c => by
    have hbody := block_within body (c.enterLabelled (Label.ofDo test))
    exact congrArg (fun d => (d.observe (condition d.toNames test "do-while")).leaveLabelled) hbody
  | .forLoop _ first test next body, c => by
    have hfirst := optional_within first (c.enterLabelled (Label.ofFor test))
    have htest := congrArg (goesOn · test) hfirst
    have hlooped : _ = (looped first test c).within b := htest.trans (goesOn_within b test)
    have hnext := (congrArg (optional next) hlooped).trans (optional_within next _)
    exact congrArg leaveLabelled ((congrArg (block body) hnext).trans (block_within body _))
  | .function f, c => by
    have hw : (c.within b).current.isNone = c.current.isNone := Option.isNone_map ..
    simp only [stmt, hw, apply_ite (within · b)]
    rfl
  | .giveBack _ none, c => returned_within b none _
  | .giveBack _ (some e), c =>
    returned_within (c := c.observe (c.infer e)) b (some (c.infer e).value) _

theorem stmts_within : ∀ (ss : List Stmt) (c : Checker),
    stmts ss (c.within b) = (stmts ss c).within b
  | [], _ => rfl
  | s :: ss, c => by
    simp only [stmts]
    rw [stmt_within, stmts_within]

theorem block_within : ∀ (k : BlockOf Stmt) (c : Checker),
    block k (c.within b) = (block k c).within b
  | ⟨body, _⟩, c => congrArg leaveScope (stmts_within body c.enterScope)

theorem optional_within : ∀ (s : Option Stmt) (c : Checker),
    optional s (c.within b) = (optional s c).within b
  | none, _ => rfl
  | some s, c => stmt_within s c

theorem cases_within (t : Ty) : ∀ (ks : List (CaseOf Stmt)) (c : Checker),
    cases t ks (c.within b) = (cases t ks c).within b
  | [], _ => rfl
  | k :: ks, c => by
    simp only [cases]
    rw [case_within, cases_within]

theorem case_within (t : Ty) : ∀ (k : CaseOf Stmt) (c : Checker),
    case t k (c.within b) = (case t k c).within b
  | ⟨value, body, _⟩, c => stmts_within body (c.observe (caseValue c.toNames t value))

theorem default_within : ∀ (d : Option (List Stmt)) (c : Checker),
    default d (c.within b) = (default d c).within b
  | none, _ => rfl
  | some body, c => stmts_within body c

end

theorem parameters_within (f : Function) (qs : List Parameter) (c : Checker) :
    qs.foldl (parameter f) (c.within b) = (qs.foldl (parameter f) c).within b := by
  refine List.foldl_hom (within · b) fun c q => ?_
  cases hfree : c.scopes.declaredHere q.name
  · have hw : parameter f (c.within b) q = _ := if_neg (Bool.eq_false_iff.1 hfree)
    rw [hw, declare_within, parameter, if_neg (Bool.eq_false_iff.1 hfree)]
  · have hw : parameter f (c.within b) q = _ := if_pos hfree
    rw [hw, parameter, if_pos hfree]
    rfl

theorem enterFunction_within (f : Function) :
    c.enterFunction { f with body := b } = (c.enterFunction f).within b :=
  parameters_within b f f.parameters
    { c.enterLabelled (Label.ofFunction f.name) with current := some f, returnFound := false }

/-- The check of a function after its body, where a `return` may be missing. -/
def ended (c : Checker) (f : Function) : Checker :=
  if f.isProcedure || c.returnFound then c else c.note (.missingReturn f.name) f.span.start

/-- The end of the check of a function, after its body. -/
def leaveFunction (c : Checker) (f : Function) (inner : Checker) : Checker :=
  { (inner.ended f).leaveLabelled with current := c.current, returnFound := c.returnFound }

theorem ended_within (f : Function) :
    (c.within b).ended { f with body := b } = (c.ended f).within b := by
  refine Eq.trans ?_ (apply_ite (within · b) ((f.isProcedure || c.returnFound) = true) c
    (c.note (.missingReturn f.name) f.span.start)).symm
  rfl

theorem leaveFunction_within (f : Function) :
    c.leaveFunction { f with body := b } (d.within b) = c.leaveFunction f d := by
  unfold leaveFunction
  rw [ended_within]
  rfl

/-- The check of a function with another body is that of the body in the scope of the function. -/
theorem function_within (f : Function) :
    c.function { f with body := b } = c.leaveFunction f (stmts b.body (c.enterFunction f)) := by
  refine Eq.trans ?_ (leaveFunction_within b f)
  rw [← stmts_within, ← enterFunction_within]
  rfl

end Within

theorem Blamed.leaveFunction (h : Blamed ds d d') {f : Function}
    (hs : (c.leaveFunction f d).Silent) :
    Blamed ds (c.leaveFunction f d) (c.leaveFunction f d') := by
  have hended : Blamed ds (d.ended f) (d'.ended f) := by
    have hended : (d.ended f).Silent := hs
    unfold ended at hended ⊢
    rw [h.returnFound]
    split_ifs at hended ⊢
    · exact h
    · exact absurd hended silent_note
  exact { hended.leaveLabelled with
    current := rfl
    returnFound := rfl }

theorem silent_of_leaveFunction {f : Function} (hs : (c.leaveFunction f d).Silent) : d.Silent := by
  have hended : (d.ended f).Silent := hs
  unfold ended at hended
  split_ifs at hended
  · exact hended
  · exact absurd hended silent_note

theorem body_blamed {f : Function} {before after : List Stmt} {own : Span} {site : Stmt.Site}
    {x e : Expr} (he : ((site.reach x (stmts before (c.enterFunction f))).infer e).value = .error)
    (hu : e.isUntyped = false)
    (hs : (c.function { f with body := ⟨before ++ site.fill x :: after, own⟩ }).Silent) :
    Blamed ((site.reach x (stmts before (c.enterFunction f))).infer e).notes
      (c.function { f with body := ⟨before ++ site.fill x :: after, own⟩ })
      (c.function { f with body := ⟨before ++ site.fill e :: after, own⟩ }) := by
  rw [function_within] at hs ⊢
  rw [function_within]
  exact (stmts_blamed (site_blamed he hu) (silent_of_leaveFunction hs)).leaveFunction hs

/-! ## After other complaints -/

/-- The check, with nothing reported. -/
def afresh (c : Checker) : Checker := { c with report := {} }

theorem sees_afresh (c : Checker) : c.afresh.Sees c := { Sees.refl c with }

/-- What was reported before stays, and nothing is reported for it. -/
theorem report_blamed {d₀ d₀' : Checker} (h : Matches .same c.afresh c d₀ d)
    (h' : Matches .same c.afresh c d₀' d') (hblamed : d₀.Silent → Blamed ds d₀ d₀')
    (hreport : d.report = c.report) : d'.report = c.report.append ds := by
  obtain ⟨es, hes₀, hes⟩ := h.report_eq
  obtain ⟨es', hes₀', hes'⟩ := h'.report_eq
  rw [hreport, List.self_eq_append_right] at hes
  rw [hes] at hes₀
  obtain rfl : es' = ds := hes₀'.symm.trans (hblamed (silent_iff.2 hes₀)).report
  refine congrArg Report.mk (Array.toList_inj.1 (hes'.trans ?_))
  simp [Report.toList]

/-- One mistake is one complaint. Where an expression without complaints has an expression of type
`error` put in the place of one of its parts, nothing but the complaints of that one is reported,
and likewise in a statement, at every place in it (`Occurs.exists_site`), and in the body of a
function; the names in scope stay as they were. A `new List()` without a type is left out: whether
it is an error depends on where it stands. -/
theorem errors_absorbed {e : Expr} (hu : e.isUntyped = false) (c : Checker) :
    (∀ holes x, (c.infer (Expr.fill holes x)).notes = [] → (c.infer e).value = .error →
      c.observe (c.infer (Expr.fill holes e)) = c.observe (c.infer e)) ∧
    (∀ (site : Stmt.Site) x, (stmt (site.fill x) c).report = c.report →
      ((site.reach x c).infer e).value = .error →
        (stmt (site.fill e) c).report = c.report.append ((site.reach x c).infer e).notes ∧
          (stmt (site.fill e) c).toNames = (stmt (site.fill x) c).toNames) ∧
    ∀ (f : Function) (before after : List Stmt) (own : Span) (site : Stmt.Site) x,
      let g (z : Expr) : Function := { f with body := ⟨before ++ site.fill z :: after, own⟩ }
      let d := site.reach x (stmts before (c.enterFunction f))
      (c.function (g x)).report = c.report → (d.infer e).value = .error →
        (c.function (g e)).report = c.report.append (d.infer e).notes ∧
          (c.function (g e)).toNames = (c.function (g x)).toNames := by
  refine ⟨fun holes x hn he => ?_, fun site x hr he => ⟨?_, site_names site x e⟩,
    fun f before after own site x hr he => ⟨?_, ?_⟩⟩
  · have hspoils := (Names.mistaken_fill he hu holes x).infer
    simp only [observe, judge, (hspoils hn).1]
  · rw [((sees_afresh c).site site x).infer e] at he ⊢
    exact report_blamed ((sees_afresh c).stmt _) ((sees_afresh c).stmt _) (site_blamed he hu) hr
  · have hreach := (((sees_afresh c).enterFunction f).stmts before).sees.site site x
    rw [hreach.infer e] at he ⊢
    exact report_blamed ((sees_afresh c).function _) ((sees_afresh c).function _)
      (body_blamed he hu) hr
  · rw [(function_keeps c _).1.names, (function_keeps c _).1.names]

/-- An undeclared name in an operand, in the test of a nested `if`, and there in a body. -/
theorem errors_absorbed_undeclared :
    let y : Expr := .name ⟨⟨1, 6⟩, ⟨1, 7⟩⟩ "y"
    let test : Expr := .bool ⟨⟨1, 6⟩, ⟨1, 10⟩⟩ true
    let negated : Expr.Hole := .not ⟨⟨1, 5⟩, ⟨1, 10⟩⟩
    let site : Stmt.Site := ⟨[.inBlock [] [] ⟨⟨1, 1⟩, ⟨1, 16⟩⟩],
      .branch ⟨⟨1, 2⟩, ⟨1, 14⟩⟩ ⟨[], ⟨⟨1, 12⟩, ⟨1, 14⟩⟩⟩ none, [negated]⟩
    let f (e : Expr) : Function :=
      ⟨"f", [], .void, ⟨[site.fill e], ⟨⟨1, 1⟩, ⟨1, 18⟩⟩⟩, ⟨⟨1, 1⟩, ⟨1, 18⟩⟩⟩
    let c : Checker := {}
    (c.infer (negated.fill test)).notes = [] ∧ (stmt (site.fill test) c).report = c.report ∧
      (c.function (f test)).report = c.report ∧
      (c.observe (c.infer (negated.fill y))).report.toList = [⟨.undeclaredIdentifier "y", ⟨1, 6⟩⟩] ∧
      (stmt (site.fill y) c).report.toList = [⟨.undeclaredIdentifier "y", ⟨1, 6⟩⟩] ∧
      (c.function (f y)).report.toList = [⟨.undeclaredIdentifier "y", ⟨1, 6⟩⟩] := by
  intro y test negated site f c
  obtain ⟨hexpr, hstmt, hbody⟩ := errors_absorbed (e := y) rfl c
  have he := hexpr [negated] test rfl rfl
  have hs := (hstmt site test rfl rfl).1
  have hf := (hbody (f test) [] [] (f test).body.span site test rfl rfl).1
  exact ⟨rfl, rfl, rfl, congrArg (·.report.toList) he, congrArg Report.toList hs,
    congrArg Report.toList hf⟩

/-- The declaration of a function is not complained about for what stands in the body. -/
theorem body_unreported :
    let f (e : Expr) : Function := ⟨"f", [], .int, ⟨[.giveBack ⟨⟨1, 11⟩, ⟨1, 20⟩⟩ (some e)],
      ⟨⟨1, 9⟩, ⟨1, 22⟩⟩⟩, ⟨⟨1, 1⟩, ⟨1, 22⟩⟩⟩
    let one : Expr := .int ⟨⟨1, 18⟩, ⟨1, 19⟩⟩ 1
    let y : Expr := .name ⟨⟨1, 18⟩, ⟨1, 19⟩⟩ "y"
    let c : Checker := {}
    (stmt (.function (f one)) c).report = c.report ∧
      ((c.enterFunction (f one)).infer y).value = .error ∧
      ((c.enterFunction (f one)).infer y).notes = [⟨.undeclaredIdentifier "y", ⟨1, 18⟩⟩] ∧
      (stmt (.function (f y)) c).report ≠
        c.report.append ((c.enterFunction (f one)).infer y).notes := by
  intro f one y c
  refine ⟨rfl, rfl, rfl, fun h => ?_⟩
  cases congrArg Report.toList h

/-! ## Assignments to undeclared names -/

section Undeclared

variable {name : String} {value : Expr} {t : Ty}

/-- A value that fits some slot is complained about without one only if it takes its type from the
slot. -/
theorem infer_slotless (h : (N.inferFor value t).notes = []) :
    (N.infer value).notes = if value.isUntyped then
      [⟨.newListOutsideList "an untyped context", value.position⟩] else [] := by
  cases hu : value.isUntyped
  · rw [← Names.inferFor_eq hu, h]
    rfl
  · cases value with
    | newList span base =>
      cases base with
      | none => rfl
      | some _ => cases hu
    | _ => cases hu

/-- An assignment to a name without a declaration is complained about for that, whatever the value,
and for a `new List()` without a type, which has no slot to take it from. -/
theorem assign_undeclared (hname : c.scopes.get? name = none)
    (hvalue : (c.inferFor value t).notes = []) (span : Span) :
    (stmt (.assign span name value) c).report = c.report.append
      (⟨.undeclaredIdentifier name, span.start⟩ :: if value.isUntyped then
        [⟨.newListOutsideList "an untyped context", value.position⟩] else []) := by
  have hlookup : c.lookup name span.start =
      ⟨.error, [⟨.undeclaredIdentifier name, span.start⟩]⟩ := by
    simp [Names.lookup, Scopes.lookup, hname]
  have hnotes : (assignment c.toNames name value span.start).notes =
      ⟨.undeclaredIdentifier name, span.start⟩ :: (c.infer value).notes := by
    simp [assignment, hlookup]
  rw [← infer_slotless hvalue, ← hnotes]
  rfl

/-- `x = 1;` without a declaration of `x`. -/
theorem assign_undeclared_int :
    let one : Expr := .int ⟨⟨1, 5⟩, ⟨1, 6⟩⟩ 1
    let c : Checker := {}
    c.scopes.get? "x" = none ∧ (c.inferFor one .int).notes = [] ∧
      (stmt (.assign ⟨⟨1, 1⟩, ⟨1, 7⟩⟩ "x" one) c).report.toList =
        [⟨.undeclaredIdentifier "x", ⟨1, 1⟩⟩] :=
  ⟨rfl, rfl, congrArg Report.toList (assign_undeclared (t := .int) rfl rfl ⟨⟨1, 1⟩, ⟨1, 7⟩⟩)⟩

/-- `x = new List();` without a declaration of `x` is complained about twice, though a `List<int>`
can be assigned the value. -/
theorem assign_undeclared_twice :
    let list : Expr := .newList ⟨⟨1, 5⟩, ⟨1, 15⟩⟩ none
    let c : Checker := {}
    c.scopes.get? "x" = none ∧ (c.inferFor list (.list .int)).notes = [] ∧
      (stmt (.assign ⟨⟨1, 1⟩, ⟨1, 16⟩⟩ "x" list) c).report.toList =
        [⟨.undeclaredIdentifier "x", ⟨1, 1⟩⟩, ⟨.newListOutsideList "an untyped context", ⟨1, 5⟩⟩] :=
  ⟨rfl, rfl, rfl⟩

end Undeclared

end Checker

end Primer
