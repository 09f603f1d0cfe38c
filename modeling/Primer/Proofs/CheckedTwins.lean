import Primer.Proofs.CheckerBalance
import Primer.Proofs.Twins

/-!
# Checks of a program in two spellings

Checking looks names up and reports, so a check of a program respelled comes to the same types and
adds diagnostics that match (`Checker.stmt_matches`). What was reported before does not matter.
-/

namespace Primer

/-! ## Types -/

/-- A declaration of the same name in another spelling, with the same type. -/
structure Declaration.Matches (f : Respelling) (d d' : Declaration) : Prop where
  name : d'.name = f d.name
  ty : d'.ty = d.ty

/-- Names of a program respelled. -/
structure Names.Matches (f : Respelling) (N N' : Names) : Prop where
  scopes : N.scopes.Matches (Declaration.Matches f) N'.scopes
  functions : ∀ name, N'.functions.find? (f name) =
    (N.functions.find? name).map (respellFunction f)

/-- Results with the same value, and with diagnostics that match. -/
structure Judged.Matches (f : Respelling) {α : Type} (j j' : Judged α) : Prop where
  value : j'.value = j.value
  notes : j.notes.Forall₂ (Diagnostic.Matches f) j'.notes

section Judged

variable {f : Respelling} {α β : Type}

theorem Report.matches_refl (ds : List Diagnostic) : ds.Forall₂ (Diagnostic.Matches f) ds := by
  induction ds with
  | nil => exact .nil
  | cons d ds ih => exact .cons (.refl d) ih

theorem Judged.Matches.refl (j : Judged α) : j.Matches f j := ⟨rfl, Report.matches_refl _⟩

theorem Judged.Matches.bind {j j' : Judged α} {k k' : α → Judged β} (h : j.Matches f j')
    (hk : ∀ a, (k a).Matches f (k' a)) : (j >>= k).Matches f (j' >>= k') := by
  have hk' := hk j.value
  refine ⟨?_, ?_⟩
  · simp only [Judged.value_bind, h.value, hk'.value]
  · simp only [Judged.notes_bind, h.value]
    exact List.rel_append h.notes hk'.notes

theorem matches_note {d d' : Diagnostic} (h : d.Matches f d') :
    (Judged.note d).Matches f (Judged.note d') := ⟨rfl, .cons h .nil⟩

theorem matches_reject {a b : Fault} (h : a.Matches f b) (p : Position) (v : α) :
    (Judged.reject a p v).Matches f (Judged.reject b p v) := ⟨rfl, .cons (h.at p) .nil⟩

end Judged

namespace Judge

variable {f : Respelling}

theorem unknownMethod_matches (name : String) (t : Ty) (p : Position) :
    (unknownMethod name t p).Matches f (unknownMethod (f name) t p) := by
  simp only [unknownMethod]
  split
  · exact .refl _
  · exact ⟨rfl, .cons ⟨⟨rfl, rfl, by rintro rfl; rfl⟩, rfl⟩ .nil⟩

theorem method_matches (name : String) (t : Ty) (ts : List Ty) (p : Position) :
    (method name t ts p).Matches f (method (f name) t ts p) := by
  simp only [method, Method.ofName?_respell]
  split
  · exact unknownMethod_matches name t p
  · exact .refl _

theorem parameter_matches (g : Function) (i : Nat) (q : Parameter) (t : Ty) (p : Position) :
    (parameter g i q t p).Matches f (parameter (respellFunction f g) i (q.respell f) t p) := by
  simp only [parameter, Parameter.respell, respellFunction_name]
  split
  · exact .refl _
  · exact ⟨rfl, .cons ⟨⟨rfl, rfl, by rintro rfl; rfl⟩, rfl⟩ .nil⟩

theorem call_matches {N N' : Names} (h : N.Matches f N') (name : String) (count : Nat)
    (p : Position) {types types' : Unit → Judged (List Ty)} {fits fits' : Function → Judged Unit}
    (htypes : (types ()).Matches f (types' ()))
    (hfits : ∀ g, (fits g).Matches f (fits' (respellFunction f g))) :
    (call N name count p types fits).Matches f (call N' (f name) count p types' fits') := by
  simp only [call, Builtin.ofName?_respell, h.functions]
  split
  · split
    · exact .refl _
    · exact htypes.bind fun _ => .refl _
  · cases N.functions.find? name with
    | none => exact ⟨rfl, .cons ⟨⟨rfl, rfl, by rintro rfl; rfl⟩, rfl⟩ .nil⟩
    | some g =>
      simp only [Option.map_some, respellFunction_name, respellFunction_parameters,
        List.length_map, respellFunction_returns]
      have harity := concurs_checkArity (f := f) g.name g.parameters.length count
      generalize checkArity g.name g.parameters.length count = r,
        checkArity (f g.name) g.parameters.length count = r' at harity
      cases harity with
      | ok => exact (hfits g).bind fun _ => .refl _
      | error hf => exact matches_reject hf p _

end Judge

namespace Names

variable {f : Respelling} {N N' : Names}

theorem Matches.lookup (h : N.Matches f N') (name : String) (p : Position) :
    (N.lookup name p).Matches f (N'.lookup (f name) p) := by
  have hrel := h.scopes.get? (f := f) name
  simp only [Names.lookup, Scopes.lookup]
  generalize N.scopes.get? name = o, N'.scopes.get? (f name) = o' at hrel
  cases hrel with
  | none => exact ⟨rfl, .cons ⟨⟨rfl, rfl, by rintro rfl; rfl⟩, rfl⟩ .nil⟩
  | some hd =>
    simp only [hd.ty]
    exact .refl _

theorem Matches.inferCall (h : N.Matches f N') {es : List Expr} (name : String) (p : Position)
    (hall : (N.inferAll es).Matches f (N'.inferAll (respellAll f es)))
    (harguments : ∀ g, (N.inferArguments g 0 g.parameters es).Matches f
      (N'.inferArguments (respellFunction f g) 0 (g.parameters.map (Parameter.respell f))
        (respellAll f es))) :
    (N.inferCall name es p).Matches f (N'.inferCall (f name) (respellAll f es) p) := by
  have hlength : (respellAll f es).length = es.length := by simp
  simp only [Names.inferCall, hlength]
  exact Judge.call_matches h name es.length p hall fun g =>
    (respellFunction_parameters f g).symm ▸ harguments g

mutual

/-- An expression has the same type among names respelled. -/
theorem infer_matches (h : N.Matches f N') :
    ∀ e : Expr, (N.infer e).Matches f (N'.infer (e.respell f))
  | .int .. | .double .. | .bool .. | .char .. | .string .. => .refl _
  | .name span name => h.lookup name _
  | .arithmetic _ _ left right | .relational _ _ left right | .logical _ _ left right =>
    (infer_matches h left).bind fun _ => (infer_matches h right).bind fun _ => .refl _
  | .negate _ e | .not _ e | .cast _ _ e => (infer_matches h e).bind fun _ => .refl _
  | .group _ e => infer_matches h e
  | .call _ name es => h.inferCall name _ (inferAll_matches h es) fun g =>
    inferArguments_matches h g 0 g.parameters es
  | .method _ receiver name es =>
    (infer_matches h receiver).bind fun _ => (inferAll_matches h es).bind fun _ =>
      Judge.method_matches name _ _ _
  | .index _ target index => by
    simp only [infer, Expr.respell, Expr.position_respell]
    exact (infer_matches h target).bind fun _ => (infer_matches h index).bind fun _ => .refl _
  | .cell _ target index column => by
    simp only [infer, Expr.respell, Expr.position_respell]
    exact (infer_matches h target).bind fun _ => (infer_matches h index).bind fun _ =>
      (Judged.Matches.refl _).bind fun _ => (infer_matches h column).bind fun _ => .refl _
  | .vector _ es => (inferAll_matches h es).bind fun _ => .refl _
  | .matrix _ es => inferRows_matches h none true es
  | .newList _ (some _) | .newList _ none => .refl _

theorem inferAll_matches (h : N.Matches f N') : ∀ es : List Expr,
    (N.inferAll es).Matches f (N'.inferAll (respellAll f es))
  | [] => .refl _
  | e :: es => (infer_matches h e).bind fun _ => (inferAll_matches h es).bind fun _ => .refl _

theorem inferArguments_matches (h : N.Matches f N') (g : Function) (i : Nat) (qs : List Parameter) :
    ∀ es : List Expr, (N.inferArguments g i qs es).Matches f
      (N'.inferArguments (respellFunction f g) i (qs.map (Parameter.respell f)) (respellAll f es))
  | [] => .refl _
  | e :: es => by
    cases qs with
    | nil => exact .refl _
    | cons q qs =>
      simp only [inferArguments, respellAll, List.map_cons, Expr.position_respell]
      exact (infer_matches h e).bind fun _ => (Judge.parameter_matches g i q _ _).bind fun _ =>
        inferArguments_matches h g (i + 1) qs es

theorem inferRows_matches (h : N.Matches f N') {p : Position} (base : Option Scalar)
    (valid : Bool) :
    ∀ es : List Expr, (N.inferRows p base valid es).Matches f
      (N'.inferRows p base valid (respellAll f es))
  | [] => .refl _
  | e :: es => by
    simp only [inferRows, respellAll, Expr.position_respell]
    refine (infer_matches h e).bind fun t => ?_
    split
    · exact inferRows_matches h base false es
    · split
      · exact inferRows_matches h _ valid es
      · split
        · exact inferRows_matches h _ valid es
        · exact .refl _
    · exact (Judged.Matches.refl _).bind fun _ => inferRows_matches h base false es

end

theorem inferFor_matches (h : N.Matches f N') (e : Expr) (t : Ty) :
    (N.inferFor e t).Matches f (N'.inferFor (e.respell f) t) := by
  cases e with
  | newList _ base =>
    rcases base with _ | _
    · cases t <;> exact .refl _
    · exact .refl _
  | _ => exact infer_matches h _

theorem inferCall_matches (h : N.Matches f N') (name : String) (es : List Expr) (p : Position) :
    (N.inferCall name es p).Matches f (N'.inferCall (f name) (respellAll f es) p) :=
  h.inferCall name p (inferAll_matches h es) fun g =>
    inferArguments_matches h g 0 g.parameters es

theorem inferElement_matches (h : N.Matches f N') (container : Ty) (index : Expr)
    (column : Option Expr) (p : Position) : (N.inferElement container index column p).Matches f
      (N'.inferElement container (index.respell f) (column.map (Expr.respell f)) p) := by
  simp only [inferElement, Expr.position_respell]
  refine (infer_matches h index).bind fun _ => (Judged.Matches.refl _).bind fun _ => ?_
  cases column with
  | none => exact .refl _
  | some column =>
    simp only [Option.map_some, Expr.position_respell]
    exact (infer_matches h column).bind fun _ => .refl _

end Names

/-! ## Statements -/

namespace Checker

variable {f : Respelling}

theorem fits_matches {owner owner' : String} (howner : f = .same → owner' = owner)
    (expected received : Ty) (e : Expr) :
    (fits owner expected received e).Matches f (fits owner' expected received (e.respell f)) := by
  simp only [fits, Expr.position_respell]
  split
  · exact .refl _
  · exact matches_note ⟨⟨rfl, rfl, fun hf => by rw [howner hf]⟩, rfl⟩

section

variable {N N' : Names} (h : N.Matches f N')
include h

theorem initial_matches (name : String) (ty : Ty) (e : Expr) :
    (initial N name ty e).Matches f (initial N' (f name) ty (e.respell f)) :=
  (Names.inferFor_matches h e ty).bind fun _ => fits_matches (by rintro rfl; rfl) _ _ _

theorem assignment_matches (name : String) (e : Expr) (p : Position) :
    (assignment N name e p).Matches f (assignment N' (f name) (e.respell f) p) := by
  refine (h.lookup name p).bind fun t => ?_
  split
  · exact (Names.infer_matches h e).bind fun _ => .refl _
  · exact (Names.inferFor_matches h e t).bind fun _ => fits_matches (by rintro rfl; rfl) _ _ _

theorem indexAssignment_matches (target index : Expr) (column : Option Expr) (value : Expr)
    (p : Position) : (indexAssignment N target index column value p).Matches f
      (indexAssignment N' (target.respell f) (index.respell f) (column.map (Expr.respell f))
        (value.respell f) p) :=
  (Names.infer_matches h target).bind fun container =>
    (Names.inferElement_matches h container index column p).bind fun _ =>
      (Names.infer_matches h value).bind fun _ =>
        fits_matches (fun hf => by rw [hf, Expr.respell_same]) _ _ _

theorem stepTarget_matches (target : Expr) (p : Position) :
    (stepTarget N target p).Matches f (stepTarget N' (target.respell f) p) :=
  (Names.infer_matches h target).bind fun _ => .refl _

theorem condition_matches (e : Expr) (construct : String) :
    (condition N e construct).Matches f (condition N' (e.respell f) construct) := by
  simp only [condition, Expr.position_respell]
  exact (Names.infer_matches h e).bind fun _ => .refl _

theorem caseValue_matches (t : Ty) (e : Expr) :
    (caseValue N t e).Matches f (caseValue N' t (e.respell f)) := by
  simp only [caseValue, Expr.position_respell]
  exact (Names.infer_matches h e).bind fun _ => .refl _

end

/-- A check of a program and a check of the program respelled, since two states in which other
things may have been reported and other entries may have been met. -/
structure Matches (f : Respelling) (b b' c c' : Checker) : Prop
    extends Names.Matches f c.toNames c'.toNames where
  current : c'.current = c.current.map (respellFunction f)
  returnFound : c'.returnFound = c.returnFound
  report : ∃ ds ds', c.report.toList = b.report.toList ++ ds ∧
    c'.report.toList = b'.report.toList ++ ds' ∧ ds.Forall₂ (Diagnostic.Matches f) ds'
  entries : ∃ k, c.entries = b.entries + k ∧ c'.entries = b'.entries + k

namespace Matches

variable {b b' c c' : Checker} {α : Type}

theorem push (h : Matches f b b' c c') {ds ds' : List Diagnostic}
    (hds : ds.Forall₂ (Diagnostic.Matches f) ds') :
    Matches f b b' { c with report := c.report.append ds }
      { c' with report := c'.report.append ds' } := by
  obtain ⟨es, es', he, he', hes⟩ := h.report
  refine { h with report := ⟨es ++ ds, es' ++ ds', ?_, ?_, List.rel_append hes hds⟩ }
  · simpa [Report.append, Report.toList, ← List.append_assoc] using he
  · simpa [Report.append, Report.toList, ← List.append_assoc] using he'

theorem observe (h : Matches f b b' c c') {j j' : Judged α} (hj : j.Matches f j') :
    Matches f b b' (c.observe j) (c'.observe j') := h.push hj.notes

theorem note (h : Matches f b b' c c') {a a' : Fault} (ha : a.Matches f a') (p : Position) :
    Matches f b b' (c.note a p) (c'.note a' p) := by
  have hpush := h.push (.cons (ha.at p) .nil)
  simpa only [Report.append, Checker.note, Report.push, Array.append_singleton] using hpush

theorem withScopes (h : Matches f b b' c c') {s s' : Scopes Declaration}
    (hs : s.Matches (Declaration.Matches f) s') :
    Matches f b b' { c with scopes := s } { c' with scopes := s' } :=
  { h with scopes := hs }

theorem enterScope (h : Matches f b b' c c') : Matches f b b' c.enterScope c'.enterScope :=
  h.withScopes h.scopes.push

theorem leaveScope (h : Matches f b b' c c') : Matches f b b' c.leaveScope c'.leaveScope :=
  h.withScopes h.scopes.pop

theorem enterLabelled (h : Matches f b b' c c') (label label' : String) :
    Matches f b b' (c.enterLabelled label) (c'.enterLabelled label') :=
  h.withScopes ⟨h.scopes.globals, .cons .nil h.scopes.frames⟩

theorem leaveLabelled (h : Matches f b b' c c') :
    Matches f b b' c.leaveLabelled c'.leaveLabelled :=
  h.withScopes ⟨h.scopes.pop.globals, h.scopes.pop.frames⟩

theorem declare (h : Matches f b b' c c') (name : String) (ty : Ty) (category : Category)
    (p : Position) :
    Matches f b b' (c.declare name ty category p) (c'.declare (f name) ty category p) := by
  have hhere := h.scopes.declaredHere (f := f) name
  cases hfree : c.scopes.declaredHere name
  · rw [declare_of_free hfree, declare_of_free (hhere.trans hfree)]
    have hd : Declaration.Matches f ⟨name, ty, category, p, c.scopes.path⟩
        ⟨f name, ty, category, p, c'.scopes.path⟩ := ⟨rfl, rfl⟩
    exact { h with scopes := h.scopes.add name hd }
  · rw [declare_of_taken hfree, declare_of_taken (hhere.trans hfree)]
    · refine h.note ?_ p
      exact ⟨rfl, rfl, by rintro rfl; rfl⟩

theorem goesOn (h : Matches f b b' c c') (e : Option Expr) :
    Matches f b b' (c.goesOn e) (c'.goesOn (e.map (Expr.respell f))) := by
  cases e with
  | none => exact h
  | some e => exact h.observe (condition_matches h.toMatches e "for")

theorem found (h : Matches f b b' c c') :
    Matches f b b' { c with returnFound := true } { c' with returnFound := true } :=
  { h with returnFound := rfl }

theorem returned (h : Matches f b b' c c') (t : Option Ty) (p : Position) :
    Matches f b b' (c.returned t p) (c'.returned t p) := by
  obtain ⟨_, _, _, current, _, _⟩ := c
  obtain ⟨_, _, _, current', _, _⟩ := c'
  obtain rfl : current' = current.map (respellFunction f) := h.current
  cases current with
  | none => exact h.note (.refl _) p
  | some g =>
    cases t <;> simp only [Checker.returned, Option.map_some, respellFunction_isProcedure,
      respellFunction_returns, respellFunction_name] <;> split
    · exact h
    · refine h.note ?_ p
      exact ⟨rfl, rfl, by rintro rfl; rfl⟩
    · refine h.note ?_ p
      exact ⟨rfl, rfl, by rintro rfl; rfl⟩
    · split
      · exact h.found
      · refine h.found.note ?_ p
        exact ⟨rfl, rfl, by rintro rfl; rfl⟩

end Matches

section

variable {b b' : Checker}

mutual

/-- Checking a statement in two spellings adds diagnostics that match. -/
theorem stmt_matches : ∀ (s : Stmt) {c c' : Checker}, Matches f b b' c c' →
    Matches f b b' (stmt s c) (stmt (s.respell f) c')
  | .declare span name ty none, _, _, h => h.declare name ty _ span.start
  | .declare span name ty (some e), _, _, h =>
    (h.observe (initial_matches h.toMatches name ty e)).declare name ty _ span.start
  | .assign _ name e, _, _, h => h.observe (assignment_matches h.toMatches name e _)
  | .assignIndex _ target index column value, _, _, h =>
    h.observe (indexAssignment_matches h.toMatches target index column value _)
  | .step _ target _, _, _, h => h.observe (stepTarget_matches h.toMatches target _)
  | .block b, _, _, h => block_matches b h
  | .branch _ test body otherwise, _, _, h => optional_matches otherwise
    (block_matches body (h.observe (condition_matches h.toMatches test "if")))
  | .switch _ e ks d, c, c', h => by
    have hjudge := Names.infer_matches h.toMatches e
    have hcases := cases_matches (c.infer e).value ks
      ((h.observe hjudge).enterLabelled (Label.ofSwitch e) (Label.ofSwitch (e.respell f)))
    simp only [stmt, Stmt.respell, judge, hjudge.value]
    exact (default_matches d hcases).leaveLabelled
  | .whileLoop _ test body, _, _, h => by
    have henter := h.enterLabelled (Label.ofWhile test) (Label.ofWhile (test.respell f))
    exact (block_matches body
      (henter.observe (condition_matches henter.toMatches test "while"))).leaveLabelled
  | .doLoop _ body test, _, _, h => by
    have hbody := block_matches body
      (h.enterLabelled (Label.ofDo test) (Label.ofDo (test.respell f)))
    exact (hbody.observe (condition_matches hbody.toMatches test "do-while")).leaveLabelled
  | .forLoop _ first test next body, _, _, h =>
    (block_matches body (optional_matches next ((optional_matches first (h.enterLabelled
      (Label.ofFor test) (Label.ofFor (test.map (Expr.respell f))))).goesOn test))).leaveLabelled
  | .breakOut _, _, _, h => h
  | .continueOn _, _, _, h => h
  | .print _ e, _, _, h => h.observe (Names.infer_matches h.toMatches e)
  | .function g, c, c', h => by
    simp only [stmt, Stmt.respell, h.scopes.atGlobal, h.current, Option.isNone_map,
      respellFunction_name, respellFunction_span]
    split
    · exact h
    · refine h.note ?_ _
      exact ⟨rfl, rfl, by rintro rfl; rfl⟩
  | .giveBack span none, _, _, h => h.returned none span.start
  | .giveBack span (some e), c, c', h => by
    have hjudge := Names.infer_matches h.toMatches e
    simp only [stmt, Stmt.respell, Option.map_some, judge, hjudge.value]
    exact (h.observe hjudge).returned (some (c.infer e).value) span.start
  | .start span name es, c, c', h => by
    obtain ⟨k, hk, hk'⟩ := h.entries
    have hstart : Matches f b b' { c with entries := c.entries + 1 }
        { c' with entries := c'.entries + 1 } :=
      { h with entries := ⟨k + 1, by rw [hk]; rfl, by rw [hk']; rfl⟩ }
    exact hstart.observe (Names.inferCall_matches hstart.toMatches name es span.start)
  | .expression _ e, _, _, h => h.observe (Names.infer_matches h.toMatches e)

theorem stmts_matches : ∀ (ss : List Stmt) {c c' : Checker}, Matches f b b' c c' →
    Matches f b b' (stmts ss c) (stmts (respellStmts f ss) c')
  | [], _, _, h => h
  | s :: ss, _, _, h => stmts_matches ss (stmt_matches s h)

theorem block_matches : ∀ (k : BlockOf Stmt) {c c' : Checker}, Matches f b b' c c' →
    Matches f b b' (block k c) (block (respellBlock f k) c')
  | ⟨body, _⟩, _, _, h => (stmts_matches body h.enterScope).leaveScope

theorem optional_matches : ∀ (s : Option Stmt) {c c' : Checker}, Matches f b b' c c' →
    Matches f b b' (optional s c) (optional (respellOptional f s) c')
  | none, _, _, h => h
  | some s, _, _, h => stmt_matches s h

theorem cases_matches (t : Ty) : ∀ (ks : List (CaseOf Stmt)) {c c' : Checker},
    Matches f b b' c c' → Matches f b b' (cases t ks c) (cases t (respellCases f ks) c')
  | [], _, _, h => h
  | k :: ks, _, _, h => cases_matches t ks (case_matches t k h)

theorem case_matches (t : Ty) : ∀ (k : CaseOf Stmt) {c c' : Checker}, Matches f b b' c c' →
    Matches f b b' (case t k c) (case t (respellCase f k) c')
  | ⟨value, body, _⟩, _, _, h =>
    stmts_matches body (h.observe (caseValue_matches h.toMatches t value))

theorem default_matches : ∀ (d : Option (List Stmt)) {c c' : Checker}, Matches f b b' c c' →
    Matches f b b' (default d c) (default (respellDefault f d) c')
  | none, _, _, h => h
  | some body, _, _, h => stmts_matches body h

end

theorem parameter_matches {c c' : Checker} (h : Matches f b b' c c') (g : Function)
    (q : Parameter) :
    Matches f b b' (parameter g c q) (parameter (respellFunction f g) c' (q.respell f)) := by
  simp only [parameter, Parameter.respell, h.scopes.declaredHere, respellFunction_name]
  split
  · refine h.note ?_ _
    exact ⟨rfl, rfl, by rintro rfl; rfl⟩
  · exact h.declare q.name q.ty _ _

theorem enterFunction_matches {c c' : Checker} (h : Matches f b b' c c') (g : Function) :
    Matches f b b' (c.enterFunction g) (c'.enterFunction (respellFunction f g)) := by
  simp only [enterFunction, respellFunction_name, respellFunction_parameters, List.foldl_map]
  exact List.foldl_rel { h.enterLabelled _ _ with current := rfl, returnFound := rfl }
    fun q _ _ _ h => parameter_matches h g q

/-- Checking a function in two spellings adds diagnostics that match. -/
theorem function_matches {c c' : Checker} (h : Matches f b b' c c') (g : Function) :
    Matches f b b' (c.function g) (c'.function (respellFunction f g)) := by
  have hbody := stmts_matches g.body.body (enterFunction_matches h g)
  rw [respellStmts_eq, ← respellBlock_body, ← respellFunction_body] at hbody
  have hinner : Matches f b b'
      (if g.isProcedure || (stmts g.body.body (c.enterFunction g)).returnFound then
        stmts g.body.body (c.enterFunction g)
      else (stmts g.body.body (c.enterFunction g)).note (.missingReturn g.name) g.span.start)
      (if (respellFunction f g).isProcedure || (stmts (respellFunction f g).body.body
          (c'.enterFunction (respellFunction f g))).returnFound then
        stmts (respellFunction f g).body.body (c'.enterFunction (respellFunction f g))
      else (stmts (respellFunction f g).body.body (c'.enterFunction (respellFunction f g))).note
        (.missingReturn (respellFunction f g).name) (respellFunction f g).span.start) := by
    rw [respellFunction_isProcedure, hbody.returnFound, respellFunction_name,
      respellFunction_span]
    split
    · exact hbody
    · refine hbody.note ?_ _
      exact ⟨rfl, rfl, by rintro rfl; rfl⟩
  exact { hinner.leaveLabelled with current := h.current, returnFound := h.returnFound }

end

end Checker

end Primer
