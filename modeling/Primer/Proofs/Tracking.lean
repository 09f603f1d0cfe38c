import Primer.Proofs.Course

/-!
# Runs stay on their course

Every part of the evaluator stays on a course (`Course.Tracks`): expressions come back to the names
they were checked under, statements lead to the names that are checked next, and a call starts where
the body of the function was opened. So what a course says holds all along every run of a program
that checking has no complaint about (`Course.run`).
-/

namespace Primer

theorem checkArity_missesCall {name : String} {expected received : Nat} {f : Fault}
    (h : checkArity name expected received = .error f) : f.missesCall = true := by
  simp only [checkArity] at h
  split at h
  · cases h
    rfl
  · split at h <;> cases h
    rfl

namespace Names.Calls

variable {N : Names} {name : String} {es : List Expr} {o : Position} {t : Ty}

theorem arity_eq {b : Builtin} (h : N.Calls name es o t) (hb : Builtin.ofName? name = some b) :
    b.arity = es.length := by
  cases h with
  | declared hb' => cases hb.symm.trans hb'
  | builtin hb' hl =>
    obtain rfl := Option.some.inj (hb.symm.trans hb')
    exact hl

theorem exists_function (h : N.Calls name es o t) (hb : Builtin.ofName? name = none) :
    ∃ f, N.functions.find? name = some f ∧ f.parameters.length = es.length := by
  cases h with
  | builtin hb' => cases hb.symm.trans hb'
  | declared _ hf hl => exact ⟨_, hf, hl⟩

end Names.Calls

/-- A `start` that is not complained about finds a function, unless it names a built-in one. -/
theorem Program.Walks.started {p : Program} {span : Span} {name : String} {es : List Expr}
    {ss : List Stmt} {c : Checker} (h : p.Walks (.start span name es :: ss) c)
    (hclean : p.analyze.report.isEmpty = true)
    (hstarts : p.everywhere Stmt.startsNoBuiltin = true) : Builtin.ofName? name = none ∧
      ∃ f, c.functions.find? name = some f ∧ f.parameters.length = es.length := by
  have hb := h.everywhere hstarts _ List.mem_cons_self
  have hb : Builtin.ofName? name = none := by simpa [Stmt.startsNoBuiltin] using hb
  have hn := (Checker.silent_observe.1 (h.silentHead hclean)).2
  exact ⟨hb, (Names.inferCall_calls hn).exists_function hb⟩

namespace Course

open Watched Eval Machine
open Checker (silent_observe silent_note grows_declare)

variable {p : Program} {C : Course p} {N N' : Names} {n : Nat}

/-- Statements that were checked under names that are as good as these. -/
def Visits (C : Course p) (N : Names) (ss : List Stmt) : Prop :=
  ∃ c, p.Walks ss c ∧ C.Alike N c.toNames

/-- Every part of the evaluator stays on the course. -/
structure Tracks (C : Course p) (n : Nat) : Prop where
  expr : ∀ {N e}, p.Infers N e → C.Gives N (expr n e) fun _ => True
  exprs : ∀ {N es}, (∀ e ∈ es, p.Infers N e) →
    C.Gives N (exprs n es) fun vs => vs.length = es.length
  exprFor : ∀ {N e t} (t' : Ty), p.InfersFor N e t → C.Gives N (exprFor n e t') fun _ => True
  indexOf : ∀ {N e}, p.Infers N e → C.Gives N (indexOf n e) fun _ => True
  indexOf? : ∀ {N e}, (∀ e' ∈ e, p.Infers N e') → C.Gives N (indexOf? n e) fun _ => True
  condition : ∀ {N e k}, p.Infers N e → C.Gives N (condition n e k) fun _ => True
  goesOn : ∀ {N e}, (∀ e' ∈ e, p.Infers N e') → C.Gives N (goesOn n e) fun _ => True
  call : ∀ {N name es o}, C.Reaches N.functions name es.length → N.functions = p.table →
    (∀ e ∈ es, p.Infers N e) → p.Callable N → C.Gives N (call n name es o) fun _ => True
  stmt : ∀ {s ss c}, p.Walks (s :: ss) c →
    C.Leads c.toNames (Checker.stmt s c).toNames (stmt n s)
  stmts : ∀ {N ss}, C.Visits N ss → C.Ends N (stmts n ss)
  block : ∀ {N} {b : Block}, C.Visits { N with scopes := N.scopes.push } b.body →
    C.Leads N N (block n b)
  perform : ∀ {s ss c}, p.Walks (s :: ss) c →
    C.Leads c.toNames (Checker.stmt s c).toNames (perform n s)
  header : ∀ {s : Option Stmt} {c}, p.Walks s.toList c →
    C.Leads c.toNames (Checker.optional s c).toNames (header n s)
  switch : ∀ {N v cs d b}, (∀ k ∈ cs, (∃ N', p.Infers N' k.value ∧ C.Alike N N') ∧
      C.Visits N k.body ∧ C.Fixed k.body) → (∀ body ∈ d, C.Visits N body) →
    C.Ends N (switch n v cs d b)
  whileLoop : ∀ {N e} {b : Block}, p.Infers N e →
    C.Visits { N with scopes := N.scopes.push } b.body → C.Ends N (whileLoop n e b)
  doLoop : ∀ {N e} {b : Block}, p.Infers N e →
    C.Visits { N with scopes := N.scopes.push } b.body → C.Ends N (doLoop n b e)
  forLoop : ∀ {N e s} {b : Block}, (∀ e' ∈ e, p.Infers N e') →
    (∃ c, p.Walks s.toList c ∧ C.Alike N c.toNames ∧ C.Alike N (Checker.optional s c).toNames) →
    C.Visits { N with scopes := N.scopes.push } b.body → C.Ends N (forLoop n e s b)

namespace Tracks

theorem zero : Tracks C 0 where
  expr _ := gives_exhausted
  exprs _ := gives_exhausted
  exprFor _ _ := gives_exhausted
  indexOf _ := gives_exhausted
  indexOf? _ := gives_exhausted
  condition _ := gives_exhausted
  goesOn _ := gives_exhausted
  call _ _ _ _ := gives_exhausted
  stmt _ := leads_exhausted
  stmts _ := ends_exhausted
  block _ := leads_exhausted
  perform _ := leads_exhausted
  header _ := leads_exhausted
  switch _ _ := ends_exhausted
  whileLoop _ _ := ends_exhausted
  doLoop _ _ := ends_exhausted
  forLoop _ _ _ := ends_exhausted

variable (ih : Tracks C n)
include ih

/-! ## Expressions -/

theorem expr_succ {e : Expr} (h : p.Infers N e) :
    C.Gives N (Eval.expr (n + 1) e) fun _ => True := by
  rw [Eval.expr]
  refine Gives.withinExpr h ?_
  have hs := h.silent C.clean
  have hpart : ∀ e' ∈ e.parts, C.Gives N (Eval.expr n e') fun _ => True :=
    fun e' he => ih.expr (h.part he)
  have hindex : ∀ e' ∈ e.parts, C.Gives N (Eval.indexOf n e') fun _ => True :=
    fun e' he => ih.indexOf (h.part he)
  cases e with
  | int | double | bool | char | string => exact gives_pure trivial
  | name span name => exact gives_lookup hs
  | arithmetic _ op left right =>
    exact (hpart left (by simp [Expr.parts])).bind fun a _ =>
      (hpart right (by simp [Expr.parts])).bind fun b _ =>
      gives_ask fun s => s.arithmetic_resolved op a b
  | negate _ operand =>
    exact (hpart operand (by simp [Expr.parts])).bind fun v _ => gives_ofExcept v.negate_resolved
  | not _ operand =>
    exact (hpart operand (by simp [Expr.parts])).bind fun v _ => gives_ofExcept v.not_resolved
  | cast _ target operand =>
    exact (hpart operand (by simp [Expr.parts])).bind fun v _ =>
      gives_ofExcept (v.cast_resolved target)
  | relational _ op left right =>
    exact (hpart left (by simp [Expr.parts])).bind fun a _ =>
      (hpart right (by simp [Expr.parts])).bind fun b _ =>
      (gives_ask fun s => s.relational_resolved op a b).bind fun _ _ => gives_pure trivial
  | logical _ op left right =>
    have hright := hpart right (by simp [Expr.parts])
    refine (hpart left (by simp [Expr.parts])).bind fun v _ =>
      (gives_ofExcept (v.truth_resolved op)).bind fun a _ => ?_
    cases op <;> cases a <;> first
      | exact gives_pure trivial
      | exact hright.bind fun w _ => (gives_ofExcept (w.truth_resolved _)).bind fun _ _ =>
          gives_pure trivial
  | group _ inner => exact hpart inner (by simp [Expr.parts])
  | call span name arguments =>
    have hargs : ∀ e ∈ arguments, p.Infers N e := fun e he => h.part he
    have hc := Names.inferCall_calls hs
    dsimp only
    split
    · rename_i b hb
      exact (ih.exprs hargs).bind fun vs hvs => gives_ask fun s =>
        Builtin.call_resolved ((hc.arity_eq hb).trans hvs.symm)
    · rename_i hb
      exact ih.call (.inl (hc.exists_function hb)) h.functions hargs
        (h.callable (by simp [Expr.callsFunction, hb]))
  | method span receiver name arguments =>
    simp only [Names.infer, Judged.notes_bind, List.append_eq_nil_iff, Names.inferAll_value] at hs
    refine (hpart receiver (by simp [Expr.parts])).bind fun r _ =>
      (ih.exprs fun e he => h.part (List.mem_cons_of_mem _ he)).bind fun vs hvs => ?_
    split
    · rename_i k hk
      have hl := Method.arity_of_notes hk hs.2.2
      exact gives_edit fun s => Method.call_resolved (by simpa [hvs] using hl)
    · exact gives_fail rfl
  | index _ target index =>
    exact (hpart target (by simp [Expr.parts])).bind fun v _ =>
      (hindex index (by simp [Expr.parts])).bind fun i _ =>
      gives_ask fun s => s.element_resolved v i
  | cell _ target index column =>
    exact (hpart target (by simp [Expr.parts])).bind fun v _ =>
      (hindex index (by simp [Expr.parts])).bind fun i _ =>
      (gives_ask fun s => s.element_resolved v i).bind fun row _ =>
      (hindex column (by simp [Expr.parts])).bind fun j _ =>
      gives_ask fun s => s.cell_resolved v row j
  | vector _ items =>
    exact (ih.exprs fun e he => h.part he).bind fun vs _ =>
      (gives_ofExcept (Value.commonBase_resolved none vs)).bind fun _ _ => gives_onStore
  | matrix _ rows =>
    exact (ih.exprs fun e he => h.part he).bind fun vs _ =>
      (gives_ofExcept (Value.commonRowBase_resolved none vs)).bind fun _ _ => gives_onStore
  | newList _ base =>
    cases base with
    | none => exact gives_fail rfl
    | some b => exact gives_onStore.bind fun _ _ => gives_pure trivial

theorem exprs_succ {es : List Expr} (h : ∀ e ∈ es, p.Infers N e) :
    C.Gives N (Eval.exprs (n + 1) es) fun vs => vs.length = es.length := by
  cases es with
  | nil => exact gives_pure rfl
  | cons e es =>
    obtain ⟨he, hes⟩ := List.forall_mem_cons.1 h
    exact (ih.expr he).bind fun v _ => (ih.exprs hes).bind fun vs hvs => gives_pure (by simp [hvs])

theorem exprFor_succ {e : Expr} {t : Ty} (t' : Ty) (h : p.InfersFor N e t) :
    C.Gives N (Eval.exprFor (n + 1) e t') fun _ => True := by
  simp only [Eval.exprFor]
  refine Gives.withinExprFor ?_
  split
  · exact gives_onStore.bind fun _ _ => gives_pure trivial
  · exact gives_fail rfl
  · rename_i hlist _
    have hu : e.isUntyped = false := by
      unfold Expr.isUntyped
      split
      · exact (hlist _ rfl).elim
      · rfl
    exact ih.expr (.slot h hu)

theorem indexOf_succ {e : Expr} (h : p.Infers N e) :
    C.Gives N (Eval.indexOf (n + 1) e) fun _ => True :=
  (ih.expr h).bind fun v _ => by
    cases v <;> first | exact gives_pure trivial | exact gives_fail rfl

theorem indexOf?_succ {e : Option Expr} (h : ∀ e' ∈ e, p.Infers N e') :
    C.Gives N (Eval.indexOf? (n + 1) e) fun _ => True := by
  cases e with
  | none => exact gives_pure trivial
  | some e => exact (ih.indexOf (h e rfl)).bind fun _ _ => gives_pure trivial

theorem condition_succ {e : Expr} {k : String} (h : p.Infers N e) :
    C.Gives N (Eval.condition (n + 1) e k) fun _ => True :=
  (ih.expr h).bind fun v _ => by
    cases v <;> first | exact gives_pure trivial | exact gives_fail rfl

theorem goesOn_succ {e : Option Expr} (h : ∀ e' ∈ e, p.Infers N e') :
    C.Gives N (Eval.goesOn (n + 1) e) fun _ => True := by
  cases e with
  | none => exact gives_pure trivial
  | some e => exact ih.condition (h e rfl)

/-! ## Calls -/

omit ih in
/-- A declaration leads on to the names with it. -/
theorem declare_leads {c : Checker} {name : String} {ty : Ty} {category : Category} {o : Position}
    {value : Option Value} (hs : (c.declare name ty category o).Silent) :
    C.Leads c.toNames (c.declare name ty category o).toNames
      (Eval.declare name ty category o value) := by
  intro callers m hm
  have hd := C.declare value hs hm.holds
  refine meets_declare (fun hfree => ?_) fun htaken => ?_
  · rw [if_neg (by simp [hfree])] at hd
    exact ⟨⟨hm.quiet.report, hm.quiet.failure⟩, hd, hm.quiet.report, hm.quiet.failure⟩
  · rw [if_pos htaken] at hd
    exact ⟨⟨hd, hm.quiet⟩, C.allows rfl⟩

omit ih in
theorem parameter_eq {f : Function} {c : Checker} {q : Parameter}
    (h : (Checker.parameter f c q).Silent) :
    Checker.parameter f c q = c.declare q.name q.ty .parameter q.position := by
  simp only [Checker.parameter] at h ⊢
  split at h
  · exact absurd h silent_note
  · rw [if_neg ‹_›]

omit ih in
theorem declareParameters_meets {f : Function} {qs : List Parameter} {vs : List Value}
    {c : Checker} {callers : List Caller} {m : Machine} (hl : qs.length = vs.length)
    (hs : (qs.foldl (Checker.parameter f) c).Silent) (hm : C.Stands c.toNames m) :
    Meets (Event.Follows C) (declareParameters qs vs) callers m
      (fun _ t => C.Stands (qs.foldl (Checker.parameter f) c).toNames t)
      (fun d t => C.Quiet t ∧ C.Allows d.fault) := by
  induction qs generalizing vs c m with
  | nil => exact meets_pure hm
  | cons q qs ihq =>
    cases vs with
    | nil => cases hl
    | cons v vs =>
      have hfirst : (Checker.parameter f c q).Silent := (Checker.grows_parameters qs _).silent hs
      rw [List.foldl_cons, parameter_eq hfirst] at hs
      rw [List.foldl_cons, parameter_eq hfirst]
      rw [parameter_eq hfirst] at hfirst
      refine Meets.bind ((declare_leads hfirst callers m hm).imp (fun _ _ h => h)
        fun _ _ h => ⟨h.1.quiet, h.2⟩) fun _ t ht => ?_
      exact ihq (by simpa using hl) hs ht

omit ih in
/-- The end of a call reports at most a jump that nothing took. -/
theorem conclude_ends {f : Function} {callers : List Caller} {m : Machine} (hm : C.Quiet m) :
    Meets (Event.Follows C) (conclude f) callers m (fun _ t => C.Quiet t)
      (fun d t => C.Quiet t ∧ C.Allows d.fault) := by
  have htake : C.Quiet m.takeFailure.2 := ⟨hm.report, fun d hd => by cases hd⟩
  refine Meets.bind (R := fun r t => C.Quiet t ∧ r = m.failure) (meets_step htake ⟨htake, rfl⟩) ?_
  rintro r t ⟨ht, rfl⟩
  split
  · exact meets_fail ⟨ht, hm.failure _ ‹_›⟩
  · have hreturn : C.Quiet t.takeReturn.2 := by
      simp only [takeReturn]
      split <;> exact ⟨ht.report, ht.failure⟩
    refine Meets.bind (R := fun _ u => C.Quiet u) (meets_step hreturn hreturn) fun v u hu => ?_
    have hsignal : C.Quiet u.takeSignal.2 := ⟨hu.report, hu.failure⟩
    refine Meets.bind (R := fun _ w => C.Quiet w) (meets_step hsignal hsignal) fun g w hw => ?_
    split
    · rename_i signal
      have hnote := hw.note (d := unconsumed signal f.span.start) (C.allows rfl)
      exact Meets.bind (R := fun _ w => C.Quiet w) (meets_update hnote hnote)
        fun _ _ h => meets_pure h
    · exact meets_pure hw

/-- The body of a function runs where the check opened the function. -/
theorem inCall_ends {f : Function} {c : Checker} {ws : List Value} {o : Position}
    (hopens : p.Opens f c) (hf : c.functions = N.functions)
    (hg : c.scopes.globals.Within N.scopes.globals) (hl : f.parameters.length = ws.length) :
    C.Ends N (inCall f.name o do
      declareParameters f.parameters ws
      Eval.stmts n f.body.body
      conclude f) := by
  intro callers m hm
  have hstart : C.Stands (c.enterLabelled (Label.ofFunction f.name)).toNames
      (m.enterCall f.name).2 :=
    ⟨C.enterCall hopens hf hg hm.holds, hm.quiet.report, hm.quiet.failure⟩
  have hparams : (c.enterFunction f).Silent :=
    (Checker.stmts_grows f.body.body _).silent (hopens.silent C.clean)
  refine meets_inCall (fun _ => ⟨hm.quiet, C.allows rfl⟩) (fun _ => hstart.quiet) fun _ => ?_
  refine Meets.imp (Q := fun _ t => C.Quiet t) (F := fun d t => C.Quiet t ∧ C.Allows d.fault) ?_
    (fun _ _ h => ⟨⟨h.report, h.failure⟩, h.report, h.failure⟩)
    fun _ _ h => ⟨⟨h.1.report, h.1.failure⟩, ⟨h.1.report, h.1.failure⟩, h.2⟩
  refine Meets.bind (declareParameters_meets hl hparams hstart) fun _ t ht => ?_
  refine Meets.bind (ih.stmts ⟨_, .body hopens, .refl _⟩ _ t ht) fun _ u hu => ?_
  exact conclude_ends hu

/-- A call that finds its function runs the body under the names it was checked under. -/
theorem call_succ {name : String} {es : List Expr} {o : Position}
    (hr : C.Reaches N.functions name es.length) (hN : N.functions = p.table)
    (hes : ∀ e ∈ es, p.Infers N e) (hc : p.Callable N) :
    C.Gives N (Eval.call (n + 1) name es o) fun _ => True := by
  refine Ends.gives ?_ ((balanced (n + 1)).call name es o)
  rw [Eval.call]
  refine Ends.withinCall hr fun callers m hm => ?_
  refine Meets.bind (R := fun r t => t = m ∧ r = m.function? name) (meets_read ⟨rfl, rfl⟩) ?_
  rintro _ m ⟨rfl, rfl⟩
  have hfind : m.function? name = N.functions.find? name := by
    rw [Machine.function?, C.functions hm.holds]
  refine Meets.bind (R := fun f t => t = m ∧ m.function? name = some f)
    (meets_ofOption (fun f hf => ⟨rfl, hf⟩) fun hnone => ⟨hm.quiet, ?_⟩) ?_
  · rcases hr with ⟨f, hf, -⟩ | hr
    · cases hnone.symm.trans (hfind.trans hf)
    · exact hr _ rfl
  rintro f m ⟨rfl, hf⟩
  refine Meets.bind (R := fun _ t => t = m ∧ f.parameters.length = es.length)
    (meets_ofExcept (fun _ hl => ⟨rfl, checkArity_ok.1 hl⟩) fun e he => ⟨hm.quiet, ?_⟩) ?_
  · rcases hr with ⟨g, hg, hl⟩ | hr
    · obtain rfl := Option.some.inj (hf.symm.trans (hfind.trans hg))
      cases ((checkArity_ok (u := ())).2 hl).symm.trans he
    · exact hr _ (checkArity_missesCall he)
  rintro _ m ⟨rfl, hl⟩
  -- The check opened the body of every function before the first call that it saw.
  have hmem : f ∈ p.functions := Program.mem_of_table (by rw [← hN, ← hfind, hf])
  obtain ⟨c, hopens, -, -, hfs, hg⟩ := hc f hmem
  refine ((ih.exprs hes).andEnds fun vs hvs callers m hm => ?_) callers m hm
  refine Meets.bind (R := fun ws t => t = m ∧ f.parameters.length = ws.length)
    (meets_ofResult (fun ws hws => ⟨rfl, ?_⟩) fun d hd =>
      ⟨hm.quiet, C.allows (convertArguments_resolved hd)⟩) ?_
  · exact convertArguments_length hws (by simp [hl, hvs])
  rintro ws m ⟨rfl, hws⟩
  refine Meets.bind (ih.inCall_ends hopens hfs hg hws callers m hm) fun v t ht => ?_
  exact meets_ofExcept (fun _ _ => ht) fun e he => ⟨ht, C.allows (callResult_resolved f v e he)⟩

/-! ## Statements -/

theorem stmts_succ {ss : List Stmt} (h : C.Visits N ss) : C.Ends N (Eval.stmts (n + 1) ss) := by
  obtain ⟨c, hc, hN⟩ := h
  cases ss with
  | nil => exact ends_pure
  | cons s ss =>
    intro callers m hm
    refine ((ih.stmt hc).andEnds fun callers t ht => ?_) callers m (hm.alike hN)
    refine Meets.bind (R := fun b u => u = t ∧ b = t.pending) (meets_read ⟨rfl, rfl⟩) ?_
    rintro b u ⟨rfl, rfl⟩
    split
    · exact meets_pure ht.quiet
    · exact ih.stmts ⟨_, hc.next, .refl _⟩ callers u ht

theorem block_succ {b : Block} (h : C.Visits { N with scopes := N.scopes.push } b.body) :
    C.Leads N N (Eval.block (n + 1) b) :=
  ((ih.stmts h).inScope.gives ((balanced (n + 1)).block b)).leads

theorem header_succ {s : Option Stmt} {c : Checker} (h : p.Walks s.toList c) :
    C.Leads c.toNames (Checker.optional s c).toNames (Eval.header (n + 1) s) := by
  cases s with
  | none => exact (gives_pure (P := fun _ => True) trivial).leads
  | some s => exact ih.perform h

theorem whileLoop_succ {e : Expr} {b : Block} (h : p.Infers N e)
    (hb : C.Visits { N with scopes := N.scopes.push } b.body) :
    C.Ends N (Eval.whileLoop (n + 1) e b) := by
  refine (ih.condition h).andEnds fun k _ => ?_
  split
  · exact (ih.block hb).round (ih.whileLoop h hb)
  · exact ends_pure

theorem doLoop_succ {e : Expr} {b : Block} (h : p.Infers N e)
    (hb : C.Visits { N with scopes := N.scopes.push } b.body) :
    C.Ends N (Eval.doLoop (n + 1) b e) := by
  refine (ih.block hb).round ((ih.condition h).andEnds fun k _ => ?_)
  split
  · exact ih.doLoop h hb
  · exact ends_pure

theorem forLoop_succ {e : Option Expr} {s : Option Stmt} {b : Block}
    (he : ∀ e' ∈ e, p.Infers N e')
    (hs : ∃ c, p.Walks s.toList c ∧ C.Alike N c.toNames ∧
      C.Alike N (Checker.optional s c).toNames)
    (hb : C.Visits { N with scopes := N.scopes.push } b.body) :
    C.Ends N (Eval.forLoop (n + 1) e s b) := by
  refine (ih.goesOn he).andEnds fun k _ => ?_
  split
  · refine (ih.block hb).round fun callers m hm => ?_
    obtain ⟨c, hc, hbefore, hafter⟩ := id hs
    refine ((ih.header hc).andEnds fun callers t ht => ?_) callers m (hm.alike hbefore)
    exact ih.forLoop he hs hb callers t (ht.alike hafter.symm)
  · exact ends_pure

/-- A body of a switch that is left by no jump goes on with the next one. -/
theorem switch_succ {v : Value} {cs : List Case} {d : Option (List Stmt)} {b : Bool}
    (hcs : ∀ k ∈ cs, (∃ N', p.Infers N' k.value ∧ C.Alike N N') ∧ C.Visits N k.body ∧
      C.Fixed k.body)
    (hd : ∀ body ∈ d, C.Visits N body) : C.Ends N (Eval.switch (n + 1) v cs d b) := by
  cases cs with
  | nil =>
    cases d with
    | none => exact ends_pure
    | some body =>
      intro callers m hm
      refine Meets.bind (ih.stmts (hd body rfl) callers m hm) fun _ t ht => ?_
      have hq := ht.consume .breakSwitch
      exact Meets.bind (R := fun _ u => C.Quiet u) (meets_step hq hq) fun _ _ hu => meets_pure hu
  | cons k cs =>
    obtain ⟨⟨⟨N', hk, hN⟩, hbody, hfixed⟩, hrest⟩ := List.forall_mem_cons.1 hcs
    cases b with
    | false =>
      simp only [Eval.switch]
      refine ((ih.expr hk).alike hN).andEnds fun w _ => gives_read.andEnds fun b _ => ?_
      split
      · exact ih.switch hcs hd
      · exact ih.switch hrest hd
    | true =>
      simp only [Eval.switch]
      refine ((ih.stmts hbody).fixed hfixed).andEnds fun callers t ht => ?_
      have hq := ht.quiet.consume .breakSwitch
      refine Meets.bind (R := fun _ u => C.Stands N u)
        (meets_step hq (ht.keeps (keeps_consume t _) hq)) fun b u hu => ?_
      split
      · exact meets_pure hu.quiet
      · refine Meets.bind (R := fun _ w => w = u) (meets_read rfl) ?_
        rintro b w rfl
        split
        · exact meets_pure hu.quiet
        · exact ih.switch hrest hd callers w hu

section Perform

variable {ss : List Stmt} {c : Checker} {span : Span}

/-- A variable is declared with its value, or with the default of its type if the value fails. -/
theorem declare_perform {name : String} {ty : Ty} {value : Option Expr}
    (h : p.Walks (.declare span name ty value :: ss) c) :
    C.Leads c.toNames (Checker.stmt (.declare span name ty value) c).toNames
      (Eval.perform (n + 1) (.declare span name ty value)) := by
  simp only [Eval.perform]
  refine Leads.withinStmt h ?_
  have hs := h.silentHead C.clean
  cases value with
  | none => exact declare_leads hs
  | some e =>
    have hvalue : C.Gives c.toNames (do
        let v ← Eval.exprFor n e ty
        Eval.ofExcept span.start (v.convert ty name)) fun _ => True :=
      (ih.exprFor ty (.slot h (List.mem_singleton.2 rfl))).bind fun v _ =>
        gives_ofExcept (v.convert_resolved ty name)
    intro callers m hm
    refine Meets.bind (R := Attempted (fun _ t => C.Stands c.toNames t)
      fun d t => C.Stands c.toNames t ∧ C.Allows d.fault)
      (meets_attempt ((hvalue callers m hm).imp (fun _ _ h => h.1) fun _ _ h => h)) ?_
    rintro (d | v) t ht
    · refine Meets.bind (declare_leads hs callers t ht.1) fun _ u hu => ?_
      exact meets_fail ⟨hu, ht.2⟩
    · exact declare_leads hs callers t ht

theorem assign_perform {name : String} {value : Expr}
    (h : p.Walks (.assign span name value :: ss) c) : C.Ends c.toNames (do
      let target ← Runs.look (·.typeOf name span.start)
      let v ← Eval.exprFor n value target
      assign name v span.start) := by
  have hs := (silent_observe.1 (h.silentHead C.clean)).2
  simp only [Checker.assignment, Judged.notes_bind, List.append_eq_nil_iff] at hs
  exact (gives_lookup hs.1).andEnds fun t _ =>
    (ih.exprFor t (.slot h (List.mem_singleton.2 rfl))).andEnds fun v _ => ends_assign hs.1

theorem assignIndex_perform {target index value : Expr} {column : Option Expr}
    (h : p.Walks (.assignIndex span target index column value :: ss) c) : C.Ends c.toNames (do
      let container ← Eval.expr n target
      let i ← Eval.indexOf n index
      let j ← Eval.indexOf? n column
      let v ← Eval.expr n value
      write container i j v target.text span.start) := by
  have hroot : ∀ e ∈ target :: index :: value :: column.toList, p.Infers c.toNames e :=
    fun e he => .root h (by simpa [Checker.roots] using he)
  refine (ih.expr (hroot target (by simp))).andEnds fun _ _ =>
    (ih.indexOf (hroot index (by simp))).andEnds fun _ _ =>
    (ih.indexOf? fun e he => hroot e ?_).andEnds fun _ _ =>
    (ih.expr (hroot value (by simp))).andEnds fun _ _ => gives_write.ends
  simp [Option.mem_def.1 he]

theorem step_perform {target : Expr} {up : Bool} (h : p.Walks (.step span target up :: ss) c) :
    C.Leads c.toNames (Checker.stmt (.step span target up) c).toNames
      (Eval.perform (n + 1) (.step span target up)) := by
  have hs := (balanced (n + 1)).performStays (.step span target up) rfl
  simp only [Eval.perform] at hs ⊢
  refine Ends.withinStmt ?_ h rfl hs
  have hroot : p.Infers c.toNames target := .root h (by simp [Checker.roots])
  cases target with
  | name _ name =>
    have hn := hroot.silent C.clean
    exact (gives_lookup hn).andEnds fun v _ => (gives_ofExcept (v.step_resolved up)).andEnds
      fun _ _ => ends_assign hn
  | index _ target index =>
    exact (ih.expr (hroot.part (by simp [Expr.parts]))).andEnds fun v _ =>
      (ih.indexOf (hroot.part (by simp [Expr.parts]))).andEnds fun i _ =>
      (gives_ask fun s => s.element_resolved v i).andEnds fun w _ =>
      (gives_ofExcept (w.step_resolved up)).andEnds fun _ _ => gives_write.ends
  | cell _ target index column =>
    exact (ih.expr (hroot.part (by simp [Expr.parts]))).andEnds fun v _ =>
      (ih.indexOf (hroot.part (by simp [Expr.parts]))).andEnds fun i _ =>
      (ih.indexOf (hroot.part (by simp [Expr.parts]))).andEnds fun j _ =>
      (gives_ask fun s => s.element_resolved v i).andEnds fun row _ =>
      (gives_ask fun s => s.element_resolved row j).andEnds fun w _ =>
      (gives_ofExcept (w.step_resolved up)).andEnds fun _ _ => gives_write.ends
  | _ => exact (gives_fail (P := fun _ => True) rfl).ends

theorem branch_perform {test : Expr} {body : Block} {otherwise : Option Stmt}
    (h : p.Walks (.branch span test body otherwise :: ss) c) :
    C.Leads c.toNames (Checker.stmt (.branch span test body otherwise) c).toNames
      (Eval.perform (n + 1) (.branch span test body otherwise)) := by
  have hg := (balanced (n + 1)).perform (.branch span test body otherwise)
  have hk := (balanced (n + 1)).performStays (.branch span test body otherwise)
  simp only [Eval.perform] at hg hk ⊢
  have hd (hp : p.Proper) : (Stmt.branch span test body otherwise).declares = false :=
    (h.all (fun _ hs => hs.inner) hp _ List.mem_cons_self).declares_alternative rfl
  refine Ends.withinAny ?_ h hd hk hg
  let c₁ := c.observe (Checker.condition c.toNames test "if")
  refine (ih.condition (.root h (by simp [Checker.roots]))).andEnds fun b _ => ?_
  split
  · exact (ih.block ⟨c₁.enterScope, h.inside (by simp [Checker.bodies, c₁]), .refl _⟩).ends
  · cases otherwise with
    | none => exact ends_pure
    | some s =>
      have hnext : p.Walks [s] (Checker.block body c₁) := h.inside (by simp [Checker.bodies, c₁])
      have hs := (ih.stmt hnext).ends
      rw [(Checker.block_keeps body c₁).names] at hs
      exact hs

theorem switch_perform {e : Expr} {cs : List Case} {d : Option (List Stmt)}
    (h : p.Walks (.switch span e cs d :: ss) c) : C.Ends c.toNames (do
      let v ← Eval.expr n e
      inLabelled (Label.ofSwitch e) (inConstruct .switch (Eval.switch n v cs d false))) := by
  let c₁ := (c.observe (c.infer e)).enterLabelled (Label.ofSwitch e)
  have hdeclares : p.everywhere Stmt.declaresInNoCase = true →
      (∀ k ∈ cs, ∀ s ∈ k.body, s.declares = false) ∧ ∀ s ∈ d.getD [], s.declares = false := by
    intro hcases
    have hs := h.everywhere hcases _ List.mem_cons_self
    simpa [Stmt.declaresInNoCase] using hs
  refine (ih.expr (.root h (by simp [Checker.roots]))).andEnds fun v _ =>
    Ends.inLabelled (Ends.inConstruct (ih.switch (fun k hk => ?_) fun body hbody => ?_))
  · obtain ⟨c', hvalue, hbody, hf, hN⟩ := Checker.cases_reached (t := (c.infer e).value)
      (c := c₁) k hk
    have halike : C.Alike c₁.toNames c'.toNames :=
      alike_of_functions hf fun _ hcases => hN (hdeclares hcases).1
    refine ⟨⟨c'.toNames, .root h ?_, halike⟩,
      ⟨c'.observe (Checker.caseValue c'.toNames (c.infer e).value k.value), h.inside ?_, halike⟩,
      fixed_of_declares fun _ hcases => (hdeclares hcases).1 k hk⟩
    · simp only [Checker.roots, List.mem_cons]
      exact .inr hvalue
    · simp only [Checker.bodies, List.mem_cons]
      exact .inr hbody
  · obtain rfl : d = some body := hbody
    refine ⟨Checker.cases (c.infer e).value cs c₁, h.inside ?_, ?_⟩
    · simp only [Checker.bodies, List.mem_cons]
      exact .inl rfl
    · exact alike_of_functions (Checker.cases_grows _ cs c₁).functions fun _ hcases =>
        (Checker.cases_visits (hdeclares hcases).1).2.names

theorem whileLoop_perform {test : Expr} {body : Block}
    (h : p.Walks (.whileLoop span test body :: ss) c) : C.Ends c.toNames
      (inLabelled (Label.ofWhile test) (inConstruct .loop (Eval.whileLoop n test body))) :=
  Ends.inLabelled (Ends.inConstruct (ih.whileLoop (.root h (by simp [Checker.roots]; rfl))
    ⟨_, h.inside (List.mem_singleton.2 rfl), .refl _⟩))

theorem doLoop_perform {test : Expr} {body : Block} (h : p.Walks (.doLoop span body test :: ss) c) :
    C.Ends c.toNames
      (inLabelled (Label.ofDo test) (inConstruct .loop (Eval.doLoop n body test))) := by
  let c₁ := c.enterLabelled (Label.ofDo test)
  have hroot : p.Infers (Checker.block body c₁).toNames test :=
    .root h (by simp [Checker.roots, c₁])
  rw [(Checker.block_keeps body c₁).names] at hroot
  exact Ends.inLabelled (Ends.inConstruct (ih.doLoop hroot
    ⟨_, h.inside (List.mem_singleton.2 rfl), .refl _⟩))

theorem forLoop_perform {first next : Option Stmt} {test : Option Expr} {body : Block}
    (h : p.Walks (.forLoop span first test next body :: ss) c) :
    C.Ends c.toNames (inLabelled (Label.ofFor test) do
      Eval.header n first
      inConstruct .loop (Eval.forLoop n test next body)) := by
  let c₁ := c.enterLabelled (Label.ofFor test)
  let c₂ := Checker.optional first c₁
  let c₃ := c₂.goesOn test
  let c₄ := Checker.optional next c₃
  have htest : c₃.toNames = c₂.toNames := (Checker.keeps_goesOn test).names
  have hf : c₄.functions = c₂.functions :=
    (Checker.optional_grows next c₃).functions.trans (congrArg Names.functions htest)
  have hN : p.Proper → c₄.toNames = c₂.toNames := by
    intro hp
    have hs := h.all (fun _ hs => hs.inner) hp _ List.mem_cons_self
    cases hs with
    | forLoop _ _ hn => exact (Checker.optional_keeps c₃ hn).names.trans htest
  have hbodies : ∀ body' c', (body', c') ∈ [(first.toList, c₁), (next.toList, c₃),
      (body.body, c₄.enterScope)] → p.Walks body' c' := fun _ _ hb => h.inside hb
  have hroot : ∀ e ∈ test, p.Infers c₂.toNames e := by
    intro e he
    refine .root h ?_
    simpa [Checker.roots] using ⟨he, rfl⟩
  refine Ends.inLabelled ((ih.header (hbodies first.toList c₁ (by simp))).andEnds
    (Ends.inConstruct (ih.forLoop hroot ⟨c₃, hbodies _ _ (by simp), ?_, ?_⟩
      ⟨c₄.enterScope, hbodies _ _ (by simp), ?_⟩)))
  · rw [htest]
    exact .refl _
  · exact alike_of_functions hf fun hp _ => hN hp
  · exact alike_of_functions hf fun hp _ =>
      congrArg (fun N : Names => { N with scopes := N.scopes.push }) (hN hp)

theorem start_perform {name : String} {arguments : List Expr}
    (h : p.Walks (.start span name arguments :: ss) c) : C.Ends c.toNames (do
      let _ ← Eval.call n name arguments span.start) := by
  have hr : C.Reaches c.functions name arguments.length := by
    rcases C.starts with hstarts | hallowed
    · exact .inl (h.started C.clean hstarts).2
    · exact .inr hallowed
  have hcallable := h.callable (by simp [stmtsCallFunction, Stmt.callsFunction])
  exact (ih.call hr h.functions (fun e he => .root h (by simpa [Checker.roots] using he))
    hcallable).andEnds fun _ _ => ends_pure

theorem perform_succ {s : Stmt} (h : p.Walks (s :: ss) c) :
    C.Leads c.toNames (Checker.stmt s c).toNames (Eval.perform (n + 1) s) := by
  have hstays := (balanced (n + 1)).performStays s
  cases s with
  | declare => exact ih.declare_perform h
  | assign => exact (ih.assign_perform h).withinStmt h rfl (hstays rfl)
  | assignIndex => exact (ih.assignIndex_perform h).withinStmt h rfl (hstays rfl)
  | step => exact ih.step_perform h
  | block b =>
    have hb : C.Visits { c.toNames with scopes := c.scopes.push } b.body :=
      ⟨c.enterScope, h.inside (List.mem_singleton.2 rfl), .refl _⟩
    exact (ih.block hb).ends.withinStmt h rfl (hstays rfl)
  | branch => exact ih.branch_perform h
  | switch => exact (ih.switch_perform h).withinStmt h rfl (hstays rfl)
  | whileLoop => exact (ih.whileLoop_perform h).withinStmt h rfl (hstays rfl)
  | doLoop => exact (ih.doLoop_perform h).withinStmt h rfl (hstays rfl)
  | forLoop => exact (ih.forLoop_perform h).withinStmt h rfl (hstays rfl)
  | breakOut | continueOn =>
    exact Ends.withinStmt (ends_update fun _ hq => ⟨hq.report, hq.failure⟩) h rfl (hstays rfl)
  | print _ value =>
    refine Ends.withinStmt ?_ h rfl (hstays rfl)
    exact (ih.expr (.root h (by simp [Checker.roots]))).andEnds fun v _ =>
      ends_update fun _ hq => ⟨hq.report, hq.failure⟩
  | function => exact Ends.withinStmt ends_pure h rfl (hstays rfl)
  | giveBack _ value =>
    cases value with
    | none =>
      exact Ends.withinStmt (ends_update fun _ hq => ⟨hq.report, hq.failure⟩) h rfl (hstays rfl)
    | some e =>
      refine Ends.withinStmt ?_ h rfl (hstays rfl)
      exact (ih.expr (.root h (by simp [Checker.roots]))).andEnds fun v _ =>
        ends_update fun _ hq => ⟨hq.report, hq.failure⟩
  | start => exact (ih.start_perform h).withinStmt h rfl (hstays rfl)
  | expression _ value =>
    refine Ends.withinStmt ?_ h rfl (hstays rfl)
    exact (ih.expr (.root h (by simp [Checker.roots]))).andEnds fun _ _ => ends_pure

end Perform

end Tracks

theorem tracks (C : Course p) (n : Nat) : Tracks C n := by
  induction n with
  | zero => exact .zero
  | succ n ih =>
    exact {
      expr := ih.expr_succ
      exprs := ih.exprs_succ
      exprFor := ih.exprFor_succ
      indexOf := ih.indexOf_succ
      indexOf? := ih.indexOf?_succ
      condition := ih.condition_succ
      goesOn := ih.goesOn_succ
      call := ih.call_succ
      stmt := fun h => (ih.perform h).guarded
      stmts := ih.stmts_succ
      block := ih.block_succ
      perform := ih.perform_succ
      header := ih.header_succ
      switch := ih.switch_succ
      whileLoop := ih.whileLoop_succ
      doLoop := ih.doLoop_succ
      forLoop := ih.forLoop_succ }

/-- At top level a run goes where the check goes, and every failure is reported. -/
theorem topLevel_meets {pending : List Function} {ss : List Stmt} {c : Checker} {m : Machine}
    (h : p.Reaches pending ss c) (hm : C.Stands c.toNames m) :
    Meets (Event.Follows C) (topLevel n ss) [] m (fun _ t => C.Quiet t)
      (fun d t => C.Quiet t ∧ C.Allows d.fault) := by
  induction n generalizing pending ss c m with
  | zero => exact meets_exhausted
  | succ n ih =>
    cases ss with
    | nil => exact meets_pure hm.quiet
    | cons s ss =>
      rw [← (Checker.keeps_before c pending s).names] at hm
      -- All statements but functions are run alike; the text of a round is the same for each.
      have hround : ∀ next : Option Signal → Watched Unit, next none = topLevel n ss →
          (∀ g, next (some g) = update (·.note (unconsumed g s.position))) →
          Meets (Event.Follows C) (do
            Eval.stmt n s
            next (← Runs.step Machine.takeSignal)) [] m (fun _ t => C.Quiet t)
            (fun d t => C.Quiet t ∧ C.Allows d.fault) := by
        intro next hnone hsome
        refine Meets.bind (((tracks C n).stmt (.top h) [] m hm).imp (fun _ _ h => h)
          fun _ _ h => ⟨h.1.quiet, h.2⟩) fun _ t ht => ?_
        have hq : C.Quiet t.takeSignal.2 := ⟨ht.quiet.report, ht.quiet.failure⟩
        refine Meets.bind (R := fun _ u => C.Stands (Checker.stmt s (c.before pending s)).toNames u)
          (meets_step hq (ht.keeps ⟨rfl, rfl, rfl, rfl⟩ hq)) fun g u hu => ?_
        cases g with
        | none =>
          rw [hnone]
          exact ih h.next hu
        | some signal =>
          rw [hsome]
          have hnote := hu.quiet.note (d := unconsumed signal s.position) (C.allows rfl)
          exact meets_update hnote hnote
      cases s
      case function f =>
        have hkeeps := Checker.stmt_keeps (.function f) (c.before pending (.function f)) rfl
        rw [← hkeeps.names] at hm
        exact ih h.next hm
      all_goals exact hround _ rfl fun _ => rfl

/-- Before the first statement nothing is reported. -/
theorem quiet_loaded (C : Course p) (limit : Nat) : C.Quiet (p.loaded limit) := by
  have hr := (Program.agrees_loaded C.clean limit).1
  constructor
  · intro d hd
    simp [hr, Report.toList] at hd
  · intro d hd
    rw [p.loaded_eq limit] at hd
    cases hd

/-- In every run of a program everything that is noted is what the course says, and nothing is
reported but what it allows. -/
theorem run (C : Course p) (fuel limit : Nat) :
    (∀ e ∈ p.history fuel limit, e.Follows C) ∧
      ∀ m, p.execute fuel limit = some m → C.Quiet m := by
  obtain ⟨he, ho⟩ := topLevel_meets (n := fuel) .first ⟨C.loaded limit, C.quiet_loaded limit⟩
  refine ⟨he, fun m hm => ?_⟩
  rw [Program.execute_eq] at hm
  obtain ⟨r, hr, rfl⟩ := Option.map_eq_some_iff.1 hm
  rw [← Program.record, hr] at ho
  cases r with
  | ok => exact ho
  | error => exact ho.1

end Course

end Primer
