import Primer.Proofs.Conclusion

/-!
# Runs of checked programs

Every part of the evaluator goes where the check goes (`Watched.Upholds`), one form of statement
after the other. So in every run of a program without complaints all values are of the inferred
types and only residual faults are reported (`Program.checked_run`).
-/

namespace Primer

namespace Watched

open Eval Machine
open Checker (silent_observe grows_declare)

/-- Checking a program checks statements under names, in the body of a function. -/
def Visits (p : Program) (N : Names) (current : Option Function) (ss : List Stmt) : Prop :=
  ∃ c, p.Walks ss c ∧ c.toNames = N ∧ c.current = current

/-- Every part of the evaluator goes where the check goes. -/
structure Upholds (p : Program) (n : Nat) : Prop extends Values p n where
  stmt : ∀ {callers L s ss c}, p.Walks (s :: ss) c →
    Leads p c.toNames (Checker.stmt s c).toNames c.current callers L (stmt n s)
  stmts : ∀ {callers L N current ss}, Visits p N current ss →
    Concludes p N current callers L (stmts n ss)
  block : ∀ {callers L N current} {b : Block},
    Visits p { N with scopes := N.scopes.push } current b.body →
    Leads p N N current callers L (block n b)
  perform : ∀ {callers L s ss c}, p.Walks (s :: ss) c →
    Leads p c.toNames (Checker.stmt s c).toNames c.current callers L (perform n s)
  header : ∀ {callers L c} {s : Option Stmt}, p.Walks s.toList c →
    Leads p c.toNames (Checker.optional s c).toNames c.current callers L (header n s)
  switch : ∀ {callers L N current v cs d b},
    (∀ k ∈ cs, p.Infers N k.value ∧ Visits p N current k.body ∧ ∀ s ∈ k.body, s.declares = false) →
    (∀ body ∈ d, Visits p N current body) →
    Concludes p N current callers L (switch n v cs d b)
  whileLoop : ∀ {callers L N current e} {b : Block}, p.Infers N e → (N.infer e).value = .bool →
    Visits p { N with scopes := N.scopes.push } current b.body →
    Concludes p N current callers L (whileLoop n e b)
  doLoop : ∀ {callers L N current e} {b : Block}, p.Infers N e → (N.infer e).value = .bool →
    Visits p { N with scopes := N.scopes.push } current b.body →
    Concludes p N current callers L (doLoop n b e)
  forLoop : ∀ {callers L N current e s} {b : Block},
    (∀ e' ∈ e, p.Infers N e' ∧ (N.infer e').value = .bool) →
    Visits p N current s.toList → (∀ s' ∈ s, s'.isSimple = true) →
    Visits p { N with scopes := N.scopes.push } current b.body →
    Concludes p N current callers L (forLoop n e s b)

namespace Upholds

variable {p : Program} {N : Names} {current : Option Function} {callers : List Caller}
  {L : Layout} {n : Nat}

theorem zero : Upholds p 0 where
  expr _ := returns_exhausted
  exprs _ := returns_exhausted
  exprFor _ _ := returns_exhausted
  indexOf _ _ := returns_exhausted
  indexOf? _ := returns_exhausted
  condition _ _ := returns_exhausted
  goesOn _ := returns_exhausted
  call _ _ _ _ := returns_exhausted
  stmt _ := leads_exhausted
  stmts _ := concludes_exhausted
  block _ := leads_exhausted
  perform _ := leads_exhausted
  header _ := leads_exhausted
  switch _ _ := concludes_exhausted
  whileLoop _ _ _ := concludes_exhausted
  doLoop _ _ _ := concludes_exhausted
  forLoop _ _ _ _ := concludes_exhausted

variable (hp : p.Accepted) (ih : Upholds p n)
include ih

theorem stmts_succ : ∀ {ss : List Stmt}, Visits p N current ss →
    Concludes p N current callers L (Eval.stmts (n + 1) ss)
  | [], _ => concludes_pure
  | s :: ss, ⟨c, hc, hN, hcur⟩ => by
    subst hN hcur
    intro m hm
    refine Meets.bind ((ih.stmt hc m hm).imp (fun _ _ h => h) ?_) ?_
    · rintro d t ⟨⟨L', -, ht⟩, hd⟩
      exact ⟨⟨ht.quiet, ht.tame⟩, hd⟩
    rintro _ t ⟨L', -, ht⟩
    refine Meets.bind (R := fun b u => u = t ∧ b = t.pending) (meets_read ⟨rfl, rfl⟩) ?_
    rintro b u ⟨rfl, rfl⟩
    split
    · exact meets_pure ⟨ht.quiet, ht.tame⟩
    · have hcur := (Checker.stmt_grows s c).current
      exact ih.stmts ⟨_, hc.next, rfl, hcur⟩ u
        (ht.stands (clean_of_pending (Bool.eq_false_iff.2 ‹_›)))

theorem whileLoop_succ {e : Expr} {b : Block} (h : p.Infers N e) (ht : (N.infer e).value = .bool)
    (hb : Visits p { N with scopes := N.scopes.push } current b.body) :
    Concludes p N current callers L (Eval.whileLoop (n + 1) e b) := by
  refine (ih.condition h ht).bindConcludes fun _ c _ _ => ?_
  split
  · exact (ih.block hb).round fun _ => ih.whileLoop h ht hb
  · exact concludes_pure

theorem doLoop_succ {e : Expr} {b : Block} (h : p.Infers N e) (ht : (N.infer e).value = .bool)
    (hb : Visits p { N with scopes := N.scopes.push } current b.body) :
    Concludes p N current callers L (Eval.doLoop (n + 1) b e) := by
  refine (ih.block hb).round fun _ => (ih.condition h ht).bindConcludes fun _ c _ _ => ?_
  split
  · exact ih.doLoop h ht hb
  · exact concludes_pure

include hp

theorem forLoop_succ {e : Option Expr} {s : Option Stmt} {b : Block}
    (he : ∀ e' ∈ e, p.Infers N e' ∧ (N.infer e').value = .bool)
    (hs : Visits p N current s.toList) (hsimple : ∀ s' ∈ s, s'.isSimple = true)
    (hb : Visits p { N with scopes := N.scopes.push } current b.body) :
    Concludes p N current callers L (Eval.forLoop (n + 1) e s b) := by
  refine (ih.goesOn he).bindConcludes fun _ c _ _ => ?_
  split
  · refine (ih.block hb).round fun L => ?_
    have hs' := hs
    obtain ⟨c, hc, rfl, rfl⟩ := hs'
    have hheader : Leads p c.toNames (Checker.optional s c).toNames c.current callers L
      (Eval.header n s) := ih.header hc
    rw [(Checker.optional_keeps c hsimple).names] at hheader
    exact hheader.bind hp (fun q hq => (disciplined n).header hq
      (fun s hs => Stmt.isFirst_of_isSimple (hsimple s hs))
      fun s' hs' => (hp.walks hc s' (by simpa using hs')).1)
      fun _ => ih.forLoop he hs hsimple hb
  · exact concludes_pure

theorem switch_succ {v : Value} : ∀ {cs : List Case} {d : Option (List Stmt)} {b : Bool},
    (∀ k ∈ cs, p.Infers N k.value ∧ Visits p N current k.body ∧
      ∀ s ∈ k.body, s.declares = false) →
    (∀ body ∈ d, Visits p N current body) →
    Concludes p N current callers L (Eval.switch (n + 1) v cs d b)
  | [], none, _, _, _ => concludes_pure
  | [], some body, _, _, hd => by
    intro m hm
    refine Meets.bind (ih.stmts (hd body rfl) m hm) fun _ t ht => ?_
    have hc := tame_consume ht.1 ht.2 .breakSwitch
    exact Meets.bind (R := fun _ u => u.Quiet p ∧ u.Tame p current) (meets_step hc.1 hc)
      fun _ _ hu => meets_pure hu
  | k :: rest, d, false, hcs, hd => by
    obtain ⟨hk, hrest⟩ := List.forall_mem_cons.1 hcs
    simp only [Eval.switch]
    refine (ih.expr hk.1).bindConcludes fun _ w _ _ =>
      (returns_read (P := Anything) fun _ _ => trivial).bindConcludes fun _ b _ _ => ?_
    split
    · exact ih.switch hcs hd
    · exact ih.switch hrest hd
  | k :: rest, d, true, hcs, hd => by
    obtain ⟨⟨-, hk, hdeclares⟩, hrest⟩ := List.forall_mem_cons.1 hcs
    simp only [Eval.switch]
    intro m hm
    have hproper : ∀ s ∈ k.body, s.Proper := by
      obtain ⟨c, hc, -⟩ := hk
      exact fun s hs => (hp.walks hc s hs).1
    have hbody := (ih.stmts hk).leads ((yieldsAll (fun _ _ => hp.function) n).stmts hproper)
      (stmts_stays n hdeclares) m hm
    refine Meets.bind (hbody.imp (fun _ _ h => h) ?_) ?_
    · rintro d t ⟨⟨L', -, ht⟩, hd⟩
      exact ⟨⟨ht.quiet, ht.tame⟩, hd⟩
    rintro _ t ⟨L', -, ht⟩
    have hc := over_consume ht .breakSwitch
    refine Meets.bind (R := fun _ u => u.Over p N current callers L')
      (meets_step hc.quiet hc) fun b u hu => ?_
    split
    · exact meets_pure ⟨hu.quiet, hu.tame⟩
    · refine Meets.bind (R := fun b t => t = u ∧ b = u.pending) (meets_read ⟨rfl, rfl⟩) ?_
      rintro b t ⟨rfl, rfl⟩
      split
      · exact meets_pure ⟨hu.quiet, hu.tame⟩
      · exact ih.switch hrest hd t
          (hu.stands (clean_of_pending (Bool.eq_false_iff.2 ‹_›)))

theorem declare_leads {span : Span} {name : String} {ty : Ty} {value : Option Expr}
    {ss : List Stmt} {c : Checker} (h : p.Walks (.declare span name ty value :: ss) c) :
    Leads p c.toNames (Checker.stmt (.declare span name ty value) c).toNames c.current callers L
      (Eval.perform (n + 1) (.declare span name ty value)) := by
  simp only [Eval.perform]
  refine Leads.withinStmt ?_
  have hs := h.silentHead hp.clean
  have ht : ty ≠ .error := by
    cases (hp.walks h _ List.mem_cons_self).1 with
    | declare h => exact h.2
  cases value with
  | none =>
    intro m hm
    refine (declare_meets ht (by simp) hs hm).imp ?_ fun _ _ h => h
    rintro _ t ⟨L', hL, ht⟩
    exact ⟨L', hL, ht.over⟩
  | some e =>
    have hj := (silent_observe.1 (grows_declare.silent hs)).2
    simp only [Checker.initial, Judged.notes_bind, List.append_eq_nil_iff] at hj
    have hvalue : Returns p c.toNames callers L (do
        let v ← Eval.exprFor n e ty
        Eval.ofExcept span.start (v.convert ty name)) fun L w => w.ty = ty ∧ w.Fits L := by
      refine (ih.exprFor (.slot h (by simp [Checker.slots])) ht).andThen fun _ v _ hv => ?_
      rw [← hv.1] at hj
      obtain ⟨w, hw, hwt⟩ := Value.convert_of_assignable name
        (fits_assignable ht v.ty_ne_error hj.2)
      exact returns_ofExcept (accords_ok hw ⟨hwt, Value.coerce?_fits (Value.convert_ok hw) hv.2⟩)
    intro m hm
    refine Meets.bind (meets_attempt (Q := Attempted
      (fun (w : Value) t => ∃ L', L <+: L' ∧ t.Stands p c.toNames callers L' ∧
        w.ty = ty ∧ w.Fits L')
      (fun d t => ∃ L', L <+: L' ∧ t.Stands p c.toNames callers L' ∧ d.fault.Residual p))
      ((hvalue m hm).imp (fun _ _ h => h) ?_)) ?_
    · rintro d t ⟨⟨L', hL, ht⟩, hd⟩
      exact ⟨L', hL, ht, hd⟩
    · rintro (d | w) t ⟨L', hL, hst, hr⟩
      · refine Meets.bind (declare_meets ht (by simp) hs hst) ?_
        rintro _ u ⟨M, hM, hu⟩
        exact meets_fail ⟨⟨M, hL.trans hM, hu.over⟩, hr⟩
      · refine (declare_meets ht (fun v hv => ?_) hs hst).imp ?_ fun _ _ h => h
        · cases hv
          exact hr
        · rintro _ u ⟨M, hM, hu⟩
          exact ⟨M, hL.trans hM, hu.over⟩

section Perform

variable {ss : List Stmt} {c : Checker} {span : Span}

theorem assign_perform {name : String} {value : Expr}
    (h : p.Walks (.assign span name value :: ss) c) :
    Concludes p c.toNames c.current callers L (do
      let target ← Runs.look (·.typeOf name span.start)
      let v ← Eval.exprFor n value target
      assign name v span.start) := by
  have hs := (silent_observe.1 (h.silentHead hp.clean)).2
  simp only [Checker.assignment, Judged.notes_bind, List.append_eq_nil_iff] at hs
  refine Returns.bindConcludes (P := fun _ t => t = (c.lookup name span.start).value ∧ t ≠ .error)
    (returns_look fun m hm => ?_) fun _ t _ ht => ?_
  · obtain ⟨s, hl, hty, hv⟩ := hm.symbol hs.1
    refine ⟨s.ty, ?_, hty, hv ▸ s.value.ty_ne_error⟩
    simp only [Machine.typeOf, hl]
    rfl
  obtain ⟨rfl, ht⟩ := ht
  simp only [Judge.isError_eq_false ht, Bool.false_eq_true, ↓reduceIte, Judged.notes_bind,
    List.append_eq_nil_iff] at hs
  refine (ih.exprFor (.slot h (by simp [Checker.slots])) ht).bindConcludes fun _ v _ hv => ?_
  rw [← hv.1] at hs
  exact assign_concludes hs.1 (fits_assignable ht v.ty_ne_error hs.2.2)

theorem assignIndex_perform {target index value : Expr} {column : Option Expr}
    (h : p.Walks (.assignIndex span target index column value :: ss) c) :
    Concludes p c.toNames c.current callers L (do
      let container ← Eval.expr n target
      let i ← Eval.indexOf n index
      let j ← Eval.indexOf? n column
      let v ← Eval.expr n value
      write container i j v target.text span.start) := by
  have hs := (silent_observe.1 (h.silentHead hp.clean)).2
  have hroot : ∀ e ∈ target :: index :: value :: column.toList, p.Infers c.toNames e :=
    fun e he => .root h (by simpa [Checker.roots] using he)
  simp only [Checker.indexAssignment, Names.inferElement, Judged.notes_bind,
    List.append_eq_nil_iff] at hs
  obtain ⟨-, ⟨hi, hi', hc⟩, -, hf⟩ := hs
  intro m hm
  have hint := (hp.typed hm).index hi hi'
  have hcolumn : ∀ e ∈ column, p.Infers c.toNames e ∧ (c.infer e).value = .int := by
    rintro e he
    obtain rfl : column = some e := he
    simp only [Judged.notes_bind, List.append_eq_nil_iff] at hc
    exact ⟨hroot e (by simp), (hp.typed hm).index hc.1 hc.2.1⟩
  refine ((ih.expr (hroot target (by simp))).bindConcludes fun _ a _ ha =>
    (ih.indexOf (hroot index (by simp)) hint).bindConcludes fun _ i h₁ _ =>
    (ih.indexOf? hcolumn).bindConcludes fun _ j h₂ hj =>
    (ih.expr (hroot value (by simp))).bindConcludes fun _ v h₃ hv => ?_) m hm
  have hfits := ha.2.mono ((h₁.trans h₂).trans h₃)
  rw [← ha.1, hint] at hc
  cases column with
  | none =>
    obtain rfl : j = none := by simpa using hj
    simp only [← ha.1, hint, Judge.index, Judged.value_bind, Judged.value_pure, ← hv.1] at hc hf
    have hitem := element_item hc
    refine write_concludes hfits hitem (fits_assignable ?_ v.ty_ne_error hf)
    exact Judge.element_typed a.ty_ne_error hc
  | some e =>
    obtain ⟨j, rfl⟩ := Option.isSome_iff_exists.1 hj
    have hcol := (hcolumn e rfl).2
    simp only [← ha.1, hint, hcol, Judge.index, Judged.value_bind, Judged.notes_bind,
      Judged.value_pure, List.append_eq_nil_iff, Bool.and_self, ← hv.1] at hc hf
    obtain ⟨q, rfl, ht⟩ := element_matrix hc.2.2
    rw [ht] at hf
    exact write_concludes hfits ⟨q, rfl, rfl⟩ (fits_assignable (by simp) v.ty_ne_error hf)

theorem step_perform {target : Expr} {up : Bool} (h : p.Walks (.step span target up :: ss) c) :
    Concludes p c.toNames c.current callers L (Eval.perform (n + 1) (.step span target up)) := by
  simp only [Eval.perform]
  refine Concludes.withinStmt ?_
  have hs := (silent_observe.1 (h.silentHead hp.clean)).2
  have hroot : p.Infers c.toNames target := .root h (by simp [Checker.roots])
  have htarget : target.isTarget = true := by
    cases (hp.walks h _ List.mem_cons_self).1 with
    | step h => exact h
  intro m hm
  have hN := hp.typed hm
  obtain ⟨he, hnum⟩ := step_numeric hN hs
  refine (?_ : Concludes p c.toNames c.current callers L _) m hm
  cases target with
  | name _ name =>
    have hat := Names.lookup_at he span.start
    have hl : (c.lookup name span.start).notes = [] := hat ▸ he
    refine Returns.bindConcludes (P := fun _ v => v.ty = (c.lookup name span.start).value)
      (returns_look fun m hm => ?_) fun _ v _ hv => ?_
    · obtain ⟨s, hs, hty, hv⟩ := hm.symbol hl
      refine ⟨s.value, ?_, hv.trans hty⟩
      simp only [Machine.valueOf, Stmt.position, Stmt.span, hs]
      rfl
    · have hnum : v.ty.isNumeric = true := by rw [hv, hat]; exact hnum
      refine (returns_ofExcept (P := fun _ w => w.ty = v.ty) (step_accords hnum)).bindConcludes
        fun _ w _ hw => ?_
      have hassign : (c.lookup name span.start).value.assignable w.ty = true := by
        rw [hw, hv]
        simp [Ty.assignable]
      exact assign_concludes hl hassign
  | index _ target index =>
    simp only [Names.infer, Judged.notes_bind, List.append_eq_nil_iff, Judged.value_bind]
      at he hnum
    obtain ⟨-, hi, hi', he⟩ := he
    have hint := hN.index hi hi'
    simp only [hint, Judge.index, Judged.value_pure] at he hnum
    refine (ih.expr (hroot.part (by simp [Expr.parts]))).bindConcludes fun _ a _ ha =>
      (ih.indexOf (hroot.part (by simp [Expr.parts])) hint).bindConcludes fun _ i h₁ _ => ?_
    rw [← ha.1] at he hnum
    have hitem := element_item he
    exact (element_returns (ha.2.mono h₁) hitem).bindConcludes fun _ v h₂ hv =>
      step_write (ha.2.mono (h₁.trans h₂)) hitem hv.1 hnum
  | cell _ target index column =>
    simp only [Names.infer, Judged.notes_bind, List.append_eq_nil_iff, Judged.value_bind]
      at he hnum
    obtain ⟨-, hi, hi', hj, hj', he⟩ := he
    have hint := hN.index hi hi'
    have hint' := hN.index hj hj'
    simp only [hint, hint', Judge.index, Judged.value_pure, Bool.and_self] at he hnum
    refine (ih.expr (hroot.part (by simp [Expr.parts]))).bindConcludes fun _ a _ ha =>
      (ih.indexOf (hroot.part (by simp [Expr.parts])) hint).bindConcludes fun _ i h₁ _ =>
      (ih.indexOf (hroot.part (by simp [Expr.parts])) hint').bindConcludes fun _ j h₂ _ => ?_
    rw [← ha.1] at he hnum
    obtain ⟨q, rfl, ht⟩ := element_matrix he
    rw [ht] at hnum
    refine (element_returns (ha.2.mono (h₁.trans h₂)) rfl).bindConcludes fun _ row h₃ hrow => ?_
    have hitem : row.ty.item? = some (.scalar q.base) := by rw [hrow.1]; rfl
    exact (element_returns hrow.2 hitem).bindConcludes fun _ v h₄ hv =>
      step_write (ha.2.mono (((h₁.trans h₂).trans h₃).trans h₄)) ⟨q, rfl, rfl⟩ hv.1 hnum
  | _ => cases htarget

theorem giveBack_perform {value : Option Expr} (h : p.Walks (.giveBack span value :: ss) c) :
    Concludes p c.toNames c.current callers L (match value with
      | none => update (·.requestReturn .void)
      | some value => do
        let v ← Eval.expr n value
        update (·.requestReturn v)) := by
  have hs := h.silentHead hp.clean
  cases value with
  | none =>
    obtain ⟨f, hf, hr⟩ := returned_silent hs
    refine request_concludes fun m v hv => ⟨f, hf, hr.imp_right ?_⟩
    rintro ⟨t, ht, -⟩
    cases ht
  | some e =>
    refine (ih.expr (.root h (by simp [Checker.roots]))).bindConcludes fun _ v _ hv => ?_
    obtain ⟨f, hf, hr⟩ := returned_silent hs
    refine request_concludes fun m w hw => ⟨f, hf, hr.imp_right ?_⟩
    rintro ⟨t, ht, hassign⟩
    cases hw
    obtain rfl : (c.infer e).value = t := Option.some.inj ht
    rw [← hv.1] at hassign
    simpa using hassign

theorem switch_perform {e : Expr} {cs : List Case} {d : Option (List Stmt)}
    (h : p.Walks (.switch span e cs d :: ss) c) :
    Concludes p c.toNames c.current callers L (do
      let v ← Eval.expr n e
      inLabelled (Label.ofSwitch e) (inConstruct .switch (Eval.switch n v cs d false))) := by
  have hdeclares := (hp.walks h _ List.mem_cons_self).2.1
  simp only [Stmt.declaresInNoCase, Bool.and_eq_true, List.all_eq_true, Bool.not_eq_true']
    at hdeclares
  obtain ⟨hcs, hd⟩ := hdeclares
  have hk := Checker.cases_visits (t := (c.infer e).value)
    (c := (c.observe (c.infer e)).enterLabelled (Label.ofSwitch e)) hcs
  refine (ih.expr (.root h (by simp [Checker.roots]))).bindConcludes fun _ v _ _ =>
    Concludes.inLabelled (Concludes.inConstruct (ih.switch (fun k hk' => ?_) ?_))
  · obtain ⟨hvalue, c', hb, hN, hcur⟩ := hk.1 k hk'
    refine ⟨.root h ?_, ⟨c', h.inside ?_, hN, hcur⟩, hcs k hk'⟩
    · simp only [Checker.roots, List.mem_cons]
      exact .inr hvalue
    · simp only [Checker.bodies, List.mem_cons]
      exact .inr hb
  · rintro body hbody
    refine ⟨Checker.cases (c.infer e).value cs
      ((c.observe (c.infer e)).enterLabelled (Label.ofSwitch e)), h.inside ?_, hk.2.names,
      hk.2.current⟩
    obtain rfl : d = some body := hbody
    simp only [Checker.bodies, List.mem_cons]
    exact .inl rfl

theorem forLoop_perform {first next : Option Stmt} {test : Option Expr} {body : Block}
    (h : p.Walks (.forLoop span first test next body :: ss) c) :
    Concludes p c.toNames c.current callers L (inLabelled (Label.ofFor test) do
      Eval.header n first
      inConstruct .loop (Eval.forLoop n test next body)) := by
  have hs := h.silentHead hp.clean
  obtain ⟨hfirst, hfirst', hnext⟩ : (∀ s ∈ first, s.isFirst = true) ∧
      (∀ s ∈ first, s.Proper) ∧ ∀ s ∈ next, s.isSimple = true := by
    cases (hp.walks h _ List.mem_cons_self).1 with
    | forLoop hf hf' hn => exact ⟨hf, hf', hn⟩
  let c₁ := c.enterLabelled (Label.ofFor test)
  let c₂ := Checker.optional first c₁
  let c₃ := c₂.goesOn test
  have hc₂ : c₂.current = c.current := (Checker.optional_grows first c₁).current
  have hc₃ : c₂.Keeps c₃ := Checker.keeps_goesOn test
  have hc₄ : c₂.Keeps (Checker.optional next c₃) := hc₃.trans (Checker.optional_keeps c₃ hnext)
  refine Concludes.inLabelled ((ih.header (c := c₁) (h.inside ?_)).bind hp
    (fun q hq => (disciplined n).header hq hfirst hfirst') fun L' => Concludes.inConstruct ?_)
  · simp [Checker.bodies, c₁]
  · intro m hm
    refine ih.forLoop (fun e he => ?_) ⟨c₃, h.inside ?_, hc₃.names, ?_⟩ hnext
      ⟨(Checker.optional next c₃).enterScope, h.inside ?_, ?_, ?_⟩ m hm
    · obtain rfl : test = some e := he
      have hj : (Checker.condition c₂.toNames e "for").notes = [] :=
        (silent_observe.1 ((Checker.optional_grows next c₃).silent
          ((Checker.block_keeps body _).silent hs))).2
      exact ⟨.root h (by simp [Checker.roots, c₂, c₁]), condition_bool (hp.typed hm) hj⟩
    · simp [Checker.bodies, c₃, c₂, c₁]
    · exact hc₃.current.trans hc₂
    · simp [Checker.bodies, c₃, c₂, c₁]
    · simp only [Checker.enterScope, hc₄.names, c₂, c₁]
    · exact hc₄.current.trans hc₂

theorem branch_perform {test : Expr} {body : Block} {otherwise : Option Stmt}
    (h : p.Walks (.branch span test body otherwise :: ss) c) :
    Concludes p c.toNames c.current callers L (do
      if ← Eval.condition n test "if" then Eval.block n body
      else match otherwise with
        | some s => Eval.stmt n s
        | none => return ()) := by
  have hs := h.silentHead hp.clean
  let c₁ := c.observe (Checker.condition c.toNames test "if")
  have hblock : c.Keeps (Checker.block body c₁) :=
    Checker.keeps_observe.trans (Checker.block_keeps body c₁)
  have hj : (Checker.condition c.toNames test "if").notes = [] :=
    (silent_observe.1 ((Checker.block_keeps body c₁).silent
      ((Checker.optional_grows otherwise _).silent hs))).2
  intro m hm
  refine ((ih.condition (.root h (by simp [Checker.roots]))
    (condition_bool (hp.typed hm) hj)).bindConcludes fun L' b _ _ => ?_) m hm
  split
  · exact (ih.block ⟨c₁.enterScope, h.inside (by simp [Checker.bodies, c₁]), rfl, rfl⟩).concludes
  · split
    · rename_i s
      have hnext : p.Walks [s] (Checker.block body c₁) := h.inside (by simp [Checker.bodies, c₁])
      have hleads : Leads p (Checker.block body c₁).toNames
        (Checker.stmt s (Checker.block body c₁)).toNames (Checker.block body c₁).current callers L'
        (Eval.stmt n s) := ih.stmt hnext
      rw [hblock.names, hblock.current] at hleads
      exact hleads.concludes
    · exact concludes_pure

theorem whileLoop_perform {test : Expr} {body : Block}
    (h : p.Walks (.whileLoop span test body :: ss) c) :
    Concludes p c.toNames c.current callers L
      (inLabelled (Label.ofWhile test) (inConstruct .loop (Eval.whileLoop n test body))) := by
  let c₁ := c.enterLabelled (Label.ofWhile test)
  have hs : (Checker.block body (c₁.observe (Checker.condition c₁.toNames test "while"))).Silent :=
    h.silentHead hp.clean
  have hj := (silent_observe.1 ((Checker.block_keeps body _).silent hs)).2
  have hroot : p.Infers c₁.toNames test := .root h (by simp [Checker.roots, c₁])
  refine Concludes.inLabelled (Concludes.inConstruct fun m hm => ?_)
  exact ih.whileLoop hroot (condition_bool (hp.typed hm) hj)
    ⟨_, h.inside (List.mem_singleton.2 rfl), rfl, rfl⟩ m hm

theorem doLoop_perform {test : Expr} {body : Block} (h : p.Walks (.doLoop span body test :: ss) c) :
    Concludes p c.toNames c.current callers L
      (inLabelled (Label.ofDo test) (inConstruct .loop (Eval.doLoop n body test))) := by
  let c₁ := c.enterLabelled (Label.ofDo test)
  have hN := (Checker.block_keeps body c₁).names
  have hs : ((Checker.block body c₁).observe
    (Checker.condition (Checker.block body c₁).toNames test "do-while")).Silent :=
    h.silentHead hp.clean
  have hj := (silent_observe.1 hs).2
  have hroot : p.Infers (Checker.block body c₁).toNames test :=
    .root h (by simp [Checker.roots, c₁])
  rw [hN] at hj hroot
  refine Concludes.inLabelled (Concludes.inConstruct fun m hm => ?_)
  exact ih.doLoop hroot (condition_bool (hp.typed hm) hj)
    ⟨_, h.inside (List.mem_singleton.2 rfl), rfl, rfl⟩ m hm

theorem start_perform {name : String} {arguments : List Expr}
    (h : p.Walks (.start span name arguments :: ss) c) :
    Concludes p c.toNames c.current callers L (do
      let _ ← Eval.call n name arguments span.start) := by
  have hs : (c.inferCall name arguments span.start).notes = [] :=
    (silent_observe.1 (h.silentHead hp.clean)).2
  have hb : Builtin.ofName? name = none := by
    have hstart := (hp.walks h _ List.mem_cons_self).2.2
    simpa [Stmt.startsNoBuiltin] using hstart
  have hcallable : p.Callable c.toNames :=
    h.callable (by simp [stmtsCallFunction, Stmt.callsFunction])
  exact (ih.call (Names.inferCall_calls hs) hb
    (fun e he => .root h (by simpa [Checker.roots] using he)) hcallable).bindConcludes
    fun _ _ _ _ => concludes_pure

theorem perform_concludes {s : Stmt} (h : p.Walks (s :: ss) c) (hd : s.declares = false) :
    Concludes p c.toNames c.current callers L (Eval.perform (n + 1) s) := by
  cases s with
  | declare => cases hd
  | assign => exact (ih.assign_perform hp h).withinStmt
  | assignIndex => exact (ih.assignIndex_perform hp h).withinStmt
  | step => exact ih.step_perform hp h
  | block b =>
    have hb : Visits p { c.toNames with scopes := c.scopes.push } c.current b.body :=
      ⟨c.enterScope, h.inside (List.mem_singleton.2 rfl), rfl, rfl⟩
    exact (ih.block hb).concludes.withinStmt
  | branch => exact (ih.branch_perform hp h).withinStmt
  | switch => exact (ih.switch_perform hp h).withinStmt
  | whileLoop => exact (ih.whileLoop_perform hp h).withinStmt
  | doLoop => exact (ih.doLoop_perform hp h).withinStmt
  | forLoop => exact (ih.forLoop_perform hp h).withinStmt
  | breakOut =>
    refine Concludes.withinStmt (request_concludes fun m v hv => ?_)
    split at hv <;> cases hv
  | continueOn => exact Concludes.withinStmt (request_concludes fun _ _ hv => by cases hv)
  | print _ value =>
    refine Concludes.withinStmt ?_
    exact (ih.expr (.root h (by simp [Checker.roots]))).bindConcludes fun _ v _ _ =>
      concludes_update fun m hm => ⟨hm.quiet, Clean.tame ⟨hm.clean.signal, hm.clean.failure⟩⟩
  | function => exact Concludes.withinStmt concludes_pure
  | giveBack _ value =>
    cases value with
    | none => exact (ih.giveBack_perform hp h).withinStmt
    | some => exact (ih.giveBack_perform hp h).withinStmt
  | start => exact (ih.start_perform hp h).withinStmt
  | expression _ value =>
    refine Concludes.withinStmt ?_
    exact (ih.expr (.root h (by simp [Checker.roots]))).bindConcludes fun _ _ _ _ =>
      concludes_pure

theorem perform_succ {s : Stmt} (h : p.Walks (s :: ss) c) :
    Leads p c.toNames (Checker.stmt s c).toNames c.current callers L (Eval.perform (n + 1) s) := by
  have hs := (hp.walks h _ List.mem_cons_self).1
  cases hd : s.declares
  · rw [(Checker.stmt_keeps s c hd).names]
    exact (ih.perform_concludes hp h hd).leads
      ((yieldsAll (fun _ _ => hp.function) (n + 1)).perform hs)
      ((balanced (n + 1)).performStays s hd)
  · cases s with
    | declare => exact ih.declare_leads hp h
    | branch => cases (hs.declares_alternative rfl).symm.trans hd
    | _ => cases hd

/-- The body of a function that was opened under visible names runs and answers. -/
theorem inCall_answers {f : Function} {ws : List Value} {o : Position} {m : Machine}
    (hopens : p.Opens f c) (hfs : c.functions = N.functions)
    (hg : c.scopes.globals.Within N.scopes.globals) (hl : f.parameters.length = ws.length)
    (hws : ∀ r ∈ f.parameters.zip ws, r.2.ty = r.1.ty ∧ r.2.Fits L)
    (hm : m.Stands p N callers L) :
    Meets (Event.Checked p) (inCall f.name o do
      declareParameters f.parameters ws
      Eval.stmts n f.body.body
      conclude f) callers m (fun v t => t.Quiet p ∧ Answers f v)
      (fun d t => t.Quiet p ∧ d.fault.Residual p) := by
  obtain ⟨hframes, hlabels⟩ := hopens.atTop
  have hparams : (c.enterFunction f).Silent :=
    (Checker.stmts_grows f.body.body _).silent (hopens.silent hp.clean)
  have hstart : (m.enterCall f.name).2.Stands p (c.enterLabelled (Label.ofFunction f.name)).toNames
      ((m.enterCall f.name).1 :: callers) L :=
    ⟨hm.sound.enterCall f.name, hm.agrees.enterCall hframes hlabels hfs hg,
      ⟨hm.clean.signal, hm.clean.failure⟩, hm.quiet⟩
  refine meets_inCall (fun _ => ⟨hm.quiet, .callDepthExceeded⟩) (fun _ => hm.quiet) fun _ => ?_
  refine Meets.imp (Q := fun v t => t.Quiet p ∧ Answers f v)
    (F := fun d t => t.Quiet p ∧ d.fault.Residual p) ?_ (fun _ _ h => ⟨h.1, h⟩)
    fun _ _ h => ⟨h.1, h⟩
  have htypes := (hp.proper.function hopens.mem).2.1
  refine Meets.bind (declareParameters_meets (f := f) (fun q hq => (htypes q hq).2) hl hws
    hparams hstart) ?_
  rintro _ t ⟨L', ht⟩
  refine Meets.bind ((ih.stmts ⟨_, .body hopens, rfl, Checker.enterFunction_current c f⟩ t ht).imp
    (fun _ _ h => h) fun _ _ h => ⟨h.1.1, h.2⟩) fun _ u hu => ?_
  exact conclude_answers hu.1 hu.2

theorem call_succ {name : String} {es : List Expr} {o : Position} {t : Ty}
    (h : N.Calls name es o t) (hb : Builtin.ofName? name = none) (hes : ∀ e ∈ es, p.Infers N e)
    (hc : p.Callable N) :
    Returns p N callers L (Eval.call (n + 1) name es o) fun L v => v.ty = t ∧ v.Fits L := by
  intro m hm
  refine meets_stands hm ((yieldsAll (fun _ _ => hp.function) (n + 1)).call name es o)
    ((balanced (n + 1)).call name es o)
    ((disciplined (n + 1)).call (hp.place hm.sound.functions) name es o) ?_
  cases h with
  | builtin hb' => cases hb.symm.trans hb'
  | @declared f _ hf hl hsuits =>
  rw [← hm.agrees.functions] at hf
  have hmem : f ∈ p.functions := Program.mem_of_table (hm.sound.functions ▸ hf)
  obtain ⟨c, hopens, -, -, hfs, hg⟩ := hc f hmem
  simp only [Eval.call]
  refine meets_within trivial (Meets.imp (Q := fun v t => t.Quiet p ∧ v.ty = f.returns)
    (F := fun d t => t.Quiet p ∧ d.fault.Residual p) ?_ (fun _ _ h => ⟨trivial, h⟩)
    fun _ _ h => ⟨h.2, h⟩)
  refine Meets.bind (R := fun r t => t = m ∧ r = some f) (meets_read ⟨rfl, hf⟩) ?_
  rintro _ m ⟨rfl, rfl⟩
  refine Meets.bind (R := fun g t => t = m ∧ g = f) (meets_pure ⟨rfl, rfl⟩) ?_
  rintro f m ⟨rfl, rfl⟩
  refine Meets.bind (R := fun _ t => t = m) (meets_ofExcept (fun _ _ => rfl) fun e he => ?_) ?_
  · cases ((checkArity_ok (u := ())).2 hl).symm.trans he
  rintro _ m rfl
  refine Meets.bind ((ih.exprs hes m hm).imp (fun _ _ h => h) ?_) ?_
  · rintro d t ⟨⟨L', -, ht⟩, hd⟩
    exact ⟨ht.quiet, hd⟩
  rintro vs t ⟨L', -, ht, hvs, hfits⟩
  obtain ⟨ws, hws, hlen⟩ := convertArguments_suits (f := f) (i := 0) hsuits hvs
  rw [hws]
  refine Meets.bind (R := fun r u => u = t ∧ r = ws) (meets_pure ⟨rfl, rfl⟩) ?_
  rintro ws t ⟨rfl, rfl⟩
  refine Meets.bind (R := fun v t => t.Quiet p ∧ Answers f v) (ih.inCall_answers hp hopens hfs hg
    hlen (convertArguments_ok hws fun r hr => hfits _ (List.of_mem_zip hr).1) ht) ?_
  rintro v u ⟨hu, hv⟩
  have hr := callResult_accords hmem hv
  refine meets_ofExcept (fun w hw => ?_) fun e he => ?_
  · rw [hw] at hr
    exact ⟨hu, hr⟩
  · rw [he] at hr
    exact ⟨hu, hr⟩

omit hp in
theorem header_succ {s : Option Stmt} (h : p.Walks s.toList c) :
    Leads p c.toNames (Checker.optional s c).toNames c.current callers L
      (Eval.header (n + 1) s) := by
  cases s with
  | none => exact leads_pure
  | some s => exact ih.perform h

theorem block_succ {b : Block} (h : Visits p { N with scopes := N.scopes.push } current b.body) :
    Leads p N N current callers L (Eval.block (n + 1) b) := by
  obtain ⟨c, hc, -⟩ := id h
  exact (ih.stmts h).inScope.leads
    ((yieldsAll (fun _ _ => hp.function) (n + 1)).block fun s hs => (hp.walks hc s hs).1)
    ((balanced (n + 1)).block b)

end Perform

end Upholds

theorem upholds {p : Program} (hp : p.Accepted) (n : Nat) : Upholds p n := by
  induction n with
  | zero => exact .zero
  | succ n ih =>
    exact {
      toValues := ih.toValues.succ hp (ih.call_succ hp)
      stmt := fun h => (ih.perform h).guarded
      stmts := ih.stmts_succ
      block := ih.block_succ hp
      perform := ih.perform_succ hp
      header := ih.header_succ
      switch := ih.switch_succ hp
      whileLoop := ih.whileLoop_succ
      doLoop := ih.doLoop_succ
      forLoop := ih.forLoop_succ hp }

/-- At top level a run goes where the check goes, and every failure is reported. -/
theorem topLevel_meets {p : Program} (hp : p.Accepted) {n : Nat} {pending : List Function}
    {ss : List Stmt} {c : Checker} {L : Layout} {m : Machine} (h : p.Reaches pending ss c)
    (hm : m.Stands p c.toNames [] L) (hd : m.depth = 0) :
    Meets (Event.Checked p) (topLevel n ss) [] m (fun _ t => t.Quiet p)
      (fun _ t => t.Quiet p) := by
  induction n generalizing pending ss c L m with
  | zero => exact meets_exhausted
  | succ n ih =>
    rcases ss with _ | ⟨s, ss⟩
    · exact meets_pure hm.quiet
    have hN : (c.before pending s).toNames = c.toNames := (Checker.keeps_before c pending s).names
    have hround : ∀ next : Option Signal → Watched Unit, next none = topLevel n ss →
        (∀ g, next (some g) = update (·.note (unconsumed g s.position))) →
        Meets (Event.Checked p) (do
          Eval.stmt n s
          next (← Runs.step Machine.takeSignal)) [] m (fun _ t => t.Quiet p)
          (fun _ t => t.Quiet p) := by
      intro next hnone hsome
      have hs := (hp.walks (.top h) _ List.mem_cons_self).1
      rw [← hN] at hm
      refine Meets.bind ((((upholds hp n).stmt (.top h) m hm).and ((disciplined n).stmt
        (hp.place hm.sound.functions) hs [] m ⟨hm.clean, rfl⟩)).mono (fun _ h => h.1)
        (fun _ _ h => h) ?_) ?_
      · rintro _ _ ⟨⟨⟨_, _, ht⟩, _⟩, _⟩
        exact ht.quiet
      rintro _ t ⟨⟨L', -, ht⟩, hends, -⟩
      have hdepth : t.depth = 0 := (congrArg Place.depth hends.place).trans hd
      have hf : t.failure = none := Decidable.by_contra fun hf => by
        have := hends.inCall hf
        omega
      refine Meets.bind (R := fun _ u => u.Stands p (Checker.stmt s (c.before pending s)).toNames
        [] L' ∧ u.depth = 0) (meets_step ht.quiet ⟨⟨⟨⟨ht.sound.store, ht.sound.scopes,
          fun v hv => by cases hv⟩, ht.sound.callers, ht.sound.functions⟩,
          ht.agrees.keeps ⟨rfl, rfl, rfl, rfl⟩, ⟨rfl, hf⟩, ht.quiet⟩, hdepth⟩) ?_
      rintro g u ⟨hu, hud⟩
      cases g with
      | none =>
        rw [hnone]
        exact ih h.next hu hud
      | some signal =>
        rw [hsome]
        have hnote := hu.quiet.note (d := unconsumed signal s.position) .unconsumedControlSignal
        exact meets_update hnote hnote
    cases s
    case function f =>
      have hkeeps := Checker.stmt_keeps (.function f) (c.before pending (.function f)) rfl
      rw [← hN, ← hkeeps.names] at hm
      exact ih h.next hm hd
    all_goals exact hround _ rfl fun _ => rfl

end Watched

/-- In every run of a program that was read and that checking has no complaint about, every
expression gives a value of the type it was inferred to have, and all that is reported are residual
faults. -/
theorem Program.checked_run {tokens : List Token} {p : Program}
    (h : Program.ofTokens tokens = .ok p) (hclean : p.analyze.report.isEmpty = true)
    (hcases : p.everywhere Stmt.declaresInNoCase = true)
    (hstarts : p.everywhere Stmt.startsNoBuiltin = true) (fuel limit : Nat) :
    (∀ e ∈ p.history fuel limit, e.Checked p) ∧
      ∀ m, p.execute fuel limit = some m → ∀ d ∈ m.report.toList, d.fault.Residual p := by
  have hp : p.Accepted := ⟨proper_of_ofTokens h, hclean, hcases, hstarts⟩
  have hd : (p.loaded limit).depth = 0 := by
    rw [p.loaded_eq limit]
    rfl
  obtain ⟨he, ho⟩ := Watched.topLevel_meets hp (n := fuel) .first (hp.stands_loaded limit) hd
  refine ⟨he, fun m hm => ?_⟩
  rw [Program.execute_eq] at hm
  obtain ⟨r, hr, rfl⟩ := Option.map_eq_some_iff.1 hm
  rw [← Program.record, hr] at ho
  cases r <;> exact ho

/-- A function that takes the remainder by its argument, started with zero. -/
theorem Program.checked_run_modulo :
    let f : Function := ⟨"f", [⟨"n", .int, default⟩], .int, ⟨[.giveBack default (some
      (.arithmetic default .modulo (.int default 1) (.name default "n")))], default⟩, default⟩
    let p := Program.mk [.function f, .start default "f" [.int default 0]]
    (∀ e ∈ p.history 20 1, e.Checked p) ∧
      ∀ m, p.execute 20 1 = some m → ∀ d ∈ m.report.toList, d.fault.Residual p :=
  Program.checked_run (show Program.ofTokens
    [⟨.typeWord, "int", default⟩, ⟨.identifier, "f", default⟩, ⟨.openParen, "(", default⟩,
      ⟨.typeWord, "int", default⟩, ⟨.identifier, "n", default⟩, ⟨.closeParen, ")", default⟩,
      ⟨.openCurly, "\x7b", default⟩, ⟨.returnWord, "return", default⟩, ⟨.number, "1", default⟩,
      ⟨.percent, "%", default⟩, ⟨.identifier, "n", default⟩, ⟨.semicolon, ";", default⟩,
      ⟨.closeCurly, "\x7d", default⟩, ⟨.startWord, "start", default⟩,
      ⟨.identifier, "f", default⟩, ⟨.openParen, "(", default⟩, ⟨.number, "0", default⟩,
      ⟨.closeParen, ")", default⟩, ⟨.semicolon, ";", default⟩] = .ok _ from rfl)
    rfl rfl rfl 20 1

end Primer
