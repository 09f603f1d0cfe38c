import Primer.Proofs.Agreement

/-!
# Values of checked expressions

In a program that passes its check, every expression gives a value of the type it was inferred to
have, and fails only with a residual fault. Of the evaluator it is already known that it keeps
everything typed (`yieldsAll`), leaves what it enters (`balanced`) and leaves nothing pending
(`disciplined`). What is left to prove is what each form of expression and statement does with
values of the right types (`Complies`); together they bring the machine back to where the check
stands (`Returns`).
-/

namespace Primer

namespace Watched

open Eval Machine

section Rules

variable {α β : Type} {p : Program} {N : Names} {callers : List Caller} {L L' : Layout}
  {P : Layout → α → Prop} {Q : α → Prop} {x : Watched α} {m : Machine}

/-- Where a check stands at names, a computation gives what `Q` says and sees these names, or fails
with a residual fault. -/
def Complies (p : Program) (N : Names) (callers : List Caller) (L : Layout) (x : Watched α)
    (Q : α → Prop) : Prop :=
  ∀ m, m.Stands p N callers L → Meets (Event.Checked p) x callers m
    (fun a t => t.Quiet p ∧ t.Agrees N ∧ Q a) (fun d t => t.Quiet p ∧ d.fault.Residual p)

/-- Where a check stands at names, a computation comes back to it, with what `P` says for the layout
at its end or with a residual fault. -/
def Returns (p : Program) (N : Names) (callers : List Caller) (L : Layout) (x : Watched α)
    (P : Layout → α → Prop) : Prop :=
  ∀ m, m.Stands p N callers L → Meets (Event.Checked p) x callers m
    (fun a t => ∃ L', L <+: L' ∧ t.Stands p N callers L' ∧ P L' a)
    (fun d t => (∃ L', L <+: L' ∧ t.Stands p N callers L') ∧ d.fault.Residual p)

theorem Returns.bind {f : α → Watched β} {Q : β → Prop} (hx : Returns p N callers L x P)
    (hf : ∀ L' a, L <+: L' → P L' a → Complies p N callers L' (f a) Q) :
    Complies p N callers L (x >>= f) Q := by
  intro m hm
  refine Meets.bind ((hx m hm).imp (fun _ _ h => h) ?_) ?_
  · rintro d t ⟨⟨L', -, ht⟩, hd⟩
    exact ⟨ht.quiet, hd⟩
  · rintro a t ⟨L', hL, ht, ha⟩
    exact hf L' a hL ha t ht

theorem Returns.andThen {f : α → Watched β} {R : Layout → β → Prop}
    (hx : Returns p N callers L x P)
    (hf : ∀ L' a, L <+: L' → P L' a → Returns p N callers L' (f a) R) :
    Returns p N callers L (x >>= f) R := by
  intro m hm
  refine Meets.bind ((hx m hm).imp (fun _ _ h => h) fun _ _ h => h) ?_
  rintro a t ⟨L', hL, ht, ha⟩
  refine (hf L' a hL ha t ht).imp ?_ ?_
  · rintro b u ⟨M, hM, hu, hb⟩
    exact ⟨M, hL.trans hM, hu, hb⟩
  · rintro d u ⟨⟨M, hM, hu⟩, hd⟩
    exact ⟨⟨M, hL.trans hM, hu⟩, hd⟩

theorem Returns.complies (hx : Returns p N callers L x fun _ a => Q a) :
    Complies p N callers L x Q := by
  intro m hm
  refine (hx m hm).imp ?_ ?_
  · rintro a t ⟨L', -, ht, ha⟩
    exact ⟨ht.quiet, ht.agrees, ha⟩
  · rintro d t ⟨⟨L', -, ht⟩, hd⟩
    exact ⟨ht.quiet, hd⟩

theorem Returns.imp {P' : Layout → α → Prop} (hx : Returns p N callers L x P)
    (h : ∀ L' a, P L' a → P' L' a) : Returns p N callers L x P' := fun m hm =>
  (hx m hm).imp (fun a _ ⟨L', hL, ht, ha⟩ => ⟨L', hL, ht, h L' a ha⟩) fun _ _ h => h

theorem returns_look {f : Machine → Except Diagnostic α}
    (h : ∀ m, m.Stands p N callers L → ∃ a, f m = .ok a ∧ P L a) :
    Returns p N callers L (Runs.look f) P := by
  intro m hm
  obtain ⟨a, hf, ha⟩ := h m hm
  refine meets_look (fun b hb => ?_) fun d hd => ?_
  · cases hf.symm.trans hb
    exact ⟨L, List.prefix_rfl, hm, ha⟩
  · cases hf.symm.trans hd

theorem returns_read {f : Machine → α} (h : ∀ m, m.Stands p N callers L → P L (f m)) :
    Returns p N callers L (read f) P :=
  returns_look fun m hm => ⟨f m, rfl, h m hm⟩

theorem returns_pure {a : α} (h : P L a) : Returns p N callers L (pure a) P := fun _ hm =>
  meets_pure ⟨L, List.prefix_rfl, hm, h⟩

theorem returns_ask {o : Position} {f : Store → Except Fault α}
    (h : ∀ s, s.Typed L → Accords p (f s) (P L)) : Returns p N callers L (ask o f) P := by
  intro m hm
  have ha := h m.store hm.sound.store
  refine meets_ask (fun a hr => ?_) fun fault hr => ?_
  · rw [hr] at ha
    exact ⟨L, List.prefix_rfl, hm, ha⟩
  · rw [hr] at ha
    exact ⟨⟨L, List.prefix_rfl, hm⟩, ha⟩

theorem returns_ofExcept {o : Position} {r : Except Fault α} (h : Accords p r (P L)) :
    Returns p N callers L (Eval.ofExcept o r) P := by
  intro m hm
  refine meets_ofExcept (fun a hr => ?_) fun fault hr => ?_
  · rw [hr] at h
    exact ⟨L, List.prefix_rfl, hm, h⟩
  · rw [hr] at h
    exact ⟨⟨L, List.prefix_rfl, hm⟩, h⟩

theorem returns_exhausted : Returns p N callers L (Runs.exhausted : Watched α) P := fun _ _ =>
  meets_exhausted

theorem complies_pure {a : α} (h : Q a) : Complies p N callers L (pure a) Q := fun _ hm =>
  meets_pure ⟨hm.quiet, hm.agrees, h⟩

theorem complies_onStore {f : Store → α × Store} (h : ∀ s, Q (f s).1) :
    Complies p N callers L (onStore f) Q := fun m hm =>
  meets_onStore hm.quiet ⟨hm.quiet, hm.agrees.keeps ⟨rfl, rfl, rfl, rfl⟩, h m.store⟩

theorem complies_edit {o : Position} {f : Store → Except Fault (α × Edit)}
    (h : ∀ s, s.Typed L → Accords p (f s) fun r => Q r.1) :
    Complies p N callers L (edit o f) Q := by
  intro m hm
  have ha := h m.store hm.sound.store
  refine meets_edit (fun a e hr => ?_) fun fault hr => ?_
  · rw [hr] at ha
    exact ⟨hm.quiet, hm.quiet, hm.agrees.keeps ⟨rfl, rfl, rfl, rfl⟩, ha⟩
  · rw [hr] at ha
    exact ⟨hm.quiet, ha⟩

/-- What keeps everything typed, leaves what it enters and leaves nothing pending comes back. -/
theorem meets_stands (hm : m.Stands p N callers L) (hy : Yields p.table callers L x P)
    (hs : Stays x) (hd : Preserves Event.Disciplined (Ready m.place) x)
    (hx : Meets (Event.Checked p) x callers m (fun a t => t.Quiet p ∧ Q a)
      (fun d t => t.Quiet p ∧ d.fault.Residual p)) :
    Meets (Event.Checked p) x callers m
      (fun a t => ∃ L', L <+: L' ∧ t.Stands p N callers L' ∧ Q a ∧ P L' a)
      (fun d t => (∃ L', L <+: L' ∧ t.Stands p N callers L') ∧ d.fault.Residual p) := by
  have hall := ((hx.and (hy m hm.sound)).and (hs m callers m (.refl m))).and
    (hd callers m ⟨hm.clean, rfl⟩)
  refine hall.mono (fun _ h => h.1.1.1) ?_ ?_
  · rintro a t ⟨⟨⟨⟨hq, ha⟩, L', hL, ht, hPa⟩, hk⟩, hr⟩
    exact ⟨L', hL, ⟨ht, hm.agrees.keeps hk, hr.toClean, hq⟩, ha, hPa⟩
  · rintro d t ⟨⟨⟨⟨hq, hd⟩, L', hL, ht⟩, hk⟩, hr⟩
    exact ⟨⟨L', hL, ht, hm.agrees.keeps hk, hr.toClean, hq⟩, hd⟩

theorem Complies.returns (hp : p.Accepted) (hx : Complies p N callers L x Q)
    (hy : Yields p.table callers L x P) (hs : Stays x)
    (hd : ∀ q : Place, q.Proper → Preserves Event.Disciplined (Ready q) x) :
    Returns p N callers L x fun L' a => Q a ∧ P L' a := fun m hm =>
  meets_stands hm hy hs (hd m.place (hp.place hm.sound.functions))
    ((hx m hm).imp (fun _ _ h => ⟨h.1, h.2.2⟩) fun _ _ h => h)

end Rules

/-! ## Expressions -/

/-- The parts of the evaluator that give values come back with values of the inferred types. -/
structure Values (p : Program) (n : Nat) : Prop where
  expr : ∀ {N callers L e}, p.Infers N e → Returns p N callers L (expr n e) fun L v =>
    v.ty = (N.infer e).value ∧ v.Fits L
  exprs : ∀ {N callers L es}, (∀ e ∈ es, p.Infers N e) →
    Returns p N callers L (exprs n es) fun L vs =>
      List.Forall₂ (fun e v => Value.ty v = (N.infer e).value) es vs ∧ ∀ v ∈ vs, v.Fits L
  exprFor : ∀ {N callers L e t}, p.InfersFor N e t → t ≠ .error →
    Returns p N callers L (exprFor n e t) fun L v => v.ty = (N.inferFor e t).value ∧ v.Fits L
  indexOf : ∀ {N callers L e}, p.Infers N e → (N.infer e).value = .int →
    Returns p N callers L (indexOf n e) Anything
  indexOf? : ∀ {N callers L e}, (∀ e' ∈ e, p.Infers N e' ∧ (N.infer e').value = .int) →
    Returns p N callers L (indexOf? n e) fun _ i => i.isSome = e.isSome
  condition : ∀ {N callers L e c}, p.Infers N e → (N.infer e).value = .bool →
    Returns p N callers L (condition n e c) Anything
  goesOn : ∀ {N callers L e}, (∀ e' ∈ e, p.Infers N e' ∧ (N.infer e').value = .bool) →
    Returns p N callers L (goesOn n e) Anything
  call : ∀ {N callers L name es o t}, N.Calls name es o t → Builtin.ofName? name = none →
    (∀ e ∈ es, p.Infers N e) → p.Callable N →
    Returns p N callers L (call n name es o) fun L v => v.ty = t ∧ v.Fits L

section Expressions

variable {p : Program} {N : Names} {callers : List Caller} {L : Layout} {n : Nat}

theorem complies_within {e : Expr} {x : Watched Value} (hp : p.Accepted) (h : p.Infers N e)
    (hx : Complies p N callers L x fun v => v.ty = (N.infer e).value) :
    Complies p N callers L (Runs.within (.expr e) x) fun v => v.ty = (N.infer e).value := by
  intro m hm
  refine meets_within trivial ((hx m hm).imp ?_ ?_)
  · rintro v t ⟨hq, ha, hv⟩
    refine ⟨⟨N, h, ha, ?_⟩, hq, ha, hv⟩
    rw [hv, ← h.silent hp.clean]
  · exact fun d t ⟨hq, hd⟩ => ⟨hd, hq, hd⟩

theorem complies_withinFor {e : Expr} {t : Ty} {x : Watched Value} (hp : p.Accepted)
    (h : p.InfersFor N e t)
    (hx : Complies p N callers L x fun v => v.ty = (N.inferFor e t).value) :
    Complies p N callers L (Runs.within (.exprFor e t) x) fun v =>
      v.ty = (N.inferFor e t).value := by
  intro m hm
  refine meets_within trivial ((hx m hm).imp ?_ ?_)
  · rintro v t ⟨hq, ha, hv⟩
    refine ⟨⟨N, h, ha, ?_⟩, hq, ha, hv⟩
    rw [hv, ← h.silent hp.clean]
  · exact fun d t ⟨hq, hd⟩ => ⟨hd, hq, hd⟩

theorem types_eq {es : List Expr} {vs : List Value}
    (h : List.Forall₂ (fun e v => Value.ty v = (N.infer e).value) es vs) :
    (es.map fun e => (N.infer e).value) = vs.map Value.ty := by
  induction h with
  | nil => rfl
  | cons h _ ih => simp [h, ih]

theorem element_returns {v : Value} {i : Int64} {t : Ty} {o : Position} (hv : v.Fits L)
    (ht : v.ty.item? = some t) : Returns p N callers L (ask o (·.element v i)) fun L w =>
      w.ty = t ∧ w.Fits L :=
  returns_ask fun _ hs => element_accords hs hv ht

theorem newList_complies {b : Scalar} : Complies p N callers L (do
    let q ← onStore (·.alloc b #[])
    return Value.list q) fun v => v.ty = .list b := by
  intro m hm
  refine Meets.bind (R := fun q t => t.Quiet p ∧ t.Agrees N ∧ q.base = b)
    (complies_onStore (Q := fun q : Sequence => q.base = b) (fun _ => rfl) m hm) ?_
  rintro q t ⟨hq, ha, rfl⟩
  exact meets_pure ⟨hq, ha, rfl⟩

variable (hp : p.Accepted) (ih : Values p n)
include hp ih

omit hp in
/-- An operator on one operand complies if what it does with a value accords with its judgement. -/
theorem unary_complies {operand : Expr} {f : Value → Except Fault Value} {j : Ty → Judged Ty}
    {o : Position} (h : p.Infers N operand)
    (hj : ∀ v : Value, (j v.ty).notes = [] → Accords p (f v) fun w => w.ty = (j v.ty).value)
    (hs : (N.infer operand >>= j).notes = []) :
    Complies p N callers L (do
      let v ← Eval.expr n operand
      Eval.ofExcept o (f v)) fun w => w.ty = (N.infer operand >>= j).value := by
  rw [Judged.notes_bind, List.append_eq_nil_iff] at hs
  rw [Judged.value_bind]
  refine (ih.expr h).bind fun _ v _ hv => ?_
  rw [← hv.1] at hs ⊢
  exact (returns_ofExcept (hj v hs.2)).complies

omit hp in
/-- A logical operator that looks at its right operand gives a bool. -/
theorem rightOperand_complies {op : LogicalOp} {right : Expr} {o : Position} {f : Bool → Bool}
    (h : p.Infers N right) (ht : (N.infer right).value = .bool) :
    Complies p N callers L (do
      let w ← Eval.expr n right
      let b ← Eval.ofExcept o (w.truth op)
      return Value.bool (f b)) fun v => v.ty = .bool :=
  (ih.expr h).bind fun _ _ _ hw =>
    (returns_ofExcept (P := Anything) (truth_accords (hw.1.trans ht))).bind
      fun _ _ _ _ => complies_pure rfl

omit hp in
theorem builtin_complies {b : Builtin} {name : String} {arguments : List Expr} {o : Position}
    {t : Ty} (hb : Builtin.ofName? name = some b) (hc : N.Calls name arguments o t)
    (h : ∀ e ∈ arguments, p.Infers N e) :
    Complies p N callers L (do
      let vs ← Eval.exprs n arguments
      ask o (b.call · vs)) fun v => v.ty = t := by
  refine (ih.exprs h).bind fun _ vs _ hvs => ?_
  cases hc with
  | declared hb' => cases hb.symm.trans hb'
  | builtin hb' hl _ hj =>
    obtain rfl := Option.some.inj (hb.symm.trans hb')
    rw [types_eq hvs.1] at hj ⊢
    exact (returns_ask fun _ _ => builtin_accords (hl.trans hvs.1.length_eq) hj).complies

theorem expr_complies (e : Expr) (h : p.Infers N e) :
    Complies p N callers L (Eval.expr (n + 1) e) fun v => v.ty = (N.infer e).value := by
  rw [Eval.expr]
  refine complies_within hp h ?_
  have hs := h.silent hp.clean
  cases e with
  | int | double | bool | char | string => exact complies_pure rfl
  | name span name =>
    refine Returns.complies (returns_look fun m hm => ?_)
    obtain ⟨s, hl, hty, hv⟩ := hm.symbol hs
    refine ⟨s.value, ?_, hv.trans hty⟩
    simp only [Machine.valueOf, Expr.position, Expr.span, hl]
    rfl
  | arithmetic _ op left right =>
    simp only [Names.infer, Judged.notes_bind, List.append_eq_nil_iff, Judged.value_bind] at hs ⊢
    refine (ih.expr (h.part (by simp [Expr.parts]))).bind fun _ a _ ha =>
      (ih.expr (h.part (by simp [Expr.parts]))).bind fun _ b _ hb => ?_
    rw [← ha.1, ← hb.1] at hs ⊢
    exact (returns_ask fun _ _ => arithmetic_accords hs.2.2).complies
  | negate span operand =>
    rw [Names.infer] at hs ⊢
    exact unary_complies ih (h.part (by simp [Expr.parts])) (fun _ => negate_accords) hs
  | not span operand =>
    rw [Names.infer] at hs ⊢
    exact unary_complies ih (h.part (by simp [Expr.parts])) (fun _ => not_accords) hs
  | cast span target operand =>
    rw [Names.infer] at hs ⊢
    exact unary_complies ih (h.part (by simp [Expr.parts])) (fun _ => cast_accords) hs
  | relational _ op left right =>
    simp only [Names.infer, Judged.notes_bind, List.append_eq_nil_iff, Judged.value_bind] at hs ⊢
    refine (ih.expr (h.part (by simp [Expr.parts]))).bind fun _ a _ ha =>
      (ih.expr (h.part (by simp [Expr.parts]))).bind fun _ b _ hb => ?_
    rw [← ha.1, ← hb.1] at hs ⊢
    have hj := fun s => relational_accords (s := s) hs.2.2
    refine Returns.bind (P := Anything) (returns_ask fun s _ => ?_) fun _ r _ _ =>
      complies_pure (hj .empty).1.symm
    obtain ⟨r, hr⟩ := (hj s).2
    exact accords_ok hr trivial
  | logical span op left right =>
    simp only [Names.infer, Judged.notes_bind, List.append_eq_nil_iff, Judged.value_bind] at hs ⊢
    intro m hm
    have hr := Names.infer_typed (hp.typed hm) right hs.2.1
    refine ((ih.expr (h.part (by simp [Expr.parts]))).bind fun _ a _ ha => ?_) m hm
    rw [← ha.1] at hs ⊢
    obtain ⟨ht, hu, hv⟩ := logical_types (Value.isError_ty a) (Judge.isError_eq_false hr) hs.2.2
    rw [hv]
    refine (returns_ofExcept (P := Anything) (truth_accords ht)).bind fun _ b _ _ => ?_
    cases op <;> cases b <;> first
      | exact complies_pure rfl
      | exact rightOperand_complies ih (h.part (by simp [Expr.parts])) hu
  | group _ inner =>
    exact (ih.expr (h.part (by simp [Expr.parts]))).imp (fun _ _ h => h.1) |>.complies
  | call span name arguments =>
    have hc := Names.inferCall_calls hs
    have hargs : ∀ e ∈ arguments, p.Infers N e := fun e he => h.part he
    dsimp only
    split
    · exact builtin_complies ih ‹_› hc hargs
    · rename_i hb
      refine ((ih.call hc hb hargs (h.callable ?_)).imp fun _ _ h => h.1).complies
      simp [Expr.callsFunction, hb]
  | method span receiver name arguments =>
    simp only [Names.infer, Judged.notes_bind, List.append_eq_nil_iff, Judged.value_bind,
      Names.inferAll_value] at hs ⊢
    refine (ih.expr (h.part (by simp [Expr.parts]))).bind fun _ r _ hr =>
      (ih.exprs fun e he => h.part (by simp [Expr.parts, he])).bind fun _ vs hL hvs => ?_
    rw [← hr.1, types_eq hvs.1] at hs ⊢
    split
    · exact complies_edit fun s hs' => method_accords hs' (hr.2.mono hL) ‹_› hs.2.2
    · rename_i hnone
      obtain ⟨m, _, hm, -⟩ := method_inv (Value.isError_ty r) (by simp) hs.2.2
      cases hnone.symm.trans hm
  | index span target index =>
    simp only [Names.infer, Judged.notes_bind, List.append_eq_nil_iff, Judged.value_bind] at hs ⊢
    obtain ⟨-, hi, hi', he⟩ := hs
    intro m hm
    have hint := (hp.typed hm).index hi hi'
    simp only [hint, Judge.index, Judged.value_pure] at he ⊢
    refine ((ih.expr (h.part (by simp [Expr.parts]))).bind fun _ v _ hv =>
      (ih.indexOf (h.part (by simp [Expr.parts])) hint).bind fun _ i hL _ => ?_) m hm
    rw [← hv.1] at he ⊢
    exact ((element_returns (hv.2.mono hL) (element_item he)).imp fun _ _ h => h.1).complies
  | cell span target index column =>
    simp only [Names.infer, Judged.notes_bind, List.append_eq_nil_iff, Judged.value_bind] at hs ⊢
    obtain ⟨-, hi, hi', hj, hj', he⟩ := hs
    intro m hm
    have hint := (hp.typed hm).index hi hi'
    have hint' := (hp.typed hm).index hj hj'
    simp only [hint, hint', Judge.index, Judged.value_pure, Bool.and_self] at he ⊢
    refine ((ih.expr (h.part (by simp [Expr.parts]))).bind fun _ v _ hv =>
      (ih.indexOf (h.part (by simp [Expr.parts])) hint).bind fun _ i hL _ => ?_) m hm
    rw [← hv.1] at he ⊢
    obtain ⟨q, rfl, ht⟩ := element_matrix he
    rw [ht]
    refine (element_returns (hv.2.mono hL) rfl).bind fun _ row _ hrow =>
      (ih.indexOf (h.part (by simp [Expr.parts])) hint').bind fun _ j hL' _ => ?_
    have hitem : row.ty.item? = some (.scalar q.base) := by rw [hrow.1]; rfl
    exact ((element_returns (hrow.2.mono hL') hitem).imp fun _ _ h => h.1).complies
  | vector span items =>
    simp only [Names.infer, Judged.notes_bind, List.append_eq_nil_iff, Judged.value_bind,
      Names.inferAll_value] at hs ⊢
    have hitems : ∀ e ∈ items, p.Infers N e := fun e he => h.part he
    refine (ih.exprs hitems).bind fun _ vs _ hvs => ?_
    rw [types_eq hvs.1] at hs ⊢
    obtain ⟨b, hb, ht⟩ := vector_accords hs.2
    rw [ht]
    exact (returns_ofExcept (P := fun _ c => c = b) (accords_ok hb rfl)).bind fun _ c _ hc =>
      complies_onStore fun _ => by rw [← hc]; rfl
  | matrix span rows =>
    have hrows : ∀ e ∈ rows, p.Infers N e := fun e he => h.part he
    refine (ih.exprs hrows).bind fun _ vs _ hvs => ?_
    obtain ⟨b, hb, ht⟩ := rows_accords hvs.1 hs
    rw [Names.infer, ht]
    exact (returns_ofExcept (P := fun _ c => c = b) (accords_ok hb rfl)).bind fun _ c _ hc =>
      complies_onStore fun _ => by rw [← hc]; rfl
  | newList span base =>
    cases base with
    | none => cases hs
    | some b => exact newList_complies

omit hp in
theorem exprs_complies : ∀ es : List Expr, (∀ e ∈ es, p.Infers N e) →
    Complies p N callers L (Eval.exprs (n + 1) es) fun vs =>
      List.Forall₂ (fun e v => Value.ty v = (N.infer e).value) es vs
  | [], _ => complies_pure .nil
  | e :: es, h => by
    obtain ⟨he, hes⟩ := List.forall_mem_cons.1 h
    exact (ih.expr he).bind fun _ _ _ hv => (ih.exprs hes).bind fun _ _ _ hvs =>
      complies_pure (.cons hv.1 hvs.1)

theorem exprFor_complies {e : Expr} {t : Ty} (h : p.InfersFor N e t) (ht : t ≠ .error) :
    Complies p N callers L (Eval.exprFor (n + 1) e t) fun v =>
      v.ty = (N.inferFor e t).value := by
  simp only [Eval.exprFor]
  refine complies_withinFor hp h ?_
  have hs := h.silent hp.clean
  cases hu : e.isUntyped
  · rw [Names.inferFor_eq hu]
    split
    · cases hu
    · cases hu
    · exact ((ih.expr (.slot h hu)).imp fun _ _ h => h.1).complies
  · simp only [Expr.isUntyped] at hu
    split at hu
    · simp only [Names.inferFor] at hs ⊢
      split at hs
      · exact newList_complies
      · exact absurd rfl ht
      · simp [Judged.reject] at hs
      · cases hs
    · cases hu

omit hp in
theorem indexOf_complies {e : Expr} (h : p.Infers N e) (ht : (N.infer e).value = .int) :
    Complies p N callers L (Eval.indexOf (n + 1) e) fun _ => True :=
  (ih.expr h).bind fun _ v _ hv => by
    obtain ⟨i, rfl⟩ := Value.of_int (hv.1.trans ht)
    exact complies_pure trivial

omit hp in
theorem condition_complies {e : Expr} {c : String} (h : p.Infers N e)
    (ht : (N.infer e).value = .bool) :
    Complies p N callers L (Eval.condition (n + 1) e c) fun _ => True :=
  (ih.expr h).bind fun _ v _ hv => by
    obtain ⟨b, rfl⟩ := Value.of_bool (hv.1.trans ht)
    exact complies_pure trivial

/-- With one unit of fuel more, expressions come back if calls do. -/
theorem Values.succ (hcall : ∀ {N callers L name es o t}, N.Calls name es o t →
    Builtin.ofName? name = none → (∀ e ∈ es, p.Infers N e) → p.Callable N →
    Returns p N callers L (Eval.call (n + 1) name es o) fun L v => v.ty = t ∧ v.Fits L) :
    Values p (n + 1) := by
  have hy := yieldsAll (fun _ _ => hp.function) (n + 1)
  have hb := balanced (n + 1)
  have hd := disciplined (n + 1)
  exact {
    expr := fun h => (expr_complies hp ih _ h).returns hp (hy.expr _) (hb.expr _)
      fun _ hq => (hd.values hq).expr _
    exprs := fun h => (exprs_complies ih _ h).returns hp (hy.exprs _)
      (fun m => (hb.values m).exprs _) fun _ hq => (hd.values hq).exprs _
    exprFor := fun h ht => (exprFor_complies hp ih h ht).returns hp (hy.exprFor _ _)
      (fun m => (hb.values m).exprFor _ _) fun _ hq => (hd.values hq).exprFor _ _
    indexOf := fun h ht => ((indexOf_complies ih h ht).returns hp (hy.indexOf _)
      (fun m => (hb.values m).indexOf _) fun _ hq => (hd.values hq).indexOf _).imp
      fun _ _ _ => trivial
    indexOf? := fun {N callers L e} h => by
      cases e with
      | none => exact returns_pure rfl
      | some e =>
        exact (ih.indexOf (h e rfl).1 (h e rfl).2).andThen fun _ _ _ _ => returns_pure rfl
    condition := fun h ht => ((condition_complies ih h ht).returns hp (hy.condition _ _)
      (fun m => (hb.values m).condition _ _) fun _ hq => (hd.values hq).condition _ _).imp
      fun _ _ _ => trivial
    goesOn := fun {N callers L e} h => by
      cases e with
      | none => exact returns_pure trivial
      | some e => exact ih.condition (h e rfl).1 (h e rfl).2
    call := hcall }

end Expressions

end Watched

end Primer
