import Primer.Proofs.Soundness

/-!
# What checked statements leave behind

A statement that was checked under names runs where a machine sees these names. It leaves nothing
behind but residual faults and values its function returns (`Watched.Concludes`), and after it the
machine sees the names of the check that follows, also if the statement failed (`Watched.Leads`).
-/

namespace Primer

namespace Watched

open Eval Machine
open Checker (silent_observe silent_note grows_declare)

section Rules

variable {α : Type} {p : Program} {N N' : Names} {current : Option Function}
  {callers : List Caller} {L : Layout} {P : Layout → α → Prop} {x : Watched Unit}

/-- Where a check stands at names in a function, a statement leaves nothing behind but residual
faults and values the function returns. -/
def Concludes (p : Program) (N : Names) (current : Option Function) (callers : List Caller)
    (L : Layout) (x : Watched Unit) : Prop :=
  ∀ m, m.Stands p N callers L → Meets (Event.Checked p) x callers m
    (fun _ t => t.Quiet p ∧ t.Tame p current)
    (fun d t => (t.Quiet p ∧ t.Tame p current) ∧ d.fault.Residual p)

/-- Where a check stands at names in a function, a statement goes on to the names that are checked
next. -/
def Leads (p : Program) (N N' : Names) (current : Option Function) (callers : List Caller)
    (L : Layout) (x : Watched Unit) : Prop :=
  ∀ m, m.Stands p N callers L → Meets (Event.Checked p) x callers m
    (fun _ t => ∃ L', L <+: L' ∧ t.Over p N' current callers L')
    (fun d t => (∃ L', L <+: L' ∧ t.Over p N' current callers L') ∧ d.fault.Residual p)

theorem Leads.concludes (hx : Leads p N N' current callers L x) :
    Concludes p N current callers L x := by
  intro m hm
  refine (hx m hm).imp ?_ ?_
  · rintro _ t ⟨L', -, ht⟩
    exact ⟨ht.quiet, ht.tame⟩
  · rintro d t ⟨⟨L', -, ht⟩, hd⟩
    exact ⟨⟨ht.quiet, ht.tame⟩, hd⟩

theorem Returns.bindConcludes {x : Watched α} {f : α → Watched Unit}
    (hx : Returns p N callers L x P)
    (hf : ∀ L' a, L <+: L' → P L' a → Concludes p N current callers L' (f a)) :
    Concludes p N current callers L (x >>= f) := by
  intro m hm
  refine Meets.bind ((hx m hm).imp (fun _ _ h => h) ?_) ?_
  · rintro d t ⟨⟨L', -, ht⟩, hd⟩
    exact ⟨⟨ht.quiet, ht.clean.tame⟩, hd⟩
  · rintro a t ⟨L', hL, ht, ha⟩
    exact hf L' a hL ha t ht

theorem concludes_pure : Concludes p N current callers L (pure ()) := fun _ hm =>
  meets_pure ⟨hm.quiet, hm.clean.tame⟩

theorem concludes_exhausted : Concludes p N current callers L Runs.exhausted := fun _ _ =>
  meets_exhausted

theorem leads_exhausted : Leads p N N' current callers L Runs.exhausted := fun _ _ =>
  meets_exhausted

theorem leads_pure : Leads p N N current callers L (pure ()) := fun _ hm =>
  meets_pure ⟨L, List.prefix_rfl, hm.over⟩

theorem Complies.concludes {x : Watched Unit} {Q : Unit → Prop}
    (hx : Complies p N callers L x Q) (hd : ∀ q, Preserves Event.Disciplined (Ready q) x) :
    Concludes p N current callers L x := by
  intro m hm
  refine ((hx m hm).and (hd m.place callers m ⟨hm.clean, rfl⟩)).mono (fun _ h => h.1) ?_ ?_
  · rintro _ t ⟨⟨hq, -, -⟩, hr⟩
    exact ⟨hq, hr.toClean.tame⟩
  · rintro d t ⟨⟨hq, hd⟩, hr⟩
    exact ⟨⟨hq, hr.toClean.tame⟩, hd⟩

/-- A change of the machine that ends a statement. -/
theorem concludes_update {f : Machine → Machine}
    (hf : ∀ m, m.Stands p N callers L → (f m).Quiet p ∧ (f m).Tame p current) :
    Concludes p N current callers L (update f) := fun m hm =>
  meets_update (hf m hm).1 (hf m hm)

/-- What keeps everything typed and leaves what it enters leads back. -/
theorem Concludes.leads (hx : Concludes p N current callers L x)
    (hy : Yields p.table callers L x Anything) (hs : Stays x) :
    Leads p N N current callers L x := by
  intro m hm
  have hall := ((hx m hm).and (hy m hm.sound)).and (hs m callers m (.refl m))
  refine hall.mono (fun _ h => h.1.1) ?_ ?_
  · rintro _ t ⟨⟨⟨hq, ha⟩, L', hL, ht, -⟩, hk⟩
    exact ⟨L', hL, ht, hm.agrees.keeps hk, ha, hq⟩
  · rintro d t ⟨⟨⟨⟨hq, ha⟩, hd⟩, L', hL, ht⟩, hk⟩
    exact ⟨⟨L', hL, ht, hm.agrees.keeps hk, ha, hq⟩, hd⟩

/-- A statement that leaves nothing pending goes on where the check goes on. -/
theorem Leads.bind {f : Unit → Watched Unit} (hp : p.Accepted)
    (hx : Leads p N N' current callers L x)
    (hd : ∀ q : Place, q.Proper → Preserves Event.Disciplined (Ready q) x)
    (hf : ∀ L', Concludes p N' current callers L' (f ())) :
    Concludes p N current callers L (x >>= f) := by
  intro m hm
  refine Meets.bind (R := fun _ t => ∃ L', t.Stands p N' callers L')
    (((hx m hm).and (hd m.place (hp.place hm.sound.functions) callers m ⟨hm.clean, rfl⟩)).mono
      (fun _ h => h.1) ?_ ?_) ?_
  · rintro _ t ⟨⟨L', -, ht⟩, hr⟩
    exact ⟨L', ht.stands hr.toClean⟩
  · rintro d t ⟨⟨⟨L', -, ht⟩, hd⟩, -⟩
    exact ⟨⟨ht.quiet, ht.tame⟩, hd⟩
  · rintro _ t ⟨L', ht⟩
    exact hf L' t ht

theorem Concludes.between {enter leave : Machine → Machine}
    (hx : Concludes p N' current callers L x)
    (he : ∀ m, m.Stands p N callers L → (enter m).Stands p N' callers L)
    (hl : ∀ t, t.Quiet p ∧ t.Tame p current → (leave t).Quiet p ∧ (leave t).Tame p current) :
    Concludes p N current callers L (between enter leave x) := fun m hm =>
  meets_between (he m hm).quiet <| (hx _ (he m hm)).imp
    (fun _ t ht => ⟨(hl t ht).1, hl t ht⟩) fun _ t ht => ⟨(hl t ht.1).1, hl t ht.1, ht.2⟩

theorem Concludes.inScope
    (hx : Concludes p { N with scopes := N.scopes.push } current callers L x) :
    Concludes p N current callers L (inScope x) :=
  hx.between (fun _ h => ⟨h.sound.rescoped h.sound.scopes.push, h.agrees.enterScope,
    ⟨h.clean.signal, h.clean.failure⟩, h.quiet⟩) fun _ h => ⟨h.1, h.2.failure, h.2.returns⟩

theorem Concludes.inLabelled {label : String}
    (hx : Concludes p { N with scopes := (N.scopes.pushLabel label).push } current callers L x) :
    Concludes p N current callers L (inLabelled label x) :=
  hx.between (fun m h => ⟨h.sound.rescoped (s := (m.scopes.pushLabel label).push)
      (Scopes.All.push ⟨h.sound.scopes.globals, h.sound.scopes.frames⟩),
    h.agrees.enterLabelled label, ⟨h.clean.signal, h.clean.failure⟩, h.quiet⟩)
    fun _ h => ⟨h.1, h.2.failure, h.2.returns⟩

theorem Concludes.inConstruct {c : Construct} (hx : Concludes p N current callers L x) :
    Concludes p N current callers L (inConstruct c x) :=
  hx.between (fun _ h => ⟨⟨⟨h.sound.store, h.sound.scopes, h.sound.signal⟩, h.sound.callers,
      h.sound.functions⟩, ⟨h.agrees.functions, h.agrees.frames, h.agrees.labels, h.agrees.globals,
      h.agrees.top⟩, ⟨h.clean.signal, h.clean.failure⟩, h.quiet⟩)
    fun _ h => ⟨h.1, h.2.failure, h.2.returns⟩

theorem Concludes.withinStmt {s : Stmt} (hx : Concludes p N current callers L x) :
    Concludes p N current callers L (Runs.within (.stmt s) x) := fun m hm =>
  meets_within trivial ((hx m hm).imp (fun _ _ h => ⟨trivial, h⟩) fun _ _ h => ⟨h.2, h⟩)

theorem Leads.withinStmt {s : Stmt} (hx : Leads p N N' current callers L x) :
    Leads p N N' current callers L (Runs.within (.stmt s) x) := fun m hm =>
  meets_within trivial ((hx m hm).imp (fun _ _ h => ⟨trivial, h⟩) fun _ _ h => ⟨h.2, h⟩)

/-- A failure that is taken care of is reported or kept for the running call. -/
theorem Leads.guarded (hx : Leads p N N' current callers L x) :
    Leads p N N' current callers L (guarded x) := by
  intro m hm
  refine meets_guarded ((hx m hm).imp (fun _ _ h => h) ?_)
  rintro d t ⟨⟨L', hL, ht⟩, hd⟩
  have hk : ∀ u : Machine, u.names = t.names → u.constructs = t.constructs → u.depth = t.depth →
      u.limit = t.limit → u.Agrees N' := fun u h₁ h₂ h₃ h₄ => ht.agrees.keeps ⟨h₁, h₂, h₃, h₄⟩
  have hfail : (t.fail d).Over p N' current callers L' :=
    ⟨⟨⟨ht.sound.store, ht.sound.scopes, ht.sound.signal⟩, ht.sound.callers, ht.sound.functions⟩,
      hk _ rfl rfl rfl rfl, ⟨fun d' hd' => by cases hd'; exact hd, ht.tame.returns⟩, ht.quiet⟩
  have hnote : (t.note d).Over p N' current callers L' :=
    ⟨⟨⟨ht.sound.store, ht.sound.scopes, ht.sound.signal⟩, ht.sound.callers, ht.sound.functions⟩,
      hk _ rfl rfl rfl rfl, ⟨ht.tame.failure, ht.tame.returns⟩, ht.quiet.note hd⟩
  exact ⟨fun _ => ⟨trivial, hfail.quiet, trivial, L', hL, hfail⟩,
    fun _ => ⟨hnote.quiet, L', hL, hnote⟩⟩

theorem tame_consume {m : Machine} (hq : m.Quiet p) (ht : m.Tame p current) (g : Signal) :
    (m.consume g).2.Quiet p ∧ (m.consume g).2.Tame p current := by
  simp only [consume]
  repeat' split
  all_goals first | exact ⟨hq, ht⟩ | exact ⟨hq, ht.failure, fun v hv => by cases hv⟩

theorem over_consume {m : Machine} (h : m.Over p N current callers L) (g : Signal) :
    (m.consume g).2.Over p N current callers L :=
  have ht := tame_consume h.quiet h.tame g
  ⟨sound_consume h.sound g, h.agrees.keeps (keeps_consume m g), ht.2, ht.1⟩

theorem over_continueLooping {m : Machine} (h : m.Over p N current callers L) :
    m.continueLooping.2.Over p N current callers L ∧
      (m.continueLooping.1 = true → m.continueLooping.2.Clean) := by
  have hb := over_consume h .breakLoop
  simp only [continueLooping]
  split <;> rename_i t ht <;> rw [ht] at hb
  · exact ⟨hb, by simp⟩
  · exact ⟨over_consume hb .continueLoop, fun hc => clean_of_pending (by simpa using hc)⟩

/-- Nothing happens between a statement and what follows it but that a jump is taken. -/
theorem Leads.round {y : Watched Unit} (hx : Leads p N N current callers L x)
    (hy : ∀ L', Concludes p N current callers L' y) :
    Concludes p N current callers L (do
      x
      if ← Runs.step Machine.continueLooping then y else return ()) := by
  intro m hm
  refine Meets.bind ((hx m hm).imp (fun _ _ h => h) ?_) ?_
  · rintro d t ⟨⟨L', -, ht⟩, hd⟩
    exact ⟨⟨ht.quiet, ht.tame⟩, hd⟩
  rintro _ t ⟨L', -, ht⟩
  obtain ⟨ho, hc⟩ := over_continueLooping ht
  refine Meets.bind (R := fun b u => u.Over p N current callers L' ∧ (b = true → u.Clean))
    (meets_step ho.quiet ⟨ho, hc⟩) ?_
  rintro b u ⟨hu, hc⟩
  split
  · exact hy L' u (hu.stands (hc ‹_›))
  · exact meets_pure ⟨hu.quiet, hu.tame⟩

/-! ## Names and elements -/

theorem assign_concludes {name : String} {v : Value} {o : Position}
    (hn : (N.lookup name o).notes = [])
    (hv : (N.lookup name o).value.assignable v.ty = true) :
    Concludes p N current callers L (assign name v o) := by
  intro m hm
  obtain ⟨s, hs, hty, -⟩ := hm.symbol hn
  obtain ⟨w, hw, -⟩ := Value.convert_of_assignable s.name (hty ▸ hv)
  refine Meets.bind (R := fun _ t => t = m) (meets_look (fun _ _ => rfl) fun d hd => ?_) ?_
  · simp [fit, hs, hw] at hd
  · rintro ⟨u, row⟩ t rfl
    exact meets_update hm.quiet ⟨hm.quiet, Clean.tame ⟨hm.clean.signal, hm.clean.failure⟩⟩

theorem write_concludes {c v : Value} {i : Int64} {j : Option Int64} {t : Ty} {owner : String}
    {o : Position} (hc : c.Fits L)
    (ht : match j with
      | none => c.ty.item? = some t
      | some _ => ∃ q, c = .matrix q ∧ t = .scalar q.base)
    (hv : t.assignable v.ty = true) :
    Concludes p N current callers L (write c i j v owner o) := by
  refine Complies.concludes (Q := fun _ => True) (complies_edit fun s hs => ?_)
    fun _ => stable_ready.edit
  have ha := write_accords (p := p) (i := i) owner hs hc ht hv
  rcases hw : s.write c i j v owner with f | e <;> rw [hw] at ha <;> exact ha

theorem fits_assignable {owner : String} {t u : Ty} {e : Expr} (ht : t ≠ .error)
    (hu : u ≠ .error) (h : (Checker.fits owner t u e).notes = []) : t.assignable u = true := by
  simp only [Checker.fits, Judge.isError_eq_false ht, Judge.isError_eq_false hu,
    Bool.false_or] at h
  split at h
  · assumption
  · simp [Judged.note] at h

theorem step_numeric {target : Expr} {o : Position} (hN : N.Typed)
    (h : (Checker.stepTarget N target o).notes = []) :
    (N.infer target).notes = [] ∧ (N.infer target).value.isNumeric = true := by
  simp only [Checker.stepTarget, Judged.notes_bind, List.append_eq_nil_iff] at h
  obtain ⟨he, hj⟩ := h
  refine ⟨he, ?_⟩
  simp only [Judge.isError_eq_false (Names.infer_typed hN target he), Bool.false_or] at hj
  split at hj
  · assumption
  · simp [Judged.note] at hj

/-- A number is changed in place: an element of a type takes a step of a value of the type. -/
theorem step_write {a v : Value} {i : Int64} {j : Option Int64} {t : Ty} {up : Bool}
    {owner : String} {o : Position} (ha : a.Fits L)
    (ht : match j with
      | none => a.ty.item? = some t
      | some _ => ∃ q, a = .matrix q ∧ t = .scalar q.base)
    (hv : v.ty = t) (hn : t.isNumeric = true) :
    Concludes p N current callers L (do
      let w ← Eval.ofExcept o (v.step up)
      write a i j w owner o) := by
  subst hv
  refine (returns_ofExcept (P := fun _ w => w.ty = v.ty) (step_accords hn)).bindConcludes
    fun _ w hL hw => write_concludes (ha.mono hL) ht ?_
  rw [hw]
  simp [Ty.assignable]

theorem condition_bool {e : Expr} {construct : String} (hN : N.Typed)
    (h : (Checker.condition N e construct).notes = []) : (N.infer e).value = .bool := by
  simp only [Checker.condition, Judged.notes_bind, List.append_eq_nil_iff] at h
  obtain ⟨he, hj⟩ := h
  simp only [Judge.isError_eq_false (Names.infer_typed hN e he), Bool.false_or,
    decide_eq_true_eq] at hj
  split at hj
  · assumption
  · simp [Judged.note] at hj

/-- A jump that comes up. -/
theorem request_concludes {f : Machine → Signal} (hf : ∀ m v, f m = .giveBack v →
      ∃ g, current = some g ∧ (g.isProcedure = true ∨ g.returns.assignable v.ty = true)) :
    Concludes p N current callers L (update fun m => { m with signal := some (f m) }) :=
  concludes_update fun m hm => ⟨hm.quiet, fun d hd => by
    simp [hm.clean.failure] at hd, fun v hv => hf m v (Option.some.inj hv)⟩

/-- A `return` that is not complained about gives back what the function returns. -/
theorem returned_silent {c : Checker} {received : Option Ty} {o : Position}
    (h : (c.returned received o).Silent) : ∃ f, c.current = some f ∧
      (f.isProcedure = true ∨ ∃ t, received = some t ∧
        (t.isError = true ∨ f.returns.assignable t = true)) := by
  simp only [Checker.returned] at h
  split at h
  · exact absurd h silent_note
  · rename_i f t hf
    split at h
    · exact absurd h silent_note
    · split at h
      · rename_i hok
        exact ⟨f, hf, .inr ⟨t, rfl, by simpa using hok⟩⟩
      · exact absurd h silent_note
  · rename_i f hf
    split at h
    · exact ⟨f, hf, .inl ‹_›⟩
    · exact absurd h silent_note

/-- A name the check could declare is declared, with any value of its type or its default. -/
theorem declare_meets {c : Checker} {name : String} {ty : Ty} {category : Category} {o : Position}
    {value : Option Value} {m : Machine} {F : Diagnostic → Machine → Prop} (ht : ty ≠ .error)
    (hv : ∀ v ∈ value, v.ty = ty ∧ v.Fits L) (hs : (c.declare name ty category o).Silent)
    (hm : m.Stands p c.toNames callers L) :
    Meets (Event.Checked p) (declare name ty category o value) callers m
      (fun _ t => ∃ L', L <+: L' ∧
        t.Stands p (c.declare name ty category o).toNames callers L') F := by
  have hfree := Checker.free_of_silent hs
  rw [Checker.declare_of_free hfree]
  refine meets_declare (fun _ => ?_) fun htaken => ?_
  · obtain ⟨L', hL, h'⟩ := hm.sound.introduce ht hv
    exact ⟨hm.quiet, L', hL, h', hm.agrees.introduce,
      ⟨hm.clean.signal, hm.clean.failure⟩, hm.quiet⟩
  · cases (hm.agrees.free hfree).symm.trans htaken

/-! ## Calls -/

/-- Arguments the check let through can be bound. -/
theorem convertArguments_suits {f : Function} {i : Nat} {qs : List Parameter} {es : List Expr}
    {vs : List Value} (hqs : List.Forall₂ N.Suits es qs)
    (hvs : List.Forall₂ (fun e v => Value.ty v = (N.infer e).value) es vs) :
    ∃ ws, convertArguments f i qs (vs.zip (es.map Expr.position)) = .ok ws ∧
      qs.length = ws.length := by
  induction hqs generalizing i vs with
  | nil =>
    cases hvs
    exact ⟨[], rfl, rfl⟩
  | @cons e q es qs hq hqs ih =>
    obtain ⟨-, hq⟩ := hq
    rcases hvs with _ | @⟨_, v, _, vs, hv, hvs⟩
    obtain ⟨ws, hws, hl⟩ := ih (i := i + 1) hvs
    rw [← hv, Value.isError_ty, Bool.false_or] at hq
    obtain ⟨w, hw, -⟩ := Value.convert_of_assignable f.name hq
    refine ⟨w :: ws, ?_, by simp [hl]⟩
    simp only [List.map_cons, List.zip_cons_cons, convertArguments, Value.convert_ok hw, hws]
    rfl

/-- Parameters the check could declare are declared. -/
theorem declareParameters_meets {f : Function} {F : Diagnostic → Machine → Prop} :
    ∀ {qs : List Parameter} {vs : List Value} {c : Checker} {m : Machine} {L : Layout},
    (∀ q ∈ qs, q.ty ≠ .error) → qs.length = vs.length →
    (∀ r ∈ qs.zip vs, r.2.ty = r.1.ty ∧ r.2.Fits L) →
    (qs.foldl (Checker.parameter f) c).Silent → m.Stands p c.toNames callers L →
    Meets (Event.Checked p) (declareParameters qs vs) callers m
      (fun _ t => ∃ L', t.Stands p (qs.foldl (Checker.parameter f) c).toNames callers L') F
  | [], _, _, _, L, _, _, _, _, hm => meets_pure ⟨L, hm⟩
  | _ :: _, [], _, _, _, _, hl, _, _, _ => by cases hl
  | q :: qs, v :: vs, c, m, L, hq, hl, hv, hs, hm => by
    obtain ⟨hqt, hqs⟩ := List.forall_mem_cons.1 hq
    obtain ⟨hvt, hvs⟩ := List.forall_mem_cons.1 hv
    have hfirst : (Checker.parameter f c q).Silent := (Checker.grows_parameters qs _).silent hs
    have hparam : Checker.parameter f c q = c.declare q.name q.ty .parameter q.position := by
      simp only [Checker.parameter] at hfirst ⊢
      split at hfirst
      · exact absurd hfirst silent_note
      · rw [if_neg ‹_›]
    rw [hparam] at hfirst
    rw [List.foldl_cons, hparam] at hs ⊢
    refine Meets.bind (declare_meets hqt (fun u hu => ?_) hfirst hm) ?_
    · cases hu
      exact hvt
    · rintro _ t ⟨L', hL, ht⟩
      exact declareParameters_meets hqs (by simpa using hl)
        (fun r hr => ⟨(hvs r hr).1, (hvs r hr).2.mono hL⟩) hs ht

/-- What a function may give back: nothing, or a value of a type it returns. -/
def Answers (f : Function) (v : Value) : Prop :=
  v = .void ∨ f.isProcedure = true ∨ f.returns.assignable v.ty = true

/-- The end of a call turns what is pending into the answer of the function. -/
theorem conclude_answers {f : Function} {m : Machine} (hq : m.Quiet p) (ht : m.Tame p (some f)) :
    Meets (Event.Checked p) (conclude f) callers m (fun v t => t.Quiet p ∧ Answers f v)
      (fun d t => t.Quiet p ∧ d.fault.Residual p) := by
  refine Meets.bind (R := fun r t => t.Quiet p ∧ r = m.failure ∧ t.signal = m.signal)
    (meets_step hq ⟨hq, rfl, rfl⟩) ?_
  rintro r t ⟨htq, rfl, hsig⟩
  split
  · exact meets_fail ⟨htq, ht.failure _ ‹_›⟩
  · refine Meets.bind (R := fun v u => u.Quiet p ∧ Answers f (v.getD .void))
      (meets_step ?_ ⟨?_, ?_⟩) ?_
    · simp only [takeReturn]
      split <;> exact htq
    · simp only [takeReturn]
      split <;> exact htq
    · simp only [takeReturn]
      split
      · rename_i v hv
        obtain ⟨g, hg, hr⟩ := ht.returns v (hsig.symm.trans hv)
        obtain rfl := Option.some.inj hg
        exact .inr hr
      · exact .inl rfl
    · rintro v u ⟨huq, hv⟩
      refine Meets.bind (R := fun _ w => w.Quiet p) (meets_step huq huq) fun g w hw => ?_
      split
      · rename_i signal
        have hnote := hw.note (d := unconsumed signal f.span.start) .unconsumedControlSignal
        exact Meets.bind (R := fun _ w => w.Quiet p) (meets_update hnote hnote)
          fun _ _ h => meets_pure ⟨h, hv⟩
      · exact meets_pure ⟨hw, hv⟩

theorem callResult_accords {f : Function} {v : Value} (hf : f ∈ p.functions) (hv : Answers f v) :
    Accords p (callResult f v) fun w => w.ty = f.returns := by
  simp only [callResult]
  split
  · rename_i hproc
    exact (eq_of_beq hproc).symm
  · rename_i hproc
    rcases hv with rfl | h | h
    · have hvoid : Value.void.coerce? f.returns = none := by
        unfold Value.coerce?
        rw [if_neg fun h => hproc (beq_iff_eq.2 h.symm)]
        split <;> trivial
      rw [Value.convert, hvoid]
      exact .noReturn hf (Bool.eq_false_iff.2 hproc)
    · exact absurd h hproc
    · obtain ⟨w, hw, ht⟩ := Value.convert_of_assignable f.name h
      exact accords_ok hw ht

end Rules

end Watched

end Primer
