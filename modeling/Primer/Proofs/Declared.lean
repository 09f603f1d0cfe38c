import Primer.Proofs.Tracking

/-!
# Runs declare what was checked

Where a run comes to a statement, the check came to the statement under the same labels, and all
names the run has declared in the innermost scope the check had declared as well
(`Program.StandsAt`). The check may have declared more, for it goes through all cases of a switch
where the run skips some. So a declaration is made by a run as the check made it
(`Program.Declares`), and in a program that checking has no complaint about it finds its name free.
-/

namespace Primer

/-! ## Listings -/

/-- The key of the row that lists a declaration. -/
def Declaration.rowKey (d : Declaration) : RowKey := ⟨d.key, d.scope, d.category⟩

namespace Listing

variable {l : Listing} {k : RowKey}

/-- Some row has the key. -/
def Has (l : Listing) (k : RowKey) : Prop := ∃ r ∈ l.rows, r.rowKey = k

theorem has_modify {i : Nat} {f : Row → Row} (hf : ∀ r, (f r).rowKey = r.rowKey) :
    (l.modify i f hf).Has k ↔ l.Has k := by
  simp only [Has, modify, Array.mem_iff_getElem?, Array.getElem?_modify]
  constructor
  · rintro ⟨r, ⟨j, hj⟩, rfl⟩
    split at hj
    · obtain ⟨r', hr, rfl⟩ := Option.map_eq_some_iff.1 hj
      exact ⟨r', ⟨j, hr⟩, (hf r').symm⟩
    · exact ⟨r, ⟨j, hj⟩, rfl⟩
  · rintro ⟨r, ⟨j, hj⟩, rfl⟩
    by_cases hi : i = j
    · exact ⟨f r, ⟨j, by simp [hi, hj]⟩, hf r⟩
    · exact ⟨r, ⟨j, by simp [hi, hj]⟩, rfl⟩

theorem has_record {row : Row} : (l.record row).2.Has k ↔ k = row.rowKey ∨ l.Has k := by
  cases hi : l.index? row.rowKey with
  | some i =>
    rw [record_some hi]
    refine (has_modify row.rowKey_refresh).trans ⟨Or.inr, ?_⟩
    rintro (rfl | h)
    · obtain ⟨r, hr, hk⟩ := Option.map_eq_some_iff.1 (index?_eq_some.1 hi)
      exact ⟨r, Array.mem_of_getElem? hr, hk⟩
    · exact h
  | none =>
    rw [record_none hi]
    simp only [Has, push, Array.mem_push]
    constructor
    · rintro ⟨r, hr | rfl, rfl⟩
      · exact .inr ⟨r, hr, rfl⟩
      · exact .inl rfl
    · rintro (rfl | ⟨r, hr, rfl⟩)
      · exact ⟨row, .inr rfl, rfl⟩
      · exact ⟨r, .inl hr, rfl⟩

theorem has_setValue {i : Nat} {v : Value} : (l.setValue i v).Has k ↔ l.Has k :=
  has_modify (Row.rowKey_assign v)

end Listing

/-! ## Scopes one before the other -/

/-- The labels are the same, and what the innermost frame has the later one has as well. -/
structure Scopes.Precedes {β : Type} (s s' : Scopes β) : Prop where
  labels : s'.labels = s.labels
  here : ∀ name, s'.declaredHere name = false → s.declaredHere name = false

theorem Scopes.path_eq {β γ : Type} {s : Scopes β} {t : Scopes γ} (h : s.labels = t.labels) :
    s.path = t.path := by
  unfold path
  rw [h]

theorem Scopes.labels_extend {β : Type} (s : Scopes β) (added : Frame β) :
    (s.extend added).labels = s.labels := by
  obtain ⟨globals, _ | ⟨frame, frames⟩, labels⟩ := s <;> rfl

theorem Frame.has_of_within {β : Type} {inner outer : Frame β} (h : inner.Within outer)
    {name : String} (hn : outer.has name = false) : inner.has name = false := by
  unfold has find? at hn ⊢
  cases hl : inner.lookup (Text.fold name) with
  | none => rfl
  | some b => simp [h _ b hl] at hn

theorem Checker.Grows.precedes {c c' : Checker} (h : c.Grows c') : c.scopes.Precedes c'.scopes := by
  obtain ⟨added, ha⟩ := h.scopes
  exact ⟨by rw [ha, Scopes.labels_extend], fun name hn => Frame.has_of_within h.innermost hn⟩

theorem Scopes.declaredHere_add {β : Type} (s : Scopes β) (name key : String) (b : β) :
    (s.add name b).declaredHere key = (Text.fold key == Text.fold name || s.declaredHere key) := by
  have hframe : ∀ frame : Frame β, (frame.add name b).has key =
      (Text.fold key == Text.fold name || frame.has key) := by
    intro frame
    unfold Frame.has
    rw [Frame.find?_add]
    split <;> simp [*]
  obtain ⟨globals, _ | ⟨frame, frames⟩, labels⟩ := s <;> exact hframe _

theorem Scopes.labels_add {β : Type} (s : Scopes β) (name : String) (b : β) :
    (s.add name b).labels = s.labels := by
  rw [add_eq_extend, labels_extend]

/-! ## Machines and checks -/

namespace Program

/-- A declaration that checking a program makes. -/
inductive Declares (p : Program) : Declaration → Prop
  | stmt {span name ty value ss c} (h : p.Walks (.declare span name ty value :: ss) c) :
    Declares p ⟨name, ty, .ofTy ty, span.start, c.scopes.path⟩
  | parameter {f c q} (h : p.Opens f c) (hq : q ∈ f.parameters) :
    Declares p ⟨q.name, q.ty, .parameter, q.position,
      (c.enterLabelled (Label.ofFunction f.name)).scopes.path⟩

/-- The key of a declaration that checking a program makes, or of one of its functions. -/
def Keys (p : Program) (k : RowKey) : Prop :=
  (∃ f ∈ p.functions, k = (Row.ofFunction f Scopes.globalLabel).rowKey) ∨
    ∃ d, p.Declares d ∧ d.rowKey = k

/-- Everything a machine holds or lists was declared as checking the program declared it. -/
structure Accounts (p : Program) (m : Machine) : Prop where
  rows : ∀ k, m.listing.Has k → p.Keys k
  symbols : m.scopes.All fun s => p.Declares s.toDeclaration

/-- A machine is where the check is that has these scopes. -/
structure StandsAt (p : Program) (S : Scopes Declaration) (m : Machine) : Prop where
  functions : m.functions = p.table
  labels : m.scopes.labels = S.labels
  free : ∀ name, S.declaredHere name = false → m.scopes.declaredHere name = false
  accounts : p.Accounts m

variable {p : Program} {S S' : Scopes Declaration} {m t : Machine}

theorem Accounts.of_eq (h : p.Accounts m) (hs : t.scopes = m.scopes) (hl : t.listing = m.listing) :
    p.Accounts t := ⟨hl ▸ h.rows, hs ▸ h.symbols⟩

theorem Accounts.of_scopes (h : p.Accounts m) (hl : t.listing = m.listing)
    (hg : t.scopes.globals = m.scopes.globals)
    (hf : ∀ frame ∈ t.scopes.frames, frame ∈ m.scopes.frames) : p.Accounts t :=
  ⟨hl ▸ h.rows, hg ▸ h.symbols.globals, fun frame hin => h.symbols.frames frame (hf frame hin)⟩

theorem StandsAt.mono (h : p.StandsAt S m) (hS : S.Precedes S') : p.StandsAt S' m :=
  ⟨h.functions, h.labels.trans hS.labels.symm, fun name hn => h.free name (hS.here name hn),
    h.accounts⟩

theorem StandsAt.keeps (h : p.StandsAt S m) (hk : m.Keeps t) (ha : p.Accounts t) :
    p.StandsAt S t := by
  have hs : t.names.scopes = m.names.scopes := congrArg Names.scopes hk.names
  refine ⟨(congrArg Names.functions hk.names).trans h.functions,
    (congrArg Scopes.labels hs).trans h.labels, fun name hn => ?_, ha⟩
  have hm := h.free name hn
  rw [← Scopes.declaredHere_map _ Symbol.toDeclaration] at hm ⊢
  exact (congrArg (Scopes.declaredHere · name) hs).trans hm

theorem Accounts.introduce {name : String} {ty : Ty} {category : Category} {o : Position}
    {value : Option Value} (h : p.Accounts m)
    (hd : p.Declares ⟨name, ty, category, o, m.scopes.path⟩) :
    p.Accounts (m.introduce name ty category o value) := by
  refine ⟨fun k hk => ?_, h.symbols.add hd⟩
  rcases Listing.has_record.1 hk with rfl | hk
  · exact .inr ⟨_, hd, rfl⟩
  · exact h.rows k hk

theorem Accounts.replace {name : String} {v : Value} {row : Option Nat} (h : p.Accounts m) :
    p.Accounts (m.replace name v row) := by
  have hget : ∀ s, m.scopes.get? name = some s → p.Declares s.toDeclaration :=
    fun _ hs => h.symbols.get? hs
  refine ⟨fun k hk => h.rows k ?_, h.symbols.change hget⟩
  cases row with
  | none => exact hk
  | some i => exact Listing.has_setValue.1 hk

theorem StandsAt.enterScope (h : p.StandsAt S m) : p.StandsAt S.push m.enterScope :=
  ⟨h.functions, h.labels, fun _ _ => rfl, h.accounts.rows, h.accounts.symbols.push⟩

theorem StandsAt.enterLabelled (h : p.StandsAt S m) (label : String) :
    p.StandsAt (S.pushLabel label).push (m.enterLabelled label) :=
  ⟨h.functions, congrArg (label :: ·) h.labels, fun _ _ => rfl, h.accounts.rows,
    Scopes.All.push ⟨h.accounts.symbols.globals, h.accounts.symbols.frames⟩⟩

/-- A call begins where the check of the function began. -/
theorem StandsAt.enterCall {f : Function} {c : Checker} (h : p.StandsAt S m) (hc : p.Opens f c) :
    p.StandsAt (c.enterLabelled (Label.ofFunction f.name)).scopes (m.enterCall f.name).2 := by
  refine ⟨h.functions, ?_, fun _ _ => rfl, h.accounts.rows, h.accounts.symbols.globals, ?_⟩
  · exact congrArg (Label.ofFunction f.name :: ·) hc.atTop.2.symm
  · intro frame hf e he
    obtain rfl := List.mem_singleton.1 hf
    cases he

end Program

/-- What the notes of a run tell about the check. -/
def Event.Accounted (p : Program) : Event → Prop
  | .enters (.stmt s) m => ∃ ss c, p.Walks (s :: ss) c ∧ p.StandsAt c.scopes m
  | e => p.Accounts e.target

namespace Program

open Watched Eval Machine
open Checker (silent_note grows_declare free_of_silent)

variable {α β : Type} {p : Program} {S S' : Scopes Declaration} {c : Checker} {x : Watched α}

/-- A computation leads from where one check is to where another is, also if it fails. -/
def Leads (p : Program) (S S' : Scopes Declaration) (x : Watched α) : Prop :=
  ∀ callers m, p.StandsAt S m → Meets (Event.Accounted p) x callers m
    (fun _ t => p.StandsAt S' t) (fun _ t => p.StandsAt S' t)

/-- A computation declares only what was checked. -/
def Ends (p : Program) (S : Scopes Declaration) (x : Watched α) : Prop :=
  ∀ callers m, p.StandsAt S m → Meets (Event.Accounted p) x callers m
    (fun _ t => p.Accounts t) (fun _ t => p.Accounts t)

theorem stable : Stable (Event.Accounted p) (p.StandsAt S) where
  store _ h := ⟨h.functions, h.labels, h.free, h.accounts.rows, h.accounts.symbols⟩
  steps _ h := ⟨h.accounts.rows, h.accounts.symbols⟩
  expr _ h := ⟨h.accounts, fun _ => h.accounts, fun _ => h.accounts⟩
  exprFor _ _ h := ⟨h.accounts, fun _ => h.accounts, fun _ => h.accounts⟩

/-! ## Rules -/

theorem Leads.bind {f : α → Watched β} (hx : p.Leads S S x) (hf : ∀ a, p.Leads S S' (f a))
    (hS : S.Precedes S') : p.Leads S S' (x >>= f) := by
  intro callers m h
  refine Meets.bind ((hx callers m h).imp (fun _ _ h => h) fun _ _ h => h.mono hS) ?_
  exact fun a t ht => hf a callers t ht

theorem Leads.andThen {f : α → Watched β} (hx : p.Leads S S' x) (hf : ∀ a, p.Leads S' S' (f a)) :
    p.Leads S S' (x >>= f) := fun callers m h =>
  (hx callers m h).bind fun a t ht => hf a callers t ht

theorem Leads.andEnds {f : α → Watched β} (hx : p.Leads S S' x) (hf : ∀ a, p.Ends S' (f a)) :
    p.Ends S (x >>= f) := by
  intro callers m h
  refine Meets.bind ((hx callers m h).imp (fun _ _ h => h) fun _ _ h => h.accounts) ?_
  exact fun a t ht => hf a callers t ht

theorem ends_bind {f : α → Watched β} (hx : p.Leads S S x) (hf : ∀ a, p.Ends S (f a)) :
    p.Ends S (x >>= f) := hx.andEnds hf

theorem Leads.ends (hx : p.Leads S S' x) : p.Ends S x := fun callers m h =>
  (hx callers m h).imp (fun _ _ h => h.accounts) fun _ _ h => h.accounts

/-- What leaves the scopes as they are stays where it is. -/
theorem Ends.leads (hx : p.Ends S x) (hs : Stays x) : p.Leads S S x := by
  intro callers m h
  refine ((hx callers m h).and (hs m callers m (.refl m))).mono (fun _ h => h.1) ?_ ?_
  · exact fun _ t ht => h.keeps ht.2 ht.1
  · exact fun _ t ht => h.keeps ht.2 ht.1

theorem leads_step {f : Machine → α × Machine} (hf : ∀ m : Machine, m.Keeps (f m).2)
    (ha : ∀ m, p.Accounts m → p.Accounts (f m).2) : p.Leads S S (Runs.step f) := fun _ m h =>
  meets_step (ha m h.accounts) (h.keeps (hf m) (ha m h.accounts))

theorem ends_update {f : Machine → Machine} (ha : ∀ m, p.Accounts m → p.Accounts (f m)) :
    p.Ends S (update f) := fun _ m h => meets_update (ha m h.accounts) (ha m h.accounts)

theorem Ends.between {enter leave : Machine → Machine} (hx : p.Ends S' x)
    (he : ∀ m, p.StandsAt S m → p.StandsAt S' (enter m))
    (hl : ∀ t, p.Accounts t → p.Accounts (leave t)) : p.Ends S (between enter leave x) :=
  fun callers m h => meets_between (he m h).accounts <| (hx callers _ (he m h)).imp
    (fun _ t ht => ⟨hl t ht, hl t ht⟩) fun _ t ht => ⟨hl t ht, hl t ht⟩

theorem Ends.inScope (hx : p.Ends S.push x) : p.Ends S (inScope x) :=
  hx.between (fun _ h => h.enterScope) fun _ h =>
    h.of_scopes rfl rfl fun _ hf => List.mem_of_mem_tail hf

theorem Ends.inLabelled {label : String} (hx : p.Ends (S.pushLabel label).push x) :
    p.Ends S (inLabelled label x) :=
  hx.between (fun _ h => h.enterLabelled label) fun _ h =>
    h.of_scopes rfl rfl fun _ hf => List.mem_of_mem_tail hf

theorem Ends.inConstruct {k : Construct} (hx : p.Ends S x) : p.Ends S (inConstruct k x) :=
  hx.between (fun _ h => ⟨h.functions, h.labels, h.free, h.accounts.rows, h.accounts.symbols⟩)
    fun _ h => h.of_eq rfl rfl

theorem Leads.withinStmt {s : Stmt} {ss : List Stmt} {x : Watched Unit}
    (h : p.Walks (s :: ss) c) (hx : p.Leads c.scopes S x) :
    p.Leads c.scopes S (Runs.within (.stmt s) x) := fun callers m hm =>
  meets_within ⟨ss, c, h, hm⟩ ((hx callers m hm).imp (fun _ _ h => ⟨h.accounts, h⟩)
    fun _ _ h => ⟨h.accounts, h⟩)

theorem Ends.withinCall {name : String} {es : List Expr} {o : Position} {x : Watched Value}
    (hx : p.Ends S x) : p.Ends S (Runs.within (.call name es o) x) := fun callers m hm =>
  meets_within hm.accounts ((hx callers m hm).imp (fun _ _ h => ⟨h, h⟩) fun _ _ h => ⟨h, h⟩)

theorem Leads.guarded {x : Watched Unit} (hx : p.Leads S S' x) : p.Leads S S' (guarded x) := by
  intro callers m hm
  refine meets_guarded ((hx callers m hm).imp (fun _ _ h => h) fun d t ht => ?_)
  have hfail : p.Accounts (t.fail d) := ht.accounts.of_eq rfl rfl
  have hnote : p.Accounts (t.note d) := ht.accounts.of_eq rfl rfl
  exact ⟨fun _ => ⟨ht.accounts, hfail, hfail, ht.keeps ⟨rfl, rfl, rfl, rfl⟩ hfail⟩,
    fun _ => ⟨hnote, ht.keeps ⟨rfl, rfl, rfl, rfl⟩ hnote⟩⟩

theorem accounts_consume {m : Machine} (h : p.Accounts m) (g : Signal) :
    p.Accounts (m.consume g).2 := by
  unfold consume
  repeat' split
  all_goals exact h.of_eq rfl rfl

theorem leads_continueLooping : p.Leads S S (Runs.step Machine.continueLooping) := by
  intro callers m h
  have ha : p.Accounts m.continueLooping.2 := by
    have hb := accounts_consume h.accounts .breakLoop
    unfold Machine.continueLooping
    split <;> rename_i heq <;> rw [heq] at hb
    · exact hb
    · exact accounts_consume hb .continueLoop
  have hk := (stays_continueLooping m callers m (.refl m)).2
  exact meets_step ha (h.keeps hk ha)

/-! ## Declarations -/

theorem leads_declare {name : String} {ty : Ty} {category : Category} {o : Position}
    {value : Option Value} (hs : (c.declare name ty category o).Silent)
    (hd : p.Declares ⟨name, ty, category, o, c.scopes.path⟩) :
    p.Leads c.scopes (c.declare name ty category o).scopes
      (Eval.declare name ty category o value) := by
  intro callers m h
  have hfree := free_of_silent hs
  refine meets_declare (fun _ => ?_) fun htaken => ?_
  · rw [← Scopes.path_eq h.labels] at hd
    have ha : p.Accounts (m.introduce name ty category o value) := h.accounts.introduce hd
    rw [Checker.declare_of_free hfree]
    refine ⟨ha, h.functions, ?_, fun key hk => ?_, ha⟩
    · exact (Scopes.labels_add ..).trans (h.labels.trans (Scopes.labels_add ..).symm)
    · have hk : (c.scopes.add name _).declaredHere key = false := hk
      show (m.scopes.add name _).declaredHere key = false
      rw [Scopes.declaredHere_add, Bool.or_eq_false_iff] at hk ⊢
      exact ⟨hk.1, h.free key hk.2⟩
  · cases (h.free name hfree).symm.trans htaken

theorem leads_declareWith {name : String} {ty : Ty} {o : Position} {x : Watched Value}
    (hx : p.Leads c.scopes c.scopes x) (hs : (c.declare name ty (.ofTy ty) o).Silent)
    (hd : p.Declares ⟨name, ty, .ofTy ty, o, c.scopes.path⟩) :
    p.Leads c.scopes (c.declare name ty (.ofTy ty) o).scopes (declareWith name ty o x) := by
  intro callers m h
  refine Meets.bind (R := fun _ t => p.StandsAt c.scopes t)
    (meets_attempt ((hx callers m h).imp (fun _ _ h => h) fun _ _ h => h)) ?_
  rintro (d | v) t ht
  · exact (leads_declare hs hd).andThen (fun _ => preserves_fail) callers t ht
  · exact leads_declare hs hd callers t ht

theorem leads_declareParameters {f : Function} : ∀ (qs : List Parameter) (vs : List Value)
    (c : Checker), (qs.foldl (Checker.parameter f) c).Silent →
    (∀ q ∈ qs, p.Declares ⟨q.name, q.ty, .parameter, q.position, c.scopes.path⟩) →
    p.Leads c.scopes (qs.foldl (Checker.parameter f) c).scopes (declareParameters qs vs)
  | [], _, _, _, _ => preserves_pure
  | q :: qs, [], c, _, _ => fun _ _ h =>
    meets_pure (h.mono (Checker.grows_parameters (q :: qs) c).precedes)
  | q :: qs, v :: vs, c, hs, hd => by
    have hfirst : (Checker.parameter f c q).Silent := (Checker.grows_parameters qs _).silent hs
    have heq := Course.Tracks.parameter_eq hfirst
    rw [List.foldl_cons, heq] at hs ⊢
    rw [heq] at hfirst
    have hpath : (c.declare q.name q.ty .parameter q.position).scopes.path = c.scopes.path :=
      Scopes.path_eq grows_declare.precedes.labels
    obtain ⟨hq, hqs⟩ := List.forall_mem_cons.1 hd
    intro callers m h
    refine Meets.bind ((leads_declare hfirst hq callers m h).imp (fun _ _ h => h) fun _ _ h =>
      h.mono (Checker.grows_parameters qs _).precedes) fun _ t ht => ?_
    exact leads_declareParameters qs vs _ hs (by rwa [hpath]) callers t ht

theorem Ends.withinStmt {s : Stmt} {ss : List Stmt} {x : Watched Unit} (hx : p.Ends c.scopes x)
    (h : p.Walks (s :: ss) c) (hd : s.declares = false) (hs : Stays (Runs.within (.stmt s) x)) :
    p.Leads c.scopes (Checker.stmt s c).scopes (Runs.within (.stmt s) x) := by
  have hk : (Checker.stmt s c).scopes = c.scopes :=
    congrArg Names.scopes (Checker.stmt_keeps s c hd).names
  rw [hk]
  exact Leads.withinStmt h (hx.leads (Course.stays_of_within hs))

theorem ends_assign {name : String} {v : Value} {o : Position} : p.Ends S (assign name v o) :=
  ends_bind preserves_look fun _ => ends_update fun _ h => h.replace

theorem ends_write {container v : Value} {i : Int64} {j : Option Int64} {owner : String}
    {o : Position} : p.Ends S (write container i j v owner o) :=
  fun callers m h => (stable.edit callers m h).imp (fun _ _ h => h.accounts) fun _ _ h => h.accounts

theorem conclude_meets {f : Function} {callers : List Caller} {m : Machine} (h : p.Accounts m) :
    Meets (Event.Accounted p) (conclude f) callers m (fun _ t => p.Accounts t)
      (fun _ t => p.Accounts t) := by
  have htake : p.Accounts m.takeFailure.2 := h.of_eq rfl rfl
  refine Meets.bind (R := fun _ t => p.Accounts t) (meets_step htake htake) fun r t ht => ?_
  split
  · exact meets_fail ht
  · have hreturn : p.Accounts t.takeReturn.2 := by
      unfold takeReturn
      split <;> exact ht.of_eq rfl rfl
    refine Meets.bind (R := fun _ u => p.Accounts u) (meets_step hreturn hreturn) fun v u hu => ?_
    have hsignal : p.Accounts u.takeSignal.2 := hu.of_eq rfl rfl
    refine Meets.bind (R := fun _ w => p.Accounts w) (meets_step hsignal hsignal) fun g w hw => ?_
    split
    · have hnote : ∀ d, p.Accounts (w.note d) := fun _ => hw.of_eq rfl rfl
      exact Meets.bind (R := fun _ w => p.Accounts w) (meets_update (hnote _) (hnote _))
        fun _ _ h => meets_pure h
    · exact meets_pure hw

/-- One round of a loop, and what comes after it. -/
theorem leads_round {x y : Watched Unit} (hx : p.Leads S S x) (hy : p.Leads S S y) : p.Leads S S (do
    x
    if ← Runs.step Machine.continueLooping then y else return ()) :=
  hx.andThen fun _ => leads_continueLooping.andThen fun b => by
    split
    · exact hy
    · exact preserves_pure

/-- Every part of the evaluator declares only what was checked. -/
structure Declaring (p : Program) (n : Nat) : Prop where
  values : ∀ S, Evaluates (Event.Accounted p) (p.StandsAt S) n
  call : ∀ S name es o, p.Leads S S (call n name es o)
  stmt : ∀ {s ss c}, p.Walks (s :: ss) c →
    p.Leads c.scopes (Checker.stmt s c).scopes (stmt n s)
  stmts : ∀ {ss c}, p.Walks ss c → p.Leads c.scopes (Checker.stmts ss c).scopes (stmts n ss)
  block : ∀ {S c} {b : Block}, p.Walks b.body c → c.scopes = S.push → p.Leads S S (block n b)
  perform : ∀ {s ss c}, p.Walks (s :: ss) c →
    p.Leads c.scopes (Checker.stmt s c).scopes (perform n s)
  header : ∀ {s : Option Stmt} {c}, p.Walks s.toList c →
    p.Leads c.scopes (Checker.optional s c).scopes (header n s)
  /-- The check went through the cases from a state on that the run has not gone beyond. -/
  switch : ∀ {t v cs d b c}, (∀ k ∈ Checker.caseBodies t cs c, p.Walks k.1 k.2) →
    p.Walks (d.getD []) (Checker.cases t cs c) → p.Ends c.scopes (switch n v cs d b)
  whileLoop : ∀ {S c e} {b : Block}, p.Walks b.body c → c.scopes = S.push →
    p.Leads S S (whileLoop n e b)
  doLoop : ∀ {S c e} {b : Block}, p.Walks b.body c → c.scopes = S.push →
    p.Leads S S (doLoop n b e)
  forLoop : ∀ {S c c' e s} {b : Block}, p.Walks s.toList c → c.scopes = S →
    (Checker.optional s c).scopes = S → p.Walks b.body c' → c'.scopes = S.push →
    p.Leads S S (forLoop n e s b)

namespace Declaring

variable {n : Nat} {ss : List Stmt} {span : Span}

theorem zero : Declaring p 0 where
  values _ := .zero
  call _ _ _ _ := preserves_exhausted
  stmt _ := fun _ _ _ => meets_exhausted
  stmts _ := fun _ _ _ => meets_exhausted
  block _ _ := preserves_exhausted
  perform _ := fun _ _ _ => meets_exhausted
  header _ := fun _ _ _ => meets_exhausted
  switch _ _ := fun _ _ _ => meets_exhausted
  whileLoop _ _ := preserves_exhausted
  doLoop _ _ := preserves_exhausted
  forLoop _ _ _ _ _ := preserves_exhausted

variable (ih : Declaring p n)
include ih

theorem inCall_ends (hclean : p.analyze.report.isEmpty = true) {f : Function} (hf : f ∈ p.functions)
    {ws : List Value} {o : Position} : p.Ends S (inCall f.name o do
      declareParameters f.parameters ws
      Eval.stmts n f.body.body
      conclude f) := by
  obtain ⟨c, hopens⟩ := exists_opens hf
  intro callers m hm
  have hstart := hm.enterCall hopens
  have hparams : (c.enterFunction f).Silent :=
    (Checker.stmts_grows f.body.body _).silent (hopens.silent hclean)
  -- The frames of the caller come back as they were, over the globals of the call.
  have hleave : ∀ t, p.Accounts t → p.Accounts (t.leaveCall (m.enterCall f.name).1) :=
    fun t ht => ⟨ht.rows, ht.symbols.globals, hm.accounts.symbols.frames⟩
  refine meets_inCall (fun _ => hm.accounts) (fun _ => hstart.accounts) fun _ => ?_
  refine Meets.imp (Q := fun _ t => p.Accounts t) (F := fun _ t => p.Accounts t) ?_
    (fun _ t h => ⟨hleave t h, hleave t h⟩) fun _ t h => ⟨hleave t h, hleave t h⟩
  have hlead := leads_declareParameters (f := f) f.parameters ws
    ({ c with current := some f, returnFound := false : Checker }.enterLabelled
      (Label.ofFunction f.name)) hparams fun q hq => Declares.parameter (c := c) hopens hq
  refine Meets.bind ((hlead _ _ hstart).imp (fun _ _ h => h) fun _ _ h => h.accounts)
    fun _ t ht => ?_
  refine Meets.bind ((ih.stmts (.body hopens) _ t ht).imp (fun _ _ h => h.accounts)
    fun _ _ h => h.accounts) fun _ u hu => ?_
  exact conclude_meets hu

theorem call_succ (hclean : p.analyze.report.isEmpty = true) (name : String) (es : List Expr)
    (o : Position) : p.Leads S S (Eval.call (n + 1) name es o) := by
  refine Ends.leads ?_ ((balanced (n + 1)).call name es o)
  rw [Eval.call]
  refine Ends.withinCall fun callers m hm => ?_
  refine Meets.bind (R := fun r t => t = m ∧ r = m.function? name) (meets_read ⟨rfl, rfl⟩) ?_
  rintro _ m ⟨rfl, rfl⟩
  refine Meets.bind (R := fun f t => t = m ∧ m.function? name = some f)
    (meets_ofOption (fun f hf => ⟨rfl, hf⟩) fun _ => hm.accounts) ?_
  rintro f m ⟨rfl, hf⟩
  have hmem : f ∈ p.functions := mem_of_table (by rw [← hm.functions]; exact hf)
  have hrest : p.Ends S (do
      Eval.ofExcept o (checkArity f.name f.parameters.length es.length)
      let values ← Eval.exprs n es
      let bound ← ofResult (convertArguments f 0 f.parameters (values.zip (es.map Expr.position)))
      let returned ← inCall f.name o do
        declareParameters f.parameters bound
        Eval.stmts n f.body.body
        conclude f
      Eval.ofExcept o (callResult f returned) : Watched Value) := by
    refine ends_bind preserves_ofExcept fun _ =>
      ends_bind ((ih.values S).exprs es) fun vs =>
      ends_bind preserves_ofResult fun ws callers m hm => ?_
    refine Meets.bind (ih.inCall_ends hclean hmem callers m hm) fun v t ht => ?_
    exact meets_ofExcept (fun _ _ => ht) fun _ _ => ht
  exact hrest callers m hm

/-! ## Statements -/

theorem stmts_succ (h : p.Walks ss c) :
    p.Leads c.scopes (Checker.stmts ss c).scopes (Eval.stmts (n + 1) ss) := by
  cases ss with
  | nil => exact preserves_pure
  | cons s ss =>
    intro callers m hm
    have hlater := (Checker.stmts_grows ss (Checker.stmt s c)).precedes
    refine Meets.bind ((ih.stmt h callers m hm).imp (fun _ _ h => h) fun _ _ h => h.mono hlater)
      fun _ t ht => ?_
    refine Meets.bind (R := fun _ u => u = t) (meets_read rfl) ?_
    rintro b u rfl
    split
    · exact meets_pure (ht.mono hlater)
    · exact ih.stmts h.next callers u ht

theorem block_succ {b : Block} (h : p.Walks b.body c) (hc : c.scopes = S.push) :
    p.Leads S S (Eval.block (n + 1) b) := by
  have hends := (ih.stmts h).ends
  rw [hc] at hends
  exact hends.inScope.leads ((balanced (n + 1)).block b)

theorem header_succ {s : Option Stmt} (h : p.Walks s.toList c) :
    p.Leads c.scopes (Checker.optional s c).scopes (Eval.header (n + 1) s) := by
  cases s with
  | none => exact preserves_pure
  | some s => exact ih.perform h

theorem whileLoop_succ {e : Expr} {b : Block} (h : p.Walks b.body c) (hc : c.scopes = S.push) :
    p.Leads S S (Eval.whileLoop (n + 1) e b) :=
  Leads.andThen ((ih.values S).condition e _) fun k => by
    split
    · exact leads_round (ih.block h hc) (ih.whileLoop h hc)
    · exact preserves_pure

theorem doLoop_succ {e : Expr} {b : Block} (h : p.Walks b.body c) (hc : c.scopes = S.push) :
    p.Leads S S (Eval.doLoop (n + 1) b e) :=
  leads_round (ih.block h hc) <| Leads.andThen ((ih.values S).condition e _) fun k => by
    split
    · exact ih.doLoop h hc
    · exact preserves_pure

theorem forLoop_succ {c' : Checker} {e : Option Expr} {s : Option Stmt} {b : Block}
    (h : p.Walks s.toList c) (hc : c.scopes = S) (hs : (Checker.optional s c).scopes = S)
    (hb : p.Walks b.body c') (hc' : c'.scopes = S.push) :
    p.Leads S S (Eval.forLoop (n + 1) e s b) := by
  have hheader := ih.header h
  rw [hc, hs] at hheader
  refine Leads.andThen ((ih.values S).goesOn e) fun k => ?_
  split
  · exact leads_round (ih.block hb hc') (hheader.andThen fun _ => ih.forLoop h hc hs hb hc')
  · exact preserves_pure

theorem switch_succ {t : Ty} {v : Value} {cs : List Case} {d : Option (List Stmt)} {b : Bool}
    (hcs : ∀ k ∈ Checker.caseBodies t cs c, p.Walks k.1 k.2)
    (hd : p.Walks (d.getD []) (Checker.cases t cs c)) :
    p.Ends c.scopes (Eval.switch (n + 1) v cs d b) := by
  have hconsume : ∀ {S}, p.Leads S S (Runs.step (·.consume .breakSwitch)) :=
    leads_step (fun m => keeps_consume m _) fun _ h => accounts_consume h _
  cases cs with
  | nil =>
    cases d with
    | none => exact fun _ _ h => meets_pure h.accounts
    | some body =>
      exact (ih.stmts hd).andEnds fun _ => hconsume.andEnds fun _ _ _ h => meets_pure h.accounts
  | cons k cs =>
    obtain ⟨hk, hrest⟩ := List.forall_mem_cons.1 hcs
    have hgrows := (Checker.case_grows t k c).precedes
    cases b with
    | false =>
      rw [Eval.switch]
      refine ends_bind ((ih.values c.scopes).expr k.value) fun w => ends_bind
        preserves_read fun b => ?_
      split
      · exact ih.switch hcs hd
      · exact fun callers m h => ih.switch hrest hd callers m (h.mono hgrows)
    | true =>
      rw [Eval.switch]
      have hbody : p.Leads c.scopes (Checker.case t k c).scopes (Eval.stmts n k.body) := by
        rw [Checker.case_eq]
        exact ih.stmts hk
      refine hbody.andEnds fun _ => hconsume.andEnds fun b => ?_
      split
      · exact fun _ _ h => meets_pure h.accounts
      · refine ends_bind preserves_read fun b => ?_
        split
        · exact fun _ _ h => meets_pure h.accounts
        · exact ih.switch hrest hd

/-! ### Single statements -/

theorem declare_perform {name : String} {ty : Ty} {value : Option Expr}
    (hclean : p.analyze.report.isEmpty = true)
    (h : p.Walks (.declare span name ty value :: ss) c) : p.Leads c.scopes
      (Checker.stmt (.declare span name ty value) c).scopes
      (Eval.perform (n + 1) (.declare span name ty value)) := by
  have hs := h.silentHead hclean
  have hd : p.Declares ⟨name, ty, .ofTy ty, span.start, c.scopes.path⟩ := .stmt h
  rw [Eval.perform]
  refine Leads.withinStmt h ?_
  cases value with
  | none => exact leads_declare hs hd
  | some e =>
    refine leads_declareWith (c := c.observe _) ?_ hs hd
    exact Leads.andThen ((ih.values c.scopes).exprFor e ty) fun _ => preserves_ofExcept

theorem branch_perform {test : Expr} {body : Block} {otherwise : Option Stmt}
    (h : p.Walks (.branch span test body otherwise :: ss) c) : p.Leads c.scopes
      (Checker.stmt (.branch span test body otherwise) c).scopes
      (Eval.perform (n + 1) (.branch span test body otherwise)) := by
  let c₁ := c.observe (Checker.condition c.toNames test "if")
  let c₂ := Checker.block body c₁
  have hc₂ : c₂.scopes = c.scopes := congrArg Names.scopes (Checker.block_keeps body c₁).names
  have hbody : p.Walks body.body c₁.enterScope := h.inside (by simp [Checker.bodies, c₁])
  have hother : p.Walks otherwise.toList c₂ := h.inside (by simp [Checker.bodies, c₁, c₂])
  have hgrows := (Checker.stmt_grows (.branch span test body otherwise) c).precedes
  rw [Eval.perform]
  refine Leads.withinStmt h (Leads.bind ((ih.values c.scopes).condition test _) (fun k => ?_)
    hgrows)
  split
  · exact fun callers m hm => (ih.block hbody rfl callers m hm).imp (fun _ _ h => h.mono hgrows)
      fun _ _ h => h.mono hgrows
  · cases otherwise with
    | none => exact fun _ _ hm => meets_pure (hm.mono hgrows)
    | some s =>
      have hlead := ih.stmt hother
      rw [hc₂] at hlead
      exact hlead

theorem switch_perform {scrutinee : Expr} {cs : List Case} {d : Option (List Stmt)}
    (h : p.Walks (.switch span scrutinee cs d :: ss) c) : p.Ends c.scopes (do
      let v ← Eval.expr n scrutinee
      inLabelled (Label.ofSwitch scrutinee)
        (inConstruct .switch (Eval.switch n v cs d false))) := by
  let c₁ := (c.observe (c.infer scrutinee)).enterLabelled (Label.ofSwitch scrutinee)
  have hcs : ∀ k ∈ Checker.caseBodies (c.infer scrutinee).value cs c₁, p.Walks k.1 k.2 :=
    fun k hk => h.inside (List.mem_cons_of_mem _ hk)
  have hd : p.Walks (d.getD []) (Checker.cases (c.infer scrutinee).value cs c₁) :=
    h.inside List.mem_cons_self
  exact ends_bind ((ih.values c.scopes).expr scrutinee) fun _ =>
    Ends.inLabelled (Ends.inConstruct (ih.switch hcs hd))

theorem whileLoop_perform {test : Expr} {body : Block}
    (h : p.Walks (.whileLoop span test body :: ss) c) : p.Ends c.scopes
      (inLabelled (Label.ofWhile test) (inConstruct .loop (Eval.whileLoop n test body))) :=
  (ih.whileLoop (h.inside List.mem_cons_self) rfl).ends.inConstruct.inLabelled

theorem doLoop_perform {test : Expr} {body : Block}
    (h : p.Walks (.doLoop span body test :: ss) c) : p.Ends c.scopes
      (inLabelled (Label.ofDo test) (inConstruct .loop (Eval.doLoop n body test))) :=
  (ih.doLoop (h.inside List.mem_cons_self) rfl).ends.inConstruct.inLabelled

theorem forLoop_perform (hproper : p.Proper) {first next : Option Stmt} {test : Option Expr}
    {body : Block} (h : p.Walks (.forLoop span first test next body :: ss) c) :
    p.Ends c.scopes (inLabelled (Label.ofFor test) do
      Eval.header n first
      inConstruct .loop (Eval.forLoop n test next body)) := by
  let c₁ := c.enterLabelled (Label.ofFor test)
  let c₂ := Checker.optional first c₁
  let c₃ := c₂.goesOn test
  let c₄ := Checker.optional next c₃
  have hc₃ : c₃.scopes = c₂.scopes := congrArg Names.scopes (Checker.keeps_goesOn test).names
  -- The grammar lets only statements that declare nothing stand in the third place.
  have hc₄ : c₄.scopes = c₂.scopes := by
    have hs := h.all (fun _ hs => hs.inner) hproper _ List.mem_cons_self
    cases hs with
    | forLoop _ _ hn =>
      exact (congrArg Names.scopes (Checker.optional_keeps c₃ hn).names).trans hc₃
  have hbodies : ∀ body' c', (body', c') ∈ [(first.toList, c₁), (next.toList, c₃),
      (body.body, c₄.enterScope)] → p.Walks body' c' := fun _ _ hb => h.inside hb
  refine Ends.inLabelled ((ih.header (hbodies _ c₁ (by simp))).andEnds fun _ => Ends.inConstruct ?_)
  exact (ih.forLoop (hbodies _ c₃ (by simp)) hc₃ hc₄ (hbodies _ c₄.enterScope (by simp))
    (congrArg Scopes.push hc₄)).ends

theorem perform_succ (hclean : p.analyze.report.isEmpty = true) (hproper : p.Proper) {s : Stmt}
    (h : p.Walks (s :: ss) c) :
    p.Leads c.scopes (Checker.stmt s c).scopes (Eval.perform (n + 1) s) := by
  have hstays := (balanced (n + 1)).performStays s
  have hexpr := (ih.values c.scopes).expr
  have hindex := (ih.values c.scopes).indexOf
  cases s with
  | declare => exact ih.declare_perform hclean h
  | branch => exact ih.branch_perform h
  | assign _ name value =>
    refine Ends.withinStmt ?_ h rfl (hstays rfl)
    exact ends_bind preserves_look fun t => ends_bind ((ih.values c.scopes).exprFor value t)
      fun _ => ends_assign
  | assignIndex _ target index column value =>
    refine Ends.withinStmt ?_ h rfl (hstays rfl)
    exact ends_bind (hexpr target) fun _ => ends_bind (hindex index) fun _ =>
      ends_bind ((ih.values c.scopes).indexOf? column) fun _ => ends_bind (hexpr value) fun _ =>
      ends_write
  | step _ target up =>
    rw [Eval.perform]
    cases target with
    | name =>
      refine Ends.withinStmt ?_ h rfl (hstays rfl)
      exact ends_bind preserves_look fun _ => ends_bind preserves_ofExcept fun _ => ends_assign
    | index _ target index =>
      refine Ends.withinStmt ?_ h rfl (hstays rfl)
      exact ends_bind (hexpr target) fun _ => ends_bind (hindex index) fun _ =>
        ends_bind preserves_ask fun _ => ends_bind preserves_ofExcept fun _ => ends_write
    | cell _ target index column =>
      refine Ends.withinStmt ?_ h rfl (hstays rfl)
      exact ends_bind (hexpr target) fun _ => ends_bind (hindex index) fun _ =>
        ends_bind (hindex column) fun _ => ends_bind preserves_ask fun _ =>
        ends_bind preserves_ask fun _ => ends_bind preserves_ofExcept fun _ => ends_write
    | _ => exact Ends.withinStmt (fun _ _ hm => meets_fail hm.accounts) h rfl (hstays rfl)
  | block b =>
    exact (ih.block (h.inside List.mem_cons_self) rfl).ends.withinStmt h rfl (hstays rfl)
  | switch => exact (ih.switch_perform h).withinStmt h rfl (hstays rfl)
  | whileLoop => exact (ih.whileLoop_perform h).withinStmt h rfl (hstays rfl)
  | doLoop => exact (ih.doLoop_perform h).withinStmt h rfl (hstays rfl)
  | forLoop => exact (ih.forLoop_perform hproper h).withinStmt h rfl (hstays rfl)
  | breakOut | continueOn =>
    exact Ends.withinStmt (ends_update fun _ h => h.of_eq rfl rfl) h rfl (hstays rfl)
  | print _ value =>
    refine Ends.withinStmt ?_ h rfl (hstays rfl)
    exact ends_bind (hexpr value) fun _ => ends_update fun _ h => h.of_eq rfl rfl
  | function => exact Ends.withinStmt (fun _ _ hm => meets_pure hm.accounts) h rfl (hstays rfl)
  | giveBack _ value =>
    have hreturn : ∀ v, p.Ends c.scopes (update (·.requestReturn v)) := fun _ =>
      ends_update fun _ h => h.of_eq rfl rfl
    cases value with
    | none => exact Ends.withinStmt (hreturn .void) h rfl (hstays rfl)
    | some e => exact Ends.withinStmt (ends_bind (hexpr e) hreturn) h rfl (hstays rfl)
  | start _ name arguments =>
    refine Ends.withinStmt ?_ h rfl (hstays rfl)
    exact ends_bind (ih.call c.scopes name arguments _) fun _ _ _ hm => meets_pure hm.accounts
  | expression _ value =>
    refine Ends.withinStmt ?_ h rfl (hstays rfl)
    exact ends_bind (hexpr value) fun _ _ _ hm => meets_pure hm.accounts

end Declaring

theorem declaring (hclean : p.analyze.report.isEmpty = true) (hproper : p.Proper) (n : Nat) :
    Declaring p n := by
  induction n with
  | zero => exact .zero
  | succ n ih =>
    exact {
      values := fun S => .succ stable (ih.values S) fun f es o => ih.call S f es o
      call := fun _ => ih.call_succ hclean
      stmt := fun h => (ih.perform h).guarded
      stmts := ih.stmts_succ
      block := ih.block_succ
      perform := ih.perform_succ hclean hproper
      header := ih.header_succ
      switch := ih.switch_succ
      whileLoop := ih.whileLoop_succ
      doLoop := ih.doLoop_succ
      forLoop := ih.forLoop_succ }

/-! ## Programs -/

theorem topLevel_accounts (hclean : p.analyze.report.isEmpty = true) (hproper : p.Proper) {n : Nat}
    {pending : List Function} {ss : List Stmt} {m : Machine} (h : p.Reaches pending ss c)
    (hm : p.StandsAt c.scopes m) :
    Meets (Event.Accounted p) (topLevel n ss) [] m (fun _ t => p.Accounts t)
      (fun _ t => p.Accounts t) := by
  induction n generalizing pending ss c m with
  | zero => exact meets_exhausted
  | succ n ih =>
    cases ss with
    | nil => exact meets_pure hm.accounts
    | cons s ss =>
      have hbefore : (c.before pending s).scopes = c.scopes :=
        congrArg Names.scopes (Checker.keeps_before c pending s).names
      rw [← hbefore] at hm
      -- All statements but functions are run alike; the text of a round is the same for each.
      have hround : ∀ next : Option Signal → Watched Unit, next none = topLevel n ss →
          (∀ g, next (some g) = update (·.note (unconsumed g s.position))) →
          Meets (Event.Accounted p) (do
            Eval.stmt n s
            next (← Runs.step Machine.takeSignal)) [] m (fun _ t => p.Accounts t)
            (fun _ t => p.Accounts t) := by
        intro next hnone hsome
        refine Meets.bind (((declaring hclean hproper n).stmt (.top h) [] m hm).imp
          (fun _ _ h => h) fun _ _ h => h.accounts) fun _ t ht => ?_
        have ha : p.Accounts t.takeSignal.2 := ht.accounts.of_eq rfl rfl
        refine Meets.bind
          (R := fun _ u => p.StandsAt (Checker.stmt s (c.before pending s)).scopes u)
          (meets_step ha (ht.keeps ⟨rfl, rfl, rfl, rfl⟩ ha)) fun g u hu => ?_
        cases g with
        | none =>
          rw [hnone]
          exact ih h.next hu
        | some signal =>
          rw [hsome]
          have hnote : p.Accounts (u.note (unconsumed signal s.position)) :=
            hu.accounts.of_eq rfl rfl
          exact meets_update hnote hnote
      cases s
      case function f =>
        have hkeeps := Checker.stmt_keeps (.function f) (c.before pending (.function f)) rfl
        rw [← congrArg Names.scopes hkeeps.names] at hm
        exact ih h.next hm
      all_goals exact hround _ rfl fun _ => rfl

theorem stands_loaded (hclean : p.analyze.report.isEmpty = true) (limit : Nat) :
    p.StandsAt (p.functions.foldl Checker.register {}).scopes (p.loaded limit) := by
  have hscopes : (p.loaded limit).scopes = {} := by rw [p.loaded_eq limit]; rfl
  have hrows : ∀ (fs : List Function) (m : Machine), (∀ f ∈ fs, f ∈ p.functions) →
      m.scopes = {} → (∀ k, m.listing.Has k → p.Keys k) →
      ∀ k, (fs.foldl Machine.register m).listing.Has k → p.Keys k := by
    intro fs
    induction fs with
    | nil => exact fun _ _ _ h => h
    | cons f fs ih =>
      intro m hfs hs h
      obtain ⟨hf, hfs⟩ := List.forall_mem_cons.1 hfs
      have hstep : (m.register f).scopes = {} ∧ ∀ k, (m.register f).listing.Has k → p.Keys k := by
        rw [Machine.register, Machine.register?]
        cases m.functions.has f.name
        · refine ⟨hs, fun k hk => ?_⟩
          rcases Listing.has_record.1 hk with rfl | hk
          · exact .inl ⟨f, hf, by rw [hs]; rfl⟩
          · exact h k hk
        · exact ⟨hs, h⟩
      exact ih _ hfs hstep.1 hstep.2
  refine ⟨(agrees_loaded hclean limit).2.functions, ?_, ?_, ?_, ?_⟩
  · rw [hscopes, Checker.registers_scopes]
  · exact fun _ _ => by rw [hscopes]; rfl
  · exact hrows p.functions _ (fun _ h => h) rfl fun k hk => by
      obtain ⟨r, hr, -⟩ := hk
      simp [Machine.fresh] at hr
  · rw [hscopes]
    exact ⟨fun _ he => by simp at he, fun _ hf => by simp at hf⟩

/-- Where a run declares a name, the innermost scope does not have it. -/
theorem StandsAt.declares_free (hclean : p.analyze.report.isEmpty = true) {span : Span}
    {name : String} {ty : Ty} {value : Option Expr} {ss : List Stmt} {m : Machine}
    (h : p.Walks (.declare span name ty value :: ss) c) (hm : p.StandsAt c.scopes m) :
    m.scopes.declaredHere name = false := by
  have hs := h.silentHead hclean
  cases value with
  | none => exact hm.free name (free_of_silent hs)
  | some e => exact hm.free name (free_of_silent (c := c.observe _) hs)

end Program

end Primer
