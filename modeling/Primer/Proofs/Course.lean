import Primer.Proofs.Agreement
import Primer.Proofs.Resolved

/-!
# The course of a checked run

A course is a relation between the names of a check and a machine that the steps of a run keep, with
the faults that may come up on the way. Every expression and statement a run reaches was checked
under names that belong to the machine (`Event.Follows`), and nothing is reported but what the
course allows. How closely the names have to be followed is left to the course: a relation that
only looks at the functions holds on through anything, one that looks at the declarations needs
that no switch declares a name for its cases.
-/

namespace Primer

/-- Names and machines that belong together wherever a run goes that was checked without a
complaint, and the faults that may come up there. -/
structure Course (p : Program) where
  Holds : Names → Machine → Prop
  Allows : Fault → Prop
  clean : p.analyze.report.isEmpty = true
  allows {f} (h : f.isResolved = true) : Allows f
  functions {N m} (h : Holds N m) : m.functions = N.functions
  keeps {N m t} (h : Holds N m) (hk : m.Keeps t) : Holds N t
  enterScope {N m} (h : Holds N m) : Holds { N with scopes := N.scopes.push } m.enterScope
  enterLabelled {N m} (label : String) (h : Holds N m) :
    Holds { N with scopes := (N.scopes.pushLabel label).push } (m.enterLabelled label)
  enterConstruct {N m} (k : Construct) (h : Holds N m) : Holds N (m.enterConstruct k)
  /-- What the check could declare is declared, or it may also stay away. -/
  declare {c : Checker} {m : Machine} {name ty category o} (value : Option Value)
    (hs : (c.declare name ty category o).Silent) (h : Holds c.toNames m) :
    Holds (c.declare name ty category o).toNames
      (if m.scopes.declaredHere name then m else m.introduce name ty category o value)
  enterCall {N m f c} (hc : p.Opens f c) (hf : c.functions = N.functions)
    (hg : c.scopes.globals.Within N.scopes.globals) (h : Holds N m) :
    Holds (c.enterLabelled (Label.ofFunction f.name)).toNames (m.enterCall f.name).2
  loaded (limit : Nat) : Holds (p.functions.foldl Checker.register {}).toNames (p.loaded limit)
  lookup {N m name o o' d} (h : Holds N m) (hn : (N.lookup name o).notes = [])
    (hd : m.scopes.lookup name o' = .error d) : Allows d.fault
  starts : p.everywhere Stmt.startsNoBuiltin = true ∨ ∀ f : Fault, f.missesCall = true → Allows f
  /-- The names are those of the declarations that were run, or only the functions count. -/
  mode : p.Proper ∧ p.everywhere Stmt.declaresInNoCase = true ∨
    ∀ {N N' m t}, Holds N m → m.Grows t → N'.functions = N.functions → Holds N' t

namespace Course

variable {p : Program}

/-- Everything that is reported or pending is allowed. -/
structure Quiet (C : Course p) (m : Machine) : Prop where
  report : ∀ d ∈ m.report.toList, C.Allows d.fault
  failure : ∀ d, m.failure = some d → C.Allows d.fault

/-- A machine that belongs to names, with nothing reported or pending but what is allowed. -/
structure Stands (C : Course p) (N : Names) (m : Machine) : Prop where
  holds : C.Holds N m
  quiet : C.Quiet m

/-- The same machines belong to two names. -/
def Alike (C : Course p) (N N' : Names) : Prop := ∀ m, C.Holds N m ↔ C.Holds N' m

/-- A declared function takes as many arguments as are given, or it is allowed that none does. -/
def Reaches (C : Course p) (functions : Frame Function) (name : String) (count : Nat) : Prop :=
  (∃ f, functions.find? name = some f ∧ f.parameters.length = count) ∨
    ∀ f : Fault, f.missesCall = true → C.Allows f

/-- Statements after which a machine belongs to the names it belonged to before. -/
def Fixed (C : Course p) (ss : List Stmt) : Prop := (∀ s ∈ ss, s.declares = false) ∨
  ∀ {N N' m t}, C.Holds N m → m.Grows t → N'.functions = N.functions → C.Holds N' t

end Course

/-- What the notes of a run say about a course. -/
def Event.Follows {p : Program} (C : Course p) : Event → Prop
  | .steps _ _ t => C.Quiet t
  | .enters (.expr e) m => ∃ N, p.Infers N e ∧ C.Holds N m
  | .gives (.expr e) _ m => ∃ N, p.Infers N e ∧ C.Holds N m
  | .enters (.call name es _) m => C.Reaches m.functions name es.length
  | .enters (.stmt s) m => ∃ ss c, p.Walks (s :: ss) c ∧ C.Holds c.toNames m
  | .gives (.stmt s) _ m => ∃ ss c, p.Walks (s :: ss) c ∧ C.Holds (Checker.stmt s c).toNames m
  | .fails _ d _ => C.Allows d.fault
  | _ => True

namespace Course

open Watched Eval Machine
open Checker (silent_observe silent_note grows_declare)

variable {p : Program} {C : Course p} {N N' : Names} {m t : Machine}

theorem Quiet.note {d : Diagnostic} (h : C.Quiet m) (hd : C.Allows d.fault) :
    C.Quiet (m.note d) := by
  refine ⟨fun d' hd' => ?_, h.failure⟩
  simp only [Machine.note, Report.push, Report.toList, Array.toList_push, List.mem_append,
    List.mem_singleton] at hd'
  rcases hd' with hd' | rfl
  · exact h.report d' hd'
  · exact hd

theorem Quiet.consume (h : C.Quiet m) (g : Signal) : C.Quiet (m.consume g).2 := by
  unfold Machine.consume
  repeat' split
  all_goals exact ⟨h.report, h.failure⟩

theorem Quiet.continueLooping (h : C.Quiet m) : C.Quiet m.continueLooping.2 := by
  have hb := h.consume .breakLoop
  unfold Machine.continueLooping
  split <;> rename_i heq <;> rw [heq] at hb
  · exact hb
  · exact hb.consume .continueLoop

theorem Stands.keeps (h : C.Stands N m) (hk : m.Keeps t) (ht : C.Quiet t) : C.Stands N t :=
  ⟨C.keeps h.holds hk, ht⟩

theorem Stands.alike (h : C.Stands N m) (hN : C.Alike N N') : C.Stands N' m :=
  ⟨(hN m).1 h.holds, h.quiet⟩

theorem Alike.refl (N : Names) : C.Alike N N := fun _ => Iff.rfl

theorem Alike.symm (h : C.Alike N N') : C.Alike N' N := fun m => (h m).symm

/-- Names with the same functions are alike if they are the same wherever that matters. -/
theorem alike_of_functions (hf : N'.functions = N.functions)
    (hN : p.Proper → p.everywhere Stmt.declaresInNoCase = true → N' = N) : C.Alike N N' := by
  rcases C.mode with ⟨hp, hcases⟩ | hloose
  · rw [hN hp hcases]
    exact .refl N
  · exact fun m => ⟨fun h => hloose h (Keeps.refl m).grows hf,
      fun h => hloose h (Keeps.refl m).grows hf.symm⟩

theorem fixed_of_declares {ss : List Stmt}
    (h : p.Proper → p.everywhere Stmt.declaresInNoCase = true → ∀ s ∈ ss, s.declares = false) :
    C.Fixed ss := by
  rcases C.mode with ⟨hp, hcases⟩ | hloose
  · exact .inl (h hp hcases)
  · exact .inr hloose

/-! ## Rules -/

section Rules

variable {α β : Type} {x : Watched α} {P : α → Prop} {Q : β → Prop}

/-- A computation that comes back to the names it starts from, with what `P` says or with a fault
that is allowed. -/
def Gives (C : Course p) (N : Names) (x : Watched α) (P : α → Prop) : Prop :=
  ∀ callers m, C.Stands N m → Meets (Event.Follows C) x callers m
    (fun a t => C.Stands N t ∧ P a) (fun d t => C.Stands N t ∧ C.Allows d.fault)

/-- A computation that leaves nothing behind but what is allowed. -/
def Ends (C : Course p) (N : Names) (x : Watched α) : Prop :=
  ∀ callers m, C.Stands N m → Meets (Event.Follows C) x callers m
    (fun _ t => C.Quiet t) (fun d t => C.Quiet t ∧ C.Allows d.fault)

/-- A computation that goes on from names to others, also if it fails. -/
def Leads (C : Course p) (N N' : Names) (x : Watched Unit) : Prop :=
  ∀ callers m, C.Stands N m → Meets (Event.Follows C) x callers m
    (fun _ t => C.Stands N' t) (fun d t => C.Stands N' t ∧ C.Allows d.fault)

theorem Gives.bind {f : α → Watched β} (hx : C.Gives N x P) (hf : ∀ a, P a → C.Gives N (f a) Q) :
    C.Gives N (x >>= f) Q := by
  intro callers m hm
  refine Meets.bind (hx callers m hm) ?_
  rintro a t ⟨ht, ha⟩
  exact hf a ha callers t ht

theorem Gives.andEnds {f : α → Watched β} (hx : C.Gives N x P)
    (hf : ∀ a, P a → C.Ends N (f a)) : C.Ends N (x >>= f) := by
  intro callers m hm
  refine Meets.bind ((hx callers m hm).imp (fun _ _ h => h) fun _ _ h => ⟨h.1.quiet, h.2⟩) ?_
  rintro a t ⟨ht, ha⟩
  exact hf a ha callers t ht

theorem Gives.ends (hx : C.Gives N x P) : C.Ends N x := fun callers m hm =>
  (hx callers m hm).imp (fun _ _ h => h.1.quiet) fun _ _ h => ⟨h.1.quiet, h.2⟩

theorem Gives.leads {x : Watched Unit} {P : Unit → Prop} (hx : C.Gives N x P) : C.Leads N N x :=
  fun callers m hm => (hx callers m hm).imp (fun _ _ h => h.1) fun _ _ h => h

theorem Leads.ends {x : Watched Unit} (hx : C.Leads N N' x) : C.Ends N x := fun callers m hm =>
  (hx callers m hm).imp (fun _ _ h => h.quiet) fun _ _ h => ⟨h.1.quiet, h.2⟩

theorem Leads.andEnds {x : Watched Unit} {f : Unit → Watched β} (hx : C.Leads N N' x)
    (hf : C.Ends N' (f ())) : C.Ends N (x >>= f) := by
  intro callers m hm
  refine Meets.bind ((hx callers m hm).imp (fun _ _ h => h) fun _ _ h => ⟨h.1.quiet, h.2⟩) ?_
  exact fun _ t ht => hf callers t ht

/-- What leaves the scopes as they are comes back to the names it starts from. -/
theorem Ends.gives (hx : C.Ends N x) (hs : Stays x) : C.Gives N x fun _ => True := by
  intro callers m hm
  refine ((hx callers m hm).and (hs m callers m (.refl m))).mono (fun _ h => h.1) ?_ ?_
  · exact fun _ t h => ⟨hm.keeps h.2 h.1, trivial⟩
  · exact fun _ t h => ⟨hm.keeps h.2 h.1.1, h.1.2⟩

theorem Gives.alike (hx : C.Gives N' x P) (hN : C.Alike N N') : C.Gives N x P := fun callers m hm =>
  (hx callers m (hm.alike hN)).imp (fun _ _ h => ⟨h.1.alike hN.symm, h.2⟩)
    fun _ _ h => ⟨h.1.alike hN.symm, h.2⟩

theorem gives_exhausted : C.Gives N (Runs.exhausted : Watched α) P := fun _ _ _ => meets_exhausted

theorem ends_exhausted : C.Ends N (Runs.exhausted : Watched α) := fun _ _ _ => meets_exhausted

theorem leads_exhausted : C.Leads N N' Runs.exhausted := fun _ _ _ => meets_exhausted

theorem gives_pure {a : α} (h : P a) : C.Gives N (pure a) P := fun _ _ hm => meets_pure ⟨hm, h⟩

theorem ends_pure {a : α} : C.Ends N (pure a) := fun _ _ hm => meets_pure hm.quiet

theorem gives_look {f : Machine → Except Diagnostic α}
    (h : ∀ m d, C.Holds N m → f m = .error d → C.Allows d.fault) :
    C.Gives N (Runs.look f) fun _ => True := fun _ m hm =>
  meets_look (fun _ _ => ⟨hm, trivial⟩) fun d hd => ⟨hm, h m d hm.holds hd⟩

theorem gives_read {f : Machine → α} : C.Gives N (read f) fun _ => True :=
  gives_look fun _ _ _ h => by cases h

theorem gives_fail {f : Fault} {o : Position} (h : f.isResolved = true) :
    C.Gives N (fail ⟨f, o⟩ : Watched α) P := fun _ _ hm => meets_fail ⟨hm, C.allows h⟩

theorem gives_ask {o : Position} {f : Store → Except Fault α} (h : ∀ s, Resolved (f s)) :
    C.Gives N (ask o f) fun _ => True := fun _ m hm =>
  meets_ask (fun _ _ => ⟨hm, trivial⟩) fun f hf => ⟨hm, C.allows (h m.store f hf)⟩

theorem gives_ofExcept {o : Position} {r : Except Fault α} (h : Resolved r) :
    C.Gives N (Eval.ofExcept o r) fun _ => True := fun _ _ hm =>
  meets_ofExcept (fun _ _ => ⟨hm, trivial⟩) fun f hf => ⟨hm, C.allows (h f hf)⟩

theorem gives_onStore {f : Store → α × Store} : C.Gives N (onStore f) fun _ => True :=
  fun _ _ hm => meets_onStore ⟨hm.quiet.report, hm.quiet.failure⟩
    ⟨hm.keeps ⟨rfl, rfl, rfl, rfl⟩ ⟨hm.quiet.report, hm.quiet.failure⟩, trivial⟩

theorem gives_edit {o : Position} {f : Store → Except Fault (α × Edit)}
    (h : ∀ s, Resolved (f s)) : C.Gives N (edit o f) fun _ => True := fun _ m hm =>
  meets_edit (fun _ _ _ => ⟨⟨hm.quiet.report, hm.quiet.failure⟩,
    hm.keeps ⟨rfl, rfl, rfl, rfl⟩ ⟨hm.quiet.report, hm.quiet.failure⟩, trivial⟩)
    fun f hf => ⟨hm, C.allows (h m.store f hf)⟩

theorem ends_update {f : Machine → Machine} (h : ∀ m, C.Quiet m → C.Quiet (f m)) :
    C.Ends N (update f) := fun _ m hm => meets_update (h m hm.quiet) (h m hm.quiet)

/-- A name the check found is found, or the fault is allowed. -/
theorem gives_lookup {name : String} {o o' : Position} {f : Symbol → α}
    (hn : (N.lookup name o).notes = []) :
    C.Gives N (Runs.look fun m => (m.scopes.lookup name o').map f) fun _ => True := by
  refine gives_look fun m d hm hd => ?_
  rcases hl : m.scopes.lookup name o' with e | s <;> rw [hl] at hd <;> cases hd
  exact C.lookup hm hn hl

theorem ends_assign {name : String} {v : Value} {o o' : Position}
    (hn : (N.lookup name o).notes = []) : C.Ends N (assign name v o') := by
  refine (gives_look (f := (·.fit name v o')) fun m d hm hd => ?_).andEnds fun _ _ =>
    ends_update fun _ hq => ⟨hq.report, hq.failure⟩
  simp only [fit] at hd
  split at hd
  · rename_i hl
    cases hd
    exact C.lookup hm hn hl
  · split at hd <;> cases hd
    rename_i hc
    exact C.allows (Value.convert_resolved _ _ _ _ hc)

theorem gives_write {container v : Value} {i : Int64} {j : Option Int64} {owner : String}
    {o : Position} : C.Gives N (write container i j v owner o) fun _ => True :=
  gives_edit fun s => (Store.write_resolved s container v i j owner).map _

/-! ### Scopes and jobs -/

theorem Ends.between {enter leave : Machine → Machine} (hx : C.Ends N' x)
    (he : ∀ m, C.Stands N m → C.Stands N' (enter m)) (hl : ∀ t, C.Quiet t → C.Quiet (leave t)) :
    C.Ends N (between enter leave x) := fun callers m hm =>
  meets_between (he m hm).quiet <| (hx callers _ (he m hm)).imp
    (fun _ t ht => ⟨hl t ht, hl t ht⟩) fun _ t ht => ⟨hl t ht.1, hl t ht.1, ht.2⟩

theorem Ends.inScope (hx : C.Ends { N with scopes := N.scopes.push } x) :
    C.Ends N (inScope x) :=
  hx.between (fun _ h => ⟨C.enterScope h.holds, h.quiet.report, h.quiet.failure⟩)
    fun _ h => ⟨h.report, h.failure⟩

theorem Ends.inLabelled {label : String}
    (hx : C.Ends { N with scopes := (N.scopes.pushLabel label).push } x) :
    C.Ends N (inLabelled label x) :=
  hx.between (fun _ h => ⟨C.enterLabelled label h.holds, h.quiet.report, h.quiet.failure⟩)
    fun _ h => ⟨h.report, h.failure⟩

theorem Ends.inConstruct {k : Construct} (hx : C.Ends N x) : C.Ends N (inConstruct k x) :=
  hx.between (fun _ h => ⟨C.enterConstruct k h.holds, h.quiet.report, h.quiet.failure⟩)
    fun _ h => ⟨h.report, h.failure⟩

theorem Gives.withinExpr {e : Expr} {x : Watched Value} {P : Value → Prop} (h : p.Infers N e)
    (hx : C.Gives N x P) : C.Gives N (Runs.within (.expr e) x) P := fun callers m hm =>
  meets_within ⟨N, h, hm.holds⟩ ((hx callers m hm).imp
    (fun _ _ ht => ⟨⟨N, h, ht.1.holds⟩, ht⟩) fun _ _ h => ⟨h.2, h⟩)

theorem Gives.withinExprFor {e : Expr} {t : Ty} {x : Watched Value} {P : Value → Prop}
    (hx : C.Gives N x P) : C.Gives N (Runs.within (.exprFor e t) x) P := fun callers m hm =>
  meets_within trivial ((hx callers m hm).imp (fun _ _ h => ⟨trivial, h⟩) fun _ _ h => ⟨h.2, h⟩)

theorem Ends.withinCall {name : String} {es : List Expr} {o : Position} {x : Watched Value}
    (hr : C.Reaches N.functions name es.length) (hx : C.Ends N x) :
    C.Ends N (Runs.within (.call name es o) x) := by
  intro callers m hm
  rw [← C.functions hm.holds] at hr
  exact meets_within hr ((hx callers m hm).imp (fun _ _ h => ⟨trivial, h⟩) fun _ _ h => ⟨h.2, h⟩)

theorem Leads.withinStmt {s : Stmt} {ss : List Stmt} {c : Checker} {x : Watched Unit}
    (h : p.Walks (s :: ss) c) (hx : C.Leads c.toNames (Checker.stmt s c).toNames x) :
    C.Leads c.toNames (Checker.stmt s c).toNames (Runs.within (.stmt s) x) := fun callers m hm =>
  meets_within ⟨ss, c, h, hm.holds⟩ ((hx callers m hm).imp
    (fun _ _ ht => ⟨⟨ss, c, h, ht.holds⟩, ht⟩) fun _ _ h => ⟨h.2, h⟩)

theorem Leads.guarded {x : Watched Unit} (hx : C.Leads N N' x) : C.Leads N N' (guarded x) := by
  intro callers m hm
  refine meets_guarded ((hx callers m hm).imp (fun _ _ h => h) ?_)
  rintro d t ⟨ht, hd⟩
  -- Inside a call the failure is kept for the call; at top level it is reported.
  have hfail : C.Quiet (t.fail d) := by
    refine ⟨ht.quiet.report, fun d' hd' => ?_⟩
    cases hd'
    exact hd
  have hnote : C.Quiet (t.note d) := ht.quiet.note hd
  exact ⟨fun _ => ⟨trivial, hfail, trivial, ht.keeps ⟨rfl, rfl, rfl, rfl⟩ hfail⟩,
    fun _ => ⟨hnote, ht.keeps ⟨rfl, rfl, rfl, rfl⟩ hnote⟩⟩

/-- What a job leaves as it is, the work of the job leaves as it is. -/
theorem stays_of_within {j : Job} {x : Watched j.Result} (h : Stays (Runs.within j x)) :
    Stays x := fun m callers t ht => ⟨fun _ _ => trivial, (h m callers t ht).2⟩

theorem extends_of_within {j : Job} {x : Watched j.Result} (h : Extends (Runs.within j x)) :
    Extends x := fun m callers t ht => ⟨fun _ _ => trivial, (h m callers t ht).2⟩

theorem Ends.withinStmt {s : Stmt} {ss : List Stmt} {c : Checker} {x : Watched Unit}
    (hx : C.Ends c.toNames x) (h : p.Walks (s :: ss) c) (hd : s.declares = false)
    (hs : Stays (Runs.within (.stmt s) x)) :
    C.Leads c.toNames (Checker.stmt s c).toNames (Runs.within (.stmt s) x) := by
  refine Leads.withinStmt h ?_
  rw [(Checker.stmt_keeps s c hd).names]
  exact (hx.gives (stays_of_within hs)).leads

/-- A statement that declares nothing where that matters goes on to the names after it. -/
theorem Ends.withinAny {s : Stmt} {ss : List Stmt} {c : Checker} {x : Watched Unit}
    (hx : C.Ends c.toNames x) (h : p.Walks (s :: ss) c) (hd : p.Proper → s.declares = false)
    (hs : s.declares = false → Stays (Runs.within (.stmt s) x))
    (hg : Extends (Runs.within (.stmt s) x)) :
    C.Leads c.toNames (Checker.stmt s c).toNames (Runs.within (.stmt s) x) := by
  rcases C.mode with ⟨hp, -⟩ | hloose
  · exact hx.withinStmt h (hd hp) (hs (hd hp))
  -- Only the functions count here, and no statement changes those.
  · refine Leads.withinStmt h fun callers m hm => ?_
    have hf := (Checker.stmt_grows s c).functions
    refine ((hx callers m hm).and (extends_of_within hg m callers m (Keeps.refl m).grows)).mono
      (fun _ h => h.1) ?_ ?_
    · exact fun _ t h => ⟨hloose hm.holds h.2 hf, h.1⟩
    · exact fun _ t h => ⟨⟨hloose hm.holds h.2 hf, h.1.1⟩, h.1.2⟩

theorem Ends.fixed {n : Nat} {ss : List Stmt} (hx : C.Ends N (stmts n ss)) (hss : C.Fixed ss) :
    C.Leads N N (stmts n ss) := by
  rcases hss with hd | hloose
  · exact (hx.gives (stmts_stays n hd)).leads
  · intro callers m hm
    refine ((hx callers m hm).and ((balanced n).stmts ss m callers m (Keeps.refl m).grows)).mono
      (fun _ h => h.1) ?_ ?_
    · exact fun _ t h => ⟨hloose hm.holds h.2 rfl, h.1⟩
    · exact fun _ t h => ⟨⟨hloose hm.holds h.2 rfl, h.1.1⟩, h.1.2⟩

theorem Leads.round {x y : Watched Unit} (hx : C.Leads N N x) (hy : C.Ends N y) : C.Ends N (do
    x
    if ← Runs.step Machine.continueLooping then y else return ()) := by
  refine hx.andEnds fun callers t ht => ?_
  have hq := ht.quiet.continueLooping
  refine Meets.bind (R := fun _ u => C.Stands N u) (meets_step hq ?_) fun b u hu => ?_
  · have hk := (stays_continueLooping t [] t (.refl t)).2
    exact ht.keeps hk hq
  · split
    · exact hy callers u hu
    · exact meets_pure hu.quiet

end Rules

end Course

end Primer
