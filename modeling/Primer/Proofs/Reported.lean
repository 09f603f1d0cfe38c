import Primer.Proofs.Nodes
import Primer.Proofs.TypedRun
import Primer.Proofs.Walk

/-!
# The type `error` is always reported

A check goes from state to state by a few moves: it makes the functions of the program known, opens
and closes scopes, declares the names the program declares and reports (`Checker.Step`). No type
that is written down is `error`, so none of these moves makes a name of that type visible, in
whatever order they come. The states attained in this way are at least those that checking the
program goes through, and in each of them an expression that gets the type `error` gets a
diagnostic.
-/

namespace Primer

/-! ## What stands in a program that is read -/

namespace Node

/-- A node whose statements the grammar lets through. -/
def Proper : Node → Prop
  | expr _ => True
  | stmt s => s.Proper
  | block b => ∀ s ∈ b.body, s.Proper
  | case k => ∀ s ∈ k.body, s.Proper

theorem Proper.parts {n m : Node} (h : n.Proper) (hm : m ∈ n.parts) : m.Proper := by
  cases n with
  | expr e =>
    obtain ⟨e', -, rfl⟩ := List.mem_map.1 hm
    trivial
  | block b =>
    obtain ⟨s, hs, rfl⟩ := List.mem_map.1 hm
    exact h s hs
  | case k =>
    rcases List.mem_cons.1 hm with rfl | hm
    · trivial
    · obtain ⟨s, hs, rfl⟩ := List.mem_map.1 hm
      exact h s hs
  | stmt s =>
    cases h <;> simp only [Node.parts, Stmt.nodes, List.mem_append, List.mem_cons, List.mem_map,
      List.not_mem_nil, or_false] at hm
    case switch _ _ cs d hcases hd =>
      rcases hm with (rfl | ⟨k, hk, rfl⟩) | ⟨s, hs, rfl⟩
      · trivial
      · exact hcases k hk
      · cases d with
        | none => cases hs
        | some body => exact hd body rfl s hs
    all_goals grind [Node.Proper]

end Node

namespace Program

variable {p : Program} {s s' : Stmt} {f : Function}

theorem Proper.node (hp : p.Proper) {n : Node} (h : p.Has n) : n.Proper := by
  induction h with
  | top h => exact hp _ h
  | part _ hm ih => exact ih.parts hm

theorem Has.ofBlock {b : Block} (h : p.Has (.block b)) (hs : s ∈ b.body) : p.Has (.stmt s) :=
  h.part (List.mem_map_of_mem hs)

theorem Has.inCase {k : Case} (h : p.Has (.case k)) (hs : s ∈ k.body) : p.Has (.stmt s) :=
  h.part (List.mem_cons_of_mem _ (List.mem_map_of_mem hs))

/-- What stands directly inside a statement of a program is in the program. -/
theorem Has.inner (h : p.Has (.stmt s)) (hs : s' ∈ s.inner) : p.Has (.stmt s') := by
  cases s <;> simp only [Stmt.inner, List.mem_append, List.mem_flatMap, List.not_mem_nil] at hs
  case block => exact (h.part (by simp [Node.parts, Stmt.nodes])).ofBlock hs
  case branch =>
    rcases hs with hs | hs
    · exact (h.part (by simp [Node.parts, Stmt.nodes])).ofBlock hs
    · exact h.part (by simpa [Node.parts, Stmt.nodes] using hs)
  case switch =>
    rcases hs with ⟨k, hk, hs⟩ | hs
    · exact (h.part (by simpa [Node.parts, Stmt.nodes] using hk)).inCase hs
    · exact h.part (by simpa [Node.parts, Stmt.nodes] using hs)
  case whileLoop | doLoop | function => exact (h.part (by simp [Node.parts, Stmt.nodes])).ofBlock hs
  case forLoop =>
    rcases hs with (hs | hs) | hs
    · exact h.part (by simp_all [Node.parts, Stmt.nodes])
    · exact h.part (by simp_all [Node.parts, Stmt.nodes])
    · exact (h.part (by simp [Node.parts, Stmt.nodes])).ofBlock hs

theorem has_body (hf : f ∈ p.functions) (hs : s ∈ f.body.body) : p.Has (.stmt s) := by
  obtain ⟨t, ht, hf⟩ := List.mem_filterMap.1 hf
  cases t <;> simp only [Stmt.function?, Option.some.injEq, reduceCtorEq] at hf
  subst hf
  exact (Has.top ht).inner hs

end Program

/-! ## Moves of a check -/

/-- All names have types that values have, and all functions are ones the grammar lets through. -/
structure Names.Proper (N : Names) : Prop where
  scopes : N.scopes.All (·.ty ≠ .error)
  functions : N.functions.All Function.Proper

theorem Names.Proper.typed {N : Names} (h : N.Proper) : N.Typed where
  lookup name p hn := by
    simp only [Names.lookup] at hn ⊢
    split
    · exact h.scopes.lookup ‹_›
    · simp [*] at hn
  returns _ _ hf := (h.functions.lookup hf).1

namespace Checker

/-- A move of a check of a program. What a move reports is left open. -/
inductive Step (p : Program) : Checker → Checker → Prop
  | register {c f} (hf : f ∈ p.functions) : Step p c (c.register f)
  | declare {c span name ty value} (h : p.Has (.stmt (.declare span name ty value))) :
    Step p c (c.declare name ty (.ofTy ty) span.start)
  | parameter {c f q} (hf : f ∈ p.functions) (hq : q ∈ f.parameters) : Step p c (parameter f c q)
  | enterScope {c} : Step p c c.enterScope
  | leaveScope {c} : Step p c c.leaveScope
  | enterLabelled {c label} : Step p c (c.enterLabelled label)
  | leaveLabelled {c} : Step p c c.leaveLabelled
  | observe {c α} {j : Judged α} : Step p c (c.observe j)
  | note {c fault o} : Step p c (c.note fault o)
  | tally {c current returnFound entries} : Step p c { c with current, returnFound, entries }

section Moves

variable {p : Program} {c c' : Checker}

theorem proper_declare {name : String} {ty : Ty} {category : Category} {o : Position}
    (hc : c.toNames.Proper) (ht : ty ≠ .error) :
    (c.declare name ty category o).toNames.Proper := by
  cases hd : c.scopes.declaredHere name
  · rw [declare_of_free hd]
    exact ⟨hc.scopes.add ht, hc.functions⟩
  · rw [declare_of_taken hd]
    exact hc

theorem proper_register {f : Function} (hc : c.toNames.Proper) (hf : f.Proper) :
    (c.register f).toNames.Proper := by
  simp only [register]
  split
  · exact hc
  · split
    · exact hc
    · exact ⟨hc.scopes, List.forall_mem_cons.2 ⟨hf, hc.functions⟩⟩

/-- No move makes a name or a function of type `error` known. -/
theorem Step.proper (hp : p.Proper) (h : Step p c c') (hc : c.toNames.Proper) :
    c'.toNames.Proper := by
  cases h with
  | register hf => exact proper_register hc (hp.function hf)
  | declare h =>
    cases hp.node h with
    | declare ht => exact proper_declare hc ht.2
  | @parameter f q hf hq =>
    simp only [Checker.parameter]
    split
    · exact hc
    · exact proper_declare hc ((hp.function hf).2.1 q hq).2
  | enterScope => exact ⟨hc.scopes.push, hc.functions⟩
  | leaveScope => exact ⟨hc.scopes.pop, hc.functions⟩
  | @enterLabelled label =>
    have hs : (c.scopes.pushLabel label).All (·.ty ≠ .error) :=
      ⟨hc.scopes.globals, hc.scopes.frames⟩
    exact ⟨hs.push, hc.functions⟩
  | leaveLabelled => exact ⟨⟨hc.scopes.globals, hc.scopes.pop.frames⟩, hc.functions⟩
  | observe | note | tally => exact hc

end Moves

/-! ## Checks as sequences of moves -/

/-- Some moves of a check of a program lead from one state to another. -/
def Leads (p : Program) : Checker → Checker → Prop := Relation.ReflTransGen (Step p)

section Leads

variable {p : Program} {c c' c'' : Checker} {f : Function}

theorem Leads.refl : Leads p c c := Relation.ReflTransGen.refl

theorem Leads.trans (h : Leads p c c') (h' : Leads p c' c'') : Leads p c c'' :=
  Relation.ReflTransGen.trans h h'

theorem Step.leads (h : Step p c c') : Leads p c c' := Relation.ReflTransGen.single h

theorem Leads.proper (hp : p.Proper) (h : Leads p c c') (hc : c.toNames.Proper) :
    c'.toNames.Proper := by
  induction h with
  | refl => exact hc
  | tail _ h ih => exact h.proper hp ih

theorem leads_foldl {β : Type} {g : Checker → β → Checker} : ∀ {bs : List β} {c : Checker},
    (∀ b ∈ bs, ∀ c, Leads p c (g c b)) → Leads p c (bs.foldl g c)
  | [], _, _ => .refl
  | b :: _, _, h => (h b List.mem_cons_self _).trans
    (leads_foldl fun b hb => h b (List.mem_cons_of_mem _ hb))

theorem leads_goesOn : ∀ test : Option Expr, Leads p c (c.goesOn test)
  | none => .refl
  | some _ => Step.observe.leads

theorem leads_returned {t : Option Ty} {o : Position} : Leads p c (c.returned t o) := by
  have htally : Step p c { c with returnFound := true } := .tally
  simp only [returned]
  split
  · exact Step.note.leads
  · split
    · exact Step.note.leads
    · split
      · exact htally.leads
      · exact htally.leads.trans Step.note.leads
  · split
    · exact .refl
    · exact Step.note.leads

end Leads

section Statements

variable {p : Program}

mutual

/-- Checking a statement of a program is a sequence of moves. -/
theorem stmt_leads : ∀ (s : Stmt) (c : Checker), p.Has (.stmt s) → Leads p c (stmt s c)
  | .declare _ _ _ none, _, h => (Step.declare h).leads
  | .declare _ _ _ (some e), _, h => Step.observe.leads.trans (Step.declare h).leads
  | .assign .., _, _ => Step.observe.leads
  | .assignIndex .., _, _ => Step.observe.leads
  | .step .., _, _ => Step.observe.leads
  | .block b, c, h => block_leads b c fun _ hs => h.inner hs
  | .branch _ _ body otherwise, c, h =>
    have hbody := fun s hs => h.inner (List.mem_append_left _ hs)
    Step.observe.leads.trans ((block_leads body _ hbody).trans
      (optional_leads otherwise _ fun _ hs => h.inner (List.mem_append_right _ hs)))
  | .switch _ e cs d, c, h =>
    have hcases := fun k hk s (hs : s ∈ k.body) =>
      h.inner (List.mem_append_left _ (List.mem_flatMap.2 ⟨k, hk, hs⟩))
    (Step.observe (j := c.infer e)).leads.trans (Step.enterLabelled.leads.trans
      ((cases_leads _ cs _ hcases).trans
        ((default_leads d _ fun _ hs => h.inner (List.mem_append_right _ hs)).trans
          Step.leaveLabelled.leads)))
  | .whileLoop _ _ body, c, h =>
    Step.enterLabelled.leads.trans (Step.observe.leads.trans
      ((block_leads body _ fun _ hs => h.inner hs).trans Step.leaveLabelled.leads))
  | .doLoop _ body _, _, h =>
    Step.enterLabelled.leads.trans ((block_leads body _ fun _ hs => h.inner hs).trans
      (Step.observe.leads.trans Step.leaveLabelled.leads))
  | .forLoop _ first test next body, c, h =>
    have hfirst := fun s hs => h.inner (List.mem_append_left _ (List.mem_append_left _ hs))
    have hnext := fun s hs => h.inner (List.mem_append_left _ (List.mem_append_right _ hs))
    Step.enterLabelled.leads.trans ((optional_leads first _ hfirst).trans ((leads_goesOn test).trans
      ((optional_leads next _ hnext).trans
        ((block_leads body _ fun _ hs => h.inner (List.mem_append_right _ hs)).trans
          Step.leaveLabelled.leads))))
  | .breakOut _, _, _ => .refl
  | .continueOn _, _, _ => .refl
  | .print .., _, _ => Step.observe.leads
  | .function f, c, _ => by
    -- The body is not checked here: a nested function is refused, one at top level is opened apart.
    simp only [stmt]
    split
    · exact .refl
    · exact Step.note.leads
  | .giveBack _ none, _, _ => leads_returned
  | .giveBack _ (some e), c, _ => (Step.observe (j := c.infer e)).leads.trans leads_returned
  | .start _ name arguments, c, _ =>
    have hcount : Step p c { c with entries := c.entries + 1 } := .tally
    hcount.leads.trans Step.observe.leads
  | .expression .., _, _ => Step.observe.leads

theorem stmts_leads : ∀ (ss : List Stmt) (c : Checker), (∀ s ∈ ss, p.Has (.stmt s)) →
    Leads p c (stmts ss c)
  | [], _, _ => .refl
  | s :: ss, c, h => (stmt_leads s c (h s List.mem_cons_self)).trans
    (stmts_leads ss _ fun s hs => h s (List.mem_cons_of_mem _ hs))

theorem block_leads : ∀ (b : BlockOf Stmt) (c : Checker), (∀ s ∈ b.body, p.Has (.stmt s)) →
    Leads p c (block b c)
  | ⟨body, _⟩, _, h =>
    Step.enterScope.leads.trans ((stmts_leads body _ h).trans Step.leaveScope.leads)

theorem optional_leads : ∀ (s : Option Stmt) (c : Checker), (∀ s' ∈ s.toList, p.Has (.stmt s')) →
    Leads p c (optional s c)
  | none, _, _ => .refl
  | some s, c, h => stmt_leads s c (h s List.mem_cons_self)

theorem cases_leads (t : Ty) : ∀ (cs : List (CaseOf Stmt)) (c : Checker),
    (∀ k ∈ cs, ∀ s ∈ k.body, p.Has (.stmt s)) → Leads p c (cases t cs c)
  | [], _, _ => .refl
  | k :: cs, c, h => (case_leads t k c (h k List.mem_cons_self)).trans
    (cases_leads t cs _ fun k hk => h k (List.mem_cons_of_mem _ hk))

theorem case_leads (t : Ty) : ∀ (k : CaseOf Stmt) (c : Checker), (∀ s ∈ k.body, p.Has (.stmt s)) →
    Leads p c (case t k c)
  | ⟨_, body, _⟩, _, h => Step.observe.leads.trans (stmts_leads body _ h)

theorem default_leads : ∀ (d : Option (List Stmt)) (c : Checker),
    (∀ s ∈ d.getD [], p.Has (.stmt s)) → Leads p c (default d c)
  | none, _, _ => .refl
  | some body, c, h => stmts_leads body c h

end

end Statements

section Programs

variable {p : Program} {c c' : Checker} {f : Function} {s : Stmt} {N : Names} {e : Expr}

theorem enterFunction_leads (hf : f ∈ p.functions) : Leads p c (c.enterFunction f) :=
  (Step.enterLabelled.leads.trans Step.tally.leads).trans
    (leads_foldl fun _ hq _ => (Step.parameter hf hq).leads)

theorem function_leads (hf : f ∈ p.functions) (c : Checker) : Leads p c (c.function f) := by
  have hbody := (enterFunction_leads (c := c) hf).trans
    (stmts_leads f.body.body _ fun _ hs => Program.has_body hf hs)
  simp only [function]
  split
  · exact hbody.trans (Step.leaveLabelled.leads.trans Step.tally.leads)
  · exact hbody.trans (Step.note.leads.trans (Step.leaveLabelled.leads.trans Step.tally.leads))

theorem before_leads {pending : List Function} (h : ∀ f ∈ pending, f ∈ p.functions) :
    Leads p c (c.before pending s) := by
  simp only [before]
  split
  · exact leads_foldl fun f hf c => function_leads (h f hf) c
  · exact .refl

theorem mem_of_remaining {pending : List Function} (h : f ∈ remaining pending s) : f ∈ pending := by
  simp only [remaining] at h
  split at h
  · cases h
  · exact h

theorem topLevel_leads : ∀ (pending : List Function) (ss : List Stmt) (c : Checker),
    (∀ f ∈ pending, f ∈ p.functions) → (∀ s ∈ ss, p.Has (.stmt s)) →
    Leads p c (topLevel pending ss c)
  | _, [], _, hp, _ => leads_foldl fun f hf c => function_leads (hp f hf) c
  | pending, s :: ss, c, hp, h => by
    have hs := stmt_leads s (c.before pending s) (h s List.mem_cons_self)
    rw [topLevel_cons]
    exact (before_leads hp).trans (hs.trans (topLevel_leads _ ss _
      (fun f hf => hp f (mem_of_remaining hf)) fun s hs => h s (List.mem_cons_of_mem _ hs)))

theorem entryPoint_leads {n : Nat} : Leads p c (c.entryPoint n) := by
  simp only [entryPoint]
  split
  · split
    · exact .refl
    · exact Step.note.leads
  · exact .refl
  · exact Step.note.leads

theorem along_leads : Along (fun s => p.Has (.stmt s)) (Leads p) where
  refl := .refl
  trans := Leads.trans
  observe := Step.observe.leads
  enterScope := Step.enterScope.leads
  leaveScope := Step.leaveScope.leads
  enterLabelled := Step.enterLabelled.leads
  stmt h := stmt_leads _ _ h

end Programs

end Checker

/-! ## Attained states -/

namespace Program

variable {p : Program} {c : Checker} {f : Function} {ss : List Stmt} {N : Names} {e : Expr} {t : Ty}

/-- Moves of a check of a program lead to a state from the one a check starts in. -/
def Attains (p : Program) : Checker → Prop := Checker.Leads p {}

theorem Attains.proper (hp : p.Proper) (h : p.Attains c) : c.toNames.Proper :=
  Checker.Leads.proper hp h
    ⟨⟨fun _ he => absurd he List.not_mem_nil, fun _ hf => absurd hf List.not_mem_nil⟩,
      fun _ he => absurd he List.not_mem_nil⟩

/-- Checking a program ends in an attained state. -/
theorem attains_analyze (p : Program) : ∃ c, p.Attains c ∧ p.analyze = ⟨c.listing, c.report⟩ :=
  ⟨_, ((Checker.leads_foldl fun _ hf _ => (Checker.Step.register hf).leads).trans
    (Checker.topLevel_leads _ _ _ (fun _ hf => hf) fun _ hs => .top hs)).trans
      Checker.entryPoint_leads, rfl⟩

theorem Reaches.attains {pending : List Function} (h : p.Reaches pending ss c) :
    p.Attains c ∧ (∀ f ∈ pending, f ∈ p.functions) ∧ ∀ s ∈ ss, p.Has (.stmt s) := by
  induction h with
  | first =>
    exact ⟨Checker.leads_foldl fun _ hf _ => (Checker.Step.register hf).leads, fun _ hf => hf,
      fun _ hs => .top hs⟩
  | next h ih =>
    obtain ⟨hc, hpending, hss⟩ := ih
    obtain ⟨hs, hrest⟩ := List.forall_mem_cons.1 hss
    exact ⟨hc.trans ((Checker.before_leads hpending).trans (Checker.stmt_leads _ _ hs)),
      fun f hf => hpending f (Checker.mem_of_remaining hf), hrest⟩

theorem Opens.attains (h : p.Opens f c) : p.Attains c := by
  obtain ⟨h, -⟩ := h
  obtain ⟨hc, hpending, -⟩ := h.attains
  exact hc.trans (Checker.leads_foldl fun f hf c =>
    Checker.function_leads (hpending f (List.mem_append_left _ hf)) c)

/-- Statements of a program are checked in attained states. -/
theorem Walks.attains (h : p.Walks ss c) : p.Attains c ∧ ∀ s ∈ ss, p.Has (.stmt s) := by
  induction h with
  | top h =>
    obtain ⟨hc, hpending, hss⟩ := h.attains
    exact ⟨hc.trans (Checker.before_leads hpending), by simpa using hss _ List.mem_cons_self⟩
  | body h =>
    exact ⟨h.attains.trans (Checker.enterFunction_leads h.mem), fun _ hs => has_body h.mem hs⟩
  | next h ih =>
    obtain ⟨hs, hss⟩ := List.forall_mem_cons.1 ih.2
    exact ⟨ih.1.trans (Checker.stmt_leads _ _ hs), hss⟩
  | inside h hb ih =>
    have hs := ih.2 _ List.mem_cons_self
    exact ⟨ih.1.trans (Checker.along_leads.bodies (fun _ hin => hs.inner hin) hb),
      fun s' hs' => hs.inner (bodies_inner hb s' hs')⟩

theorem InfersFor.attains (h : p.InfersFor N e t) : ∃ c, p.Attains c ∧ c.toNames = N := by
  obtain ⟨h, -⟩ := h
  exact ⟨_, h.attains.1, rfl⟩

/-- Expressions of a program are inferred in attained states. -/
theorem Infers.attains (h : p.Infers N e) : ∃ c, p.Attains c ∧ c.toNames = N := by
  induction h with
  | slot h => exact h.attains
  | root h hr =>
    obtain ⟨hc, hss⟩ := h.attains
    have hs := hss _ List.mem_cons_self
    obtain ⟨c', hc', hN⟩ := Checker.along_leads.roots (fun _ hin => hs.inner hin) hr
    exact ⟨c', hc.trans hc', hN⟩
  | part _ _ ih => exact ih

end Program

/-! ## Reports -/

namespace Checker

variable {c : Checker}

/-- What a check of an expression makes of a state: a type `error` comes with a diagnostic, and
nothing but the report has changed, which has at most grown. -/
structure Reports (c : Checker) (t : Ty) (c' : Checker) : Prop where
  reported : t = .error → ∃ d ds, c'.report.toList = c.report.toList ++ d :: ds
  unchanged : c' = { c with report := c'.report }
  appended : c.report.toList <+: c'.report.toList

theorem reports_judge {j : Judged Ty} (h : j.Typed) : c.Reports (c.judge j).1 (c.judge j).2 where
  reported ht := by
    cases hj : j.notes with
    | nil => exact absurd ht (h hj)
    | cons d ds => exact ⟨d, ds, by simp [judge, hj, Report.append, Report.toList]⟩
  unchanged := rfl
  appended := ⟨j.notes, by simp [judge, Report.append, Report.toList]⟩

end Checker

theorem Names.inferFor_typed {N : Names} (hN : N.Typed) {t : Ty} (ht : t ≠ .error) (e : Expr) :
    (N.inferFor e t).Typed := by
  simp only [inferFor]
  split
  · exact typed_pure (by simp)
  · exact absurd rfl ht
  · exact typed_reject
  · exact infer_typed hN e

/-- In every state that checking a program that was read can be in, no visible name and no known
function has the type `error`, and an expression that gets this type gets a diagnostic; a check of
an expression only adds to the report. The states are at least those in which a program's statements
are checked and its expressions inferred, and the one that the analysis reports from. -/
theorem Program.error_reported {tokens : List Token} {p : Program}
    (h : Program.ofTokens tokens = .ok p) :
    (∃ c, p.Attains c ∧ p.analyze = ⟨c.listing, c.report⟩) ∧
    (∀ ss c, p.Walks ss c → p.Attains c) ∧
    (∀ N e, (p.Infers N e ∨ ∃ t, p.InfersFor N e t) → ∃ c, p.Attains c ∧ c.toNames = N) ∧
    ∀ c, p.Attains c →
      (∀ name d, c.scopes.get? name = some d → d.ty ≠ .error) ∧
      (∀ name f, c.functions.find? name = some f →
        f.returns ≠ .error ∧ ∀ q ∈ f.parameters, q.ty ≠ .error) ∧
      (∀ e, c.Reports (c.judge (c.infer e)).1 (c.judge (c.infer e)).2) ∧
      ∀ e t, t ≠ .error → c.Reports (c.judge (c.inferFor e t)).1 (c.judge (c.inferFor e t)).2 := by
  have hp := proper_of_ofTokens h
  refine ⟨p.attains_analyze, fun ss c h => h.attains.1, ?_, fun c hc => ?_⟩
  · rintro N e (h | ⟨t, h⟩)
    · exact h.attains
    · exact h.attains
  · have hN := hc.proper hp
    refine ⟨fun name d hd => hN.scopes.get? hd, fun name f hf => ?_, fun e => ?_, fun e t ht => ?_⟩
    · obtain ⟨hr, hq, -⟩ := hN.functions.lookup hf
      exact ⟨hr, fun q hin => (hq q hin).2⟩
    · exact Checker.reports_judge (Names.infer_typed hN.typed e)
    · exact Checker.reports_judge (Names.inferFor_typed hN.typed ht e)

/-- Behind a declaration from a name that is not declared, its sum with that name. -/
theorem Program.error_reported_undeclared :
    let s := Stmt.declare default "x" .int (some (.name default "y"))
    let p := Program.mk [s]
    let c := Checker.stmt s {}
    let e := Expr.arithmetic default .add (.name default "x") (.name default "y")
    p.Attains c ∧ (∃ d, c.scopes.get? "x" = some d ∧ d.ty = .int) ∧ c.report.size = 1 ∧
      (c.judge (c.infer e)).1 = .error ∧ c.Reports .error (c.judge (c.infer e)).2 := by
  intro s p c e
  have h := Program.error_reported (p := p) (show Program.ofTokens
    [⟨.varWord, "var", default⟩, ⟨.identifier, "x", default⟩, ⟨.colon, ":", default⟩,
      ⟨.typeWord, "int", default⟩, ⟨.assignment, "=", default⟩, ⟨.identifier, "y", default⟩,
      ⟨.semicolon, ";", default⟩] = .ok p from rfl)
  have hwalks : p.Walks [] c := .next (.top .first)
  have hc := h.2.1 [] c hwalks
  have hvalue : (c.judge (c.infer e)).1 = .error := by decide +kernel
  have hreports := (h.2.2.2 c hc).2.2.1 e
  rw [hvalue] at hreports
  exact ⟨hc, ⟨_, rfl, rfl⟩, by decide +kernel, hvalue, hreports⟩

end Primer
