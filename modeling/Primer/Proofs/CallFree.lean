import Primer.Proofs.Preserves
import Primer.Proofs.Respect

/-!
# What runs without calls

What cannot enter a declared function, as `callsFunction` says of an expression or a statement,
begins no call at any moment of its run and does not look at the functions (`Unaided`). The
operations on machines are unaided, only a call is not; so this goes by the recursion of the
evaluator, where every part that it can come to has been looked at by `callsFunction`.
-/

namespace Primer

/-- The machine with other functions. -/
def Machine.knowing (fs : Frame Function) (m : Machine) : Machine := { m with functions := fs }

/-- A call of a declared function begins. -/
def Event.Calls (e : Event) : Prop := ∃ name es p m, e = .enters (.call name es p) m

/-- What is noted while a number of calls are running, none of which begins or ends here. -/
structure Event.Apart (d : Nat) (e : Event) : Prop where
  source : e.source.depth = d
  target : e.target.depth = d
  calls : ¬ e.Calls

theorem Expr.callsFunction_part {e e' : Expr} (he : e.callsFunction = false) (h : e' ∈ e.parts) :
    e'.callsFunction = false :=
  Bool.eq_false_iff.2 fun h' => by simp [Expr.callsFunction_of_parts h h'] at he

namespace Watched

open Eval

variable {α β : Type}

/-- A computation that begins no call and does not look at the functions. -/
structure Unaided (x : Watched α) : Prop where
  apart : ∀ d, Preserves (Event.Apart d) (·.depth = d) x
  blind : ∀ callers m fs, run callers x (m.knowing fs) = (run callers x m).onState (.knowing fs)

/-! ## Operations -/

section Rules

variable {x : Watched α}

theorem unaided_pure {a : α} : Unaided (pure a : Watched α) :=
  ⟨fun _ => preserves_pure, fun _ _ _ => rfl⟩

theorem unaided_exhausted : Unaided (Runs.exhausted : Watched α) :=
  ⟨fun _ => preserves_exhausted, fun _ _ _ => rfl⟩

theorem Unaided.bind {k : α → Watched β} (hx : Unaided x) (hk : ∀ a, Unaided (k a)) :
    Unaided (x >>= k) := by
  refine ⟨fun d => (hx.apart d).bind fun a => (hk a).apart d, fun callers m fs => ?_⟩
  rw [run_bind, Effect.bind_apply, Effect.bind_apply, hx.blind]
  cases run callers x m with
  | done a t => exact (hk a).blind callers t fs
  | failed => rfl
  | exhausted => rfl

theorem unaided_look {g : Machine → Except Diagnostic α} (hg : ∀ m fs, g (m.knowing fs) = g m) :
    Unaided (Runs.look g) := by
  refine ⟨fun _ => preserves_look, fun callers m fs => ?_⟩
  rw [run_look]
  simp only [Runs.look, hg]
  cases g m <;> rfl

theorem unaided_step {g : Machine → α × Machine} (hg : ∀ m, (g m).2.depth = m.depth ∧
    ∀ fs, g (m.knowing fs) = ((g m).1, (g m).2.knowing fs)) : Unaided (Runs.step g) := by
  refine ⟨fun d callers m hm => ?_, fun callers m fs => ?_⟩
  · have ht : (g m).2.depth = d := (hg m).1.trans hm
    exact meets_step ⟨hm, ht, by rintro ⟨_, _, _, _, ⟨⟩⟩⟩ ht
  · rw [run_step]
    simp only [Runs.step, Effect.step, (hg m).2 fs]
    rfl

theorem unaided_update {g : Machine → Machine} (hg : ∀ m, (g m).depth = m.depth ∧
    ∀ fs, g (m.knowing fs) = (g m).knowing fs) : Unaided (update g) :=
  unaided_step fun m => ⟨(hg m).1, fun fs => by rw [(hg m).2]⟩

/-- A step that looks only at the core does not look at the functions. -/
theorem unaided_local {g : Machine → α × Machine} (hg : Machine.Local g) :
    Unaided (Runs.step g) := by
  refine unaided_step fun m => ⟨by rw [hg.frame m]; rfl, fun fs => ?_⟩
  have hcore : (m.knowing fs).core = m.core := rfl
  refine Prod.ext (hg.value hcore) ?_
  rw [hg.frame (m.knowing fs), hg.core hcore, hg.frame m]
  rfl

theorem Unaided.attempt (hx : Unaided x) : Unaided (Runs.attempt x) := by
  refine ⟨fun d => (hx.apart d).attempt, fun callers m fs => ?_⟩
  rw [run_attempt]
  simp only [Runs.attempt, Effect.attempt, hx.blind]
  cases run callers x m <;> rfl

theorem Unaided.within {j : Job} {x : Watched j.Result} (hx : Unaided x)
    (hj : ∀ name es p, j ≠ .call name es p) : Unaided (Runs.within j x) := by
  refine ⟨fun d callers m hm => ?_, fun callers m fs => hx.blind callers m fs⟩
  refine meets_within ⟨hm, hm, ?_⟩ ((hx.apart d callers m hm).imp
    (fun _ _ ht => ⟨⟨ht, ht, ?_⟩, ht⟩) fun _ _ ht => ⟨⟨ht, ht, ?_⟩, ht⟩)
  · rintro ⟨name, es, p, _, heq⟩
    cases heq
    exact hj name es p rfl
  · rintro ⟨_, _, _, _, ⟨⟩⟩
  · rintro ⟨_, _, _, _, ⟨⟩⟩

theorem unaided_fail {d : Diagnostic} : Unaided (fail d : Watched α) := unaided_look fun _ _ => rfl

theorem unaided_ask {p : Position} {f : Store → Except Fault α} : Unaided (ask p f) :=
  unaided_look fun _ _ => rfl

theorem unaided_onStore {f : Store → α × Store} : Unaided (onStore f) :=
  unaided_local (Machine.local_onStore f)

theorem unaided_edit {p : Position} {f : Store → Except Fault (α × Edit)} :
    Unaided (edit p f) :=
  unaided_ask.bind fun ⟨_, e⟩ => (unaided_local (Machine.local_edit e)).bind fun _ => unaided_pure

theorem unaided_composed : Composed Watched fun x => Unaided x where
  pure _ := unaided_pure
  bind hx hk := hx.bind hk
  fail _ := unaided_fail
  ask _ _ := unaided_ask
  onStore _ := unaided_onStore
  edit _ _ := unaided_edit
  within _ _ hx := hx.within fun _ _ _ h => by cases h

theorem unaided_declare {name : String} {ty : Ty} {category : Category} {p : Position}
    {value : Option Value} : Unaided (declare name ty category p value) :=
  (unaided_look fun _ _ => rfl).bind fun _ => unaided_update fun _ => ⟨rfl, fun _ => rfl⟩

theorem Unaided.declareWith {name : String} {ty : Ty} {p : Position} {x : Watched Value}
    (hx : Unaided x) : Unaided (declareWith name ty p x) :=
  hx.attempt.bind fun r => by
    cases r with
    | ok => exact unaided_declare
    | error => exact unaided_declare.bind fun _ => unaided_fail

theorem unaided_assign {name : String} {v : Value} {p : Position} : Unaided (assign name v p) :=
  (unaided_look fun _ _ => rfl).bind fun _ => unaided_update fun _ => ⟨rfl, fun _ => rfl⟩

theorem Unaided.between {enter leave : Machine → Machine} (hx : Unaided x)
    (henter : ∀ m, (enter m).depth = m.depth ∧ ∀ fs, enter (m.knowing fs) = (enter m).knowing fs)
    (hleave : ∀ m, (leave m).depth = m.depth ∧ ∀ fs, leave (m.knowing fs) = (leave m).knowing fs) :
    Unaided (between enter leave x) :=
  (unaided_update henter).bind fun _ => hx.attempt.bind fun r =>
    (unaided_update hleave).bind fun _ => unaided_composed.ofResult r

theorem Unaided.inScope (hx : Unaided x) : Unaided (inScope x) :=
  hx.between (fun _ => ⟨rfl, fun _ => rfl⟩) fun _ => ⟨rfl, fun _ => rfl⟩

theorem Unaided.inLabelled {label : String} (hx : Unaided x) : Unaided (inLabelled label x) :=
  hx.between (fun _ => ⟨rfl, fun _ => rfl⟩) fun _ => ⟨rfl, fun _ => rfl⟩

theorem Unaided.inConstruct {c : Construct} (hx : Unaided x) : Unaided (inConstruct c x) :=
  hx.between (fun _ => ⟨rfl, fun _ => rfl⟩) fun _ => ⟨rfl, fun _ => rfl⟩

theorem Unaided.guarded {x : Watched Unit} (hx : Unaided x) : Unaided (guarded x) :=
  hx.attempt.bind fun r => by
    cases r with
    | ok => exact unaided_pure
    | error d =>
      refine (unaided_look fun _ _ => rfl).bind fun b => ?_
      cases b
      · exact unaided_update fun _ => ⟨rfl, fun _ => rfl⟩
      · exact Unaided.within (j := .failCall d) (unaided_update fun _ => ⟨rfl, fun _ => rfl⟩)
          fun _ _ _ h => by cases h

end Rules

/-! ## The evaluator -/

/-- With some fuel, what cannot enter a function is unaided. -/
structure CallFree (n : Nat) : Prop where
  expr : ∀ e : Expr, e.callsFunction = false → Unaided (expr n e)
  exprs : ∀ es : List Expr, (∀ e ∈ es, e.callsFunction = false) → Unaided (exprs n es)
  exprFor : ∀ (e : Expr) t, e.callsFunction = false → Unaided (exprFor n e t)
  indexOf : ∀ e : Expr, e.callsFunction = false → Unaided (indexOf n e)
  indexOf? : ∀ e : Option Expr, e.any Expr.callsFunction = false → Unaided (indexOf? n e)
  condition : ∀ (e : Expr) c, e.callsFunction = false → Unaided (condition n e c)
  goesOn : ∀ e : Option Expr, e.any Expr.callsFunction = false → Unaided (goesOn n e)
  stmt : ∀ s : Stmt, s.callsFunction = false → Unaided (stmt n s)
  stmts : ∀ ss, stmtsCallFunction ss = false → Unaided (stmts n ss)
  block : ∀ b : Block, blockCallsFunction b = false → Unaided (block n b)
  perform : ∀ s : Stmt, s.callsFunction = false → Unaided (perform n s)
  header : ∀ s, optionalCallsFunction s = false → Unaided (header n s)
  switch : ∀ v cs d b, casesCallFunction cs = false → defaultCallsFunction d = false →
    Unaided (switch n v cs d b)
  whileLoop : ∀ (e : Expr) b, e.callsFunction = false → blockCallsFunction b = false →
    Unaided (whileLoop n e b)
  doLoop : ∀ b (e : Expr), blockCallsFunction b = false → e.callsFunction = false →
    Unaided (doLoop n b e)
  forLoop : ∀ (e : Option Expr) s b, e.any Expr.callsFunction = false →
    optionalCallsFunction s = false → blockCallsFunction b = false → Unaided (forLoop n e s b)

theorem callFree_zero : CallFree 0 := by
  constructor <;> intros <;> exact unaided_exhausted

namespace CallFree

variable {n : Nat} (ih : CallFree n)
include ih

theorem expr_succ (e : Expr) (he : e.callsFunction = false) : Unaided (Eval.expr (n + 1) e) := by
  refine unaided_composed.expr_succ (fun _ _ _ => unaided_look fun _ _ => rfl)
    (fun e' h => ih.expr e' (Expr.callsFunction_part he h))
    (fun e' h => ih.indexOf e' (Expr.callsFunction_part he h))
    (fun es h => ih.exprs es fun e' h' => Expr.callsFunction_part he (h e' h')) ?_
  -- A name that is not built in is a call, which `callsFunction` has not let through.
  rintro _ name _ rfl hname
  simp [Expr.callsFunction, hname] at he

theorem exprs_succ (es : List Expr) (hes : ∀ e ∈ es, e.callsFunction = false) :
    Unaided (Eval.exprs (n + 1) es) :=
  unaided_composed.exprs_succ (fun e he => ih.expr e (hes e he)) fun _ rest h =>
    ih.exprs rest fun e he => hes e (h ▸ List.mem_cons_of_mem _ he)

theorem exprFor_succ (e : Expr) (t : Ty) (he : e.callsFunction = false) :
    Unaided (Eval.exprFor (n + 1) e t) := by
  simp only [Eval.exprFor]
  refine Unaided.within (j := .exprFor e t) ?_ fun _ _ _ h => by cases h
  split
  · exact unaided_onStore.bind fun _ => unaided_pure
  · exact unaided_fail
  · exact ih.expr e he

theorem condition_succ (e : Expr) (c : String) (he : e.callsFunction = false) :
    Unaided (Eval.condition (n + 1) e c) :=
  (ih.expr e he).bind fun v => by
    cases v <;> first | exact unaided_pure | exact unaided_fail

theorem stmts_succ (ss : List Stmt) (hss : stmtsCallFunction ss = false) :
    Unaided (Eval.stmts (n + 1) ss) := by
  cases ss with
  | nil => exact unaided_pure
  | cons s ss =>
    obtain ⟨hs, hss⟩ := Bool.or_eq_false_iff.1 hss
    refine (ih.stmt s hs).bind fun _ => (unaided_look fun _ _ => rfl).bind fun b => ?_
    cases b
    · exact ih.stmts ss hss
    · exact unaided_pure

theorem block_succ (b : Block) (hb : blockCallsFunction b = false) :
    Unaided (Eval.block (n + 1) b) := by
  cases b
  exact (ih.stmts _ hb).inScope

theorem step_succ (span : Span) (target : Expr) (up : Bool) (ht : target.callsFunction = false) :
    Unaided (Eval.perform (n + 1) (.step span target up)) := by
  have h := unaided_composed
  simp only [Eval.perform]
  refine Unaided.within (j := .stmt _) ?_ fun _ _ _ h => by cases h
  cases target with
  | name =>
    exact (unaided_look fun _ _ => rfl).bind fun _ => (h.ofExcept _ _).bind fun _ => unaided_assign
  | index _ target index =>
    simp only [Expr.callsFunction, Bool.or_eq_false_iff] at ht
    exact (ih.expr target ht.1).bind fun _ => (ih.indexOf index ht.2).bind fun _ =>
      unaided_ask.bind fun _ => (h.ofExcept _ _).bind fun _ => unaided_edit
  | cell _ target index column =>
    simp only [Expr.callsFunction, Bool.or_eq_false_iff] at ht
    exact (ih.expr target ht.1.1).bind fun _ => (ih.indexOf index ht.1.2).bind fun _ =>
      (ih.indexOf column ht.2).bind fun _ => unaided_ask.bind fun _ => unaided_ask.bind fun _ =>
      (h.ofExcept _ _).bind fun _ => unaided_edit
  | _ => exact unaided_fail

theorem perform_succ (s : Stmt) (hs : s.callsFunction = false) :
    Unaided (Eval.perform (n + 1) s) := by
  cases s
  case step span target up => exact ih.step_succ span target up hs
  case start => cases hs
  all_goals
    simp only [Stmt.callsFunction, Bool.or_eq_false_iff] at hs
    simp only [Eval.perform]
    refine Unaided.within (j := .stmt _) ?_ fun _ _ _ h => by cases h
  case declare _ _ ty value =>
    cases value with
    | none => exact unaided_declare
    | some e =>
      exact ((ih.exprFor e ty hs).bind fun _ => unaided_composed.ofExcept _ _).declareWith
  case assign _ _ value =>
    exact (unaided_look fun _ _ => rfl).bind fun t => (ih.exprFor value t hs).bind fun _ =>
      unaided_assign
  case assignIndex _ target index column value =>
    obtain ⟨⟨⟨ht, hi⟩, hv⟩, hc⟩ := hs
    exact (ih.expr target ht).bind fun _ => (ih.indexOf index hi).bind fun _ =>
      (ih.indexOf? column hc).bind fun _ => (ih.expr value hv).bind fun _ => unaided_edit
  case block b => exact ih.block b hs
  case branch _ test body otherwise =>
    refine (ih.condition test _ hs.1.1).bind fun b => ?_
    cases b
    · cases otherwise with
      | none => exact unaided_pure
      | some s => exact ih.stmt s hs.2
    · exact ih.block body hs.1.2
  case switch _ e cs d =>
    exact (ih.expr e hs.1.1).bind fun v =>
      (ih.switch v cs d false hs.1.2 hs.2).inConstruct.inLabelled
  case whileLoop _ test body => exact (ih.whileLoop test body hs.1 hs.2).inConstruct.inLabelled
  case doLoop _ body test => exact (ih.doLoop body test hs.2 hs.1).inConstruct.inLabelled
  case forLoop _ first test next body =>
    obtain ⟨⟨⟨hf, ht⟩, hn⟩, hb⟩ := hs
    exact ((ih.header first hf).bind fun _ =>
      (ih.forLoop test next body ht hn hb).inConstruct).inLabelled
  case breakOut => exact unaided_local Machine.local_requestBreak
  case continueOn => exact unaided_local Machine.local_requestContinue
  case print _ value => exact (ih.expr value hs).bind fun v => unaided_local (Machine.local_print v)
  case function => exact unaided_pure
  case giveBack _ value =>
    cases value with
    | none => exact unaided_local (Machine.local_requestReturn .void)
    | some e => exact (ih.expr e hs).bind fun v => unaided_local (Machine.local_requestReturn v)
  case expression _ value => exact (ih.expr value hs).bind fun _ => unaided_pure

theorem switch_succ (v : Value) (cs : List Case) (d : Option (List Stmt)) (found : Bool)
    (hcs : casesCallFunction cs = false) (hd : defaultCallsFunction d = false) :
    Unaided (Eval.switch (n + 1) v cs d found) := by
  cases cs with
  | nil =>
    cases d with
    | none => exact unaided_pure
    | some ss =>
      exact (ih.stmts ss hd).bind fun _ => (unaided_local (Machine.local_consume _)).bind fun _ =>
        unaided_pure
  | cons k cs =>
    have hrest := (Bool.or_eq_false_iff.1 hcs).2
    obtain ⟨value, body, _⟩ := k
    obtain ⟨hvalue, hbody⟩ := Bool.or_eq_false_iff.1 (Bool.or_eq_false_iff.1 hcs).1
    cases found
    · refine (ih.expr value hvalue).bind fun w => (unaided_look fun _ _ => rfl).bind fun b => ?_
      cases b
      · exact ih.switch v cs d false hrest hd
      · exact ih.switch v _ d true hcs hd
    · refine (ih.stmts body hbody).bind fun _ =>
        (unaided_local (Machine.local_consume _)).bind fun b => ?_
      cases b
      · refine (unaided_look fun _ _ => rfl).bind fun b => ?_
        cases b
        · exact ih.switch v cs d true hrest hd
        · exact unaided_pure
      · exact unaided_pure

/-- One round of a loop, and what comes after it. -/
theorem round (b : Block) (hb : blockCallsFunction b = false) {x : Watched Unit} (hx : Unaided x) :
    Unaided (do
      Eval.block n b
      if ← Runs.step Machine.continueLooping then x else return ()) :=
  (ih.block b hb).bind fun _ => (unaided_local Machine.local_continueLooping).bind fun c => by
    cases c
    · exact unaided_pure
    · exact hx

theorem whileLoop_succ (e : Expr) (b : Block) (he : e.callsFunction = false)
    (hb : blockCallsFunction b = false) : Unaided (Eval.whileLoop (n + 1) e b) :=
  (ih.condition e _ he).bind fun c => by
    cases c
    · exact unaided_pure
    · exact ih.round b hb (ih.whileLoop e b he hb)

theorem doLoop_succ (b : Block) (e : Expr) (hb : blockCallsFunction b = false)
    (he : e.callsFunction = false) : Unaided (Eval.doLoop (n + 1) b e) :=
  ih.round b hb <| (ih.condition e _ he).bind fun c => by
    cases c
    · exact unaided_pure
    · exact ih.doLoop b e hb he

theorem forLoop_succ (e : Option Expr) (s : Option Stmt) (b : Block)
    (he : e.any Expr.callsFunction = false) (hs : optionalCallsFunction s = false)
    (hb : blockCallsFunction b = false) : Unaided (Eval.forLoop (n + 1) e s b) :=
  (ih.goesOn e he).bind fun c => by
    cases c
    · exact unaided_pure
    · exact ih.round b hb ((ih.header s hs).bind fun _ => ih.forLoop e s b he hs hb)

end CallFree

theorem callFree (n : Nat) : CallFree n := by
  induction n with
  | zero => exact callFree_zero
  | succ n ih =>
    exact {
      expr := ih.expr_succ
      exprs := ih.exprs_succ
      exprFor := ih.exprFor_succ
      indexOf := fun e he => unaided_composed.indexOf_succ (ih.expr e he)
      indexOf? := fun e he => by
        cases e with
        | none => exact unaided_pure
        | some e => exact (ih.indexOf e he).bind fun _ => unaided_pure
      condition := ih.condition_succ
      goesOn := fun e he => by
        cases e with
        | none => exact unaided_pure
        | some e => exact ih.condition e _ he
      stmt := fun s hs => (ih.perform s hs).guarded
      stmts := ih.stmts_succ
      block := ih.block_succ
      perform := ih.perform_succ
      header := fun s hs => by
        cases s with
        | none => exact unaided_pure
        | some s => exact ih.perform s hs
      switch := ih.switch_succ
      whileLoop := ih.whileLoop_succ
      doLoop := ih.doLoop_succ
      forLoop := ih.forLoop_succ }

end Watched

end Primer
