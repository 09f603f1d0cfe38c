import Primer.Proofs.Fuel
import Primer.Proofs.Signals

/-!
# Falling through the cases of a switch

A switch runs its bodies one by one and looks after each whether to go on. It is all the same
whether it does so or runs the bodies from the case it picks on as one row of statements
(`Eval.switch_once`): statements in a row stop where something is pending too, and to pick a case
leaves nothing pending, as the value of an expression does (`Eval.settles`).
-/

namespace Primer

namespace Eval

open Machine

variable {α β : Type}

/-! ## Values leave nothing pending -/

/-- From a machine with nothing pending a computation gives its value with nothing pending. -/
def Settles (x : Eval α) : Prop := ∀ m a t, m.Clean → x m = .done a t → t.Clean

section Rules

variable {x : Eval α} {k : α → Eval β}

theorem settles_pure {a : α} : Settles (pure a) := fun _ _ _ hm h => by
  cases h
  exact hm

theorem settles_exhausted : Settles (Runs.exhausted : Eval α) := fun _ _ _ _ h => by cases h

theorem Settles.bind (hx : Settles x) (hk : ∀ a, Settles (k a)) : Settles (x >>= k) :=
    fun m b u hm h => by
  rcases hr : x m with ⟨a, t⟩ | ⟨d, t⟩ | _
  · exact hk a t b u (hx m a t hm hr) ((bind_done hr).symm.trans h)
  · cases (bind_failed hr).symm.trans h
  · cases (bind_exhausted hr).symm.trans h

theorem settles_look {f : Machine → Except Diagnostic α} : Settles (Runs.look f) :=
    fun m a t hm h => by
  simp only [Runs.look] at h
  split at h <;> cases h
  exact hm

theorem settles_fail {d : Diagnostic} : Settles (fail d : Eval α) := settles_look

theorem settles_ask {p : Position} {f : Store → Except Fault α} : Settles (ask p f) := settles_look

theorem settles_onStore {f : Store → α × Store} : Settles (onStore f) := fun _ _ _ hm h => by
  cases h
  exact ⟨hm.signal, hm.failure⟩

theorem settles_edit {p : Position} {f : Store → Except Fault (α × Edit)} : Settles (edit p f) :=
  settles_ask.bind fun _ =>
    Settles.bind (fun _ _ _ hm h => by cases h; exact ⟨hm.signal, hm.failure⟩)
      fun _ => settles_pure

theorem settles_composed : Composed (Effect Machine) fun x => Settles x where
  pure _ := settles_pure
  bind hx hk := hx.bind hk
  fail _ := settles_fail
  ask _ _ := settles_ask
  onStore _ := settles_onStore
  edit _ _ := settles_edit
  within _ _ hx := hx

end Rules

/-- A call that gives a value has taken what its body left pending. -/
theorem settles_inCall {name : String} {p : Position} {f : Function} {x : Eval Unit} :
    Settles (inCall name p (x >>= fun _ => conclude f)) := fun m v t hm h => by
  rw [inCall_apply] at h
  split at h
  · rcases hr : x (m.enterCall name).2 with ⟨_, u⟩ | ⟨d, u⟩ | _
    · rw [bind_done hr, conclude_apply] at h
      split at h <;> cases h
      have hsettled : (concluded f u).2.Clean := by
        simp only [concluded]
        split <;> exact ⟨rfl, rfl⟩
      exact ⟨hsettled.signal, hsettled.failure⟩
    · rw [bind_failed hr] at h
      cases h
    · rw [bind_exhausted hr] at h
      cases h
  · cases h

/-- The parts of the evaluator that give values do so with nothing pending. -/
structure Settling (n : Nat) : Prop where
  expr : ∀ e, Settles (expr n e)
  exprs : ∀ es, Settles (exprs n es)
  indexOf : ∀ e, Settles (indexOf n e)
  call : ∀ name es p, Settles (call n name es p)

theorem call_settles {n : Nat} (ih : Settling n) (name : String) (es : List Expr) (p : Position) :
    Settles (call (n + 1) name es p) := by
  have h := settles_composed
  rw [call]
  refine h.bind settles_look fun _ => h.bind (h.ofOption _ _ _) fun f =>
    h.bind (h.ofExcept _ _) fun _ => h.bind (ih.exprs es) fun _ => h.bind (h.ofResult _) fun _ =>
    h.bind ?_ fun _ => h.ofExcept _ _
  rw [← bind_assoc]
  exact settles_inCall

theorem settles (n : Nat) : Settling n := by
  have h := settles_composed
  induction n with
  | zero =>
    exact {
      expr := fun _ => settles_exhausted
      exprs := fun _ => settles_exhausted
      indexOf := fun _ => settles_exhausted
      call := fun _ _ _ => settles_exhausted }
  | succ n ih =>
    exact {
      expr := fun e => h.expr_succ (fun _ _ _ => settles_look) (fun e _ => ih.expr e)
        (fun e _ => ih.indexOf e) (fun es _ => ih.exprs es) fun _ name es _ _ => ih.call name es _
      exprs := fun es => h.exprs_succ (fun e _ => ih.expr e) fun _ es _ => ih.exprs es
      indexOf := fun e => h.indexOf_succ (ih.expr e)
      call := call_settles ih }

/-! ## One row of statements -/

/-- The bodies of cases and of a default, one after the other. -/
def bodies (cases : List Case) (fallback : Option (List Stmt)) : List Stmt :=
  cases.flatMap CaseOf.body ++ fallback.getD []

/-- Runs statements once and takes a `break` of theirs. -/
def caught (n : Nat) (ss : List Stmt) : Eval Unit := do
  stmts n ss
  let _ ← Runs.step (·.consume .breakSwitch)

/-- The statements a switch on a value picks: the values of the cases are looked at in order up to
the first that is equal, from which the bodies run on, and if none is the default is run. -/
def select (n : Nat) (v : Value) (fallback : Option (List Stmt)) : List Case → Eval (List Stmt)
  | [] => return fallback.getD []
  | c :: rest => do
    let w ← expr n c.value
    if ← read (·.store.equal v w) then return bodies (c :: rest) fallback
    else select n v fallback rest

/-- A switch that picks its statements first and runs them once. -/
def switchOnce (n : Nat) (v : Value) (cases : List Case) (fallback : Option (List Stmt)) :
    Eval Unit := do caught n (← select n v fallback cases)

variable {m : Machine} {o : Outcome Machine Unit}

theorem steady_select (v : Value) (fallback : Option (List Stmt)) : ∀ cases : List Case,
    Steady fun n => select n v fallback cases
  | [] => steady_const _
  | c :: rest => (steady_expr c.value).bind fun w =>
    steady_ite (steady_const _) (steady_select v fallback rest) (·.store.equal v w)

theorem steady_caught (ss : List Stmt) : Steady fun n => caught n ss :=
  (steady_stmts ss).bind fun _ => steady_const _

theorem consume_missed {g : Signal} (h : (m.consume g).1 = false) : m.consume g = (false, m) := by
  rw [consume_eq] at h ⊢
  simp only at h
  simp only [h, Bool.false_eq_true, ↓reduceIte]

theorem pending_of_consume {g : Signal} (h : (m.consume g).1 = true) : m.pending = true := by
  rw [consume_eq] at h
  simp only [pending, Option.isSome_of_any h, Bool.true_or]

theorem consume_quiet (hm : m.pending = false) (g : Signal) : m.consume g = (false, m) :=
  consume_missed (Bool.eq_false_iff.2 fun h => by cases hm.symm.trans (pending_of_consume h))

theorem comes_caught (ss : List Stmt) : Comes (fun n => caught n ss) m o ↔
    ∃ t, Comes (fun n => stmts n ss) m (.done () t) ∧ o = .done () (t.consume .breakSwitch).2 := by
  unfold caught
  rw [comes_bind (steady_stmts ss) fun _ => steady_const _]
  constructor
  · rintro (⟨_, t, h, -, -, rfl⟩ | ⟨d, t, ⟨-, n, h⟩, -⟩)
    · exact ⟨t, h, rfl⟩
    · exact absurd h (stmts_ne_failed n ss m t d)
  · rintro ⟨t, h, rfl⟩
    exact .inl ⟨(), t, h, nofun, 0, rfl⟩

theorem comes_caught_append (ss ss' : List Stmt) (hm : m.pending = false) :
    Comes (fun n => caught n (ss ++ ss')) m o ↔ ∃ t, Comes (fun n => stmts n ss) m (.done () t) ∧
      if t.pending then o = .done () (t.consume .breakSwitch).2
      else Comes (fun n => caught n ss') t o := by
  simp only [comes_caught, comes_stmts_append ss' ss hm]
  constructor
  · rintro ⟨u, ⟨t, ht, hu⟩, rfl⟩
    refine ⟨t, ht, ?_⟩
    by_cases hp : t.pending = true
    · rw [if_pos hp] at hu ⊢
      cases hu
      rfl
    · rw [if_neg hp] at hu ⊢
      exact ⟨u, hu, rfl⟩
  · rintro ⟨t, ht, h⟩
    by_cases hp : t.pending = true
    · rw [if_pos hp] at h
      exact ⟨t, ⟨t, ht, by rw [if_pos hp]⟩, h⟩
    · rw [if_neg hp] at h
      obtain ⟨u, hu, ho⟩ := h
      exact ⟨u, ⟨t, ht, by rwa [if_neg hp]⟩, ho⟩

/-- What a switch does after a body that was run. -/
theorem comes_after {x : Nat → Eval Unit} : Comes (fun n => (do
      if ← Runs.step (·.consume .breakSwitch) then return ()
      else if ← read Machine.pending then return ()
      else x n)) m o ↔
    if m.pending then o = .done () (m.consume .breakSwitch).2 else Comes x m o := by
  change Comes (fun n _ => (if (m.consume .breakSwitch).1 then return ()
    else do if ← read Machine.pending then return () else x n : Eval Unit)
      (m.consume .breakSwitch).2) m o ↔ _
  cases hc : (m.consume .breakSwitch).1
  · rw [consume_missed hc]
    exact comes_unless
  · simp only [pending_of_consume hc, ↓reduceIte, Comes, exists_const, Effect.pure_apply]
    constructor
    · exact fun h => h.2.symm
    · rintro rfl
      exact ⟨by rintro ⟨⟩, rfl⟩

theorem steady_after {x : Nat → Eval Unit} (hx : Steady x) : Steady fun n => (do
    if ← Runs.step (·.consume .breakSwitch) then return ()
    else if ← read Machine.pending then return ()
    else x n) :=
  (steady_const (Runs.step (·.consume .breakSwitch))).bind fun b => by
    cases b
    · exact steady_ite (steady_const _) hx _
    · exact steady_const _

/-- The cases after the one that was picked run as one row. -/
theorem comes_switch_found (v : Value) (fallback : Option (List Stmt)) : ∀ (cases : List Case)
    {m : Machine}, m.pending = false →
      (Comes (fun n => switch n v cases fallback true) m o ↔
        Comes (fun n => caught n (bodies cases fallback)) m o)
  | [], m, hm => by
    rw [← comes_succ (steady_switch v [] fallback true)]
    cases fallback with
    | some body => rfl
    | none =>
      rw [show bodies [] none = [] from rfl, comes_caught]
      simp only [comes_stmts_nil, exists_eq_left, consume_quiet hm]
      exact ⟨fun ⟨_, _, h⟩ => h.symm, fun h => ⟨h ▸ nofun, 0, h.symm⟩⟩
  | c :: rest, m, hm => by
    have hbodies : bodies (c :: rest) fallback = c.body ++ bodies rest fallback := by
      simp [bodies]
    rw [← comes_succ (steady_switch v (c :: rest) fallback true), hbodies,
      comes_caught_append _ _ hm]
    simp only [switch]
    rw [comes_bind (steady_stmts c.body) fun _ => steady_after (steady_switch v rest fallback true)]
    simp only [comes_after]
    have hrest : ∀ t : Machine, (if t.pending then o = .done () (t.consume .breakSwitch).2
          else Comes (fun n => switch n v rest fallback true) t o) ↔
        if t.pending then o = .done () (t.consume .breakSwitch).2
          else Comes (fun n => caught n (bodies rest fallback)) t o := fun t => by
      by_cases hp : t.pending = true
      · rw [if_pos hp, if_pos hp]
      · rw [if_neg hp, if_neg hp, comes_switch_found v fallback rest (Bool.eq_false_iff.2 hp)]
    simp only [hrest]
    constructor
    · rintro (⟨_, t, h, ht⟩ | ⟨d, t, ⟨-, n, h⟩, -⟩)
      · exact ⟨t, h, ht⟩
      · exact absurd h (stmts_ne_failed n c.body m t d)
    · rintro ⟨t, h, ht⟩
      exact .inl ⟨(), t, h, ht⟩

theorem switchOnce_cons (n : Nat) (v : Value) (c : Case) (rest : List Case)
    (fallback : Option (List Stmt)) : switchOnce n v (c :: rest) fallback = (do
      let w ← expr n c.value
      if ← read (·.store.equal v w) then caught n (bodies (c :: rest) fallback)
      else switchOnce n v rest fallback) := by
  simp only [switchOnce, select, bind_assoc]
  congr 1
  funext w
  congr 1
  funext b
  cases b <;> rfl

theorem steady_switchOnce (v : Value) (cases : List Case) (fallback : Option (List Stmt)) :
    Steady fun n => switchOnce n v cases fallback :=
  (steady_select v fallback cases).bind steady_caught

/-- Up to the case that is picked only values are looked at, which leaves nothing pending. -/
theorem comes_switch (v : Value) (fallback : Option (List Stmt)) : ∀ (cases : List Case)
    {m : Machine}, m.pending = false →
      (Comes (fun n => switch n v cases fallback false) m o ↔
        Comes (fun n => switchOnce n v cases fallback) m o)
  | [], m, hm => by
    have hfound : ∀ n, (switch n v [] fallback false : Eval Unit) =
        switch n v [] fallback true := fun n => by
      cases n with
      | zero => rfl
      | succ n => cases fallback <;> rfl
    simp only [hfound]
    exact comes_switch_found v fallback [] hm
  | c :: rest, m, hm => by
    rw [← comes_succ (steady_switch v (c :: rest) fallback false)]
    simp only [switch, switchOnce_cons]
    refine comes_bind_congr (steady_expr c.value)
      (fun w => steady_ite (steady_switch _ _ _ _) (steady_switch _ _ _ _) _)
      (fun w => steady_ite (steady_caught _) (steady_switchOnce _ _ _) _) ?_
    rintro w t ⟨-, n, h⟩
    have ht := (settles n).expr c.value m w t (clean_of_pending hm) h
    have ht : t.pending = false := by simp [pending, ht.signal, ht.failure]
    rw [comes_ite, comes_ite, comes_switch_found v fallback _ ht, comes_switch v fallback rest ht]

/-- Where nothing is pending a switch ends as one that picks its statements first and runs them in
one row, and it ends if that one does. -/
theorem switch_once {m : Machine} (hm : m.pending = false) (v : Value) (cases : List Case)
    (fallback : Option (List Stmt)) {o : Outcome Machine Unit} (ho : o ≠ .exhausted) :
    (∃ n, (switch n v cases fallback false : Eval Unit) m = o) ↔
      ∃ n, switchOnce n v cases fallback m = o := by
  have h := comes_switch (o := o) v fallback cases hm
  simpa only [Comes, ne_eq, ho, not_false_eq_true, true_and] using h

/-- The second of three cases is picked, and the third leaves the switch by a `break`. -/
theorem switch_once_break :
    let m : Machine := { constructs := [.switch], limit := 1 }
    let body : List Stmt := [.expression default (.int default 7), .breakOut default,
      .continueOn default]
    let cases : List Case := [⟨.int default 2, [.continueOn default], default⟩,
      ⟨.int default 1, [], default⟩, ⟨.int default 3, body, default⟩]
    m.pending = false ∧ ∃ n, switchOnce n (.int 1) cases none m = .done () m := by
  intro m body cases
  have ho : Outcome.done () m ≠ .exhausted := nofun
  exact ⟨rfl, (switch_once rfl (.int 1) cases none ho).1 ⟨10, rfl⟩⟩

end Eval

end Primer
