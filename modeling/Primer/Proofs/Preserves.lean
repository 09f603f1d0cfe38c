import Primer.Proofs.Composed
import Primer.Proofs.Watch

/-!
# What the value of an expression cannot change

The value of an expression changes only stored items, outside the calls it makes. So a property of
machines that does not look at the store stays through every expression if it stays through every
call (`Evaluates.succ`).
-/

namespace Primer

namespace Watched

open Eval

/-- A computation keeps a property of machines, however it ends. -/
def Preserves {α : Type} (E : Event → Prop) (I : Machine → Prop) (x : Watched α) : Prop :=
  ∀ callers m, I m → Meets E x callers m (fun _ => I) (fun _ => I)

/-- A property of machines that does not look at the store, and what it says of the notes on the
value of an expression. -/
structure Stable (E : Event → Prop) (I : Machine → Prop) : Prop where
  store : ∀ {m} s, I m → I { m with store := s }
  steps : ∀ {callers m} s, I m → E (.steps callers m { m with store := s })
  expr : ∀ {m} e, I m → E (.enters (.expr e) m) ∧ (∀ v, E (.gives (.expr e) v m)) ∧
    ∀ d, E (.fails (.expr e) d m)
  exprFor : ∀ {m} e t, I m → E (.enters (.exprFor e t) m) ∧ (∀ v, E (.gives (.exprFor e t) v m)) ∧
    ∀ d, E (.fails (.exprFor e t) d m)

section Rules

variable {α β : Type} {E : Event → Prop} {I : Machine → Prop} {x : Watched α}

theorem Preserves.bind {f : α → Watched β} (hx : Preserves E I x)
    (hf : ∀ a, Preserves E I (f a)) : Preserves E I (x >>= f) := fun callers m h =>
  (hx callers m h).bind fun a t ht => hf a callers t ht

theorem Preserves.attempt (hx : Preserves E I x) : Preserves E I (Runs.attempt x) :=
  fun callers m h => meets_attempt (hx callers m h)

theorem preserves_pure {a : α} : Preserves E I (pure a : Watched α) := fun _ _ h => meets_pure h

theorem preserves_exhausted : Preserves E I (Runs.exhausted : Watched α) := fun _ _ _ =>
  meets_exhausted

theorem preserves_look {f : Machine → Except Diagnostic α} :
    Preserves E I (Runs.look f : Watched α) := fun _ _ h =>
  meets_look (fun _ _ => h) fun _ _ => h

theorem preserves_fail {d : Diagnostic} : Preserves E I (fail d : Watched α) := preserves_look

theorem preserves_read {f : Machine → α} : Preserves E I (read f : Watched α) := preserves_look

theorem preserves_ask {p : Position} {f : Store → Except Fault α} :
    Preserves E I (ask p f : Watched α) := preserves_look

theorem preserves_ofResult {r : Except Diagnostic α} :
    Preserves E I (ofResult r : Watched α) := fun _ _ h =>
  meets_ofResult (fun _ _ => h) fun _ _ => h

theorem preserves_ofExcept {p : Position} {r : Except Fault α} :
    Preserves E I (Eval.ofExcept p r : Watched α) := fun _ _ h =>
  meets_ofExcept (fun _ _ => h) fun _ _ => h

theorem preserves_ofOption {p : Position} {fault : Fault} {r : Option α} :
    Preserves E I (ofOption p fault r : Watched α) := fun _ _ h =>
  meets_ofOption (fun _ _ => h) fun _ => h

theorem Stable.onStore (hI : Stable E I) {f : Store → α × Store} :
    Preserves E I (onStore f : Watched α) := fun _ _ h =>
  meets_onStore (hI.steps _ h) (hI.store _ h)

theorem Stable.edit (hI : Stable E I) {p : Position} {f : Store → Except Fault (α × Edit)} :
    Preserves E I (edit p f : Watched α) := fun _ _ h =>
  meets_edit (fun _ _ _ => ⟨hI.steps _ h, hI.store _ h⟩) fun _ _ => h

theorem Stable.withinExpr (hI : Stable E I) {e : Expr} {x : Watched Value}
    (hx : Preserves E I x) : Preserves E I (Runs.within (.expr e) x) := fun callers m h =>
  meets_within (hI.expr e h).1 <| (hx callers m h).imp
    (fun v _ h => ⟨(hI.expr e h).2.1 v, h⟩) fun d _ h => ⟨(hI.expr e h).2.2 d, h⟩

theorem Stable.withinExprFor (hI : Stable E I) {e : Expr} {t : Ty} {x : Watched Value}
    (hx : Preserves E I x) : Preserves E I (Runs.within (.exprFor e t) x) := fun callers m h =>
  meets_within (hI.exprFor e t h).1 <| (hx callers m h).imp
    (fun v _ h => ⟨(hI.exprFor e t h).2.1 v, h⟩) fun d _ h => ⟨(hI.exprFor e t h).2.2 d, h⟩

theorem Stable.composed (hI : Stable E I) : Composed Watched fun x => Preserves E I x where
  pure _ := preserves_pure
  bind hx hk := hx.bind hk
  fail _ := preserves_fail
  ask _ _ := preserves_ask
  onStore _ := hI.onStore
  edit _ _ := hI.edit
  within _ _ hx := hI.withinExpr hx

end Rules

/-- The parts of the evaluator that give values keep a property of machines. -/
structure Evaluates (E : Event → Prop) (I : Machine → Prop) (n : Nat) : Prop where
  expr : ∀ e, Preserves E I (expr n e)
  exprs : ∀ es, Preserves E I (exprs n es)
  exprFor : ∀ e t, Preserves E I (exprFor n e t)
  indexOf : ∀ e, Preserves E I (indexOf n e)
  indexOf? : ∀ e, Preserves E I (indexOf? n e)
  condition : ∀ e c, Preserves E I (condition n e c)
  goesOn : ∀ e, Preserves E I (goesOn n e)

namespace Evaluates

variable {E : Event → Prop} {I : Machine → Prop} {n : Nat}

theorem zero : Evaluates E I 0 where
  expr _ := preserves_exhausted
  exprs _ := preserves_exhausted
  exprFor _ _ := preserves_exhausted
  indexOf _ := preserves_exhausted
  indexOf? _ := preserves_exhausted
  condition _ _ := preserves_exhausted
  goesOn _ := preserves_exhausted

theorem exprFor_succ (hI : Stable E I) (ih : Evaluates E I n) (e : Expr) (t : Ty) :
    Preserves E I (Eval.exprFor (n + 1) e t) := by
  simp only [Eval.exprFor]
  refine hI.withinExprFor ?_
  split
  · exact hI.onStore.bind fun _ => preserves_pure
  · exact preserves_fail
  · exact ih.expr e

/-- With one unit of fuel more, the value of an expression keeps what its parts and the calls it
makes keep. -/
theorem succ (hI : Stable E I) (ih : Evaluates E I n)
    (hcall : ∀ f es p, Preserves E I (Eval.call n f es p)) : Evaluates E I (n + 1) where
  expr e := hI.composed.expr_succ (fun _ _ _ => preserves_look) (fun e _ => ih.expr e)
    (fun e _ => ih.indexOf e) (fun es _ => ih.exprs es) fun _ name es _ _ => hcall name es _
  exprs es := hI.composed.exprs_succ (fun e _ => ih.expr e) fun _ es _ => ih.exprs es
  exprFor := exprFor_succ hI ih
  indexOf e := hI.composed.indexOf_succ (ih.expr e)
  indexOf? e := by
    cases e with
    | none => exact preserves_pure
    | some e => exact (ih.indexOf e).bind fun _ => preserves_pure
  condition e _ := (ih.expr e).bind fun v => by
    cases v <;> first | exact preserves_pure | exact preserves_fail
  goesOn e := by
    cases e with
    | none => exact preserves_pure
    | some e => exact ih.condition e _

end Evaluates

end Watched

end Primer
