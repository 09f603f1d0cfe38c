import Primer.Machine.Execution
import Primer.Proofs.Inference

/-!
# Properties of computations

A property that the operations on values keep holds of the value of an expression if it holds of
the values of its parts, of the name it looks up and of the call it makes (`Composed.expr_succ`).
-/

namespace Primer

namespace Eval

/-- A property of computations that the operations on values keep. -/
structure Composed (ρ : Type → Type) [Runs ρ] (R : ∀ {α : Type}, ρ α → Prop) : Prop where
  pure {α} (a : α) : R (pure a : ρ α)
  bind {α β} {x : ρ α} {k : α → ρ β} (hx : R x) (hk : ∀ a, R (k a)) : R (x >>= k)
  fail {α} (d : Diagnostic) : R (fail d : ρ α)
  ask {α} (p : Position) (f : Store → Except Fault α) : R (ask p f : ρ α)
  onStore {α} (f : Store → α × Store) : R (onStore f : ρ α)
  edit {α} (p : Position) (f : Store → Except Fault (α × Edit)) : R (edit p f : ρ α)
  within (e : Expr) {x : ρ Value} (hx : R x) : R (Runs.within (.expr e) x)

namespace Composed

variable {ρ : Type → Type} [Runs ρ] {R : ∀ {α : Type}, ρ α → Prop} {α : Type}

section Rules

variable (h : Composed ρ R)
include h

theorem ofResult (r : Except Diagnostic α) : R (ofResult r : ρ α) := by
  cases r with
  | ok a => exact h.pure a
  | error d => exact h.fail d

theorem ofExcept (p : Position) (r : Except Fault α) : R (Eval.ofExcept p r : ρ α) := by
  cases r with
  | ok a => exact h.pure a
  | error f => exact h.fail ⟨f, p⟩

theorem ofOption (p : Position) (fault : Fault) (r : Option α) : R (ofOption p fault r : ρ α) := by
  cases r with
  | some a => exact h.pure a
  | none => exact h.fail ⟨fault, p⟩

/-- The value of an expression has the property if its parts do. -/
theorem expr_succ {n : Nat} {e : Expr}
    (hname : ∀ span name, e = .name span name → R (Runs.look (·.valueOf name e.position) : ρ Value))
    (hexpr : ∀ e' ∈ e.parts, R (expr n e' : ρ Value))
    (hindex : ∀ e' ∈ e.parts, R (indexOf n e' : ρ Int64))
    (hexprs : ∀ es, (∀ e' ∈ es, e' ∈ e.parts) → R (exprs n es : ρ (List Value)))
    (hcall : ∀ span name es, e = .call span name es → Builtin.ofName? name = none →
      R (call n name es e.position : ρ Value)) : R (Eval.expr (n + 1) e : ρ Value) := by
  simp only [Eval.expr]
  refine h.within e ?_
  cases e with
  | int | double | bool | char | string => exact h.pure _
  | name span name => exact hname span name rfl
  | arithmetic _ _ left right =>
    exact h.bind (hexpr left (by simp [Expr.parts])) fun _ =>
      h.bind (hexpr right (by simp [Expr.parts])) fun _ => h.ask ..
  | negate _ operand | not _ operand | cast _ _ operand =>
    exact h.bind (hexpr operand (by simp [Expr.parts])) fun _ => h.ofExcept ..
  | relational _ _ left right =>
    exact h.bind (hexpr left (by simp [Expr.parts])) fun _ =>
      h.bind (hexpr right (by simp [Expr.parts])) fun _ => h.bind (h.ask ..) fun _ => h.pure _
  | logical _ op left right =>
    have hright := hexpr right (by simp [Expr.parts])
    refine h.bind (hexpr left (by simp [Expr.parts])) fun _ => h.bind (h.ofExcept ..) fun a => ?_
    cases op <;> cases a <;> first
      | exact h.pure _
      | exact h.bind hright fun _ => h.bind (h.ofExcept ..) fun _ => h.pure _
  | group _ inner => exact hexpr inner (by simp [Expr.parts])
  | call span name arguments =>
    dsimp only
    split
    · exact h.bind (hexprs arguments fun _ he => he) fun _ => h.ask ..
    · exact hcall span name arguments rfl ‹_›
  | method _ receiver name arguments =>
    refine h.bind (hexpr receiver (by simp [Expr.parts])) fun r =>
      h.bind (hexprs arguments fun _ he => List.mem_cons_of_mem _ he) fun _ => ?_
    split
    · exact h.edit ..
    · exact h.fail _
  | index _ target index =>
    exact h.bind (hexpr target (by simp [Expr.parts])) fun _ =>
      h.bind (hindex index (by simp [Expr.parts])) fun _ => h.ask ..
  | cell _ target index column =>
    exact h.bind (hexpr target (by simp [Expr.parts])) fun _ =>
      h.bind (hindex index (by simp [Expr.parts])) fun _ => h.bind (h.ask ..) fun _ =>
      h.bind (hindex column (by simp [Expr.parts])) fun _ => h.ask ..
  | vector _ items | matrix _ items =>
    exact h.bind (hexprs items fun _ he => he) fun _ => h.bind (h.ofExcept ..) fun _ => h.onStore _
  | newList _ base =>
    cases base with
    | none => exact h.fail _
    | some => exact h.bind (h.onStore _) fun _ => h.pure _

theorem exprs_succ {n : Nat} {es : List Expr} (hexpr : ∀ e ∈ es, R (expr n e : ρ Value))
    (hexprs : ∀ e rest, es = e :: rest → R (exprs n rest : ρ (List Value))) :
    R (Eval.exprs (n + 1) es : ρ (List Value)) := by
  cases es with
  | nil => exact h.pure _
  | cons e es =>
    exact h.bind (hexpr e List.mem_cons_self) fun _ => h.bind (hexprs e es rfl) fun _ => h.pure _

theorem indexOf_succ {n : Nat} {e : Expr} (hexpr : R (expr n e : ρ Value)) :
    R (Eval.indexOf (n + 1) e : ρ Int64) :=
  h.bind hexpr fun v => by
    cases v <;> first | exact h.pure _ | exact h.fail _

end Rules

end Composed

end Eval

end Primer
