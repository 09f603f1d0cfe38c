import Primer.Proofs.History
import Primer.Proofs.Walk

/-!
# Scopes are balanced on every path

Whatever a statement does and however it ends, the scopes around it are those before it, with at
most new names in the innermost frame (`Scopes.Gains`). A value leaves the innermost frame as it is
too. The same holds of a check, and the check of a function also leaves alone which function is
being checked and whether it has returned a value.
-/

namespace Primer

namespace Scopes

variable {β : Type}

/-- All frames, the innermost first and the global one last. -/
def all (s : Scopes β) : List (Frame β) := s.frames ++ [s.globals]

/-- Nothing has changed but that the innermost frame may have gained names. -/
structure Gains (s t : Scopes β) : Prop where
  depth : t.depth = s.depth
  labels : t.labels = s.labels
  outer : t.all.tail = s.all.tail
  /-- What the innermost frame had is still there, after what it has gained. -/
  kept : s.innermost <:+ t.innermost
  /-- What it has gained hides nothing it had. -/
  found : s.innermost.Within t.innermost

theorem gains_of_extend {s t : Scopes β} (h : ∃ added, t = s.extend added)
    (hw : s.innermost.Within t.innermost) : s.Gains t := by
  obtain ⟨added, rfl⟩ := h
  obtain ⟨globals, _ | ⟨frame, frames⟩, labels⟩ := s
  · exact ⟨rfl, rfl, rfl, List.suffix_append added globals, hw⟩
  · exact ⟨rfl, rfl, rfl, List.suffix_append added frame, hw⟩

end Scopes

/-! ## Runs -/

/-- Every state a computation ends in has a property. -/
def Outcome.Leaves {σ α : Type} (P : σ → Prop) : Outcome σ α → Prop
  | .done _ s => P s
  | .failed _ s => P s
  | .exhausted => True

theorem Outcome.Leaves.imp {σ α : Type} {P Q : σ → Prop} {o : Outcome σ α} (h : o.Leaves P)
    (hpq : ∀ s, P s → Q s) : o.Leaves Q := by
  cases o with
  | done _ s => exact hpq s h
  | failed _ s => exact hpq s h
  | exhausted => trivial

/-- The scopes of a machine have at most gained names, and its constructs and calls are the same. -/
structure Machine.Balanced (m t : Machine) : Prop where
  scopes : m.names.scopes.Gains t.names.scopes
  constructs : t.constructs = m.constructs
  depth : t.depth = m.depth

theorem Machine.Grows.balanced {m t : Machine} (h : m.Grows t) : m.Balanced t :=
  ⟨Scopes.gains_of_extend h.scopes h.innermost, h.constructs, h.depth⟩

namespace Watched

open Eval

variable {α : Type} {x : Watched α} {m : Machine}

/-- What a watched computation preserves holds where the run without a watch ends. -/
theorem Preserves.leaves {I : Machine → Prop} (hx : Preserves (fun _ => True) I x) (hm : I m) :
    (run [] x m).Leaves I := by
  have hr := (hx [] m hm).2
  unfold run
  rcases h : (x [] m).result with _ | _ | _ <;> rw [h] at hr
  · trivial
  · exact hr
  · exact hr

end Watched

namespace Eval

open Watched (balanced unwatched)

theorem perform_balanced (fuel : Nat) (s : Stmt) (m : Machine) :
    ((perform fuel s : Eval Unit) m).Leaves m.Balanced := by
  rw [← (unwatched fuel).perform [] s]
  have h := ((balanced fuel).perform s m).leaves (Machine.Keeps.refl m).grows
  exact h.imp fun _ ht => ht.balanced

theorem stmt_balanced (fuel : Nat) (s : Stmt) (m : Machine) :
    ((stmt fuel s : Eval Unit) m).Leaves m.Balanced := by
  rw [← (unwatched fuel).stmt [] s]
  have h := ((balanced fuel).stmt s m).leaves (Machine.Keeps.refl m).grows
  exact h.imp fun _ ht => ht.balanced

theorem expr_keeps (fuel : Nat) (e : Expr) (m : Machine) :
    ((expr fuel e : Eval Value) m).Leaves m.Keeps := by
  rw [← (unwatched fuel).expr [] e]
  exact ((balanced fuel).expr e m).leaves (.refl m)

theorem exprFor_keeps (fuel : Nat) (e : Expr) (target : Ty) (m : Machine) :
    ((exprFor fuel e target : Eval Value) m).Leaves m.Keeps := by
  rw [← (unwatched fuel).exprFor [] e target]
  exact (((balanced fuel).values m).exprFor e target).leaves (.refl m)

theorem call_keeps (fuel : Nat) (name : String) (arguments : List Expr) (p : Position)
    (m : Machine) : ((call fuel name arguments p : Eval Value) m).Leaves m.Keeps := by
  rw [← (unwatched fuel).call [] name arguments p]
  exact ((balanced fuel).call name arguments p m).leaves (.refl m)

end Eval

/-! ## Checks -/

namespace Checker

/-- The scopes of a check have at most gained names, and it is in the same function. -/
structure Balanced (c c' : Checker) : Prop where
  scopes : c.scopes.Gains c'.scopes
  current : c'.current = c.current

/-- A check is where it was, in the scopes and the function it was in. -/
structure Restored (c c' : Checker) : Prop where
  scopes : c'.scopes = c.scopes
  current : c'.current = c.current
  returnFound : c'.returnFound = c.returnFound

theorem stmt_balanced (s : Stmt) (c : Checker) : c.Balanced (stmt s c) := by
  have h := stmt_grows s c
  exact ⟨Scopes.gains_of_extend h.scopes h.innermost, h.current⟩

theorem function_restored (f : Function) (c : Checker) : c.Restored (c.function f) := by
  have h := (function_keeps c f).1
  exact ⟨congrArg Names.scopes h.names, rfl, rfl⟩

end Checker

/-- Statements, values and calls leave the scopes, constructs and calls of a machine balanced,
whether they end or fail; statements, expressions and function bodies do so in a check. -/
theorem scopes_balanced :
    (∀ (fuel : Nat) (s : Stmt) (m : Machine),
      ((Eval.perform fuel s : Eval Unit) m).Leaves m.Balanced ∧
        ((Eval.stmt fuel s : Eval Unit) m).Leaves m.Balanced) ∧
    (∀ (fuel : Nat) (e : Expr) (m : Machine),
      ((Eval.expr fuel e : Eval Value) m).Leaves m.Keeps ∧
        ∀ target, ((Eval.exprFor fuel e target : Eval Value) m).Leaves m.Keeps) ∧
    (∀ (fuel : Nat) (name : String) (arguments : List Expr) (p : Position) (m : Machine),
      ((Eval.call fuel name arguments p : Eval Value) m).Leaves m.Keeps) ∧
    (∀ (s : Stmt) (c : Checker), c.Balanced (Checker.stmt s c)) ∧
    (∀ (e : Expr) (c : Checker), c.Restored (c.observe (c.infer e)) ∧
      ∀ target, c.Restored (c.observe (c.inferFor e target))) ∧
    ∀ (f : Function) (c : Checker), c.Restored (c.function f) :=
  ⟨fun fuel s m => ⟨Eval.perform_balanced fuel s m, Eval.stmt_balanced fuel s m⟩,
    fun fuel e m => ⟨Eval.expr_keeps fuel e m, fun t => Eval.exprFor_keeps fuel e t m⟩,
    Eval.call_keeps, Checker.stmt_balanced,
    fun _ _ => ⟨⟨rfl, rfl, rfl⟩, fun _ => ⟨rfl, rfl, rfl⟩⟩, Checker.function_restored⟩

end Primer
