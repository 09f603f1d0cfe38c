import Primer.Proofs.Preserves
import Primer.Proofs.Respect

/-!
# Invariants of machines

A property that every step of the evaluator keeps (`Machine.Invariant`) holds of every machine of a
run, if it holds of the first one.
-/

namespace Primer

/-- A property of machines that every step of the evaluator keeps. -/
structure Machine.Invariant (I : Machine → Prop) : Prop where
  /-- Nothing but the store, the output and what is pending has changed. -/
  core {m} (c : Core) (h : I m) : I (m.withCore c)
  failure {m} (d : Option Diagnostic) (h : I m) : I { m with failure := d }
  note {m} (d : Diagnostic) (h : I m) : I (m.note d)
  introduce {m name} (ty category p value) (hfree : m.scopes.declaredHere name = false)
    (h : I m) : I (m.introduce name ty category p value)
  replace {m} (name v row) (h : I m) : I (m.replace name v row)
  enterScope {m} (h : I m) : I m.enterScope
  leaveScope {m} (h : I m) : I m.leaveScope
  enterLabelled {m} (label : String) (h : I m) : I (m.enterLabelled label)
  leaveLabelled {m} (h : I m) : I m.leaveLabelled
  enterCall {m} (name : String) (hm : m.mayCall = true) (h : I m) : I (m.enterCall name).2
  leaveCall {m} (c : Caller) (h : I m) : I (m.leaveCall c)

/-- What holds of a machine and where every note ends holds where the notes lead to. -/
theorem Path.last_of {I : Machine → Prop} {m t : Machine} {es : List Event} (h : Path m es t)
    (hm : I m) (hes : ∀ e ∈ es, I e.target) : I t := by
  induction h with
  | nil => exact hm
  | cons _ ih =>
    obtain ⟨he, hes⟩ := List.forall_mem_cons.1 hes
    exact ih he hes

/-- A property holds before and after what is noted. -/
def Event.Within (I : Machine → Prop) (e : Event) : Prop := I e.source ∧ I e.target

namespace Watched

open Eval

variable {α : Type} {I : Machine → Prop}

/-- A computation keeps a property at every moment. -/
abbrev Maintains (I : Machine → Prop) (x : Watched α) : Prop := Preserves (Event.Within I) I x

theorem maintains_step {g : Machine → α × Machine} (hg : ∀ m, I m → I (g m).2) :
    Maintains I (Runs.step g) := fun _ m h => meets_step ⟨h, hg m h⟩ (hg m h)

theorem maintains_update {g : Machine → Machine} (hg : ∀ m, I m → I (g m)) :
    Maintains I (update g) :=
  maintains_step hg

theorem Maintains.between {enter leave : Machine → Machine} {x : Watched α} (hx : Maintains I x)
    (henter : ∀ m, I m → I (enter m)) (hleave : ∀ m, I m → I (leave m)) :
    Maintains I (between enter leave x) :=
  (maintains_update henter).bind fun _ => hx.attempt.bind fun _ =>
    (maintains_update hleave).bind fun _ => preserves_ofResult

theorem Maintains.within {j : Job} {x : Watched j.Result} (hx : Maintains I x) :
    Maintains I (Runs.within j x) := fun callers m h =>
  meets_within ⟨h, h⟩ <| (hx callers m h).imp (fun _ _ h => ⟨⟨h, h⟩, h⟩) fun _ _ h => ⟨⟨h, h⟩, h⟩

end Watched

namespace Machine.Invariant

open Eval Watched

variable {α : Type} {I : Machine → Prop} (h : Invariant I)
include h

theorem declare {name : String} {ty : Ty} {category : Category} {p : Position}
    {value : Option Value} : Maintains I (Eval.declare name ty category p value) := fun _ _ hm =>
  meets_declare (fun hfree =>
    have ht := h.introduce ty category p value hfree hm
    ⟨⟨hm, ht⟩, ht⟩) fun _ => hm

theorem inCall {name : String} {p : Position} {x : Watched α} (hx : Maintains I x) :
    Maintains I (Eval.inCall name p x) := fun _ m hm =>
  have hleave : ∀ t, I t → I (t.leaveCall (m.enterCall name).1) := fun _ ht => h.leaveCall _ ht
  meets_inCall (fun _ => hm) (fun hc => ⟨hm, h.enterCall name hc hm⟩) fun hc =>
    (hx _ _ (h.enterCall name hc hm)).imp (fun _ t ht => ⟨⟨ht, hleave t ht⟩, hleave t ht⟩)
      fun _ t ht => ⟨⟨ht, hleave t ht⟩, hleave t ht⟩

theorem guarded {x : Watched Unit} (hx : Maintains I x) : Maintains I (Eval.guarded x) :=
  hx.attempt.bind fun r => by
    cases r with
    | ok => exact preserves_pure
    | error d =>
      refine preserves_read.bind fun b => ?_
      cases b
      · exact maintains_update fun _ hm => h.note d hm
      · exact Maintains.within (j := .failCall d) (maintains_update fun _ hm => h.failure _ hm)

theorem signal {m : Machine} (g : Option Signal) (hm : I m) : I { m with signal := g } :=
  h.core { m.core with signal := g } hm

theorem conclude (g : Function) : Maintains I (Eval.conclude g) :=
  (maintains_step fun _ hm => h.failure none hm).bind fun d => by
    cases d with
    | some d => exact preserves_fail
    | none =>
      refine (maintains_step fun m hm => ?_).bind fun _ =>
        (maintains_step fun _ hm => h.signal none hm).bind fun s => ?_
      · simp only [takeReturn]
        split
        · exact h.signal none hm
        · exact hm
      · cases s with
        | none => exact preserves_pure
        | some =>
          exact (maintains_update fun _ hm => h.note _ hm).bind fun _ => preserves_pure

/-- No part of the evaluator leaves an invariant. -/
theorem respected : Respected .same True fun _ x _ => Maintains I x where
  pure _ := preserves_pure
  bind hx hk := hx.bind hk
  exhausted _ := preserves_exhausted
  within hx := hx.within
  look _ := preserves_look
  step hg := maintains_step fun m hm => by
    rw [hg.frame m]
    exact h.core _ hm
  valueOf _ _ := preserves_look
  typeOf _ _ := preserves_look
  function hsome hnone := preserves_read.bind fun g => by
    cases g with
    | none => exact hnone
    | some g => exact hsome g
  declare _ _ _ _ _ := h.declare
  declareWith _ _ _ hx := (hx.bind fun _ => preserves_ofExcept).attempt.bind fun r => by
    cases r with
    | ok => exact h.declare
    | error => exact h.declare.bind fun _ => preserves_fail
  assign _ _ _ := preserves_look.bind fun _ => maintains_update fun _ hm => h.replace _ _ _ hm
  inScope hx := hx.between (fun _ => h.enterScope) fun _ => h.leaveScope
  inLabelled _ hx := hx.between (fun _ => h.enterLabelled _) fun _ => h.leaveLabelled
  inConstruct k hx := hx.between
    (fun m => h.core { m.core with constructs := k :: m.constructs })
    fun m => h.core { m.core with constructs := m.constructs.tail }
  inCall _ _ hx := h.inCall hx
  conclude g := h.conclude g
  guarded hx := h.guarded hx
  note _ := maintains_update fun _ => h.note _

/-- An invariant that holds before the first statement of a program holds at every moment of its
runs. -/
theorem history {p : Program} {limit : Nat} (hm : I (p.loaded limit)) (fuel : Nat) :
    I (p.record fuel limit).last ∧ ∀ e ∈ p.history fuel limit, I e.source ∧ I e.target := by
  have hes := (h.respected.topLevel fuel p.body [] _ hm).1
  exact ⟨(p.record fuel limit).path.last_of hm fun e he => (hes e he).2, hes⟩

end Machine.Invariant

end Primer
