import Mathlib
import Primer.Machine.Execution
import Primer.Proofs.Composed

/-!
# Calls do not see their callers

A machine is what a call of it sees (`Machine.alone`) and what a call sets aside of it
(`Machine.caller`). A computation is isolated if it runs the same way whatever is set aside, and
leaves that as it is. A call sets its caller aside whatever its body does (`isolated_inCall`), and
expressions without names look at nothing else, so a call with such arguments is isolated.
-/

namespace Primer

/-! ## What a call sets aside -/

namespace Machine

/-- What a call sets aside of a machine. -/
def caller (m : Machine) : Caller := ⟨m.scopes.detach.1, m.constructs⟩

/-- A machine without what a call sets aside. -/
def alone (m : Machine) : Machine := { m with scopes := m.scopes.detach.2, constructs := [] }

/-- A machine with the scopes and constructs of a caller over its globals. -/
def under (c : Caller) (m : Machine) : Machine :=
  { m with scopes := m.scopes.reattach c.detached, constructs := c.constructs }

variable (m : Machine) (c : Caller)

@[simp] theorem alone_under : (m.under c).alone = m.alone := rfl

@[simp] theorem caller_under : (m.under c).caller = c := rfl

/-- What the body of a call starts from does not depend on the caller. -/
theorem enterCall_alone (name : String) : (m.alone.enterCall name).2 = (m.enterCall name).2 := rfl

end Machine

def Outcome.onState {σ α : Type} (f : σ → σ) : Outcome σ α → Outcome σ α
  | .done a s => .done a (f s)
  | .failed d s => .failed d (f s)
  | .exhausted => .exhausted

namespace Eval

open Machine

variable {α β : Type} {x : Eval α}

/-- A computation that neither looks at nor changes what a call would set aside. -/
def Isolated (x : Eval α) : Prop := ∀ m, x m = (x m.alone).onState (under m.caller)

theorem isolated_pure {a : α} : Isolated (pure a) := fun _ => rfl

theorem isolated_exhausted : Isolated (Runs.exhausted : Eval α) := fun _ => rfl

/-- From two machines that differ in what a call would set aside, an isolated computation ends in
the same way. -/
theorem Isolated.under (hx : Isolated x) (c : Caller) (t : Machine) :
    x (t.under c) = (x t).onState (Machine.under c) := by
  rw [hx (t.under c), hx t, alone_under, caller_under]
  cases x t.alone <;> rfl

theorem Isolated.bind {f : α → Eval β} (hx : Isolated x) (hf : ∀ a, Isolated (f a)) :
    Isolated (x >>= f) := by
  intro m
  simp only [Effect.bind_apply]
  rw [hx m]
  rcases x m.alone with ⟨a, t⟩ | ⟨d, t⟩ | _
  · exact (hf a).under m.caller t
  · rfl
  · rfl

theorem isolated_look {f : Machine → Except Diagnostic α} (hf : ∀ m, f m = f m.alone) :
    Isolated (Runs.look f) := by
  intro m
  simp only [Runs.look]
  rw [hf m]
  cases f m.alone <;> rfl

theorem isolated_step {f : Machine → α × Machine}
    (hf : ∀ m, f m = ((f m.alone).1, (f m.alone).2.under m.caller)) : Isolated (Runs.step f) := by
  intro m
  simp only [Runs.step, Effect.step]
  rw [hf m]
  rfl

theorem isolated_fail {d : Diagnostic} : Isolated (fail d : Eval α) := isolated_look fun _ => rfl

theorem isolated_ask {p : Position} {f : Store → Except Fault α} : Isolated (ask p f) :=
  isolated_look fun _ => rfl

theorem isolated_onStore {f : Store → α × Store} : Isolated (onStore f) :=
  isolated_step fun _ => rfl

theorem isolated_edit {p : Position} {f : Store → Except Fault (α × Edit)} :
    Isolated (edit p f) :=
  isolated_ask.bind fun _ => (isolated_step fun _ => rfl).bind fun _ => isolated_pure

theorem isolated_composed : Composed (Effect Machine) fun x => Isolated x where
  pure _ := isolated_pure
  bind hx hk := hx.bind hk
  fail _ := isolated_fail
  ask _ _ := isolated_ask
  onStore _ := isolated_onStore
  edit _ _ := isolated_edit
  within _ _ hx := hx

/-- A call that may run starts its body from the globals alone and gives the caller back what was
set aside, however the body ends. -/
theorem inCall_apply (name : String) (p : Position) (m : Machine) :
    inCall name p x m = if m.mayCall then
        (x (m.enterCall name).2).onState (·.leaveCall (m.enterCall name).1)
      else .failed ⟨.callDepthExceeded m.limit, p⟩ m := by
  unfold inCall
  rw [Effect.bind_apply]
  by_cases hm : m.mayCall = true
  · simp only [Runs.look, hm, ↓reduceIte]
    change Effect.bind _ _ _ = _
    simp only [Effect.bind, update, Runs.step, Runs.attempt, Effect.attempt]
    rcases x (m.enterCall name).2 with _ | _ | _ <;> rfl
  · simp only [Runs.look, hm]
    rfl

/-- A call is isolated whatever its body does. -/
theorem isolated_inCall {name : String} {p : Position} : Isolated (inCall name p x) := by
  intro m
  rw [inCall_apply, inCall_apply, enterCall_alone]
  by_cases hm : m.mayCall = true
  · rw [if_pos hm, if_pos (show m.alone.mayCall = true from hm)]
    rcases x (m.enterCall name).2 with _ | _ | _ <;> rfl
  · rw [if_neg hm, if_neg (show ¬ m.alone.mayCall = true from hm)]
    rfl

end Eval

/-! ## Expressions without names -/

mutual

/-- Whether an expression names no variable. -/
def Expr.isClosed : Expr → Bool
  | .name .. => false
  | .arithmetic _ _ left right => left.isClosed && right.isClosed
  | .negate _ operand => operand.isClosed
  | .relational _ _ left right => left.isClosed && right.isClosed
  | .logical _ _ left right => left.isClosed && right.isClosed
  | .not _ operand => operand.isClosed
  | .cast _ _ operand => operand.isClosed
  | .group _ inner => inner.isClosed
  | .call _ _ arguments => allClosed arguments
  | .method _ receiver _ arguments => receiver.isClosed && allClosed arguments
  | .index _ target index => target.isClosed && index.isClosed
  | .cell _ target index column => target.isClosed && index.isClosed && column.isClosed
  | .vector _ items => allClosed items
  | .matrix _ rows => allClosed rows
  | .int .. => true
  | .double .. => true
  | .bool .. => true
  | .char .. => true
  | .string .. => true
  | .newList .. => true

def allClosed : List Expr → Bool
  | [] => true
  | e :: rest => e.isClosed && allClosed rest

end

theorem allClosed_iff {es : List Expr} : allClosed es = true ↔ ∀ e ∈ es, e.isClosed = true := by
  induction es with
  | nil => simp [allClosed]
  | cons e es ih => simp [allClosed, ih]

theorem Expr.isClosed_parts {e e' : Expr} (h : e.isClosed = true) (he : e' ∈ e.parts) :
    e'.isClosed = true := by
  cases e <;> simp only [parts, List.mem_cons, List.not_mem_nil, or_false] at he <;>
    simp only [isClosed, Bool.and_eq_true, allClosed_iff] at h
  case call | vector | matrix => exact h e' he
  case method =>
    rcases he with rfl | he
    · exact h.1
    · exact h.2 e' he
  all_goals grind

namespace Eval

/-- With some fuel, what has no names is isolated. -/
structure Isolates (n : Nat) : Prop where
  expr : ∀ e : Expr, e.isClosed = true → Isolated (expr n e)
  exprs : ∀ es : List Expr, (∀ e ∈ es, e.isClosed = true) → Isolated (exprs n es)
  indexOf : ∀ e : Expr, e.isClosed = true → Isolated (indexOf n e)
  call : ∀ name (es : List Expr) p, (∀ e ∈ es, e.isClosed = true) → Isolated (call n name es p)

namespace Isolates

variable {n : Nat} (ih : Isolates n)
include ih

theorem expr_succ (e : Expr) (he : e.isClosed = true) : Isolated (Eval.expr (n + 1) e) := by
  have hparts : ∀ e' ∈ e.parts, e'.isClosed = true := fun e' h => e.isClosed_parts he h
  refine isolated_composed.expr_succ (fun _ _ h => ?_) (fun e' h => ih.expr e' (hparts e' h))
    (fun e' h => ih.indexOf e' (hparts e' h))
    (fun es h => ih.exprs es fun e' h' => hparts e' (h e' h')) fun _ name es h _ => ?_
  · rw [h] at he
    cases he
  · exact ih.call name es _ (by simpa [h, Expr.parts] using hparts)

theorem exprs_succ (es : List Expr) (hes : ∀ e ∈ es, e.isClosed = true) :
    Isolated (Eval.exprs (n + 1) es) :=
  isolated_composed.exprs_succ (fun e he => ih.expr e (hes e he)) fun _ rest h =>
    ih.exprs rest fun e he => hes e (h ▸ List.mem_cons_of_mem _ he)

theorem indexOf_succ (e : Expr) (he : e.isClosed = true) : Isolated (Eval.indexOf (n + 1) e) :=
  isolated_composed.indexOf_succ (ih.expr e he)

theorem call_succ (name : String) (es : List Expr) (p : Position)
    (hes : ∀ e ∈ es, e.isClosed = true) : Isolated (Eval.call (n + 1) name es p) := by
  rw [Eval.call]
  -- The arguments are evaluated under the caller, everything after them in the call.
  have h := isolated_composed
  exact h.bind (isolated_look fun _ => rfl) fun _ => h.bind (h.ofOption _ _ _) fun _ =>
    h.bind (h.ofExcept _ _) fun _ => h.bind (ih.exprs es hes) fun _ =>
    h.bind (h.ofResult _) fun _ => h.bind isolated_inCall fun _ => h.ofExcept _ _

end Isolates

theorem isolates (n : Nat) : Isolates n := by
  induction n with
  | zero =>
    exact {
      expr := fun _ _ => isolated_exhausted
      exprs := fun _ _ => isolated_exhausted
      indexOf := fun _ _ => isolated_exhausted
      call := fun _ _ _ _ => isolated_exhausted }
  | succ n ih =>
    exact {
      expr := ih.expr_succ
      exprs := ih.exprs_succ
      indexOf := ih.indexOf_succ
      call := ih.call_succ }

end Eval

/-! ## Two callers -/

/-- Two computations end alike under two callers: with the same value or the same diagnostic,
machines that differ at most in what a call sets aside, and each caller as it was. -/
inductive Outcome.Alike {α : Type} (c c' : Caller) :
    Outcome Machine α → Outcome Machine α → Prop
  | done {a t t'} (h : t.alone = t'.alone) (hc : t.caller = c) (hc' : t'.caller = c') :
    Alike c c' (.done a t) (.done a t')
  | failed {d t t'} (h : t.alone = t'.alone) (hc : t.caller = c) (hc' : t'.caller = c') :
    Alike c c' (.failed d t) (.failed d t')
  | exhausted : Alike c c' .exhausted .exhausted

theorem Outcome.alike_onState {α : Type} (c c' : Caller) (o : Outcome Machine α) :
    Alike c c' (o.onState (Machine.under c)) (o.onState (Machine.under c')) := by
  cases o with
  | done => exact .done rfl rfl rfl
  | failed => exact .failed rfl rfl rfl
  | exhausted => exact .exhausted

/-- A call whose arguments name no variable does the same from any two machines that differ only in
the scopes above the globals and in the constructs, and leaves those as they were. -/
theorem Eval.call_alike {m m' : Machine} (h : m.alone = m'.alone) (fuel : Nat) (name : String)
    (arguments : List Expr) (hclosed : ∀ e ∈ arguments, e.isClosed = true) (p : Position) :
    Outcome.Alike m.caller m'.caller ((Eval.call fuel name arguments p : Eval Value) m)
      ((Eval.call fuel name arguments p : Eval Value) m') := by
  have hi := (isolates fuel).call name arguments p hclosed
  rw [hi m, hi m', ← h]
  exact Outcome.alike_onState ..

/-- A function that adds its argument to a global, called at top level and from inside a loop with
a variable of the same name. -/
theorem Eval.call_alike_shadowed :
    let g : Expr := .name default "g"
    let f : Function := ⟨"f", [⟨"n", .int, default⟩], .int,
      ⟨[.assign default "g" (.arithmetic default .add g (.name default "n")),
        .print default g, .giveBack default (some g)], default⟩, default⟩
    let m := ((Machine.fresh 2).register f).introduce "g" .int .plain default none
    let shadow : Symbol := ⟨⟨"g", .string, .plain, default, "Global> while(true)"⟩,
      .string "local", false, none⟩
    let m' := m.under ⟨⟨[[("g", shadow)]], ["while(true)"]⟩, [.loop]⟩
    m.alone = m'.alone ∧
      Outcome.Alike m.caller m'.caller
        ((Eval.call 20 "f" [.int default 2] default : Eval Value) m)
        ((Eval.call 20 "f" [.int default 2] default : Eval Value) m') := by
  intro g f m shadow m'
  have h : m.alone = m'.alone := rfl
  exact ⟨h, Eval.call_alike h 20 "f" [.int default 2] (by simp [Expr.isClosed]) default⟩

end Primer
