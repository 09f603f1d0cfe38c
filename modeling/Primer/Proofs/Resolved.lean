import Mathlib
import Primer.Machine.Eval
import Primer.Proofs.Inference

/-!
# Faults of operations on values

A fault is about resolution if a name stands for nothing, a call has no function, or not as many
arguments were given as the function takes. No operation on values fails with such a fault, if it
has as many arguments as it takes.
-/

namespace Primer

namespace Fault

/-- A name stands for nothing. -/
def missesName : Fault → Bool
  | undeclaredIdentifier _ => true
  | _ => false

/-- A call has no function, or not as many arguments as the function takes. -/
def missesCall : Fault → Bool
  | undeclaredFunction _ => true
  | missingArguments .. => true
  | unexpectedArguments .. => true
  | _ => false

/-- What went wrong is not that something was missing. -/
def isResolved (f : Fault) : Bool := !f.missesName && !f.missesCall

theorem missesName_of_isResolved {f : Fault} (h : f.isResolved = true) : f.missesName = false := by
  simp only [isResolved, Bool.and_eq_true, Bool.not_eq_true'] at h
  exact h.1

theorem missesCall_of_isResolved {f : Fault} (h : f.isResolved = true) : f.missesCall = false := by
  simp only [isResolved, Bool.and_eq_true, Bool.not_eq_true'] at h
  exact h.2

end Fault

/-- A result that is no fault about resolution. -/
def Resolved {α : Type} (r : Except Fault α) : Prop := ∀ f, r = .error f → f.isResolved = true

section Rules

variable {α β : Type}

theorem resolved_ok {a : α} : Resolved (.ok a) := fun _ h => by cases h

theorem resolved_error {f : Fault} (h : f.isResolved = true) :
    Resolved (.error f : Except Fault α) := fun _ hf => by
  cases hf
  exact h

theorem Resolved.bind {x : Except Fault α} {f : α → Except Fault β} (hx : Resolved x)
    (hf : ∀ a, Resolved (f a)) : Resolved (x >>= f) := by
  cases x with
  | ok a => exact hf a
  | error e => exact resolved_error (hx e rfl)

theorem Resolved.map {x : Except Fault α} (f : α → β) (hx : Resolved x) : Resolved (f <$> x) := by
  cases x with
  | ok a => exact resolved_ok
  | error e => exact resolved_error (hx e rfl)

end Rules

/-! ## Operators -/

namespace Value

theorem divide_resolved (a b : Float) : Resolved (divide a b) := by
  unfold divide
  split
  · exact resolved_error rfl
  · exact resolved_ok

theorem negate_resolved (v : Value) : Resolved v.negate := by
  cases v <;> first | exact resolved_ok | exact resolved_error rfl

theorem not_resolved (v : Value) : Resolved v.not := by
  cases v <;> first | exact resolved_ok | exact resolved_error rfl

theorem truth_resolved (op : LogicalOp) (v : Value) : Resolved (v.truth op) := by
  unfold truth
  split
  · exact resolved_ok
  · exact resolved_error rfl

theorem cast_resolved (target : Ty) (v : Value) : Resolved (v.cast target) := by
  unfold cast
  repeat' split
  all_goals first | exact resolved_ok | exact resolved_error rfl

theorem step_resolved (up : Bool) (v : Value) : Resolved (v.step up) := by
  unfold step
  repeat' split
  all_goals first | exact resolved_ok | exact resolved_error rfl

theorem convert_resolved (target : Ty) (owner : String) (v : Value) :
    Resolved (v.convert target owner) := by
  unfold convert
  split
  · exact resolved_ok
  · exact resolved_error rfl

theorem widen_resolved (base : Option Scalar) (next : Scalar) : Resolved (widen base next) := by
  cases base with
  | none => exact resolved_ok
  | some b =>
    simp only [widen, unifyBases]
    split
    · exact resolved_ok
    · exact resolved_error rfl

theorem commonBase_resolved (base : Option Scalar) (vs : List Value) :
    Resolved (commonBase base vs) := by
  induction vs generalizing base with
  | nil =>
    cases base
    · exact resolved_error rfl
    · exact resolved_ok
  | cons v vs ih =>
    simp only [commonBase]
    split
    · exact resolved_error rfl
    · split
      · exact ih _
      · exact resolved_error (widen_resolved base _ _ ‹_›)

theorem commonRowBase_resolved (base : Option Scalar) (vs : List Value) :
    Resolved (commonRowBase base vs) := by
  induction vs generalizing base with
  | nil =>
    cases base
    · exact resolved_error rfl
    · exact resolved_ok
  | cons v vs ih =>
    cases v with
    | vector q =>
      simp only [commonRowBase]
      split
      · exact ih _
      · exact resolved_error (widen_resolved base _ _ ‹_›)
    | _ =>
      simp only [commonRowBase]
      exact resolved_error rfl

end Value

namespace Store

open Value (divide_resolved convert_resolved)

theorem arithmetic_resolved (s : Store) (op : ArithmeticOp) (a b : Value) :
    Resolved (s.arithmetic op a b) := by
  simp only [arithmetic, Value.intArithmetic, Value.doubleArithmetic]
  repeat' split
  all_goals first | exact resolved_ok | exact resolved_error rfl | exact divide_resolved _ _

theorem relational_resolved (s : Store) (op : RelationalOp) (a b : Value) :
    Resolved (s.relational op a b) := by
  unfold relational
  repeat' split
  all_goals first | exact resolved_ok | exact resolved_error rfl

theorem element_resolved (s : Store) (v : Value) (i : Int64) : Resolved (s.element v i) := by
  unfold element
  repeat' split
  all_goals first | exact resolved_ok | exact resolved_error rfl

theorem cell_resolved (s : Store) (v row : Value) (i : Int64) : Resolved (s.cell v row i) := by
  cases v with
  | matrix => exact element_resolved s row i
  | _ => exact resolved_error rfl

theorem slot_resolved (s : Store) (v : Value) (i : Int64) (j : Option Int64) :
    Resolved (s.slot v i j) := by
  unfold slot
  split
  case h_4 =>
    split
    · exact resolved_ok
    · exact resolved_error rfl
    · exact resolved_error (element_resolved s _ _ _ ‹_›)
  all_goals first | exact resolved_ok | exact resolved_error rfl

theorem write_resolved (s : Store) (container v : Value) (i : Int64) (j : Option Int64)
    (owner : String) : Resolved (s.write container i j v owner) := by
  refine (slot_resolved s container i j).bind fun slot => (convert_resolved _ _ v).bind fun w =>
    Resolved.bind ?_ fun _ => resolved_ok
  unfold inBounds
  split
  · exact resolved_ok
  · exact resolved_error rfl

end Store

/-! ## Functions and methods -/

theorem checkArity_resolved {name : String} {expected received : Nat}
    (h : expected = received) : Resolved (checkArity name expected received) := by
  rw [(checkArity_ok (u := ())).2 h]
  exact resolved_ok

theorem Builtin.orInvalid_resolved (b : Builtin) (v : Value) (w : Option Value) :
    Resolved (b.orInvalid v w) := by
  cases w
  · exact resolved_error rfl
  · exact resolved_ok

theorem Builtin.call_resolved {b : Builtin} {s : Store} {vs : List Value}
    (h : b.arity = vs.length) : Resolved (b.call s vs) := by
  refine (checkArity_resolved h).bind fun _ => ?_
  unfold apply
  repeat' split
  all_goals first
    | exact resolved_ok
    | exact resolved_error rfl
    | exact orInvalid_resolved _ _ _

theorem Method.apply_resolved (m : Method) (s : Store) (receiver argument : Value) :
    Resolved (m.apply s receiver argument) := by
  unfold apply
  split
  case h_1 => exact (Value.convert_resolved _ _ _).bind fun _ => resolved_ok
  case h_2 =>
    unfold removeFrom
    repeat' split
    all_goals first | exact resolved_ok | exact resolved_error rfl
  all_goals first | exact resolved_ok | exact resolved_error rfl

theorem Method.call_resolved {m : Method} {s : Store} {receiver : Value} {vs : List Value}
    (h : m.arity = vs.length) : Resolved (m.call s receiver vs) := by
  refine (checkArity_resolved h).bind fun _ => ?_
  cases vs with
  | nil => exact resolved_error rfl
  | cons v vs => exact apply_resolved m s receiver v

/-- A method call that is not complained about has as many arguments as the method takes. -/
theorem Method.arity_of_notes {name : String} {m : Method} {receiver : Ty} {types : List Ty}
    {p : Position} (hm : Method.ofName? name = some m)
    (h : (Judge.method name receiver types p).notes = []) : m.arity = types.length := by
  simp only [Judge.method, hm] at h
  split at h
  · simp [Judged.reject] at h
  all_goals exact checkArity_ok.1 ‹_›

namespace Eval

/-- Arguments that are bound are as many as the parameters. -/
theorem convertArguments_length {f : Function} {i : Nat} {qs : List Parameter}
    {vs : List (Value × Position)} {ws : List Value} (h : convertArguments f i qs vs = .ok ws)
    (hl : qs.length = vs.length) : qs.length = ws.length := by
  induction qs generalizing i vs ws with
  | nil =>
    cases h
    rfl
  | cons q qs ih =>
    cases vs with
    | nil => cases hl
    | cons v vs =>
      simp only [convertArguments] at h
      split at h
      · rcases hr : convertArguments f (i + 1) qs vs with e | us <;> rw [hr] at h <;> cases h
        simp [ih hr (by simpa using hl)]
      · cases h

theorem convertArguments_resolved {f : Function} {i : Nat} {qs : List Parameter}
    {vs : List (Value × Position)} {d : Diagnostic} (h : convertArguments f i qs vs = .error d) :
    d.fault.isResolved = true := by
  induction qs generalizing i vs with
  | nil => cases h
  | cons q qs ih =>
    cases vs with
    | nil => cases h
    | cons v vs =>
      simp only [convertArguments] at h
      split at h
      · rcases hr : convertArguments f (i + 1) qs vs with e | us <;> rw [hr] at h <;> cases h
        exact ih hr
      · cases h
        rfl

theorem callResult_resolved (f : Function) (v : Value) : Resolved (callResult f v) := by
  unfold callResult
  split
  · exact resolved_ok
  · exact Value.convert_resolved _ _ v

end Eval

end Primer
