import Mathlib
import Primer.Checker.Analysis

/-!
# Inference without complaints

An expression whose type is inferred without a complaint has parts of which the same holds
(`Names.infer_parts`), and each form of expression says what its parts are like.
-/

namespace Primer

/-- The expressions directly inside an expression. -/
def Expr.parts : Expr → List Expr
  | .arithmetic _ _ left right => [left, right]
  | .negate _ operand => [operand]
  | .relational _ _ left right => [left, right]
  | .logical _ _ left right => [left, right]
  | .not _ operand => [operand]
  | .cast _ _ operand => [operand]
  | .group _ inner => [inner]
  | .call _ _ arguments => arguments
  | .method _ receiver _ arguments => receiver :: arguments
  | .index _ target i => [target, i]
  | .cell _ target i j => [target, i, j]
  | .vector _ items => items
  | .matrix _ rows => rows
  | _ => []

/-- Whether an expression takes its type from the slot it stands for. -/
def Expr.isUntyped : Expr → Bool
  | .newList _ none => true
  | _ => false

theorem anyCallsFunction_of_mem : ∀ {es : List Expr} {e : Expr}, e ∈ es →
    e.callsFunction = true → anyCallsFunction es = true
  | e' :: es, e, h, he => by
    simp only [anyCallsFunction, Bool.or_eq_true]
    rcases List.mem_cons.1 h with rfl | h
    · exact .inl he
    · exact .inr (anyCallsFunction_of_mem h he)

/-- What can enter a function from inside an expression can enter it from the expression. -/
theorem Expr.callsFunction_of_parts {e e' : Expr} (h : e' ∈ e.parts)
    (he : e'.callsFunction = true) : e.callsFunction = true := by
  cases e <;> simp only [parts, List.mem_cons, List.not_mem_nil, or_false] at h <;>
    simp only [callsFunction, Bool.or_eq_true]
  case call => exact .inr (anyCallsFunction_of_mem h he)
  case vector | matrix => exact anyCallsFunction_of_mem h he
  case method =>
    rcases h with rfl | h
    · exact .inl he
    · exact .inr (anyCallsFunction_of_mem h he)
  all_goals grind

theorem checkArity_ok {function : String} {expected received : Nat} {u : Unit} :
    checkArity function expected received = .ok u ↔ expected = received := by
  simp only [checkArity]
  split
  · simp only [reduceCtorEq, false_iff]
    omega
  · split
    · simp only [reduceCtorEq, false_iff]
      omega
    · simp only [true_iff]
      omega

/-- A result without complaints is a type that values have. -/
def Judged.Typed (j : Judged Ty) : Prop := j.notes = [] → j.value ≠ .error

theorem typed_pure {t : Ty} (h : t ≠ .error) : (pure t : Judged Ty).Typed := fun _ => h

theorem typed_reject {fault : Fault} {p : Position} {t : Ty} :
    (Judged.reject fault p t).Typed := fun h => by cases h

theorem typed_bind {α : Type} {x : Judged α} {f : α → Judged Ty}
    (h : x.notes = [] → (f x.value).Typed) : (x >>= f).Typed := fun hn => by
  obtain ⟨hx, hf⟩ := List.append_eq_nil_iff.1 hn
  exact h hx hf

namespace Judge

variable {t u : Ty} {p : Position}

theorem index_notes (h : (index t p).notes = []) : t = .int ∨ t = .error := by
  simp only [index] at h
  split at h
  · exact .inl rfl
  · exact .inr rfl
  · simp [Judged.reject] at h

theorem isError_eq_false (ht : t ≠ .error) : t.isError = false := by
  simpa [Ty.isError] using ht

theorem any_isError {ts : List Ty} (h : ∀ t ∈ ts, t ≠ .error) : ts.any Ty.isError = false := by
  simpa [Ty.isError] using h

section Typed

variable (ht : t ≠ .error) (hu : u ≠ .error)
include ht

theorem negate_typed : (negate t p).Typed := by
  simp only [negate]
  repeat' split
  all_goals first | exact absurd rfl ht | exact typed_reject | exact typed_pure (by simp)

theorem not_typed : (not t p).Typed := by
  simp only [not]
  repeat' split
  all_goals first | exact absurd rfl ht | exact typed_reject | exact typed_pure (by simp)

theorem cast_typed : (cast u t p).Typed := by
  simp only [cast, isError_eq_false ht, Bool.false_eq_true, ↓reduceIte]
  split
  · refine typed_pure ?_
    rintro rfl
    cases t <;> simp_all [legalCast]
  · exact typed_reject

theorem element_typed {two : Bool} : (element t two true p).Typed := by
  simp only [element, isError_eq_false ht, Bool.not_true, Bool.or_self, Bool.false_eq_true,
    ↓reduceIte]
  repeat' split
  all_goals first | exact typed_reject | exact typed_pure (by simp)

theorem methodOn_typed {m : Method} : (methodOn m t u p).Typed := by
  simp only [methodOn, argument, unknownMethod]
  repeat' split
  all_goals first
    | exact typed_reject
    | exact absurd (eq_of_beq ‹t.isError = true›) ht
    | exact typed_pure (by simp)

include hu

theorem arithmetic_typed {op : ArithmeticOp} : (arithmetic op t u p).Typed := by
  simp only [arithmetic, isError_eq_false ht, isError_eq_false hu, Bool.or_self,
    Bool.false_eq_true, ↓reduceIte]
  repeat' split
  all_goals first | exact typed_reject | exact typed_pure (by simp)

theorem relational_typed {op : RelationalOp} : (relational op t u p).Typed := by
  simp only [relational, isError_eq_false ht, isError_eq_false hu, Bool.or_self,
    Bool.false_eq_true, ↓reduceIte]
  repeat' split
  all_goals first | exact typed_reject | exact typed_pure (by simp)

theorem logical_typed {op : LogicalOp} : (logical op t u p).Typed := by
  simp only [logical, isError_eq_false ht, isError_eq_false hu, Bool.or_self,
    Bool.false_eq_true, ↓reduceIte]
  repeat' split
  all_goals first | exact typed_reject | exact typed_pure (by simp)

end Typed

theorem method_typed {name : String} {ts : List Ty} (ht : t ≠ .error) (hts : ∀ t ∈ ts, t ≠ .error) :
    (method name t ts p).Typed := by
  simp only [method, isError_eq_false ht, any_isError hts, unknownMethod, Bool.or_self,
    Bool.false_eq_true, ↓reduceIte]
  split
  · exact typed_reject
  · split
    · exact typed_reject
    · cases checkArity_ok.1 ‹_›
    · exact methodOn_typed ht

theorem builtin_typed {b : Builtin} {ts : List Ty} (hts : ∀ t ∈ ts, t ≠ .error) :
    (builtin b ts p).Typed := by
  simp only [builtin, any_isError hts, Bool.false_eq_true, ↓reduceIte]
  split
  · rename_i u hu
    refine typed_pure ?_
    rintro rfl
    simp only [builtinType?] at hu
    repeat' split at hu
    all_goals cases hu
  · exact typed_reject

theorem elements_typed : ∀ {ts : List Ty} {t : Ty}, (elements p t ts).Typed
  | [], t => by
    simp only [elements]
    split
    · exact typed_pure (by simp)
    · exact typed_reject
  | u :: ts, t => by
    simp only [elements]
    split
    · exact elements_typed
    · exact typed_reject

theorem vector_typed {ts : List Ty} (hts : ∀ t ∈ ts, t ≠ .error) : (vector ts p).Typed := by
  simp only [vector, any_isError hts, Bool.false_eq_true, ↓reduceIte]
  split
  · exact typed_reject
  · exact elements_typed

end Judge

namespace Names

variable {N : Names}

@[simp] theorem inferAll_value : ∀ es : List Expr,
    (N.inferAll es).value = es.map fun e => (N.infer e).value
  | [] => rfl
  | e :: es => by simp [inferAll, inferAll_value es]

theorem inferAll_notes : ∀ {es : List Expr},
    (N.inferAll es).notes = [] ↔ ∀ e ∈ es, (N.infer e).notes = []
  | [] => by simp [inferAll]
  | e :: es => by simp [inferAll, inferAll_notes]

/-- An argument fits its parameter. -/
def Suits (N : Names) (e : Expr) (q : Parameter) : Prop :=
  (N.infer e).notes = [] ∧
    ((N.infer e).value.isError || q.ty.assignable (N.infer e).value) = true

theorem inferArguments_suits {f : Function} : ∀ {i : Nat} {qs : List Parameter} {es : List Expr},
    (N.inferArguments f i qs es).notes = [] → qs.length = es.length → List.Forall₂ N.Suits es qs
  | _, [], [], _, _ => .nil
  | i, q :: qs, e :: es, h, hl => by
    simp only [inferArguments, Judged.notes_bind, List.append_eq_nil_iff] at h
    obtain ⟨he, hq, hs⟩ := h
    refine .cons ⟨he, ?_⟩ (inferArguments_suits hs (by simpa using hl))
    simp only [Judge.parameter] at hq
    split at hq
    · assumption
    · simp [Judged.note] at hq

/-- A call that is not complained about is one of a built-in function or of a declared one. -/
inductive Calls (N : Names) (name : String) (arguments : List Expr) (p : Position) : Ty → Prop
  | builtin {b} (hb : Builtin.ofName? name = some b) (hl : b.arity = arguments.length)
    (ha : ∀ e ∈ arguments, (N.infer e).notes = [])
    (hj : (Judge.builtin b (arguments.map fun e => (N.infer e).value) p).notes = []) :
    Calls N name arguments p (Judge.builtin b (arguments.map fun e => (N.infer e).value) p).value
  | declared {f} (hb : Builtin.ofName? name = none) (hf : N.functions.find? name = some f)
    (hl : f.parameters.length = arguments.length)
    (ha : List.Forall₂ N.Suits arguments f.parameters) : Calls N name arguments p f.returns

theorem inferCall_calls {name : String} {arguments : List Expr} {p : Position}
    (h : (N.inferCall name arguments p).notes = []) :
    N.Calls name arguments p (N.inferCall name arguments p).value := by
  simp only [inferCall, Judge.call] at h ⊢
  split
  · rename_i b hb
    simp only [hb] at h
    split at h
    · simp [Judged.reject] at h
    · rename_i hl
      simp only [Judged.notes_bind, List.append_eq_nil_iff, inferAll_value] at h
      simp only [Judged.value_bind, inferAll_value]
      exact .builtin hb (checkArity_ok.1 hl) (inferAll_notes.1 h.1) h.2
  · rename_i hb
    simp only [hb] at h
    split at h
    · simp [Judged.reject] at h
    · rename_i f hf
      split at h
      · simp [Judged.reject] at h
      · rename_i hl
        simp only [Judged.value_bind, Judged.value_pure]
        simp only [Judged.notes_bind, List.append_eq_nil_iff] at h
        have hl := checkArity_ok.1 hl
        exact .declared hb hf hl (inferArguments_suits h.1 hl)

theorem Calls.arguments {name : String} {arguments : List Expr} {p : Position} {t : Ty}
    (h : N.Calls name arguments p t) : ∀ e ∈ arguments, (N.infer e).notes = [] := by
  cases h with
  | builtin hb hl ha hj => exact ha
  | declared hb hf hl ha =>
    intro e he
    obtain ⟨i, hi, rfl⟩ := List.mem_iff_getElem.1 he
    exact (ha.get hi (by omega)).1

theorem inferRows_notes {p : Position} : ∀ {base : Option Scalar} {valid : Bool} {es : List Expr},
    (N.inferRows p base valid es).notes = [] → ∀ e ∈ es, (N.infer e).notes = []
  | _, _, [], _ => by simp
  | base, valid, e :: es, h => by
    simp only [inferRows, Judged.notes_bind, List.append_eq_nil_iff] at h
    obtain ⟨he, hs⟩ := h
    refine List.forall_mem_cons.2 ⟨he, ?_⟩
    split at hs
    · exact inferRows_notes hs
    · split at hs
      · exact inferRows_notes hs
      · split at hs
        · exact inferRows_notes hs
        · simp [incompatibleElements, Judged.reject] at hs
    · simp [Judged.note] at hs

/-- A name that is found is found from everywhere. -/
theorem lookup_at {name : String} {p : Position} (h : (N.lookup name p).notes = [])
    (q : Position) : N.lookup name q = N.lookup name p := by
  simp only [lookup, Scopes.lookup] at h ⊢
  cases hd : N.scopes.get? name with
  | none => simp [hd] at h
  | some d => rfl

theorem inferFor_eq {e : Expr} {t : Ty} (h : e.isUntyped = false) :
    N.inferFor e t = N.infer e := by
  simp only [inferFor]
  split <;> first | rfl | cases h

theorem notes_inferFor {e : Expr} {t : Ty} (h : t.isError = true) (hn : (N.infer e).notes = []) :
    (N.inferFor e t).notes = [] := by
  cases hu : e.isUntyped
  · rw [inferFor_eq hu]
    exact hn
  · obtain rfl := eq_of_beq h
    simp only [Expr.isUntyped] at hu
    split at hu
    · rfl
    · cases hu

theorem inferElement_notes {container : Ty} {index : Expr} {column : Option Expr} {p : Position}
    (h : (N.inferElement container index column p).notes = []) :
    ∀ e ∈ index :: column.toList, (N.infer e).notes = [] := by
  cases column <;> simp only [inferElement, Judged.notes_bind, List.append_eq_nil_iff] at h <;>
    simp [h]

/-- An expression that is not complained about has no part that is. -/
theorem infer_parts {e e' : Expr} (h : (N.infer e).notes = []) (he : e' ∈ e.parts) :
    (N.infer e').notes = [] := by
  cases e <;> simp only [Expr.parts, List.mem_cons, List.not_mem_nil, or_false] at he <;>
    simp only [infer, Judged.notes_bind, List.append_eq_nil_iff] at h
  case call span name arguments => exact (inferCall_calls h).arguments e' he
  case method =>
    rcases he with rfl | he
    · exact h.1
    · exact inferAll_notes.1 h.2.1 e' he
  case vector => exact inferAll_notes.1 h.1 e' he
  case matrix => exact inferRows_notes h e' he
  all_goals grind

/-- All names and functions have types. -/
structure Typed (N : Names) : Prop where
  lookup : ∀ name p, (N.lookup name p).Typed
  returns : ∀ name f, N.functions.find? name = some f → f.returns ≠ .error

mutual

/-- Where all names and functions have types, an expression without complaints has one. -/
theorem infer_typed (hN : N.Typed) : ∀ e : Expr, (N.infer e).Typed
  | .int .. => typed_pure (by simp)
  | .double .. => typed_pure (by simp)
  | .bool .. => typed_pure (by simp)
  | .char .. => typed_pure (by simp)
  | .string .. => typed_pure (by simp)
  | .name _ name => hN.lookup name _
  | .arithmetic _ _ left right => typed_bind fun ha => typed_bind fun hb =>
    Judge.arithmetic_typed (infer_typed hN left ha) (infer_typed hN right hb)
  | .negate _ operand => typed_bind fun h => Judge.negate_typed (infer_typed hN operand h)
  | .relational _ _ left right => typed_bind fun ha => typed_bind fun hb =>
    Judge.relational_typed (infer_typed hN left ha) (infer_typed hN right hb)
  | .logical _ _ left right => typed_bind fun ha => typed_bind fun hb =>
    Judge.logical_typed (infer_typed hN left ha) (infer_typed hN right hb)
  | .not _ operand => typed_bind fun h => Judge.not_typed (infer_typed hN operand h)
  | .cast _ _ operand => typed_bind fun h => Judge.cast_typed (infer_typed hN operand h)
  | .group _ inner => infer_typed hN inner
  | .call span name arguments => fun h => by
    have hc := inferCall_calls (N := N) (p := span.start) h
    change (N.inferCall name arguments span.start).value ≠ .error
    generalize (N.inferCall name arguments span.start).value = t at hc
    cases hc with
    | builtin hb hl ha hj => exact Judge.builtin_typed (all_typed hN arguments ha) hj
    | declared hb hg _ _ => exact hN.returns name _ hg
  | .method _ receiver _ arguments => typed_bind fun hr => typed_bind fun ha => by
    rw [inferAll_value]
    exact Judge.method_typed (infer_typed hN receiver hr)
      (all_typed hN arguments (inferAll_notes.1 ha))
  | .index _ target i => typed_bind fun ht => typed_bind fun hi => typed_bind fun hj => by
    rcases Judge.index_notes hj with h | h
    · simp only [h]
      exact Judge.element_typed (infer_typed hN target ht)
    · exact absurd h (infer_typed hN i hi)
  | .cell _ target i j => typed_bind fun ht => typed_bind fun hi => typed_bind fun hi' =>
    typed_bind fun hj => typed_bind fun hj' => by
      rcases Judge.index_notes hi' with h | h
      · rcases Judge.index_notes hj' with h' | h'
        · simp only [h, h']
          exact Judge.element_typed (infer_typed hN target ht)
        · exact absurd h' (infer_typed hN j hj)
      · exact absurd h (infer_typed hN i hi)
  | .vector _ items => typed_bind fun h => by
    rw [inferAll_value]
    exact Judge.vector_typed (all_typed hN items (inferAll_notes.1 h))
  | .matrix _ rows => rows_typed hN none rows
  | .newList _ (some _) => typed_pure (by simp)
  | .newList _ none => typed_reject

theorem all_typed (hN : N.Typed) : ∀ es : List Expr, (∀ e ∈ es, (N.infer e).notes = []) →
    ∀ t ∈ es.map fun e => (N.infer e).value, t ≠ .error
  | [], _ => by simp
  | e :: es, h => by
    obtain ⟨he, hes⟩ := List.forall_mem_cons.1 h
    exact List.forall_mem_cons.2 ⟨infer_typed hN e he, all_typed hN es hes⟩

theorem rows_typed (hN : N.Typed) {p : Position} (base : Option Scalar) : ∀ es : List Expr,
    (N.inferRows p base true es).Typed
  | [] => by
    cases base with
    | none => exact typed_reject
    | some b => exact typed_pure (by simp)
  | e :: es => typed_bind fun he => by
    have ht := infer_typed hN e he
    split
    · exact absurd ‹_› ht
    · split
      · exact rows_typed hN _ es
      · split
        · exact rows_typed hN _ es
        · exact typed_reject
    · exact typed_bind fun h => by cases h

end

/-- An index that is not complained about is an int. -/
theorem Typed.index (hN : N.Typed) {e : Expr} {p : Position} (he : (N.infer e).notes = [])
    (h : (Judge.index (N.infer e).value p).notes = []) : (N.infer e).value = .int :=
  (Judge.index_notes h).resolve_right (infer_typed hN e he)

end Names

end Primer
