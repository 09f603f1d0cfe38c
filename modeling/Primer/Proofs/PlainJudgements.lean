import Mathlib
import Primer.Checker

/-!
# Complaints about types

Judging the types of expressions never complains about what comes of counting statements: a missing
`return`, or too few or too many `start` statements.
-/

namespace Primer

/-- Whether a fault comes of counting statements. -/
def Fault.counts : Fault → Bool
  | missingReturn _ => true
  | missingEntryPoint => true
  | multipleEntryPoints _ => true
  | _ => false

/-- No complaint comes of counting statements. -/
structure Judged.Plain {α : Type} (j : Judged α) : Prop where
  notes : ∀ d ∈ j.notes, d.fault.counts = false

section Rules

variable {α β : Type}

theorem plain_pure (a : α) : (pure a : Judged α).Plain := ⟨fun _ hd => by cases hd⟩

theorem plain_reject {fault : Fault} {p : Position} {a : α} (h : fault.counts = false) :
    (Judged.reject fault p a).Plain := ⟨fun d hd => by
  cases List.mem_singleton.1 hd
  exact h⟩

theorem plain_note {d : Diagnostic} (h : d.fault.counts = false) : (Judged.note d).Plain :=
    ⟨fun d' hd => by
  cases List.mem_singleton.1 hd
  exact h⟩

theorem Judged.Plain.bind {j : Judged α} {k : α → Judged β} (hj : j.Plain)
    (hk : ∀ a, (k a).Plain) : (j >>= k).Plain := ⟨fun d hd => by
  rcases List.mem_append.1 hd with hd | hd
  · exact hj.notes d hd
  · exact (hk _).notes d hd⟩

end Rules

namespace Judge

variable {p : Position} {t u : Ty}

theorem arithmetic_plain (op : ArithmeticOp) : (arithmetic op t u p).Plain := by
  simp only [arithmetic, incompatibleTypes]
  repeat' split
  all_goals first | exact plain_pure _ | exact plain_reject rfl

theorem negate_plain : (negate t p).Plain := by
  unfold negate invalidOperandType
  split <;> first | exact plain_pure _ | exact plain_reject rfl

theorem relational_plain (op : RelationalOp) : (relational op t u p).Plain := by
  unfold relational incompatibleTypes
  repeat' split
  all_goals first | exact plain_pure _ | exact plain_reject rfl

theorem logical_plain (op : LogicalOp) : (logical op t u p).Plain := by
  unfold logical invalidOperandType
  repeat' split
  all_goals first | exact plain_pure _ | exact plain_reject rfl

theorem not_plain : (not t p).Plain := by
  unfold not invalidOperandType
  split <;> first | exact plain_pure _ | exact plain_reject rfl

theorem cast_plain : (cast t u p).Plain := by
  unfold cast
  repeat' split
  all_goals first | exact plain_pure _ | exact plain_reject rfl

theorem index_plain : (index t p).Plain := by
  unfold index
  split <;> first | exact plain_pure _ | exact plain_reject rfl

theorem element_plain {two valid : Bool} : (element t two valid p).Plain := by
  unfold element
  repeat' split
  all_goals first | exact plain_pure _ | exact plain_reject rfl

theorem builtin_plain {b : Builtin} {types : List Ty} : (builtin b types p).Plain := by
  unfold builtin
  repeat' split
  all_goals first | exact plain_pure _ | exact plain_reject rfl

theorem unknownMethod_plain {name : String} : (unknownMethod name t p).Plain := by
  unfold unknownMethod
  split <;> first | exact plain_pure _ | exact plain_reject rfl

theorem checkArity_plain {name : String} {expected received : Nat} {fault : Fault}
    (h : checkArity name expected received = .error fault) : fault.counts = false := by
  unfold checkArity at h
  repeat' split at h
  all_goals cases h
  all_goals rfl

theorem method_plain {name : String} {types : List Ty} : (method name t types p).Plain := by
  have hargument : ∀ (m : Method) (fits : Bool) (e r s : Ty), (argument m fits e r s p).Plain := by
    intro m fits e r s
    unfold argument
    split <;> first | exact plain_pure _ | exact plain_reject rfl
  have hon : ∀ (m : Method) (r a : Ty), (methodOn m r a p).Plain := by
    intro m r a
    unfold methodOn
    split <;> first | exact hargument .. | exact unknownMethod_plain
  unfold method
  split
  · exact unknownMethod_plain
  · split
    · exact plain_reject (checkArity_plain ‹_›)
    · exact plain_pure _
    · split
      · exact plain_pure _
      · exact hon ..

theorem elements_plain : ∀ (types : List Ty) (t : Ty), (elements p t types).Plain
  | [], t => by
    unfold elements incompatibleElements
    split <;> first | exact plain_pure _ | exact plain_reject rfl
  | u :: types, t => by
    unfold elements incompatibleElements
    split
    · exact elements_plain types _
    · exact plain_reject rfl

theorem vector_plain {types : List Ty} : (vector types p).Plain := by
  unfold vector
  repeat' split
  all_goals first | exact plain_pure _ | exact plain_reject rfl | exact elements_plain ..

theorem parameter_plain {f : Function} {i : Nat} {q : Parameter} : (parameter f i q t p).Plain := by
  unfold parameter
  split <;> first | exact plain_pure _ | exact plain_note rfl

theorem call_plain {names : Names} {name : String} {count : Nat}
    {types : Unit → Judged (List Ty)} {fits : Function → Judged Unit}
    (htypes : ∀ u, (types u).Plain) (hfits : ∀ f, (fits f).Plain) :
    (call names name count p types fits).Plain := by
  unfold call
  repeat' split
  · exact plain_reject (checkArity_plain ‹_›)
  · exact (htypes _).bind fun _ => builtin_plain
  · exact plain_reject rfl
  · exact plain_reject (checkArity_plain ‹_›)
  · exact (hfits _).bind fun _ => plain_pure _

end Judge

namespace Names

variable (names : Names)

theorem lookup_plain (name : String) (p : Position) : (names.lookup name p).Plain := by
  unfold lookup Scopes.lookup
  cases names.scopes.get? name with
  | some d => exact plain_pure _
  | none => exact plain_reject (by rfl)

mutual

theorem infer_plain : ∀ e : Expr, (names.infer e).Plain
  | .int .. | .double .. | .bool .. | .char .. | .string .. => by
    simp only [infer]
    exact plain_pure _
  | .name .. => by
    simp only [infer]
    exact names.lookup_plain ..
  | .arithmetic _ _ left right => by
    simp only [infer]
    exact (infer_plain left).bind fun _ => (infer_plain right).bind fun _ =>
      Judge.arithmetic_plain _
  | .negate _ operand => by
    simp only [infer]
    exact (infer_plain operand).bind fun _ => Judge.negate_plain
  | .relational _ _ left right => by
    simp only [infer]
    exact (infer_plain left).bind fun _ => (infer_plain right).bind fun _ =>
      Judge.relational_plain _
  | .logical _ _ left right => by
    simp only [infer]
    exact (infer_plain left).bind fun _ => (infer_plain right).bind fun _ => Judge.logical_plain _
  | .not _ operand => by
    simp only [infer]
    exact (infer_plain operand).bind fun _ => Judge.not_plain
  | .cast _ _ operand => by
    simp only [infer]
    exact (infer_plain operand).bind fun _ => Judge.cast_plain
  | .group _ inner => by
    simp only [infer]
    exact infer_plain inner
  | .call _ _ arguments => by
    simp only [infer]
    exact Judge.call_plain (fun _ => inferAll_plain arguments) fun f =>
      inferArguments_plain f 0 f.parameters arguments
  | .method _ receiver _ arguments => by
    simp only [infer]
    exact (infer_plain receiver).bind fun _ => (inferAll_plain arguments).bind fun _ =>
      Judge.method_plain
  | .index _ target i => by
    simp only [infer]
    exact (infer_plain target).bind fun _ => (infer_plain i).bind fun _ =>
      Judge.index_plain.bind fun _ => Judge.element_plain
  | .cell _ target i j => by
    simp only [infer]
    exact (infer_plain target).bind fun _ => (infer_plain i).bind fun _ =>
      Judge.index_plain.bind fun _ => (infer_plain j).bind fun _ =>
      Judge.index_plain.bind fun _ => Judge.element_plain
  | .vector _ items => by
    simp only [infer]
    exact (inferAll_plain items).bind fun _ => Judge.vector_plain
  | .matrix span rows => by
    simp only [infer]
    exact inferRows_plain span.start none true rows
  | .newList _ (some _) => by
    simp only [infer]
    exact plain_pure _
  | .newList _ none => by
    simp only [infer]
    exact plain_reject rfl

theorem inferAll_plain : ∀ es : List Expr, (names.inferAll es).Plain
  | [] => by
    simp only [inferAll]
    exact plain_pure _
  | e :: es => by
    simp only [inferAll]
    exact (infer_plain e).bind fun _ => (inferAll_plain es).bind fun _ => plain_pure _

theorem inferArguments_plain (f : Function) : ∀ (i : Nat) (qs : List Parameter) (es : List Expr),
    (names.inferArguments f i qs es).Plain
  | i, qs, [] => by
    simp only [inferArguments]
    exact plain_pure _
  | i, [], e :: es => by
    simp only [inferArguments]
    exact plain_pure _
  | i, q :: qs, e :: es => by
    simp only [inferArguments]
    exact (infer_plain e).bind fun _ => Judge.parameter_plain.bind fun _ =>
      inferArguments_plain f (i + 1) qs es

theorem inferRows_plain (p : Position) : ∀ (base : Option Scalar) (valid : Bool) (es : List Expr),
    (names.inferRows p base valid es).Plain
  | base, valid, [] => by
    simp only [inferRows]
    split <;> first | exact plain_pure _ | exact plain_reject rfl
  | base, valid, e :: es => by
    simp only [inferRows]
    refine (infer_plain e).bind fun t => ?_
    unfold incompatibleElements
    repeat' split
    all_goals first
      | exact inferRows_plain p _ _ es
      | exact plain_reject rfl
      | exact (plain_note rfl).bind fun _ => inferRows_plain p _ _ es

end

theorem inferFor_plain (e : Expr) (t : Ty) : (names.inferFor e t).Plain := by
  unfold inferFor
  split <;> first | exact plain_pure _ | exact plain_reject rfl | exact names.infer_plain _

theorem inferElement_plain (t : Ty) (i : Expr) (j : Option Expr) (p : Position) :
    (names.inferElement t i j p).Plain := by
  unfold inferElement
  refine (names.infer_plain i).bind fun _ => Judge.index_plain.bind fun _ => ?_
  cases j with
  | none => exact Judge.element_plain
  | some j =>
    exact (names.infer_plain j).bind fun _ => Judge.index_plain.bind fun _ => Judge.element_plain

end Names

namespace Checker

variable {names : Names}

theorem fits_plain {owner : String} {t u : Ty} {e : Expr} : (fits owner t u e).Plain := by
  unfold fits
  split <;> first | exact plain_pure _ | exact plain_note rfl

theorem initial_plain {name : String} {t : Ty} {e : Expr} : (initial names name t e).Plain :=
  (names.inferFor_plain e t).bind fun _ => fits_plain

theorem assignment_plain {name : String} {e : Expr} {p : Position} :
    (assignment names name e p).Plain := by
  unfold assignment
  refine (names.lookup_plain name p).bind fun t => ?_
  split
  · exact (names.infer_plain e).bind fun _ => plain_pure _
  · exact (names.inferFor_plain e t).bind fun _ => fits_plain

theorem indexAssignment_plain {target i e : Expr} {j : Option Expr} {p : Position} :
    (indexAssignment names target i j e p).Plain :=
  (names.infer_plain target).bind fun t => (names.inferElement_plain t i j p).bind fun _ =>
    (names.infer_plain e).bind fun _ => fits_plain

theorem stepTarget_plain {target : Expr} {p : Position} : (stepTarget names target p).Plain :=
  (names.infer_plain target).bind fun _ => by
    split <;> first | exact plain_pure _ | exact plain_note rfl

theorem condition_plain {e : Expr} {construct : String} : (condition names e construct).Plain :=
  (names.infer_plain e).bind fun _ => by
    split <;> first | exact plain_pure _ | exact plain_note rfl

theorem caseValue_plain {t : Ty} {e : Expr} : (caseValue names t e).Plain :=
  (names.infer_plain e).bind fun _ => by
    split <;> first | exact plain_pure _ | exact plain_note rfl

theorem inferCall_plain {name : String} {es : List Expr} {p : Position} :
    (names.inferCall name es p).Plain :=
  Judge.call_plain (fun _ => names.inferAll_plain es) fun f =>
    names.inferArguments_plain f 0 f.parameters es

end Checker

end Primer
