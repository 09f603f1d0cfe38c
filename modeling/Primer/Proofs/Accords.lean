import Primer.Proofs.Inference
import Primer.Proofs.StoreTyping
import Primer.Value.Operator

/-!
# Operators on values of the types they take

Where the check of an operator on the types of values has no complaint, the operator on the values
gives one of the type that was inferred, or fails in one of the few ways no check rules out
(`Fault.Residual`).
-/

namespace Primer

/-- The faults that a program without complaints can still have. -/
inductive Fault.Residual (p : Program) : Fault → Prop
  | divisionByZero : Residual p .divisionByZero
  | moduloByZero : Residual p .moduloByZero
  | indexOutOfBounds {i n} : Residual p (.indexOutOfBounds i n)
  | callDepthExceeded {n} : Residual p (.callDepthExceeded n)
  | unconsumedControlSignal {word} : Residual p (.unconsumedControlSignal word)
  /-- An int that is no code of a char. -/
  | noCharCast : Residual p (.invalidCast "int" "char")
  /-- A step past the first or the last char. -/
  | noCharStep {operator} (h : operator = "++" ∨ operator = "--") :
    Residual p (.invalidOperand operator "char")
  /-- A function with a result that ended without a `return`. -/
  | noReturn {f} (hf : f ∈ p.functions) (hr : f.isProcedure = false) :
    Residual p (.runtimeTypeMismatch f.name f.returns.text "void")

/-- A result is as `Q` says, or it is a residual fault. -/
def Accords {α : Type} (p : Program) (r : Except Fault α) (Q : α → Prop) : Prop :=
  match r with
  | .ok a => Q a
  | .error f => f.Residual p

theorem accords_ok {α : Type} {p : Program} {a : α} {r : Except Fault α} {Q : α → Prop}
    (hr : r = .ok a) (h : Q a) : Accords p r Q := by
  rw [hr]
  exact h

namespace Value

variable {v : Value} {t : Ty}

@[simp] theorem isError_ty (v : Value) : v.ty.isError = false := by
  cases v <;> rfl

theorem ty_ne_error (v : Value) : v.ty ≠ .error := by
  cases v <;> simp [ty]

theorem of_numeric (h : v.ty.isNumeric = true) :
    (∃ x, v = int x) ∨ (∃ x, v = double x) ∨ ∃ c, v = char c := by
  cases v <;> simp_all [ty, Ty.isNumeric]

theorem isString_iff : v.isString = true ↔ v.ty = .string := by
  cases v <;> simp [isString, ty]

theorem of_bool (h : v.ty = .bool) : ∃ b, v = bool b := by
  cases v <;> simp_all [ty]

theorem of_int (h : v.ty = .int) : ∃ x, v = int x := by
  cases v <;> simp_all [ty]

theorem of_string (h : v.ty = .string) : ∃ x, v = string x := by
  cases v <;> simp_all [ty]

theorem of_vector {b : Scalar} (h : v.ty = .vector b) : ∃ q, v = vector q ∧ q.base = b := by
  cases v <;> simp_all [ty]

theorem of_list {b : Scalar} (h : v.ty = .list b) : ∃ q, v = list q ∧ q.base = b := by
  cases v <;> simp_all [ty]

/-- A slot takes what is assignable to it. -/
theorem convert_of_assignable (owner : String) (h : t.assignable v.ty = true) :
    ∃ w, v.convert t owner = .ok w ∧ w.ty = t := by
  have hw : ∃ w, v.coerce? t = some w := by
    simp only [Ty.assignable, Bool.or_eq_true, beq_iff_eq] at h
    simp only [coerce?]
    split
    · exact ⟨v, rfl⟩
    · rcases h with h | h
      · exact absurd h.symm ‹_›
      · split at h <;> cases v <;> simp_all [ty]
  obtain ⟨w, hw⟩ := hw
  exact ⟨w, by simp [convert, hw], coerce?_ty hw⟩

end Value

section Operators

variable {p : Program} {s : Store} {a b v : Value} {o : Position}

open Value

theorem divide_accords {x y : Float} : Accords p (divide x y) fun w => w.ty = .double := by
  simp only [divide]
  split
  · exact .divisionByZero
  · exact rfl

theorem intArithmetic_accords {op : ArithmeticOp} {x y : Int64} :
    Accords p (intArithmetic op x y) fun w => w.ty = if op = .divide then .double else .int := by
  cases op
  case divide => exact divide_accords
  case modulo =>
    simp only [intArithmetic]
    split
    · exact .moduloByZero
    · exact rfl
  all_goals exact rfl

theorem doubleArithmetic_accords {op : ArithmeticOp} (hop : op ≠ .modulo) {x y : Float}
    {f : Fault} : Accords p (doubleArithmetic op x y f) fun w => w.ty = .double := by
  cases op
  case divide => exact divide_accords
  case modulo => exact absurd rfl hop
  all_goals exact rfl

theorem arithmetic_accords {op : ArithmeticOp} (h : (Judge.arithmetic op a.ty b.ty o).notes = []) :
    Accords p (s.arithmetic op a b) fun w => w.ty = (Judge.arithmetic op a.ty b.ty o).value := by
  simp only [Judge.arithmetic, isError_ty, Bool.or_self, Bool.false_eq_true, ↓reduceIte] at h ⊢
  split at h
  · rename_i hs
    simp only [Bool.and_eq_true, Bool.or_eq_true, decide_eq_true_eq] at hs
    rw [if_pos (by simpa using hs)]
    have hs : (op = .add && (a.isString || b.isString)) = true := by
      simp [hs.1.1.1, isString_iff, hs.1.1.2]
    simp only [Store.arithmetic, hs, ↓reduceIte]
    exact rfl
  · rename_i hs
    rw [if_neg hs]
    split at h
    · simp [incompatibleTypes, Judged.reject] at h
    · rename_i hn
      simp only [Bool.or_eq_true, Bool.not_eq_true', not_or, Bool.not_eq_false] at hn
      rw [if_neg (by simp [hn])]
      -- Two numbers are whole, or one of them makes the operation one of doubles.
      obtain ⟨x, rfl⟩ | ⟨x, rfl⟩ | ⟨x, rfl⟩ := of_numeric hn.1 <;>
      obtain ⟨y, rfl⟩ | ⟨y, rfl⟩ | ⟨y, rfl⟩ := of_numeric hn.2 <;>
      simp only [ty, Ty.isIntegral, Bool.and_self, Bool.and_true, Bool.and_false,
        Bool.false_eq_true, ↓reduceIte] at h ⊢ <;>
      simp only [Store.arithmetic, isString, Bool.or_self, Bool.and_false, Bool.false_eq_true,
        ↓reduceIte, toInt?, toDouble?] <;>
      cases op <;>
      first
        | exact intArithmetic_accords
        | exact doubleArithmetic_accords (by simp)
        | simp [incompatibleTypes, Judged.reject] at h

theorem negate_accords (h : (Judge.negate v.ty o).notes = []) :
    Accords p v.negate fun w => w.ty = (Judge.negate v.ty o).value := by
  cases v <;> first
    | exact rfl
    | simp [Judge.negate, ty, invalidOperandType, Judged.reject] at h

theorem not_accords (h : (Judge.not v.ty o).notes = []) :
    Accords p v.not fun w => w.ty = (Judge.not v.ty o).value := by
  cases v <;> first
    | exact rfl
    | simp [Judge.not, ty, invalidOperandType, Judged.reject] at h

/-- A comparison that is not complained about always has an answer. -/
theorem relational_accords {op : RelationalOp}
    (h : (Judge.relational op a.ty b.ty o).notes = []) :
    (Judge.relational op a.ty b.ty o).value = .bool ∧ ∃ r, s.relational op a b = .ok r := by
  simp only [Judge.relational, isError_ty, Bool.or_self, Bool.false_eq_true, ↓reduceIte] at h ⊢
  generalize hc : (if op.isEquality = true then Judge.comparable a.ty b.ty
    else a.ty.isNumeric && b.ty.isNumeric) = fits at h ⊢
  cases fits
  · simp [incompatibleTypes, Judged.reject] at h
  · refine ⟨rfl, ?_⟩
    cases op
    case equal | notEqual => exact ⟨_, rfl⟩
    all_goals
      simp only [RelationalOp.isEquality, Bool.false_eq_true, ↓reduceIte, Bool.and_eq_true] at hc
      obtain ⟨x, rfl⟩ | ⟨x, rfl⟩ | ⟨x, rfl⟩ := of_numeric hc.1 <;>
      obtain ⟨y, rfl⟩ | ⟨y, rfl⟩ | ⟨y, rfl⟩ := of_numeric hc.2 <;>
      exact ⟨_, rfl⟩

theorem logical_types {op : LogicalOp} {t u : Ty} (ht : t.isError = false) (hu : u.isError = false)
    (h : (Judge.logical op t u o).notes = []) :
    t = .bool ∧ u = .bool ∧ (Judge.logical op t u o).value = .bool := by
  simp only [Judge.logical, ht, hu, Bool.or_self, Bool.false_eq_true, ↓reduceIte] at h ⊢
  split at h
  · simp [invalidOperandType, Judged.reject] at h
  · split at h
    · simp [invalidOperandType, Judged.reject] at h
    · simp_all

theorem truth_accords {op : LogicalOp} (h : v.ty = .bool) :
    Accords p (v.truth op) fun _ => True := by
  obtain ⟨b, rfl⟩ := of_bool h
  exact trivial

theorem cast_accords {t : Ty} (h : (Judge.cast t v.ty o).notes = []) :
    Accords p (v.cast t) fun w => w.ty = (Judge.cast t v.ty o).value := by
  simp only [Judge.cast, isError_ty, Bool.false_eq_true, ↓reduceIte] at h ⊢
  split at h
  · rename_i hc
    rw [if_pos hc]
    simp only [Judge.legalCast] at hc
    split at hc <;> cases v <;> simp_all [ty, Value.cast, Accords]
    -- The only cast that can fail is that of an int to a char.
    split <;> rename_i hr <;> split at hr <;> cases hr
    · rfl
    · exact .noCharCast
  · simp [Judged.reject] at h

/-- A step keeps the type of a number. -/
theorem step_accords {up : Bool} (h : v.ty.isNumeric = true) :
    Accords p (v.step up) fun w => w.ty = v.ty := by
  obtain ⟨x, rfl⟩ | ⟨x, rfl⟩ | ⟨x, rfl⟩ := of_numeric h
  · exact rfl
  · exact rfl
  · simp only [Value.step]
    split
    · exact rfl
    · refine .noCharStep ?_
      cases up
      · exact .inr rfl
      · exact .inl rfl

/-! ## Built-in functions and methods -/

theorem apply_accords_one {f : Builtin} {t : Ty} (h : Judge.builtinType? f [v.ty] = some t) :
    Accords p (f.apply s [v]) fun w => w.ty = t := by
  cases f <;> simp only [Judge.builtinType?, Option.ite_none_right_eq_some,
    Option.ite_none_left_eq_some, reduceCtorEq] at h
  case round =>
    obtain ⟨hv, ht⟩ := h
    cases ht
    obtain ⟨x, rfl⟩ | ⟨x, rfl⟩ | ⟨x, rfl⟩ := of_numeric hv <;> exact rfl
  case length =>
    obtain ⟨hv, ht⟩ := h
    cases ht
    cases v <;> first | exact rfl | simp [ty, Ty.isContainer, Ty.base?] at hv
  case toString =>
    cases h.2
    exact rfl

theorem apply_accords_two {f : Builtin} {t : Ty} (h : Judge.builtinType? f [a.ty, b.ty] = some t) :
    Accords p (f.apply s [a, b]) fun w => w.ty = t := by
  have hindex : ∀ i, (Builtin.indexValue i).ty = .int := by rintro (_ | _) <;> rfl
  simp only [Judge.builtinType?] at h
  split at h
  · rename_i ha hb
    cases h
    obtain ⟨x, rfl⟩ := of_string ha
    obtain ⟨y, rfl⟩ := of_string hb
    exact hindex _
  · rename_i ha
    obtain ⟨-, ht⟩ := Option.ite_none_right_eq_some.1 h
    cases ht
    obtain ⟨q, rfl, -⟩ := of_vector ha
    exact hindex _
  · rename_i ha
    obtain ⟨-, ht⟩ := Option.ite_none_right_eq_some.1 h
    cases ht
    obtain ⟨q, rfl, -⟩ := of_list ha
    exact hindex _
  · rename_i ha hb
    cases h
    obtain ⟨x, rfl⟩ := of_string ha
    obtain ⟨y, rfl⟩ := of_string hb
    exact rfl
  · cases h

theorem builtin_accords {f : Builtin} {vs : List Value} (hl : f.arity = vs.length)
    (h : (Judge.builtin f (vs.map ty) o).notes = []) :
    Accords p (f.call s vs) fun w => w.ty = (Judge.builtin f (vs.map ty) o).value := by
  have herr : (vs.map ty).any Ty.isError = false := by simp
  simp only [Judge.builtin, herr, Bool.false_eq_true, ↓reduceIte] at h ⊢
  split at h
  · rename_i t ht
    have hcall : f.call s vs = f.apply s vs := by
      simp [Builtin.call, (checkArity_ok (u := ())).2 hl, bind, Except.bind]
    rw [hcall]
    rcases vs with _ | ⟨v, _ | ⟨w, _ | ⟨u, vs⟩⟩⟩
    · cases f <;> cases hl
    · exact apply_accords_one ht
    · exact apply_accords_two ht
    · cases f <;> cases hl
  · simp [Judged.reject] at h

/-- A method that is not complained about takes one argument. -/
theorem method_inv {name : String} {r : Ty} {ts : List Ty} (hr : r.isError = false)
    (ht : ts.any Ty.isError = false) (h : (Judge.method name r ts o).notes = []) :
    ∃ m t, Method.ofName? name = some m ∧ ts = [t] ∧
      Judge.method name r ts o = Judge.methodOn m r t o := by
  simp only [Judge.method] at h ⊢
  split at h
  · simp [Judge.unknownMethod, hr, Judged.reject] at h
  · rename_i m hm
    split at h
    · simp [Judged.reject] at h
    · rename_i hl
      cases checkArity_ok.1 hl
    · rename_i t ts' hl
      have hl := checkArity_ok.1 hl
      obtain rfl : ts' = [] := by simpa [Method.arity] using hl
      exact ⟨m, t, hm, rfl, by simp_all⟩

theorem appendTo_accords {q : Sequence} (h : (Ty.scalar q.base).assignable v.ty = true) :
    Accords p (Method.appendTo q v) fun w => w.1.ty = .void := by
  obtain ⟨w, hw, -⟩ := Value.convert_of_assignable Method.append.name h
  simp only [Method.appendTo, hw]
  exact rfl

theorem removeFrom_accords {L : Layout} {q : Sequence} (hs : s.Typed L)
    (hq : (Value.list q).Fits L) (hv : v.ty = .int) :
    Accords p (Method.removeFrom s q v) fun w => w.1.ty = .scalar q.base := by
  obtain ⟨i, rfl⟩ := of_int hv
  simp only [Method.removeFrom, toInt?]
  split
  · rename_i n w hw
    obtain ⟨m, -, hm⟩ := Option.bind_eq_some_iff.1 hw
    obtain ⟨u, hu, he⟩ := Option.map_eq_some_iff.1 hm
    cases he
    have hi : some (Ty.scalar q.base) = some w.ty :=
      (hs.items (hq q rfl) _ (Array.mem_of_getElem? hu)).ty
    exact (Option.some.inj hi).symm
  · exact .indexOutOfBounds

theorem method_accords {L : Layout} {name : String} {m : Method} {r : Value} {vs : List Value}
    (hs : s.Typed L) (hr : r.Fits L) (hm : Method.ofName? name = some m)
    (h : (Judge.method name r.ty (vs.map ty) o).notes = []) :
    Accords p (m.call s r vs) fun w => w.1.ty = (Judge.method name r.ty (vs.map ty) o).value := by
  obtain ⟨m', t, hm', hts, hj⟩ := method_inv (isError_ty r) (by simp) h
  obtain rfl := Option.some.inj (hm.symm.trans hm')
  rw [hj] at h ⊢
  obtain ⟨v, rfl, rfl⟩ : ∃ v, vs = [v] ∧ v.ty = t := by
    rcases vs with _ | ⟨v, _ | _⟩ <;> simp_all
  have hcall : m.call s r [v] = m.apply s r v := by
    simp [Method.call, Method.arity, (checkArity_ok (u := ())).2 rfl, bind, Except.bind]
  have hfits : ∀ {ok : Bool} {expected received result : Ty},
      (Judge.argument m ok expected received result o).notes = [] →
        ok = true ∧ (Judge.argument m ok expected received result o).value = result :=
    fun {ok _ _ _} h => by
      cases ok
      · simp [Judge.argument, Judged.reject] at h
      · exact ⟨rfl, rfl⟩
  rw [hcall]
  simp only [Judge.methodOn] at h ⊢
  split at h
  case h_1 q hq =>
    obtain ⟨hok, ht⟩ := hfits h
    obtain ⟨q, rfl, rfl⟩ := of_list hq
    simp only [ht]
    exact appendTo_accords hok
  case h_2 q hq =>
    obtain ⟨hok, ht⟩ := hfits h
    obtain ⟨q, rfl, rfl⟩ := of_list hq
    simp only [ht]
    exact removeFrom_accords hs hr (eq_of_beq hok)
  case h_3 q hq =>
    obtain ⟨hok, ht⟩ := hfits h
    obtain ⟨q, rfl, rfl⟩ := of_vector hq
    simp only [ht]
    exact rfl
  case h_4 q hq =>
    obtain ⟨hok, ht⟩ := hfits h
    obtain ⟨q, rfl, rfl⟩ := of_list hq
    simp only [ht]
    exact rfl
  case h_5 hq =>
    obtain ⟨hok, ht⟩ := hfits h
    obtain ⟨x, rfl⟩ := of_string hq
    simp only [ht]
    cases v <;> first | exact rfl | simp [ty] at hok
  case h_6 hq =>
    obtain ⟨hok, ht⟩ := hfits h
    obtain ⟨x, rfl⟩ := of_string hq
    simp only [ht]
    cases v <;> first | exact rfl | simp [ty, Ty.assignable] at hok
  case h_7 => simp [Judge.unknownMethod, Judged.reject] at h

/-! ## Elements and literals -/

theorem element_item (h : (Judge.element v.ty false true o).notes = []) :
    v.ty.item? = some (Judge.element v.ty false true o).value := by
  cases v <;> first | exact rfl | simp [Judge.element, ty, Ty.isError, Judged.reject] at h

theorem element_matrix (h : (Judge.element v.ty true true o).notes = []) :
    ∃ q, v = .matrix q ∧ (Judge.element v.ty true true o).value = .scalar q.base := by
  cases v <;> first
    | exact ⟨_, rfl, rfl⟩
    | simp [Judge.element, ty, Ty.isError, Judged.reject] at h

/-- A container gives items of its type, or has none at the index. -/
theorem element_accords {L : Layout} {i : Int64} {t : Ty} (hs : s.Typed L) (hv : v.Fits L)
    (ht : v.ty.item? = some t) : Accords p (s.element v i) fun w => w.ty = t ∧ w.Fits L := by
  rcases hr : s.element v i with f | w
  · simp only [Store.element] at hr
    split at hr
    · rename_i hq
      cases v <;> simp_all [ty, Ty.item?, sequence?]
    · split at hr <;> cases hr
      exact .indexOutOfBounds
  · obtain ⟨hty, hfits⟩ := Store.element_takes hs hv hr
    exact ⟨Option.some.inj (hty.symm.trans ht), hfits⟩

/-- A container takes what is assignable to its items, unless it has none at the index. -/
theorem write_accords {L : Layout} {c : Value} {i : Int64} {j : Option Int64} {t : Ty}
    (owner : String) (hs : s.Typed L) (hc : c.Fits L)
    (ht : match j with
      | none => c.ty.item? = some t
      | some _ => ∃ q, c = .matrix q ∧ t = .scalar q.base)
    (hv : t.assignable v.ty = true) :
    Accords p (s.write c i j v owner) fun _ => True := by
  have hslot : Accords p (s.slot c i j) fun k => k.ty = t := by
    cases j with
    | none => cases c <;> simp_all [ty, Ty.item?, Store.slot, Accords]
    | some j =>
      obtain ⟨q, rfl, rfl⟩ := ht
      have he := element_accords (p := p) (i := i) hs hc rfl
      simp only [Store.slot]
      split
      · exact rfl
      · rename_i w hw hr
        rw [hr] at he
        obtain ⟨r, rfl, -⟩ := of_vector he.1
        exact absurd rfl (hw r)
      · rename_i hr
        rw [hr] at he
        exact he
  simp only [Store.write, bind, Except.bind]
  rcases hk : s.slot c i j with f | k <;> rw [hk] at hslot
  · exact hslot
  · subst hslot
    obtain ⟨w, hw, -⟩ := Value.convert_of_assignable owner hv
    simp only [hw, Store.inBounds]
    split <;> rename_i hr <;> split at hr <;> cases hr
    · exact .indexOutOfBounds
    · exact trivial

theorem unify_scalar {a c : Scalar} {t : Ty} (h : Ty.unify? (.scalar a) t = some (.scalar c)) :
    ∃ b, t = .scalar b ∧ Ty.unifyScalar? a b = some c := by
  simp only [Ty.unify?] at h
  split at h
  · rename_i ha
    cases h
    exact ⟨a, ha.symm, by simp [Ty.unifyScalar?]⟩
  · split at h
    · rename_i hx _
      cases hx
      obtain ⟨u, hu, he⟩ := Option.map_eq_some_iff.1 h
      cases he
      exact ⟨_, rfl, hu⟩
    · cases h

/-- A literal that is not complained about has a scalar for its items. -/
theorem elements_scalar {t : Ty} : ∀ {ts : List Ty}, (Judge.elements o t ts).notes = [] →
    ∃ a, t = .scalar a
  | [], h => by
    cases t <;> first
      | exact ⟨_, rfl⟩
      | simp [Judge.elements, Ty.scalar?, incompatibleElements, Judged.reject] at h
  | u :: ts, h => by
    simp only [Judge.elements] at h
    split at h
    · rename_i w hw
      obtain ⟨c, rfl⟩ := elements_scalar h
      cases t <;> simp only [Ty.unify?] at hw <;> split at hw <;> first
        | exact ⟨_, rfl⟩
        | cases hw
    · simp [incompatibleElements, Judged.reject] at h

theorem elements_commonBase : ∀ {vs : List Value} {a : Scalar},
    (Judge.elements o (.scalar a) (vs.map ty)).notes = [] →
      ∃ c, commonBase (some a) vs = .ok c ∧
        (Judge.elements o (.scalar a) (vs.map ty)).value = .vector c
  | [], a, _ => ⟨a, rfl, rfl⟩
  | v :: vs, a, h => by
    simp only [List.map_cons, Judge.elements] at h ⊢
    split at h
    · rename_i u hu
      obtain ⟨c, rfl⟩ := elements_scalar h
      obtain ⟨b, hb, hc⟩ := unify_scalar hu
      obtain ⟨d, hd, hv⟩ := elements_commonBase h
      refine ⟨d, ?_, by simpa [hu] using hv⟩
      simp [commonBase, hb, Ty.scalar?, widen, unifyBases, hc, hd]
    · simp [incompatibleElements, Judged.reject] at h

/-- The items of a vector literal have a common scalar. -/
theorem vector_accords {vs : List Value} (h : (Judge.vector (vs.map ty) o).notes = []) :
    ∃ b, commonBase none vs = .ok b ∧ (Judge.vector (vs.map ty) o).value = .vector b := by
  cases vs with
  | nil => simp [Judge.vector, Judged.reject] at h
  | cons v vs =>
    have herr : ((v :: vs).map ty).any Ty.isError = false := by simp
    simp only [List.map_cons] at herr
    simp only [List.map_cons, Judge.vector, herr, Bool.false_eq_true, ↓reduceIte] at h ⊢
    obtain ⟨a, ha⟩ := elements_scalar h
    rw [ha] at h ⊢
    obtain ⟨c, hc, hv⟩ := elements_commonBase h
    exact ⟨c, by simp [commonBase, ha, Ty.scalar?, widen, hc], hv⟩

/-- The rows of a matrix literal have a common scalar. -/
theorem rows_accords {N : Names} {es : List Expr} {vs : List Value} {base : Option Scalar}
    (hvs : List.Forall₂ (fun e v => ty v = (N.infer e).value) es vs)
    (h : (N.inferRows o base true es).notes = []) : ∃ b, commonRowBase base vs = .ok b ∧
      (N.inferRows o base true es).value = .matrix b := by
  induction hvs generalizing base with
  | nil =>
    cases base with
    | none => simp [Names.inferRows, Judged.reject] at h
    | some b => exact ⟨b, rfl, rfl⟩
  | @cons e v es vs hv hvs ih =>
    simp only [Names.inferRows, Judged.notes_bind, List.append_eq_nil_iff, ← hv] at h
    simp only [Names.inferRows, Judged.value_bind, ← hv]
    cases v <;> simp only [ty] at h ⊢
    case vector q =>
      cases base with
      | none => exact ih h.2
      | some c =>
        simp only at h ⊢
        split at h
        · rename_i u hu
          obtain ⟨b, hb, ht⟩ := ih h.2
          exact ⟨b, by simp [commonRowBase, widen, unifyBases, hu, hb], ht⟩
        · simp [incompatibleElements, Judged.reject] at h
    all_goals simp [Judged.note] at h

end Operators

end Primer
