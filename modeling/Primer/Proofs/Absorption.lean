import Primer.Proofs.Holes

/-!
# Errors in expressions

An expression of type `error` has been complained about. What it is put into has the type it had or
is an error too, and brings no complaint of its own, however deep the error is
(`Names.mistaken_fill`); neither does a value, a condition or a target with one in it.
-/

namespace Primer

/-! ## Results with one complaint more -/

namespace Judged

variable {α β : Type} {ds : List Diagnostic} {bad : α → Prop} {bad' : β → Prop} {x y : Judged α}
  {f g : α → Judged β}

/-- Where the first result has no complaints, those of the second are `ds`, and its value is a bad
one or that of the first. -/
def Blames (ds : List Diagnostic) (bad : α → Prop) (x y : Judged α) : Prop :=
  x.notes = [] → y.notes = ds ∧ (bad y.value ∨ y.value = x.value)

/-- A bad value does not bring further complaints, nor does what differs only in its complaints. -/
theorem Blames.bind_of (h : Blames ds bad x y)
    (hbad : ∀ a, bad a → (f x.value).notes = [] → (g a).notes = [] ∧ bad' (g a).value)
    (hsame : (f x.value).notes = [] →
      (g x.value).notes = [] ∧ (g x.value).value = (f x.value).value) :
    Blames ds bad' (x >>= f) (y >>= g) := by
  intro hn
  obtain ⟨hx, hf⟩ := List.append_eq_nil_iff.1 hn
  obtain ⟨hy, hv⟩ := h hx
  simp only [notes_bind, value_bind, hy]
  rcases hv with hv | hv
  · obtain ⟨hg, hv⟩ := hbad _ hv hf
    exact ⟨by rw [hg, List.append_nil], .inl hv⟩
  · obtain ⟨hg, hsame⟩ := hsame hf
    rw [hv]
    exact ⟨by rw [hg, List.append_nil], .inr hsame⟩

theorem Blames.bind (h : Blames ds bad x y)
    (hbad : ∀ a, bad a → (f x.value).notes = [] → (f a).notes = [] ∧ bad' (f a).value) :
    Blames ds bad' (x >>= f) (y >>= f) :=
  h.bind_of hbad fun hf => ⟨hf, rfl⟩

theorem Blames.after (h : x.notes = [] → Blames ds bad' (f x.value) (g x.value)) :
    Blames ds bad' (x >>= f) (x >>= g) := by
  intro hn
  obtain ⟨hx, hf⟩ := List.append_eq_nil_iff.1 hn
  obtain ⟨hg, hv⟩ := h hx hf
  exact ⟨by rw [notes_bind, hx, hg, List.nil_append], hv⟩

theorem bind_assoc {γ : Type} (x : Judged α) (f : α → Judged β) (g : β → Judged γ) :
    (x >>= f) >>= g = x >>= fun a => f a >>= g :=
  congrArg (Judged.mk _) (List.append_assoc ..)

/-- A result without a value of its own is never a bad one. -/
theorem Blames.unit {bad : Unit → Prop} {x y : Judged Unit} (h : Blames ds bad x y)
    (bad' : Unit → Prop) : Blames ds bad' x y :=
  fun hn => ⟨(h hn).1, .inr rfl⟩

end Judged

open Judged (Blames)

/-! ## Types of expressions -/

namespace Judge

variable {t u : Ty} {p q : Position}

@[simp] theorem isError_error : Ty.error.isError = true := rfl

theorem index_at (h : (index t p).notes = []) : index t q = index t p := by
  obtain rfl | rfl := index_notes h <;> rfl

theorem parameter_at {f : Function} {i : Nat} {r : Parameter}
    (h : (parameter f i r t p).notes = []) : parameter f i r t q = pure () := by
  unfold parameter at *
  split_ifs at * with ht
  · rfl
  · cases h

theorem arithmetic_error {op : ArithmeticOp} : arithmetic op t .error p = pure .error := by
  simp [arithmetic]

theorem relational_error {op : RelationalOp} : relational op t .error p = pure .error := by
  simp [relational]

theorem logical_error {op : LogicalOp} : logical op t .error p = pure .error := by
  simp [logical]

theorem element_invalid {two : Bool} : element t two false p = pure .error := by
  simp [element]

theorem unknownMethod_error {name : String} (h : (unknownMethod name t p).notes = []) :
    unknownMethod name t p = pure .error := by
  unfold unknownMethod at *
  split_ifs at * with ht
  · rfl
  · cases h

/-- A method that is called on an error, or with one, has none of its own. -/
theorem method_error {name : String} {ts us : List Ty} (h : (method name t ts p).notes = [])
    (hl : us.length = ts.length) (hu : u = .error ∨ u = t ∧ us.any Ty.isError = true) :
    method name u us p = pure .error := by
  unfold method at *
  split at h
  · obtain rfl | ⟨rfl, -⟩ := hu
    · rfl
    · exact unknownMethod_error h
  · rw [hl]
    split at h
    · cases h
    · rename_i harity
      rw [harity, List.length_eq_zero_iff.1 hl]
    · rename_i harity
      rw [harity]
      cases us with
      | nil => cases hl
      | cons v us =>
        refine if_pos ?_
        obtain rfl | ⟨-, hus⟩ := hu
        · rfl
        · rw [hus, Bool.or_true]

theorem builtin_error {b : Builtin} {ts : List Ty} (h : ts.any Ty.isError = true) :
    builtin b ts p = pure .error :=
  if_pos h

theorem vector_error {ts : List Ty} (h : ts.any Ty.isError = true) : vector ts p = pure .error := by
  cases ts with
  | nil => cases h
  | cons t ts => exact if_pos h

end Judge

namespace Names

/-- Among some names, nothing but `ds` is complained about in an expression where nothing is in
another, and it has the same type if not an error. -/
abbrev Spoils (N : Names) (ds : List Diagnostic) (x y : Expr) : Prop :=
  Blames ds (· = .error) (N.infer x) (N.infer y)

variable {N : Names} {ds : List Diagnostic} {x y : Expr}

namespace Spoils

variable (h : N.Spoils ds x y)
include h

theorem all (before after : List Expr) :
    Blames ds (fun ts => ts.any Ty.isError = true ∧ ts.length = (before ++ x :: after).length)
      (N.inferAll (before ++ x :: after)) (N.inferAll (before ++ y :: after)) := by
  induction before with
  | nil =>
    refine h.bind ?_
    rintro _ rfl hafter
    simp only [Judged.notes_bind, List.append_eq_nil_iff] at hafter
    simp [hafter]
  | cons e before ih =>
    refine .after fun _ => ih.bind ?_
    rintro ts ⟨hts, hl⟩ -
    simp [hts, hl]

theorem arguments (f : Function) (before after : List Expr) :
    ∀ (i : Nat) {qs : List Parameter}, qs.length = (before ++ x :: after).length →
      Blames ds (fun _ => True) (N.inferArguments f i qs (before ++ x :: after))
        (N.inferArguments f i qs (before ++ y :: after)) := by
  induction before with
  | nil =>
    intro i qs hl
    cases qs with
    | nil => cases hl
    | cons q qs =>
      refine h.bind_of ?_ ?_
      · rintro _ rfl hsilent
        simp only [Judged.notes_bind, List.append_eq_nil_iff] at hsilent
        exact ⟨hsilent.2, trivial⟩
      · intro hsilent
        simp only [Judged.notes_bind, List.append_eq_nil_iff] at hsilent
        simp [Judge.parameter_at hsilent.1, hsilent.2]
  | cons e before ih =>
    intro i qs hl
    cases qs with
    | nil => cases hl
    | cons q qs => exact .after fun _ => .after fun _ => ih (i + 1) (Nat.succ.inj hl)

theorem call (f : String) (before after : List Expr) (p : Position) :
    Blames ds (· = .error) (N.inferCall f (before ++ x :: after) p)
      (N.inferCall f (before ++ y :: after) p) := by
  have hl : (before ++ y :: after).length = (before ++ x :: after).length := by simp
  unfold inferCall Judge.call
  rw [hl]
  split
  · split
    · intro hn
      cases hn
    · refine (h.all before after).bind ?_
      rintro ts ⟨hts, -⟩ -
      rw [Judge.builtin_error hts]
      exact ⟨rfl, rfl⟩
  · split
    · intro hn
      cases hn
    · split
      · intro hn
        cases hn
      · rename_i harity
        refine ((h.arguments _ before after 0 (checkArity_ok.1 harity)).unit fun _ => False).bind ?_
        exact fun _ h => h.elim

end Spoils

/-- The scalar of fewer rows is no wider than that of more. -/
def Narrows : Option Scalar → Option Scalar → Prop
  | none, _ => True
  | some _, none => False
  | some a, some b => Ty.unifyScalar? a b = some b

theorem Narrows.refl (base : Option Scalar) : Narrows base base := by
  cases base with
  | none => trivial
  | some b => exact if_pos rfl

theorem Narrows.wider {a b c u : Scalar} (ha : Narrows (some a) (some b))
    (h : Ty.unifyScalar? b c = some u) :
    ∃ v, Ty.unifyScalar? a c = some v ∧ Narrows (some v) (some u) := by
  have ha : Ty.unifyScalar? a b = some b := ha
  cases a <;> cases b <;> first
    | exact absurd ha (by decide)
    | cases c <;> cases h <;> exact ⟨_, rfl, rfl⟩

/-- A row more only widens the scalar. -/
theorem narrows_of_unify {a b u : Scalar} (h : Ty.unifyScalar? a b = some u) :
    Narrows (some a) (some u) ∧ Narrows (some b) (some u) := by
  cases a <;> cases b <;> cases h <;> exact ⟨rfl, rfl⟩

/-- Rows that fit together do so without some of them, though the scalar may be narrower then. -/
theorem rows_error {p : Position} {es : List Expr} {base base' : Option Scalar} {valid : Bool}
    (hb : Narrows base base') (h : (N.inferRows p base' valid es).notes = []) :
    (N.inferRows p base false es).notes = [] ∧ (N.inferRows p base false es).value = .error := by
  induction es generalizing base base' valid with
  | nil => cases base <;> exact ⟨rfl, rfl⟩
  | cons e es ih =>
    simp only [inferRows, Judged.notes_bind, List.append_eq_nil_iff] at h
    obtain ⟨he, h⟩ := h
    simp only [inferRows, Judged.notes_bind, Judged.value_bind, he, List.nil_append]
    generalize (N.infer e).value = t at h
    cases t with
    | error => exact ih hb h
    | vector b =>
      cases base' with
      | none =>
        cases base with
        | none => exact ih (.refl _) h
        | some a => exact hb.elim
      | some c =>
        cases hu : Ty.unifyScalar? c b with
        | none => simp [hu, incompatibleElements, Judged.reject] at h
        | some u =>
          simp only [hu] at h
          cases base with
          | none => exact ih (narrows_of_unify hu).2 h
          | some a =>
            obtain ⟨v, hv, hn⟩ := hb.wider hu
            simp only [hv]
            exact ih hn h
    | _ => cases h

theorem Spoils.rows (h : N.Spoils ds x y) {p : Position} (before after : List Expr) :
    ∀ (base : Option Scalar) (valid : Bool), Blames ds (· = .error)
      (N.inferRows p base valid (before ++ x :: after))
      (N.inferRows p base valid (before ++ y :: after)) := by
  induction before with
  | nil =>
    intro base valid
    refine h.bind_of ?_ ?_
    · rintro _ rfl hsilent
      generalize (N.infer x).value = t at hsilent
      cases t with
      | error => exact rows_error (.refl base) hsilent
      | vector b =>
        cases base with
        | none =>
          have hnarrows : Narrows none (some b) := trivial
          exact rows_error hnarrows hsilent
        | some c =>
          cases hu : Ty.unifyScalar? c b with
          | none => simp [hu, incompatibleElements, Judged.reject] at hsilent
          | some u =>
            simp only [hu] at hsilent
            exact rows_error (narrows_of_unify hu).1 hsilent
      | _ => cases hsilent
    · intro hsilent
      generalize (N.infer x).value = t at hsilent
      cases t with
      | error => exact ⟨hsilent, rfl⟩
      | vector b => exact ⟨hsilent, rfl⟩
      | _ => cases hsilent
  | cons e before ih =>
    intro base valid
    refine .after fun _ => ?_
    generalize (N.infer e).value = t
    cases t with
    | error => exact ih base false
    | vector b =>
      cases base with
      | none => exact ih (some b) valid
      | some c =>
        simp only
        cases Ty.unifyScalar? c b with
        | none =>
          intro hn
          cases hn
        | some u => exact ih (some u) valid
    | _ =>
      intro hn
      cases hn

/-- An index that is no valid one, or in what is no container, is not complained about again. -/
theorem Spoils.indexed (h : N.Spoils ds x y) :
    Blames ds (· = false) (N.infer x >>= fun t => Judge.index t x.position)
      (N.infer y >>= fun t => Judge.index t y.position) := by
  refine h.bind_of ?_ fun hn => ?_
  · rintro _ rfl -
    exact ⟨rfl, rfl⟩
  · rw [Judge.index_at hn]
    exact ⟨hn, rfl⟩

theorem Spoils.hole (h : N.Spoils ds x y) (k : Expr.Hole) : N.Spoils ds (k.fill x) (k.fill y) := by
  cases k with
  | left span op r =>
    cases op <;> refine h.bind ?_ <;> rintro _ rfl hr <;>
      exact ⟨by rw [Judged.notes_bind, (List.append_eq_nil_iff.1 hr).1]; rfl, rfl⟩
  | right span op l =>
    cases op <;> refine .after fun _ => h.bind ?_ <;> rintro _ rfl -
    · rw [Judge.arithmetic_error]
      exact ⟨rfl, rfl⟩
    · rw [Judge.relational_error]
      exact ⟨rfl, rfl⟩
    · rw [Judge.logical_error]
      exact ⟨rfl, rfl⟩
  | negate span | not span | cast span t =>
    refine h.bind ?_
    rintro _ rfl -
    exact ⟨rfl, rfl⟩
  | group span => exact h
  | argument span f before after => exact h.call f before after span.start
  | receiver span f args =>
    refine h.bind ?_
    rintro _ rfl hn
    obtain ⟨hargs, hm⟩ := List.append_eq_nil_iff.1 hn
    simp only [Judged.notes_bind, Judged.value_bind, hargs, Judge.method_error hm rfl (.inl rfl)]
    exact ⟨rfl, rfl⟩
  | methodArgument span r f before after =>
    refine .after fun _ => (h.all before after).bind ?_
    rintro us ⟨hus, hl⟩ hm
    rw [inferAll_value] at hm
    rw [Judge.method_error hm (by simpa using hl) (.inr ⟨rfl, hus⟩)]
    exact ⟨rfl, rfl⟩
  | target span i =>
    refine h.bind ?_
    rintro _ rfl hn
    simp only [Judged.notes_bind, List.append_eq_nil_iff] at hn
    simp [hn, Judge.element]
  | index span t =>
    refine .after fun _ => ?_
    rw [← Judged.bind_assoc, ← Judged.bind_assoc]
    refine h.indexed.bind ?_
    rintro _ rfl -
    rw [Judge.element_invalid]
    exact ⟨rfl, rfl⟩
  | cellTarget span i j =>
    refine h.bind ?_
    rintro _ rfl hn
    simp only [Judged.notes_bind, List.append_eq_nil_iff] at hn
    simp [hn, Judge.element]
  | cellIndex span t j =>
    refine .after fun _ => ?_
    rw [← Judged.bind_assoc, ← Judged.bind_assoc]
    refine h.indexed.bind ?_
    rintro _ rfl hn
    simp only [Judged.notes_bind, List.append_eq_nil_iff] at hn
    simp [hn, Judge.element]
  | column span t i =>
    refine .after fun _ => .after fun _ => .after fun _ => ?_
    rw [← Judged.bind_assoc, ← Judged.bind_assoc]
    refine h.indexed.bind ?_
    rintro _ rfl -
    rw [Bool.and_false, Judge.element_invalid]
    exact ⟨rfl, rfl⟩
  | item span before after =>
    refine (h.all before after).bind ?_
    rintro ts ⟨hts, -⟩ -
    rw [Judge.vector_error hts]
    exact ⟨rfl, rfl⟩
  | row span before after => exact h.rows before after none true

theorem Spoils.fill (h : N.Spoils ds x y) (holes : List Expr.Hole) :
    N.Spoils ds (Expr.fill holes x) (Expr.fill holes y) := by
  induction holes with
  | nil => exact h
  | cons k holes ih => exact ih.hole k

/-- Not even where a value takes its type from a slot is anything but `ds` complained about. -/
structure Mistaken (N : Names) (ds : List Diagnostic) (x y : Expr) : Prop where
  infer : N.Spoils ds x y
  slot : ∀ t, Blames ds (· = .error) (N.inferFor x t) (N.inferFor y t)

/-- An error in the place of any expression is the only mistake. -/
theorem mistaken_fill {e : Expr} (he : (N.infer e).value = .error) (hu : e.isUntyped = false)
    (holes : List Expr.Hole) (x : Expr) :
    N.Mistaken (N.infer e).notes (Expr.fill holes x) (Expr.fill holes e) := by
  have h : N.Spoils (N.infer e).notes x e := fun _ => ⟨rfl, .inl he⟩
  refine ⟨h.fill holes, fun t => ?_⟩
  -- Only a bare `new List()` looks at the slot, and nothing with a part is one.
  cases holes with
  | nil =>
    intro _
    rw [show Expr.fill [] e = e from rfl, inferFor_eq hu]
    exact ⟨rfl, .inl he⟩
  | cons k holes =>
    have htyped : ∀ z, (k.fill z).isUntyped = false := fun z => by
      cases k <;> first
        | rfl
        | exact (by cases ‹BinaryOp› <;> rfl)
    have hx : N.inferFor (Expr.fill (k :: holes) x) t = _ := inferFor_eq (htyped _)
    have he : N.inferFor (Expr.fill (k :: holes) e) t = _ := inferFor_eq (htyped _)
    rw [hx, he]
    exact h.fill (k :: holes)

theorem element_error {t : Ty} {i : Expr} {j : Option Expr} {p : Position}
    (h : (N.inferElement t i j p).notes = []) :
    (N.inferElement .error i j p).notes = [] ∧ (N.inferElement .error i j p).value = .error := by
  cases j <;> simp only [inferElement, Judged.notes_bind, List.append_eq_nil_iff] at h <;>
    simp [inferElement, h, Judge.element]

theorem Spoils.elementIndex (h : N.Spoils ds x y) (t : Ty) (j : Option Expr) (p : Position) :
    Blames ds (· = .error) (N.inferElement t x j p) (N.inferElement t y j p) := by
  unfold inferElement
  rw [← Judged.bind_assoc, ← Judged.bind_assoc]
  refine h.indexed.bind ?_
  rintro _ rfl hn
  cases j <;> simp only [Judged.notes_bind, List.append_eq_nil_iff] at hn <;>
    simp [hn, Judge.element]

theorem Spoils.elementColumn (h : N.Spoils ds x y) (t : Ty) (i : Expr) (p : Position) :
    Blames ds (· = .error) (N.inferElement t i (some x) p) (N.inferElement t i (some y) p) := by
  refine .after fun _ => .after fun _ => ?_
  dsimp only
  rw [← Judged.bind_assoc, ← Judged.bind_assoc]
  refine h.indexed.bind ?_
  rintro _ rfl -
  rw [Bool.and_false, Judge.element_invalid]
  exact ⟨rfl, rfl⟩

end Names

/-! ## Values, conditions and targets -/

namespace Checker

open Names (Mistaken Spoils)

variable {N : Names} {ds : List Diagnostic} {x y : Expr}

theorem fits_at {owner other : String} {expected received : Ty} {e e' : Expr}
    (h : (fits owner expected received e).notes = []) :
    fits other expected received e' = pure () := by
  unfold fits at *
  split_ifs at * with ht
  · rfl
  · cases h

theorem fits_error {owner : String} {expected received : Ty} {e : Expr}
    (h : expected = .error ∨ received = .error) : fits owner expected received e = pure () := by
  obtain rfl | rfl := h <;> simp [fits]

/-- A value that is an error fits, and so does one of the same type as one that does. -/
theorem fits_blames {owner other : String} {expected : Ty} {j j' : Judged Ty} {e e' : Expr}
    (h : Blames ds (· = .error) j j') :
    Blames ds (fun _ => True) (j >>= fun t => fits owner expected t e)
      (j' >>= fun t => fits other expected t e') := by
  refine h.bind_of ?_ fun hn => ?_
  · rintro _ rfl -
    rw [fits_error (.inr rfl)]
    exact ⟨rfl, trivial⟩
  · rw [fits_at hn]
    exact ⟨rfl, rfl⟩

theorem initial_blames (h : N.Mistaken ds x y) (name : String) (ty : Ty) :
    Blames ds (fun _ => True) (initial N name ty x) (initial N name ty y) :=
  fits_blames (h.slot ty)

theorem assignment_blames (h : N.Mistaken ds x y) (name : String) (p : Position) :
    Blames ds (fun _ => True) (assignment N name x p) (assignment N name y p) := by
  refine .after fun _ => ?_
  split_ifs
  · exact h.infer.bind fun _ _ _ => ⟨rfl, trivial⟩
  · exact fits_blames (h.slot _)

theorem target_blames (h : N.Spoils ds x y) (i : Expr) (j : Option Expr) (v : Expr) (p : Position) :
    Blames ds (fun _ => True) (indexAssignment N x i j v p) (indexAssignment N y i j v p) := by
  refine h.bind_of ?_ ?_
  · rintro _ rfl hn
    obtain ⟨helement, hn⟩ := List.append_eq_nil_iff.1 hn
    obtain ⟨hv, -⟩ := List.append_eq_nil_iff.1 hn
    obtain ⟨hnone, herror⟩ := Names.element_error helement
    simp only [Judged.notes_bind, hnone, herror, hv, fits_error (.inl rfl)]
    exact ⟨rfl, trivial⟩
  · intro hn
    obtain ⟨helement, hn⟩ := List.append_eq_nil_iff.1 hn
    obtain ⟨hv, hfits⟩ := List.append_eq_nil_iff.1 hn
    simp only [Judged.notes_bind, helement, hv, fits_at hfits]
    exact ⟨rfl, trivial⟩

theorem element_blames {j j' : Judged Ty} (h : Blames ds (· = .error) j j') (owner : String)
    (v : Expr) :
    Blames ds (fun _ => True)
      (j >>= fun expected => N.infer v >>= fun t => fits owner expected t v)
      (j' >>= fun expected => N.infer v >>= fun t => fits owner expected t v) := by
  refine h.bind ?_
  rintro _ rfl hn
  obtain ⟨hv, -⟩ := List.append_eq_nil_iff.1 hn
  rw [Judged.notes_bind, hv, fits_error (.inl rfl)]
  exact ⟨rfl, trivial⟩

theorem index_blames (h : N.Spoils ds x y) (t : Expr) (j : Option Expr) (v : Expr) (p : Position) :
    Blames ds (fun _ => True) (indexAssignment N t x j v p) (indexAssignment N t y j v p) :=
  .after fun _ => element_blames (h.elementIndex _ j p) _ v

theorem column_blames (h : N.Spoils ds x y) (t i v : Expr) (p : Position) :
    Blames ds (fun _ => True) (indexAssignment N t i (some x) v p)
      (indexAssignment N t i (some y) v p) :=
  .after fun _ => element_blames (h.elementColumn _ i p) _ v

theorem value_blames (h : N.Spoils ds x y) (t i : Expr) (j : Option Expr) (p : Position) :
    Blames ds (fun _ => True) (indexAssignment N t i j x p) (indexAssignment N t i j y p) :=
  .after fun _ => .after fun _ => fits_blames h

theorem step_blames (h : N.Spoils ds x y) (p : Position) :
    Blames ds (fun _ => True) (stepTarget N x p) (stepTarget N y p) := by
  refine h.bind ?_
  rintro _ rfl -
  exact ⟨rfl, trivial⟩

theorem condition_blames (h : N.Spoils ds x y) (construct : String) :
    Blames ds (fun _ => True) (condition N x construct) (condition N y construct) := by
  refine h.bind_of ?_ fun hn => ?_
  · rintro _ rfl -
    exact ⟨rfl, trivial⟩
  · split_ifs at * with ht
    · exact ⟨rfl, rfl⟩
    · cases hn

theorem caseValue_blames (h : N.Spoils ds x y) (t : Ty) :
    Blames ds (fun _ => True) (caseValue N t x) (caseValue N t y) := by
  refine h.bind_of ?_ fun hn => ?_
  · rintro _ rfl -
    simp
  · split_ifs at * with ht
    · exact ⟨rfl, rfl⟩
    · cases hn

theorem caseValue_error {t : Ty} {e : Expr} (h : (caseValue N t e).notes = []) :
    (caseValue N .error e).notes = [] := by
  obtain ⟨he, -⟩ := List.append_eq_nil_iff.1 h
  simp [caseValue, he]

end Checker

end Primer
