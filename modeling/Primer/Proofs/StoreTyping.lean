import Mathlib
import Primer.Builtin
import Primer.Value.Operator

/-!
# Types of stored items

A layout gives every address of the store the type of the container that lives there, once and for
all: the store grows, and so does the layout. A vector or list over a scalar holds values of the
scalar, a matrix holds vectors over it, and a handle fits if the layout has its type. Items are
one level below their container, so no value reaches itself through the store
(`Store.Typed.acyclic`), and looking at a value ends (`Store.Typed.text_eq`,
`Store.Typed.equal_eq`).
-/

namespace Primer

/-- The type of the container at each address. -/
abbrev Layout := List Ty

/-- The type of the items of a container. -/
def Ty.item? : Ty → Option Ty
  | vector b => some (scalar b)
  | list b => some (scalar b)
  | matrix b => some (vector b)
  | _ => none

/-- A container value is a handle on a container of its type. -/
def Value.Fits (L : Layout) (v : Value) : Prop :=
  ∀ q, v.sequence? = some q → L[q.address]? = some v.ty

/-- A value that can stand in a container of a type. -/
structure Ty.Takes (L : Layout) (t : Ty) (v : Value) : Prop where
  ty : t.item? = some v.ty
  fits : v.Fits L

/-- The items of every container are of the type its own type asks for. -/
structure Store.Typed (L : Layout) (s : Store) : Prop where
  length : L.length = s.cells.size
  takes : ∀ {a : Nat} {t : Ty} {items : Array Value}, L[a]? = some t → s.cells[a]? = some items →
    ∀ v ∈ items, t.Takes L v

/-- An item of a container value. -/
def Store.Holds (s : Store) (v w : Value) : Prop := ∃ q, v.sequence? = some q ∧ w ∈ s.items q

namespace Layout

variable {L L' : Layout} {a : Nat} {t : Ty}

theorem get_of_prefix (h : L <+: L') (ha : L[a]? = some t) : L'[a]? = some t := by
  obtain ⟨M, rfl⟩ := h
  obtain ⟨hlt, -⟩ := List.getElem?_eq_some_iff.1 ha
  rw [List.getElem?_append_left hlt, ha]

end Layout

namespace Value

variable {L L' : Layout} {v w : Value} {t : Ty}

theorem Fits.mono (h : v.Fits L) (hL : L <+: L') : v.Fits L' := fun q hq =>
  Layout.get_of_prefix hL (h q hq)

/-- A value that is no container fits everywhere. -/
theorem fits_of_plain (h : v.sequence? = none) : v.Fits L := fun q hq => by simp [h] at hq

@[simp] theorem sequence?_eq_none_iff : v.sequence? = none ↔ v.ty.base? = none := by
  cases v <;> simp [sequence?, ty, Ty.base?]

theorem fits_of_scalar {b : Scalar} (h : v.ty = .scalar b) : v.Fits L :=
  fits_of_plain (by simp [h, Ty.base?])

theorem coerce?_ty (h : v.coerce? t = some w) : w.ty = t := by
  simp only [coerce?] at h
  split at h
  · cases h
    assumption
  · split at h <;> cases h <;> rfl

theorem coerce?_fits (h : v.coerce? t = some w) (hv : v.Fits L) : w.Fits L := by
  simp only [coerce?] at h
  split at h
  · cases h
    exact hv
  · split at h <;> cases h <;> exact fits_of_plain rfl

theorem convert_ok {owner : String} (h : v.convert t owner = .ok w) : v.coerce? t = some w := by
  simp only [convert] at h
  split at h <;> cases h
  assumption

theorem cast_fits (h : v.cast t = .ok w) (hv : v.Fits L) : w.Fits L := by
  simp only [cast] at h
  split at h
  · cases h
    exact hv
  · split at h <;> (try split at h) <;> cases h <;> exact fits_of_plain rfl

theorem step_plain {up : Bool} (h : v.step up = .ok w) : w.sequence? = none := by
  cases v <;> simp only [step] at h <;> (try split at h) <;> cases h <;> rfl

theorem negate_plain (h : v.negate = .ok w) : w.sequence? = none := by
  cases v <;> simp only [negate] at h <;> cases h <;> rfl

theorem not_plain (h : v.not = .ok w) : w.sequence? = none := by
  cases v <;> simp only [not] at h <;> cases h; rfl

theorem divide_plain {x y : Float} (h : divide x y = .ok w) : w.sequence? = none := by
  simp only [divide] at h
  split at h <;> cases h
  rfl

theorem intArithmetic_plain {op : ArithmeticOp} {x y : Int64} (h : intArithmetic op x y = .ok w) :
    w.sequence? = none := by
  cases op <;> simp only [intArithmetic] at h
  case divide => exact divide_plain h
  case modulo => split at h <;> cases h; rfl
  all_goals cases h; rfl

theorem doubleArithmetic_plain {op : ArithmeticOp} {x y : Float} {f : Fault}
    (h : doubleArithmetic op x y f = .ok w) : w.sequence? = none := by
  cases op <;> simp only [doubleArithmetic] at h
  case divide => exact divide_plain h
  case modulo => cases h
  all_goals cases h; rfl

end Value

namespace Store

variable {L : Layout} {s : Store} {v w : Value}

theorem arithmetic_plain {op : ArithmeticOp} {a b : Value} (h : s.arithmetic op a b = .ok w) :
    w.sequence? = none := by
  simp only [arithmetic] at h
  split at h
  · cases h
    rfl
  · split at h
    · exact Value.intArithmetic_plain h
    · split at h
      · exact Value.doubleArithmetic_plain h
      · cases h

end Store

/-- A change that puts in only what the container takes. -/
def Edit.Fits (L : Layout) : Edit → Prop
  | keep => True
  | push q v => ∃ t : Ty, L[q.address]? = some t ∧ t.Takes L v
  | set q _ v => ∃ t : Ty, L[q.address]? = some t ∧ t.Takes L v
  | erase _ _ => True

namespace Store

variable {L : Layout} {s : Store} {v w : Value} {t : Ty} {q : Sequence}

theorem Typed.items (h : s.Typed L) (hq : L[q.address]? = some t) :
    ∀ v ∈ s.items q, t.Takes L v := by
  intro v hv
  obtain ⟨hlt, -⟩ := List.getElem?_eq_some_iff.1 hq
  have hc := Array.getElem?_eq_getElem (h.length ▸ hlt : q.address < s.cells.size)
  refine h.takes hq hc v ?_
  simpa [Store.items, hc] using hv

/-- A change at one address that puts in only what the container there takes. -/
theorem Typed.modify (h : s.Typed L) {a : Nat} {g : Array Value → Array Value}
    (hg : ∀ t : Ty, L[a]? = some t → ∀ items, (∀ v ∈ items, t.Takes L v) →
      ∀ v ∈ g items, t.Takes L v) : Typed L ⟨s.cells.modify a g⟩ where
  length := by simpa using h.length
  takes := by
    intro b t items hb hc
    rw [Array.getElem?_modify] at hc
    split at hc
    · subst b
      obtain ⟨items, hi, rfl⟩ := Option.map_eq_some_iff.1 hc
      exact hg t hb items (h.takes hb hi)
    · exact h.takes hb hc

theorem Typed.edit (h : s.Typed L) : ∀ {e : Edit}, e.Fits L → (e.apply s).Typed L
  | .keep, _ => h
  | .push q v, ⟨t, hq, hv⟩ => h.modify fun u hu items hi w hw => by
    cases hq.symm.trans hu
    rcases Array.mem_push.1 hw with hw | rfl
    · exact hi w hw
    · exact hv
  | .set q i v, ⟨t, hq, hv⟩ => h.modify fun u hu items hi w hw => by
    cases hq.symm.trans hu
    rcases Array.mem_or_eq_of_mem_setIfInBounds hw with hw | rfl
    · exact hi w hw
    · exact hv
  | .erase q i, _ => h.modify fun u hu items hi w hw => by
    simp only [Array.eraseIdxIfInBounds] at hw
    split at hw
    · exact hi w (Array.mem_of_mem_eraseIdx hw)
    · exact hi w hw

theorem Typed.alloc (h : s.Typed L) {b : Scalar} {items : Array Value}
    (hi : ∀ v ∈ items, t.Takes L v) : (s.alloc b items).2.Typed (L ++ [t]) := by
  refine ⟨by simp [Store.alloc, h.length], fun {a u items'} ha hc v hv => ?_⟩
  simp only [Store.alloc] at hc
  have htakes : u.Takes L v := by
    rw [Array.getElem?_push, ← h.length] at hc
    split at hc
    · subst a
      simp only [List.getElem?_concat_length, Option.some.injEq] at ha hc
      subst ha hc
      exact hi v hv
    · rename_i hne
      obtain ⟨hlt, -⟩ := List.getElem?_eq_some_iff.1 ha
      simp only [List.length_append, List.length_cons, List.length_nil] at hlt
      rw [List.getElem?_append_left (by omega)] at ha
      exact h.takes ha hc v hv
  exact ⟨htakes.ty, htakes.fits.mono (List.prefix_append ..)⟩

/-- A new container, with a handle on it. -/
theorem Typed.new (h : s.Typed L) (b : Scalar) (items : Array Value) (v : Value)
    (hv : v.sequence? = some (s.alloc b items).1) (hi : ∀ w ∈ items, v.ty.Takes L w) :
    ∃ L', L <+: L' ∧ (s.alloc b items).2.Typed L' ∧ v.Fits L' := by
  refine ⟨L ++ [v.ty], List.prefix_append .., h.alloc hi, fun q hq => ?_⟩
  cases hv.symm.trans hq
  simp [Store.alloc, ← h.length]

theorem Typed.default (h : s.Typed L) (ht : t ≠ .error) : ∃ L', L <+: L' ∧
    (s.default t).2.Typed L' ∧ (s.default t).1.ty = t ∧ (s.default t).1.Fits L' := by
  have hplain : ∀ v : Value, v.ty.base? = none → v.ty = t → s.default t = (v, s) →
      ∃ L', L <+: L' ∧ (s.default t).2.Typed L' ∧ (s.default t).1.ty = t ∧
        (s.default t).1.Fits L' := fun v hv hty he => by
    rw [he]
    exact ⟨L, List.prefix_rfl, h, hty, Value.fits_of_plain (by simpa using hv)⟩
  have hnew : ∀ b v, v.sequence? = some (s.alloc b #[]).1 → v.ty = t →
      s.default t = (v, (s.alloc b #[]).2) → ∃ L', L <+: L' ∧ (s.default t).2.Typed L' ∧
        (s.default t).1.ty = t ∧ (s.default t).1.Fits L' := fun b v hv hty he => by
    rw [he]
    obtain ⟨L', hL, hs, hfits⟩ := h.new b #[] v hv (by simp)
    exact ⟨L', hL, hs, hty, hfits⟩
  cases t with
  | scalar b => cases b <;> exact hplain _ rfl rfl rfl
  | void => exact hplain _ rfl rfl rfl
  | error => exact absurd rfl ht
  | vector b | matrix b | list b => exact hnew b _ rfl rfl rfl

theorem element_takes (h : s.Typed L) {i : Int64} (hv : v.Fits L) (he : s.element v i = .ok w) :
    v.ty.Takes L w := by
  simp only [element] at he
  split at he
  · cases he
  · rename_i q hq
    split at he <;> cases he
    rename_i hi
    obtain ⟨n, -, hn⟩ := Option.bind_eq_some_iff.1 hi
    exact h.items (hv q hq) w (Array.mem_of_getElem? hn)

theorem cell_takes (h : s.Typed L) {row : Value} {i : Int64} (hr : row.Fits L)
    (he : s.cell v row i = .ok w) : row.ty.Takes L w := by
  cases v <;> simp only [cell] at he <;> first | exact element_takes h hr he | cases he

/-- A slot takes what its container takes. -/
theorem slot_item (h : s.Typed L) {row : Int64} {column : Option Int64} {k : Slot}
    (hv : v.Fits L) (hs : s.slot v row column = .ok k) :
    ∃ t : Ty, L[k.sequence.address]? = some t ∧ t.item? = some k.ty := by
  cases v with
  | vector q =>
    cases column <;> cases hs
    exact ⟨_, hv q rfl, rfl⟩
  | list q =>
    cases column <;> cases hs
    exact ⟨_, hv q rfl, rfl⟩
  | matrix q =>
    cases column with
    | none =>
      cases hs
      exact ⟨_, hv q rfl, rfl⟩
    | some j =>
      simp only [slot] at hs
      split at hs <;> cases hs
      rename_i r hr
      obtain ⟨hty, hfits⟩ := element_takes h hv hr
      simp only [Value.ty, Ty.item?, Option.some.injEq, Ty.vector.injEq] at hty
      exact ⟨_, hfits r rfl, by simp [Value.ty, Ty.item?, hty]⟩
  | _ => cases hs

theorem write_fits (h : s.Typed L) {c : Value} {row : Int64} {column : Option Int64}
    {owner : String} {e : Edit} (hc : c.Fits L) (hv : v.Fits L)
    (he : s.write c row column v owner = .ok e) : e.Fits L := by
  simp only [write, bind, Except.bind, pure, Except.pure] at he
  split at he
  · cases he
  rename_i k hk
  split at he
  · cases he
  rename_i w hw
  split at he <;> cases he
  obtain ⟨t, ht, hitem⟩ := slot_item h hc hk
  have hw := Value.convert_ok hw
  exact ⟨t, ht, by rw [hitem, Value.coerce?_ty hw], Value.coerce?_fits hw hv⟩

end Store

theorem Method.call_fits {m : Method} {s : Store} {L : Layout} (h : s.Typed L) {r w : Value}
    {vs : List Value} {e : Edit} (hr : r.Fits L) (hvs : ∀ v ∈ vs, v.Fits L)
    (hm : m.call s r vs = .ok (w, e)) : w.Fits L ∧ e.Fits L := by
  simp only [call, bind, Except.bind] at hm
  split at hm
  · cases hm
  rcases vs with _ | ⟨v, rest⟩
  · cases hm
  simp only [apply] at hm
  split at hm
  case h_1 q u =>
    simp only [appendTo, bind, Except.bind, pure, Except.pure] at hm
    split at hm <;> cases hm
    rename_i w hw
    have hw := Value.convert_ok hw
    exact ⟨Value.fits_of_plain rfl, _, hr q rfl,
      by rw [Value.coerce?_ty hw]; rfl, Value.coerce?_fits hw (hvs _ List.mem_cons_self)⟩
  case h_2 q u =>
    simp only [removeFrom] at hm
    split at hm
    · cases hm
    · split at hm <;> cases hm
      rename_i hg
      obtain ⟨n, -, hn⟩ := Option.bind_eq_some_iff.1 hg
      obtain ⟨x, hx, hxw⟩ := Option.map_eq_some_iff.1 hn
      cases hxw
      exact ⟨(h.items (hr q rfl) _ (Array.mem_of_getElem? hx)).fits, trivial⟩
  all_goals
    cases hm
    try exact ⟨Value.fits_of_plain rfl, trivial⟩

theorem Builtin.call_plain {b : Builtin} {s : Store} {vs : List Value} {w : Value}
    (h : b.call s vs = .ok w) : w.sequence? = none := by
  simp only [call, bind, Except.bind] at h
  split at h
  · cases h
  · rcases vs with _ | ⟨v, _ | ⟨u, rest⟩⟩
    · cases h
    · cases b <;> cases v <;> simp [apply, orInvalid, Value.toInt?, Value.sequence?] at h <;>
        subst h <;> rfl
    · cases b <;> cases v <;> cases u <;>
        simp [apply, orInvalid, Value.sequence?, indexValue] at h <;>
        (try (subst h; split)) <;> first | rfl | (subst h; rfl)

/-! ## Literals -/

/-- Whether values of a scalar go into a container over another one. -/
def Scalar.Widens (a b : Scalar) : Prop := a = b ∨ a = .int ∧ b = .double

namespace Scalar.Widens

variable {a b c : Scalar}

theorem trans (h : a.Widens b) (h' : b.Widens c) : a.Widens c := by
  rcases h with rfl | ⟨rfl, rfl⟩
  · exact h'
  · rcases h' with rfl | ⟨h, -⟩
    · exact .inr ⟨rfl, rfl⟩
    · cases h

theorem of_unify (h : Ty.unifyScalar? a b = some c) : a.Widens c ∧ b.Widens c := by
  simp only [Ty.unifyScalar?] at h
  split at h
  · subst b
    cases h
    exact ⟨.inl rfl, .inl rfl⟩
  · split at h <;> cases h
    · exact ⟨.inr ⟨rfl, rfl⟩, .inl rfl⟩
    · exact ⟨.inl rfl, .inr ⟨rfl, rfl⟩⟩

end Scalar.Widens

namespace Value

theorem toItem_ty {v : Value} {a b : Scalar} (hv : v.ty = .scalar a) (h : a.Widens b) :
    (v.toItem b).ty = .scalar b := by
  rcases h with rfl | ⟨rfl, rfl⟩
  · simp [toItem, coerce?, hv]
  · cases v <;> cases hv
    rfl

theorem widen_ok {base : Option Scalar} {a b : Scalar} (h : widen base a = .ok b) :
    (∀ c ∈ base, c.Widens b) ∧ a.Widens b := by
  cases base with
  | none =>
    cases h
    exact ⟨by simp, .inl rfl⟩
  | some c =>
    simp only [widen, unifyBases] at h
    split at h <;> cases h
    rename_i hu
    have := Scalar.Widens.of_unify hu
    exact ⟨by simpa using this.1, this.2⟩

theorem commonBase_ok {b : Scalar} : ∀ {base : Option Scalar} {vs : List Value},
    commonBase base vs = .ok b →
      (∀ c ∈ base, c.Widens b) ∧ ∀ v ∈ vs, ∃ a : Scalar, v.ty = .scalar a ∧ a.Widens b
  | none, [], h => by cases h
  | some c, [], h => by
    cases h
    exact ⟨fun c hc => .inl (by simpa using hc.symm), by simp⟩
  | base, v :: vs, h => by
    simp only [commonBase] at h
    split at h
    · cases h
    · rename_i a ha
      split at h
      · rename_i c hc
        obtain ⟨hbase, hvs⟩ := commonBase_ok h
        obtain ⟨hw, haw⟩ := widen_ok hc
        have hcb := hbase c rfl
        refine ⟨fun d hd => (hw d hd).trans hcb, fun u hu => ?_⟩
        rcases List.mem_cons.1 hu with rfl | hu
        · refine ⟨a, ?_, haw.trans hcb⟩
          cases hty : u.ty <;> simp_all [Ty.scalar?]
        · exact hvs u hu
      · cases h

theorem commonRowBase_ok {b : Scalar} : ∀ {base : Option Scalar} {vs : List Value},
    commonRowBase base vs = .ok b →
      (∀ c ∈ base, c.Widens b) ∧ ∀ v ∈ vs, ∃ q, v = .vector q ∧ q.base.Widens b
  | none, [], h => by cases h
  | some c, [], h => by
    cases h
    exact ⟨fun c hc => .inl (by simpa using hc.symm), by simp⟩
  | base, v :: vs, h => by
    cases v with
    | vector q =>
      simp only [commonRowBase] at h
      split at h
      · rename_i c hc
        obtain ⟨hbase, hvs⟩ := commonRowBase_ok h
        obtain ⟨hw, haw⟩ := widen_ok hc
        have hcb := hbase c rfl
        refine ⟨fun d hd => (hw d hd).trans hcb, fun u hu => ?_⟩
        rcases List.mem_cons.1 hu with rfl | hu
        · exact ⟨q, rfl, haw.trans hcb⟩
        · exact hvs u hu
      · cases h
    | _ => simp [commonRowBase] at h

end Value

namespace Store

variable {L : Layout} {s : Store} {b : Scalar}

/-- The vector of a literal, over the scalar that holds all its values. -/
theorem Typed.vector (h : s.Typed L) {vs : List Value}
    (hvs : ∀ v ∈ vs, ∃ a : Scalar, v.ty = .scalar a ∧ a.Widens b) :
    ∃ L', L <+: L' ∧ (s.vector b vs).2.Typed L' ∧ (s.vector b vs).1.Fits L' := by
  refine h.new b _ (.vector _) rfl fun w hw => ?_
  obtain ⟨v, hv, rfl⟩ := List.mem_map.1 (List.mem_toArray.1 hw)
  obtain ⟨a, ha, hab⟩ := hvs v hv
  have hty := Value.toItem_ty ha hab
  exact ⟨by rw [hty]; rfl, Value.fits_of_scalar hty⟩

/-- A row of a literal is a vector over the scalar of the matrix, if need be a new one. -/
theorem Typed.row (h : s.Typed L) {q : Sequence} (hq : (Value.vector q).Fits L)
    (hb : q.base.Widens b) : ∃ L', L <+: L' ∧ (s.row b (.vector q)).2.Typed L' ∧
      (s.row b (.vector q)).1.ty = .vector b ∧ (s.row b (.vector q)).1.Fits L' := by
  simp only [Store.row]
  split
  · exact ⟨L, List.prefix_rfl, h, by simp [Value.ty, *], hq⟩
  · have hitems : ∀ w ∈ (s.items q).map (Value.toItem b), (Ty.vector b).Takes L w := by
      intro w hw
      obtain ⟨v, hv, rfl⟩ := Array.mem_map.1 hw
      have hv := (h.items (hq q rfl) v hv).ty
      have hty := Value.toItem_ty (by simpa [Value.ty, Ty.item?] using hv.symm) hb
      exact ⟨by rw [hty]; rfl, Value.fits_of_scalar hty⟩
    obtain ⟨L', hL, hs, hfits⟩ := h.new b _ (.vector _) rfl hitems
    exact ⟨L', hL, hs, rfl, hfits⟩

theorem Typed.rows : ∀ {vs : List Value} {L : Layout} {s : Store}, s.Typed L →
    (∀ v ∈ vs, v.Fits L ∧ ∃ q, v = .vector q ∧ q.base.Widens b) →
    ∃ L', L <+: L' ∧ (s.rows b vs).2.Typed L' ∧
      ∀ w ∈ (s.rows b vs).1, w.ty = .vector b ∧ w.Fits L'
  | [], L, s, h, _ => ⟨L, List.prefix_rfl, h, by simp [Store.rows]⟩
  | v :: vs, L, s, h, hvs => by
    obtain ⟨hv, q, rfl, hq⟩ := hvs v List.mem_cons_self
    obtain ⟨L', hL, hs, hty, hfits⟩ := h.row hv hq
    obtain ⟨M, hM, hs', hws⟩ := Typed.rows hs fun v hv =>
      have hv := hvs v (List.mem_cons_of_mem _ hv)
      ⟨hv.1.mono hL, hv.2⟩
    refine ⟨M, hL.trans hM, hs', fun w hw => ?_⟩
    rcases List.mem_cons.1 hw with rfl | hw
    · exact ⟨hty, hfits.mono hM⟩
    · exact hws w hw

/-- The matrix of a literal, over the scalar that holds the items of all its rows. -/
theorem Typed.matrix (h : s.Typed L) {vs : List Value}
    (hvs : ∀ v ∈ vs, v.Fits L ∧ ∃ q, v = .vector q ∧ q.base.Widens b) :
    ∃ L', L <+: L' ∧ (s.matrix b vs).2.Typed L' ∧ (s.matrix b vs).1.Fits L' := by
  obtain ⟨L', hL, hs, hws⟩ := h.rows hvs
  obtain ⟨M, hM, hs', hfits⟩ := hs.new b (s.rows b vs).1.toArray (.matrix _) rfl fun w hw => by
    obtain ⟨hty, hf⟩ := hws w (List.mem_toArray.1 hw)
    exact ⟨by rw [hty]; rfl, hf⟩
  exact ⟨M, hL.trans hM, hs', hfits⟩

end Store

/-! ## Looking at values -/

/-- How many containers deep the items of a type lie. -/
def Ty.height : Ty → Nat
  | vector _ => 1
  | list _ => 1
  | matrix _ => 2
  | _ => 0

namespace Store

variable {L : Layout} {s : Store} {v w : Value}

theorem Typed.holds_takes (h : s.Typed L) (hv : v.Fits L) (hw : s.Holds v w) :
    v.ty.Takes L w := by
  obtain ⟨q, hq, hw⟩ := hw
  exact h.items (hv q hq) w hw

theorem Typed.holds_height (h : s.Typed L) (hv : v.Fits L) (hw : s.Holds v w) :
    w.ty.height < v.ty.height := by
  have := (h.holds_takes hv hw).ty
  cases v <;> simp_all [Value.ty, Ty.item?] <;> rw [← this] <;> simp [Ty.height]

/-- What a value reaches through the store lies deeper than the value. -/
theorem Typed.reaches (h : s.Typed L) (hv : v.Fits L) (hw : Relation.TransGen s.Holds v w) :
    w.Fits L ∧ w.ty.height < v.ty.height := by
  induction hw with
  | single hw => exact ⟨(h.holds_takes hv hw).fits, h.holds_height hv hw⟩
  | tail _ hw ih => exact ⟨(h.holds_takes ih.1 hw).fits, Nat.lt_trans (h.holds_height ih.1 hw) ih.2⟩

/-- No value reaches itself through the store. -/
theorem Typed.acyclic (h : s.Typed L) (hv : v.Fits L) : ¬ Relation.TransGen s.Holds v v := fun hw =>
  absurd (h.reaches hv hw).2 (Nat.lt_irrefl _)

/-- Every way down from a value through the store ends. -/
theorem Typed.accessible (h : s.Typed L) (hv : v.Fits L) : Acc (fun w v => s.Holds v w) v := by
  generalize hn : v.ty.height = n
  induction n using Nat.strongRecOn generalizing v with
  | ind n ih =>
    subst hn
    exact .intro v fun w hw => ih _ (h.holds_height hv hw) (h.holds_takes hv hw).fits rfl

/-- Whether all ways down from a value end within a number of steps. -/
def Within (s : Store) : Nat → Value → Prop
  | 0, v => v.sequence? = none
  | n + 1, v => ∀ w, s.Holds v w → s.Within n w

theorem within_of_plain (h : v.sequence? = none) (n : Nat) : s.Within n v := by
  cases n with
  | zero => exact h
  | succ n =>
    rintro w ⟨q, hq, -⟩
    simp [h] at hq

theorem Within.succ : ∀ {n : Nat} {v : Value}, s.Within n v → s.Within (n + 1) v
  | 0, _, h => within_of_plain h 1
  | _ + 1, _, h => fun w hw => (h w hw).succ

theorem Within.mono {n m : Nat} (h : s.Within n v) (hnm : n ≤ m) : s.Within m v := by
  induction hnm with
  | refl => exact h
  | step _ ih => exact ih.succ

/-- A container is at an address of the store. -/
theorem Typed.address_lt (h : s.Typed L) (hv : v.Fits L) {q : Sequence}
    (hq : v.sequence? = some q) : q.address < s.cells.size := by
  obtain ⟨hlt, -⟩ := List.getElem?_eq_some_iff.1 (hv q hq)
  exact h.length ▸ hlt

/-- No way down from a value is longer than the store. -/
theorem Typed.within (h : s.Typed L) (hv : v.Fits L) : s.Within s.cells.size v := by
  rcases hq : v.sequence? with _ | q
  · exact within_of_plain hq _
  have hlt := h.address_lt hv hq
  by_cases hplain : ∀ w, s.Holds v w → w.sequence? = none
  · exact Within.mono (n := 1) hplain (by omega)
  · -- Only a matrix holds containers, and its rows live elsewhere than the matrix.
    obtain ⟨w, hw⟩ := Classical.not_forall.1 hplain
    obtain ⟨hw, hne⟩ := Classical.not_imp.1 hw
    obtain ⟨r, hr⟩ := Option.ne_none_iff_exists'.1 hne
    obtain ⟨hty, hfits⟩ := h.holds_takes hv hw
    have hrlt := h.address_lt hfits hr
    have hadr : q.address ≠ r.address := fun heq => by
      have hqt := hv q hq
      rw [heq, hfits r hr] at hqt
      cases hvt : v.ty <;> simp_all [Ty.item?]
    refine Within.mono (n := 2) (fun u hu x hx => ?_) (by omega)
    have hu' := h.holds_takes hv hu
    have hh := h.holds_height hu'.fits hx
    have hh' := h.holds_height hv hu
    have hle : v.ty.height ≤ 2 := by cases v.ty <;> simp [Ty.height]
    have hx0 : x.ty.height = 0 := by omega
    change x.sequence? = none
    cases x <;> simp_all [Value.ty, Ty.height, Value.sequence?]

theorem textTo_eq : ∀ {n m : Nat} {v : Value}, s.Within n v → s.Within m v →
    s.textTo n v = s.textTo m v
  | 0, 0, _, _, _ => rfl
  | 0, m + 1, v, h, _ => by
    have h : v.sequence? = none := h
    simp only [textTo, h]
  | n + 1, 0, v, _, h => by
    have h : v.sequence? = none := h
    simp only [textTo, h]
  | n + 1, m + 1, v, hn, hm => by
    simp only [textTo]
    split
    · rename_i q hq
      congr 3
      refine List.map_congr_left fun w hw => ?_
      have hw : s.Holds v w := ⟨q, hq, Array.mem_toList_iff.1 hw⟩
      exact textTo_eq (hn w hw) (hm w hw)
    · rfl

theorem isEqv_congr {f g : Value → Value → Bool} : ∀ {vs ws : List Value},
    (∀ v ∈ vs, ∀ w, f v w = g v w) → vs.isEqv ws f = vs.isEqv ws g
  | [], [], _ => rfl
  | [], _ :: _, _ => rfl
  | _ :: _, [], _ => rfl
  | v :: vs, w :: ws, h => by
    simp only [List.isEqv]
    rw [h v List.mem_cons_self, isEqv_congr fun u hu => h u (List.mem_cons_of_mem _ hu)]

theorem equalTo_plain (h : v.sequence? = none) (n : Nat) :
    s.equalTo n v w = plainEqual v w := by
  cases n with
  | zero => rfl
  | succ n => cases v <;> first | rfl | cases h

theorem equalTo_eq : ∀ {n m : Nat} {v w : Value}, s.Within n v → s.Within m v →
    s.equalTo n v w = s.equalTo m v w
  | 0, m, v, w, h, _ => by rw [equalTo_plain h, equalTo_plain h]
  | n + 1, 0, v, w, _, h => by rw [equalTo_plain h, equalTo_plain h]
  | n + 1, m + 1, v, w, hn, hm => by
    have hitems : ∀ q r : Sequence, v.sequence? = some q →
        (s.items q).toList.isEqv (s.items r).toList (s.equalTo n) =
          (s.items q).toList.isEqv (s.items r).toList (s.equalTo m) := fun q r hq =>
      isEqv_congr fun u hu x => by
        have hu : s.Holds v u := ⟨q, hq, Array.mem_toList_iff.1 hu⟩
        exact equalTo_eq (hn u hu) (hm u hu)
    cases v <;> cases w <;> first | rfl | exact hitems _ _ rfl

/-- The text of a value does not depend on how deep one looks, from the size of the store on. -/
theorem Typed.text_eq (h : s.Typed L) (hv : v.Fits L) {n : Nat} (hn : s.cells.size ≤ n) :
    s.textTo n v = s.text v :=
  textTo_eq ((h.within hv).mono hn) (h.within hv)

/-- Equality does not depend on how deep one looks, from the size of the store on. -/
theorem Typed.equal_eq (h : s.Typed L) (hv : v.Fits L) {n : Nat} (hn : s.cells.size ≤ n) :
    s.equalTo n v w = s.equal v w :=
  equalTo_eq ((h.within hv).mono hn) (h.within hv)

end Store

end Primer
