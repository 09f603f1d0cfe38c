import Primer.Proofs.Accords
import Primer.Proofs.Search

/-!
# What was appended to a list

A list takes a value as a slot of its base does, converted, and a search compares the items with
the value as it was given. The two go together for a value of the base itself: it is stored
unchanged, it equals itself unless it is a double, and appends take no item out
(`Appends.mem_items`). Of the other values that the check lets into a list that is not over double
there are only bools in lists over int. They are stored as 0 or 1, which no bool equals, so the
check takes a search for one that finds nothing.
-/

namespace Primer

/-- Appends to lists one after the other, of some value each. -/
inductive Appends (L : Layout) (s : Store) : Store → Prop
  | refl : Appends L s s
  | step {t : Store} {r : Sequence} {v w : Value} {e : Edit} : Appends L s t →
      (Value.list r).Fits L → Method.append.call t (.list r) [v] = .ok (w, e) →
      Appends L s (e.apply t)

namespace Value

variable {s : Store} {v w : Value} {b : Scalar}

theorem sequence?_of_scalar (h : v.ty = .scalar b) : v.sequence? = none := by
  simp [h, Ty.base?]

/-- A value that is no double equals itself. -/
theorem equal_self (s : Store) (h : v.ty = .scalar b) (hb : b ≠ .double) :
    s.equal v v = true := by
  unfold Store.equal
  rw [Store.equalTo_plain (sequence?_of_scalar h)]
  cases v <;> cases h <;> first | exact absurd rfl hb | exact beq_self_eq_true _

/-- An int equals no bool, whatever their numbers. -/
theorem equal_bool (s : Store) (hw : w.ty = .int) (hv : v.ty = .bool) :
    s.equal w v = false := by
  obtain ⟨x, rfl⟩ := of_int hw
  obtain ⟨c, rfl⟩ := of_bool hv
  unfold Store.equal
  rw [Store.equalTo_plain rfl]
  rfl

end Value

namespace Store

variable {s : Store} {q r : Sequence} {v w : Value}

theorem items_push (h : q.address < s.cells.size) (r : Sequence) (v : Value) :
    (s.push q v).items r = if q.address = r.address then (s.items r).push v else s.items r := by
  unfold push items
  rw [Array.getElem?_modify]
  split
  · rename_i heq
    have hc := Array.getElem?_eq_getElem (heq ▸ h : r.address < s.cells.size)
    simp [hc]
  · rfl

theorem mem_items_push (h : q.address < s.cells.size) : v ∈ (s.push q v).items q := by
  rw [items_push h, if_pos rfl]
  exact Array.mem_push_self

theorem mem_items_of_push (h : q.address < s.cells.size) (hw : w ∈ s.items r) :
    w ∈ (s.push q v).items r := by
  rw [items_push h]
  split
  · exact Array.mem_push_of_mem v hw
  · exact hw

/-- An item that equals a value is found as that value. -/
theorem isSome_find? (hw : w ∈ s.items q) (heq : s.equal w v = true) :
    (s.find? q v).isSome = true := by
  obtain ⟨i, hi, rfl⟩ := Array.getElem_of_mem hw
  by_cases hf : s.find? q v = none
  · have hnone := (s.find?_first q v).eq_none_iff.1 hf i
    exact absurd ⟨_, Array.getElem?_eq_getElem hi, heq⟩ hnone
  · exact Option.isSome_iff_ne_none.2 hf

theorem find?_none (h : ∀ w ∈ s.items q, s.equal w v = false) : s.find? q v = none := by
  refine (s.find?_first q v).eq_none_iff.2 fun i hi => ?_
  obtain ⟨w, hw, heq⟩ := hi
  rw [h w (Array.mem_of_getElem? hw)] at heq
  cases heq

end Store

namespace Method

variable {s : Store} {q : Sequence} {v w : Value} {e : Edit}

/-- An append that is carried out pushes the value as a slot of the base takes it. -/
theorem append_ok (h : append.call s (.list q) [v] = .ok (w, e)) :
    ∃ u, v.coerce? (.scalar q.base) = some u ∧ e = .push q u := by
  have hcall : append.call s (.list q) [v] = appendTo q v := rfl
  rw [hcall] at h
  unfold appendTo at h
  rcases hu : v.convert (.scalar q.base) append.name with f | u
  · rw [hu] at h
    cases h
  · rw [hu] at h
    cases h
    exact ⟨u, Value.convert_ok hu, rfl⟩

theorem append_of_coerce {u : Value} (h : v.coerce? (.scalar q.base) = some u) :
    append.call s (.list q) [v] = .ok (.void, .push q u) := by
  have hcall : append.call s (.list q) [v] = appendTo q v := rfl
  have hconvert : v.convert (.scalar q.base) append.name = .ok u := by
    unfold Value.convert
    rw [h]
  rw [hcall]
  unfold appendTo
  rw [hconvert]
  rfl

theorem find_missed (h : s.find? q v = none) :
    find.call s (.list q) [v] = .ok (.bool false, .keep) := by
  rw [find_container (.inr rfl), h]
  rfl

end Method

theorem Builtin.find_missed {s : Store} {q : Sequence} {v : Value} (h : s.find? q v = none) :
    find.call s [.list q, v] = .ok (.int (-1)) := by
  rw [find_container (.inr rfl), h]
  rfl

namespace Appends

variable {L : Layout} {s t : Store} {q : Sequence} {v : Value}

theorem typed (h : Appends L s t) (hs : s.Typed L) : t.Typed L := by
  induction h with
  | refl => exact hs
  | step _ hr hcall ih =>
    obtain ⟨u, hu, rfl⟩ := Method.append_ok hcall
    have hty := Value.coerce?_ty hu
    exact ih.edit ⟨_, hr _ rfl, by rw [hty]; rfl, Value.fits_of_scalar hty⟩

/-- Appends take no item out of a list. -/
theorem mem_items (h : Appends L s t) (hs : s.Typed L) (hv : v ∈ s.items q) : v ∈ t.items q := by
  induction h with
  | refl => exact hv
  | step hsteps hr hcall ih =>
    obtain ⟨u, -, rfl⟩ := Method.append_ok hcall
    exact Store.mem_items_of_push ((hsteps.typed hs).address_lt hr rfl) ih

end Appends

namespace Judge

variable {m : Method} {r t : Ty} {b : Scalar} {p : Position}

theorem method_single {name : String} (hm : Method.ofName? name = some m)
    (hr : r.isError = false) (ht : t.isError = false) :
    method name r [t] p = methodOn m r t p := by
  unfold method
  rw [hm]
  simp [checkArity, Method.arity, hr, ht]

theorem argument_notes {fits : Bool} {expected received result : Ty} :
    (argument m fits expected received result p).notes = [] ↔ fits = true := by
  unfold argument
  by_cases hfits : fits = true <;> simp [hfits, Judged.reject]

/-- A list takes in an append what a slot of its base takes. -/
theorem append_notes (ht : t.isError = false) :
    (method Method.append.name (.list b) [t] p).notes = [] ↔
      (Ty.scalar b).assignable t = true := by
  rw [method_single (m := .append) rfl rfl ht]
  exact argument_notes

/-- A list is searched for what it can store, and for what could store its items. -/
theorem find_notes (ht : t.isError = false) :
    (method Method.find.name (.list b) [t] p).notes = [] ↔ searchable b t = true := by
  rw [method_single (m := .find) rfl rfl ht]
  exact argument_notes

end Judge

theorem Ty.assignable_cases {b : Scalar} {t : Ty} (hb : b ≠ .double)
    (h : (Ty.scalar b).assignable t = true) : t = .scalar b ∨ b = .int ∧ t = .bool := by
  unfold Ty.assignable at h
  rcases Bool.or_eq_true_iff.1 h with heq | hother
  · exact .inl (eq_of_beq heq).symm
  · split at hother <;> simp_all

/-- In a store of typed items, for any list but one over double: a value that may be appended may be
searched for, and the append is carried out. From then on a value of the list's own base is found,
at an index within the list. The only other values are bools in lists over int, and of those none
is found. -/
theorem appended_found {L : Layout} {s : Store} {q : Sequence} {v : Value} {p : Position}
    (hs : s.Typed L) (hq : (Value.list q).Fits L) (hb : q.base ≠ .double)
    (hv : (Judge.method Method.append.name (.list q.base) [v.ty] p).notes = []) :
    (Judge.method Method.find.name (.list q.base) [v.ty] p).notes = [] ∧
    ∃ e, Method.append.call s (.list q) [v] = .ok (.void, e) ∧ ∀ t, Appends L (e.apply s) t →
      (v.ty = .scalar q.base →
        Method.find.call t (.list q) [v] = .ok (.bool true, .keep) ∧
        (t.length q < 2 ^ 63 → ∃ i n : Int64, Builtin.find.call t [.list q, v] = .ok (.int i) ∧
          Builtin.length.call t [.list q] = .ok (.int n) ∧ 0 ≤ i ∧ i < n)) ∧
      (v.ty ≠ .scalar q.base → q.base = .int ∧ v.ty = .bool ∧
        Method.find.call t (.list q) [v] = .ok (.bool false, .keep) ∧
        Builtin.find.call t [.list q, v] = .ok (.int (-1))) := by
  have hassign := (Judge.append_notes (Value.isError_ty v)).1 hv
  refine ⟨?_, ?_⟩
  · rw [Judge.find_notes (Value.isError_ty v)]
    unfold Judge.searchable
    rw [hassign, Bool.true_or]
  obtain ⟨u, hconvert, -⟩ := Value.convert_of_assignable Method.append.name hassign
  have hu := Value.convert_ok hconvert
  have huty := Value.coerce?_ty hu
  refine ⟨_, Method.append_of_coerce hu, fun t ht => ?_⟩
  have hpushed : (Edit.apply (.push q u) s).Typed L :=
    hs.edit ⟨_, hq q rfl, by rw [huty]; rfl, Value.fits_of_scalar huty⟩
  refine ⟨fun hty => ?_, fun hty => ?_⟩
  · have hsame : v.coerce? (.scalar q.base) = some v := if_pos hty
    obtain rfl : v = u := Option.some.inj (hsame.symm.trans hu)
    have hmem : v ∈ t.items q :=
      ht.mem_items hpushed (Store.mem_items_push (hs.address_lt hq rfl))
    have hsome := Store.isSome_find? hmem (Value.equal_self t hty hb)
    refine ⟨by rw [Method.find_container (.inr rfl), hsome], fun hlen => ?_⟩
    obtain ⟨i, hi⟩ := Option.isSome_iff_exists.1 hsome
    have hlt := Store.find?_lt hi
    have hz : (Int64.ofNat i).toInt = i := Int64.toInt_ofNat_of_lt (by omega)
    have hn : (Int64.ofNat (t.length q)).toInt = t.length q := Int64.toInt_ofNat_of_lt hlen
    refine ⟨Int64.ofNat i, Int64.ofNat (t.length q), ?_, rfl, ?_, ?_⟩
    · rw [Builtin.find_container (.inr rfl), hi]
      rfl
    · rw [Int64.le_iff_toInt_le, hz]
      exact Int.natCast_nonneg i
    · rw [Int64.lt_iff_toInt_lt, hz, hn]
      exact Int.ofNat_lt.2 hlt
  · obtain ⟨hint, hbool⟩ := (Ty.assignable_cases hb hassign).resolve_left hty
    have hitems : ∀ w ∈ t.items q, t.equal w v = false := by
      intro w hw
      have hitem : some (Ty.scalar q.base) = some w.ty :=
        ((ht.typed hpushed).items (hq q rfl) w hw).ty
      rw [hint] at hitem
      exact Value.equal_bool t (Option.some.inj hitem).symm hbool
    have hnone := Store.find?_none hitems
    exact ⟨hint, hbool, Method.find_missed hnone, Builtin.find_missed hnone⟩

/-- The empty list over int takes a 5 and then a bool, and the 5 is found in both. -/
theorem appended_found_int :
    let q : Sequence := ⟨.int, 0⟩
    let s : Store := ⟨#[#[]]⟩
    let t : Store := ⟨#[#[.int 5, .int 1]]⟩
    s.Typed [.list .int] ∧ (Value.list q).Fits [.list .int] ∧
      Appends [.list .int] (s.push q (.int 5)) t ∧
      Method.find.call t (.list q) [.int 5] = .ok (.bool true, .keep) := by
  intro q s t
  have hs : s.Typed [.list .int] := by
    refine ⟨rfl, fun {a ty items} ha hi v hv => ?_⟩
    rcases a with _ | a
    · cases hi
      cases hv with
      | mk hv => cases hv
    · cases hi
  have hq : (Value.list q).Fits [.list .int] := fun r hr => by
    cases hr
    rfl
  have hlater : Appends [.list .int] (s.push q (.int 5)) t :=
    .step (v := .bool true) .refl hq rfl
  obtain ⟨-, e, he, hfound⟩ := appended_found (v := .int 5) (p := .start) hs hq nofun rfl
  cases he
  exact ⟨hs, hq, hlater, ((hfound t hlater).1 rfl).1⟩

/-- A bool goes into a list over int and is not found there, though the check takes the search. -/
theorem appended_missed :
    let q : Sequence := ⟨.int, 0⟩
    let s : Store := ⟨#[#[]]⟩
    (Judge.method Method.append.name (.list .int) [.bool] .start).notes = [] ∧
      (Judge.method Method.find.name (.list .int) [.bool] .start).notes = [] ∧
      Method.append.call s (.list q) [.bool true] = .ok (.void, .push q (.int 1)) ∧
      Method.find.call (s.push q (.int 1)) (.list q) [.bool true] = .ok (.bool false, .keep) ∧
      Builtin.find.call (s.push q (.int 1)) [.list q, .bool true] = .ok (.int (-1)) := by
  intro q s
  have hnone : (s.push q (.int 1)).find? q (.bool true) = none := by
    refine Store.find?_none fun w hw => ?_
    have hw : w ∈ #[Value.int 1] := hw
    obtain rfl : w = .int 1 := by simpa using hw
    exact Value.equal_bool _ rfl rfl
  exact ⟨rfl, rfl, rfl, Method.find_missed hnone, Builtin.find_missed hnone⟩

end Primer
