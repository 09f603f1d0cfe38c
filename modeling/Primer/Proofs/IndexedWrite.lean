import Mathlib
import Primer.Machine.Eval
import Primer.Proofs.StoreTyping

/-!
# Writes by index

Handles are shared: a row can stand in several matrices, or twice in one, and a container can be
the value of several variables. What one or two indices pick is an item behind one handle all the
same, and as the layout keeps a matrix apart from its rows, overwriting that item does not change
which item the indices pick (`Store.at_through`). So a write by index overwrites one item, the
one the same indices read, or it changes nothing (`Eval.write_settled`).
-/

namespace Primer

/-- The type of what one index or two pick in a container of a type. -/
def Ty.slot? (t : Ty) (column : Option Int64) : Option Ty :=
  match column with
  | none => t.item?
  | some _ => t.item?.bind Ty.item?

namespace Store

/-- What one index or two pick in a container: the element of an element for two. -/
def at? (s : Store) (container : Value) (row : Int64) (column : Option Int64) :
    Except Fault Value :=
  match column with
  | none => s.element container row
  | some j => do s.element (← s.element container row) j

/-- What an expression with one index or two gives. -/
def read (s : Store) (container : Value) (row : Int64) (column : Option Int64) :
    Except Fault Value :=
  match column with
  | none => s.element container row
  | some j => do s.cell container (← s.element container row) j

/-- The item at a place of the store. -/
def item? (s : Store) (a i : Nat) : Option Value := s.cells[a]?.bind (·[i]?)

/-- The item at one place is overwritten, and nothing else is different. -/
structure Overwrites (s t : Store) (a i : Nat) (w : Value) : Prop where
  inside : (s.item? a i).isSome
  written : t.item? a i = some w
  others : ∀ b j, (b, j) ≠ (a, i) → t.item? b j = s.item? b j
  sizes : ∀ b : Nat, t.cells[b]?.map Array.size = s.cells[b]?.map Array.size

variable {L : Layout} {s t : Store} {c v w : Value} {row : Int64} {column : Option Int64}
  {q : Sequence} {i : Nat} {k : Slot}

theorem item?_eq (s : Store) (q : Sequence) (i : Nat) : s.item? q.address i = s.get? q i := by
  simp only [item?, get?, Store.items]
  cases s.cells[q.address]? <;> simp

theorem inBounds_ok {x : Int64} (h : s.inBounds q x = .ok i) :
    x.toInt.toNat? = some i ∧ i < s.length q := by
  simp only [inBounds] at h
  split at h <;> cases h
  rename_i hi
  obtain ⟨hx, hlt⟩ := Option.filter_eq_some_iff.1 hi
  exact ⟨hx, by simpa using hlt⟩

/-- An index reads an element exactly where it is in bounds. -/
theorem element_of_inBounds {x : Int64} (hv : v.sequence? = some q) :
    (∃ w, s.element v x = .ok w) ↔ ∃ i, s.inBounds q x = .ok i := by
  simp only [element, hv, inBounds]
  rcases x.toInt.toNat? with _ | i
  · simp
  by_cases hi : i < s.length q
  · obtain ⟨w, hw⟩ : ∃ w, s.get? q i = some w := ⟨_, Array.getElem?_eq_getElem hi⟩
    simp [Option.filter, hi, hw]
  · have hw : s.get? q i = none := Array.getElem?_eq_none (Nat.le_of_not_lt hi)
    simp [Option.filter, hi, hw]

theorem overwrites_set (hi : i < s.length q) : s.Overwrites (s.set q i w) q.address i w where
  inside := by
    rw [item?_eq, get?, Option.isSome_iff_exists]
    exact ⟨_, Array.getElem?_eq_getElem hi⟩
  written := by
    have hi : i < (s.items q).size := hi
    simp [item?_eq, get?, items_set, hi]
  others := by
    intro b j hne
    -- The base of a handle plays no part in where its items are.
    have hb := item?_eq (s.set q i w) ⟨q.base, b⟩ j
    have hb' := item?_eq s ⟨q.base, b⟩ j
    rw [show b = (Sequence.mk q.base b).address from rfl, hb, hb', get?, get?, items_set]
    split
    · rename_i heq
      have hij : i ≠ j := fun hij => hne (by rw [hij, heq])
      simp [Array.getElem?_setIfInBounds_ne hij]
    · rfl
  sizes := by
    intro b
    simp only [set, Array.getElem?_modify]
    split
    · cases s.cells[b]? <;> simp
    · rfl

theorem element_set {x : Int64} (hv : v.sequence? = some q) (hx : s.inBounds q x = .ok i) :
    (s.set q i w).element v x = .ok w := by
  obtain ⟨hx, hi⟩ := inBounds_ok hx
  have hi : i < (s.items q).size := hi
  simp [element, hv, hx, get?, items_set, hi]

theorem element_congr {x : Int64} (hv : v.sequence? = some q) (h : t.items q = s.items q) :
    t.element v x = s.element v x := by
  have hget : t.get? q = s.get? q := funext fun i => by rw [get?, get?, h]
  simp only [element, hv, hget, length, h]

/-- The indices read what the slot they pick holds: they look into one container, whatever its
items are, as long as the other containers are as they were. -/
def Through (s : Store) (c : Value) (row : Int64) (column : Option Int64) (k : Slot) : Prop :=
  ∃ v : Value, v.sequence? = some k.sequence ∧
    ∀ t : Store, (∀ r : Sequence, r.address ≠ k.sequence.address → t.items r = s.items r) →
      t.at? c row column = t.element v k.index

/-- Where a container's elements are no containers, two indices read nothing. -/
theorem at_flat (h : s.Typed L) (hc : c.Fits L) (hflat : c.ty.item?.bind Ty.item? = none)
    (row j : Int64) : ∃ f, s.at? c row (some j) = .error f := by
  rcases hr : s.element c row with f | r
  · exact ⟨f, by simp [at?, hr, bind, Except.bind]⟩
  have hty : r.ty.item? = none := by simpa [(element_takes h hc hr).ty] using hflat
  have hplain : r.sequence? = none := by cases r <;> first | rfl | cases hty
  have hj : s.element r j = .error (.notIndexable r.ty.text) := by simp [element, hplain]
  exact ⟨_, by simp only [at?, hr, bind, Except.bind]; exact hj⟩

/-- Indices that pick a slot pick it by its type and read through it; others read nothing. -/
theorem at_through (h : s.Typed L) (hc : c.Fits L) (row : Int64) (column : Option Int64) :
    (∃ k, s.slot c row column = .ok k ∧ c.ty.slot? column = some k.ty ∧
      s.Through c row column k) ∨
    (∃ f, s.slot c row column = .error f) ∧ ∃ f, s.at? c row column = .error f := by
  cases column with
  | none =>
    have hthrough : ∀ k : Slot, c.sequence? = some k.sequence → k.index = row →
        s.Through c row none k := fun k hv hi => ⟨c, hv, fun t _ => by rw [hi]; rfl⟩
    cases c with
    | vector q | list q | matrix q => exact .inl ⟨_, rfl, rfl, hthrough _ rfl rfl⟩
    | _ => exact .inr ⟨⟨_, rfl⟩, _, rfl⟩
  | some j =>
    cases c with
    | matrix q =>
      rcases hr : s.element (.matrix q) row with f | r
      · exact .inr ⟨⟨f, by simp [slot, hr]⟩, f, by simp [at?, hr, bind, Except.bind]⟩
      obtain ⟨hty, hfits⟩ := element_takes h hc hr
      cases r with
      | vector r =>
        refine .inl ⟨⟨r, j, .scalar q.base⟩, by simp [slot, hr], rfl, .vector r, rfl,
          fun t ht => ?_⟩
        -- The layout has a matrix at one address and a vector at the other.
        have hne : q.address ≠ r.address := fun heq => by
          have hq := hc q rfl
          rw [heq, hfits r rfl] at hq
          cases hq
        have hrow : t.element (.matrix q) row = .ok (.vector r) := by
          rw [element_congr (q := q) rfl (ht q hne), hr]
        simp [at?, hrow, bind, Except.bind]
      | _ => cases hty
    | _ => exact .inr ⟨⟨_, rfl⟩, at_flat h hc rfl row j⟩

theorem read_of_slot {t : Ty} (ht : c.ty.slot? column = some t) (s : Store) :
    s.read c row column = s.at? c row column := by
  cases column with
  | none => rfl
  | some j => cases c <;> first | rfl | cases ht

/-- An expression reads what its indices pick, and nothing where they pick nothing. -/
theorem read_at (h : s.Typed L) (hc : c.Fits L) (row : Int64) (column : Option Int64) (w : Value) :
    s.read c row column = .ok w ↔ s.at? c row column = .ok w := by
  rcases ht : c.ty.slot? column with _ | t
  · cases column with
    | none => rfl
    | some j =>
      -- The second index is refused by the one, and finds no container in the other.
      obtain ⟨f, hf⟩ := at_flat h hc ht row j
      have hcell : ∀ r, ∃ g, s.cell c r j = .error g := fun r => by
        cases c <;> first | exact ⟨_, rfl⟩ | cases ht
      rw [hf]
      rcases hr : s.element c row with g | r
      · simp [read, hr, bind, Except.bind]
      · obtain ⟨g, hg⟩ := hcell r
        simp [read, hr, hg, bind, Except.bind]
  · rw [read_of_slot ht]

/-- The write of one item, seen through the indices that picked it. -/
theorem Through.set (ht : s.Through c row column k)
    (hi : s.inBounds k.sequence k.index = .ok i) (w : Value) :
    (s.set k.sequence i w).at? c row column = .ok w := by
  obtain ⟨v, hv, hat⟩ := ht
  rw [hat _ fun r hr => by rw [items_set, if_neg (Ne.symm hr)], element_set hv hi]

/-- The indices read something exactly where their slot is in bounds. -/
theorem Through.reads (ht : s.Through c row column k) :
    (∃ w, s.at? c row column = .ok w) ↔ ∃ i, s.inBounds k.sequence k.index = .ok i := by
  obtain ⟨v, hv, hat⟩ := ht
  rw [hat s fun r _ => rfl]
  exact element_of_inBounds hv

/-- A write sets the item that the indices read. One that is refused has indices that read nothing,
or a value that their slot does not take. -/
theorem write_cases (h : s.Typed L) (hc : c.Fits L) (row : Int64) (column : Option Int64)
    (v : Value) (owner : String) :
    (∃ k w i, s.write c row column v owner = .ok (.set k.sequence i w) ∧
      c.ty.slot? column = some k.ty ∧ v.coerce? k.ty = some w ∧
      s.inBounds k.sequence k.index = .ok i ∧ s.Through c row column k) ∨
    (∃ f, s.write c row column v owner = .error f) ∧
      ((∃ w, s.at? c row column = .ok w) →
        ∃ t, c.ty.slot? column = some t ∧ v.coerce? t = none) := by
  rcases at_through h hc row column with ⟨k, hk, hty, hthrough⟩ | ⟨⟨f, hf⟩, g, hg⟩
  · rcases hw : v.coerce? k.ty with _ | w
    · exact .inr ⟨⟨_, by simp [write, hk, Value.convert, hw, bind, Except.bind]; rfl⟩,
        fun _ => ⟨_, hty, hw⟩⟩
    rcases hi : s.inBounds k.sequence k.index with f | i
    · refine .inr ⟨⟨f, by simp [write, hk, Value.convert, hw, hi, bind, Except.bind]⟩, fun hr => ?_⟩
      obtain ⟨i, hi'⟩ := hthrough.reads.1 hr
      cases hi.symm.trans hi'
    · have hwrite : s.write c row column v owner = .ok (.set k.sequence i w) := by
        simp [write, hk, Value.convert, hw, hi, bind, Except.bind, pure, Except.pure]
      exact .inl ⟨k, w, i, hwrite, hty, hw, hi, hthrough⟩
  · refine .inr ⟨⟨f, by simp [write, hf, bind, Except.bind]⟩, ?_⟩
    rintro ⟨w, hw⟩
    cases hg.symm.trans hw

end Store

namespace Eval

variable {L : Layout} {m : Machine} {c v : Value} {row : Int64} {column : Option Int64}
  {owner : String} {p : Position}

theorem write_apply : (write c row column v owner p : Eval Unit) m =
    match m.store.write c row column v owner with
    | .ok e => .done () { m with store := e.apply m.store }
    | .error f => .failed ⟨f, p⟩ m := by
  change Effect.bind _ _ _ = _
  simp only [Effect.bind, ask, Runs.look]
  cases m.store.write c row column v owner <;> rfl

/-- A write by index overwrites the one item that the indices then read, with the value as its slot
takes it, or it fails and the machine stays as it was. It fails where the container has no slot for
so many indices, and for a value that its slot takes exactly where the indices read nothing. -/
theorem write_settled (h : m.store.Typed L) (hc : c.Fits L) (row : Int64) (column : Option Int64)
    (v : Value) (owner : String) (p : Position) :
    ((∃ t w a i s, c.ty.slot? column = some t ∧ v.coerce? t = some w ∧
        (write c row column v owner p : Eval Unit) m = .done () { m with store := s } ∧
        m.store.Overwrites s a i w ∧ s.at? c row column = .ok w ∧ s.read c row column = .ok w) ∨
      ∃ d, (write c row column v owner p : Eval Unit) m = .failed d m) ∧
    (c.ty.slot? column = none →
      (∃ d, (write c row column v owner p : Eval Unit) m = .failed d m) ∧
        ∃ f, m.store.at? c row column = .error f) ∧
    (∀ t w, c.ty.slot? column = some t → v.coerce? t = some w →
      ((∃ d, (write c row column v owner p : Eval Unit) m = .failed d m) ↔
        ∃ f, m.store.at? c row column = .error f)) ∧
    ∀ w, m.store.read c row column = .ok w ↔ m.store.at? c row column = .ok w := by
  rw [write_apply]
  have hread := Store.read_at h hc row column
  rcases Store.write_cases h hc row column v owner with
    ⟨k, w, i, hwrite, hty, hw, hi, hthrough⟩ | ⟨⟨f, hwrite⟩, hwhy⟩
  · obtain ⟨u, hu⟩ := hthrough.reads.2 ⟨i, hi⟩
    have hat := hthrough.set hi w
    rw [hwrite, hu]
    refine ⟨.inl ⟨_, w, _, i, _, hty, hw, rfl, Store.overwrites_set (Store.inBounds_ok hi).2, hat,
      (Store.read_of_slot hty _).trans hat⟩, ?_, ?_, ?_⟩
    · simp [hty]
    · simp
    · simpa [hu] using hread
  · have hrefused : (∀ t, c.ty.slot? column = some t → v.coerce? t ≠ none) →
        ∃ f, m.store.at? c row column = .error f := fun htakes => by
      rcases hu : m.store.at? c row column with f | u
      · exact ⟨f, rfl⟩
      · obtain ⟨t, ht, hnot⟩ := hwhy ⟨u, hu⟩
        exact absurd hnot (htakes t ht)
    rw [hwrite]
    refine ⟨.inr ⟨_, rfl⟩, fun hnone => ⟨⟨_, rfl⟩, hrefused fun t ht => ?_⟩,
      fun t w ht hw => iff_of_true ⟨_, rfl⟩ (hrefused fun t' ht' hnot => ?_), hread⟩
    · cases hnone.symm.trans ht
    · cases ht.symm.trans ht'
      cases hw.symm.trans hnot

/-- A cell of a matrix whose two rows are one vector. -/
theorem write_settled_shared :
    let rows : Value := .matrix ⟨.int, 1⟩
    let shared : Value := .vector ⟨.int, 0⟩
    let m : Machine := { store := ⟨#[#[.int 5, .int 6], #[shared, shared]]⟩, limit := 1 }
    let L : Layout := [.vector .int, .matrix .int]
    m.store.Typed L ∧ rows.Fits L ∧ ∃ w a i s, (Value.bool true).coerce? .int = some w ∧
      (write rows 1 (some 0) (.bool true) "m[1][0]" default : Eval Unit) m =
        .done () { m with store := s } ∧
      m.store.Overwrites s a i w ∧ s.at? rows 1 (some 0) = .ok w := by
  intro rows shared m L
  have hs : m.store.Typed L := by
    refine ⟨rfl, fun {a t items} ht hi v hv => ?_⟩
    rcases a with _ | _ | a <;> cases ht <;> cases hi
    · have hv : v ∈ #[Value.int 5, .int 6] := hv
      have hplain : v.ty = .int ∧ v.sequence? = none := by
        rcases (by simpa using hv : v = .int 5 ∨ v = .int 6) with rfl | rfl <;> exact ⟨rfl, rfl⟩
      exact ⟨by rw [hplain.1]; rfl, Value.fits_of_plain hplain.2⟩
    · have hv : v ∈ #[shared, shared] := hv
      have hv : v = shared := by simpa using hv
      subst hv
      exact ⟨rfl, fun q hq => by cases hq; rfl⟩
  have hc : rows.Fits L := fun q hq => by cases hq; rfl
  refine ⟨hs, hc, ?_⟩
  obtain ⟨hends, -, hfails, -⟩ :=
    write_settled hs hc 1 (some 0) (.bool true) "m[1][0]" default
  rcases hends with ⟨t, w, a, i, s, ht, hw, hdone, hover, hat, -⟩ | hfailed
  · cases ht
    exact ⟨w, a, i, s, hw, hdone, hover, hat⟩
  · obtain ⟨f, hf⟩ := (hfails .int _ rfl rfl).1 hfailed
    have hread : m.store.at? rows 1 (some 0) = .ok (.int 5) := rfl
    cases hread.symm.trans hf

end Eval

end Primer
