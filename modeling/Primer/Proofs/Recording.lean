import Mathlib
import Primer.Listing

/-!
# What a listing keeps of what was recorded

A row is found by its key, and it keeps its place. Of the declarations recorded under its key it
shows the first one's name and place, the last one's type, and the value that came last, be it from
a recording or from an assignment (`Row.Records`). One change keeps this (`Represents.apply`), so it
holds after any sequence of changes (`run_represents`).
-/

namespace Primer

namespace Listing

variable {l : Listing} {row r : Row} {i j : Nat} {k : RowKey} {v : Value}

/-! ## Keys -/

/-- The keys of the rows, in order. -/
def keys (l : Listing) : List RowKey := l.rows.toList.map Row.rowKey

theorem getElem?_keys (l : Listing) (i : Nat) : l.keys[i]? = l.rows[i]?.map Row.rowKey := by
  simp [keys]

theorem keys_modify {f : Row → Row} (hf : ∀ r, (f r).rowKey = r.rowKey) :
    (l.modify i f hf).keys = l.keys := by
  refine List.ext_getElem? fun j => ?_
  rw [getElem?_keys, getElem?_keys, modify, Array.getElem?_modify]
  split
  · rw [Option.map_map]
    exact congrArg (Option.map · _) (funext hf)
  · rfl

@[simp] theorem keys_setValue (l : Listing) (i : Nat) (v : Value) :
    (l.setValue i v).keys = l.keys :=
  keys_modify (Row.rowKey_assign v)

theorem keys_push {h : l.index? row.rowKey = none} :
    (l.push row h).keys = l.keys ++ [row.rowKey] := by
  simp [push, keys]

theorem index?_some : l.index? k = some i ↔ l.keys[i]? = some k := by
  rw [getElem?_keys]
  exact index?_eq_some

theorem not_mem_of_index? (h : l.index? k = none) : k ∉ l.keys := by
  intro hk
  obtain ⟨i, hi⟩ := List.mem_iff_getElem?.1 hk
  cases h.symm.trans (index?_some.2 hi)

/-- The index tells the rows apart by their keys. -/
theorem keys_nodup (l : Listing) : l.keys.Nodup := by
  refine List.nodup_iff_getElem?_ne_getElem?.2 fun i j hij hj he => ?_
  have hkey := List.getElem?_eq_getElem hj
  have hi := index?_some.2 (he.trans hkey)
  exact hij.ne (Option.some.inj (hi.symm.trans (index?_some.2 hkey)))

theorem keys_record (l : Listing) (row : Row) : l.keys <+: (l.record row).2.keys := by
  cases h : l.index? row.rowKey with
  | some i =>
    rw [record_some h]
    exact (keys_modify row.rowKey_refresh).symm ▸ List.prefix_rfl
  | none =>
    rw [record_none h]
    exact (keys_push (h := h)).symm ▸ List.prefix_append ..

/-- Recording says where the row of the key is. -/
theorem index?_record (l : Listing) (row : Row) :
    (l.record row).2.index? row.rowKey = some (l.record row).1 := by
  rw [index?_some]
  cases h : l.index? row.rowKey with
  | some i =>
    rw [record_some h]
    exact (keys_modify row.rowKey_refresh).symm ▸ index?_some.1 h
  | none =>
    rw [record_none h]
    have hlength : l.size = l.keys.length := by simp [keys, size]
    dsimp only
    rw [keys_push, hlength, List.getElem?_concat_length]

end Listing

/-! ## Changes -/

/-- A change of a listing. -/
inductive Change where
  | record (row : Row)
  | setValue (i : Nat) (v : Value)

namespace Change

def row? : Change → Option Row
  | record row => some row
  | setValue .. => none

/-- Whether a change gives a value to the row that has a key and stands at a place. -/
def Writes (key : RowKey) (i : Nat) : Change → Prop
  | record row => row.rowKey = key
  | setValue j _ => j = i

/-- The value a change gives, and whether that is only a default. -/
def written : Change → Option Value × Bool
  | record row => (row.value, row.holdsDefault)
  | setValue _ v => (some v, false)

/-- The rows that changes record, in order. -/
def recorded (changes : List Change) : List Row := changes.filterMap row?

variable (changes : List Change)

@[simp] theorem recorded_record (row : Row) :
    recorded (changes ++ [record row]) = recorded changes ++ [row] := by
  simp [recorded, row?]

@[simp] theorem recorded_setValue (i : Nat) (v : Value) :
    recorded (changes ++ [setValue i v]) = recorded changes := by
  simp [recorded, row?]

end Change

open Change (recorded)

/-- A row says what changes recorded under its key, and shows the last value they gave it. -/
structure Row.Records (changes : List Change) (i : Nat) (r : Row) : Prop where
  declaration : ∃ first last, (recorded changes).find? (·.rowKey = r.rowKey) = some first ∧
    (recorded changes).reverse.find? (·.rowKey = r.rowKey) = some last ∧
    r.toDeclaration = { first.toDeclaration with ty := last.ty }
  shown : ∃ before change after, changes = before ++ change :: after ∧ change.Writes r.rowKey i ∧
    (∀ c ∈ after, ¬ c.Writes r.rowKey i) ∧ change.written = (r.value, r.holdsDefault)

namespace Row.Records

variable {changes : List Change} {c : Change} {i : Nat} {row r : Row} {v : Value}

/-- A row does not change where it is not written to. -/
theorem skip (h : r.Records changes i) (hc : ¬ c.Writes r.rowKey i) :
    r.Records (changes ++ [c]) i := by
  obtain ⟨⟨first, last, hfirst, hlast, hr⟩, before, change, after, hchanges, hw, hno, hshown⟩ := h
  refine ⟨?_, before, change, after ++ [c], by simp [hchanges], hw, ?_, hshown⟩
  · cases c with
    | setValue j v => exact ⟨first, last, by rwa [Change.recorded_setValue], by
        rwa [Change.recorded_setValue], hr⟩
    | record row =>
      have hne : ¬ row.rowKey = r.rowKey := hc
      exact ⟨first, last, by simp [hfirst], by simp [hne, hlast], hr⟩
  · simpa [or_imp, forall_and] using ⟨hno, hc⟩

/-- A row that is assigned to keeps its declaration. -/
theorem assign (h : r.Records changes i) : (r.assign v).Records (changes ++ [.setValue i v]) i := by
  obtain ⟨⟨first, last, hfirst, hlast, hr⟩, -⟩ := h
  refine ⟨⟨first, last, ?_, ?_, hr⟩, changes, .setValue i v, [], rfl, rfl, by simp, rfl⟩
  · rwa [Change.recorded_setValue]
  · rwa [Change.recorded_setValue]

/-- A row that is recorded again keeps all but its type of its declaration. -/
theorem refresh (h : r.Records changes i) (hkey : row.rowKey = r.rowKey) :
    (row.refresh r).Records (changes ++ [.record row]) i := by
  obtain ⟨⟨first, last, hfirst, hlast, hr⟩, -⟩ := h
  refine ⟨⟨first, row, ?_, ?_, ?_⟩, changes, .record row, [], rfl, hkey, by simp, rfl⟩
  · rw [Row.rowKey_refresh, Change.recorded_record, List.find?_append, hfirst, Option.some_or]
  · simp [hkey]
  · simp [Row.refresh, hr]

/-- The first row of a key is as it was recorded. -/
theorem first (h : ∀ r ∈ recorded changes, r.rowKey ≠ row.rowKey) :
    row.Records (changes ++ [.record row]) i := by
  have hnone : (recorded changes).find? (·.rowKey = row.rowKey) = none := by simpa using h
  exact ⟨⟨row, row, by simp [hnone], by simp, rfl⟩, changes, .record row, [], rfl, rfl, by simp,
    rfl⟩

end Row.Records

namespace Listing

/-- The listing after a change. -/
def apply (l : Listing) : Change → Listing
  | .record row => (l.record row).2
  | .setValue i v => l.setValue i v

/-- The listing after changes, from the first on. -/
def run (changes : List Change) : Listing := changes.foldl apply empty

/-- A listing has a row for every key that changes recorded, in the order in which the keys came up
first, and the rows say what was recorded. -/
structure Represents (changes : List Change) (l : Listing) : Prop where
  ordered : l.keys = ((recorded changes).map Row.rowKey).eraseDups
  rows : ∀ i (r : Row), l.rows[i]? = some r → r.Records changes i

variable {changes : List Change} {l : Listing} {c : Change} {row : Row}

/-- Of the keys recorded, one counts where it came up first. -/
theorem eraseDups_snoc (changes : List Change) (row : Row) :
    ((recorded (changes ++ [.record row])).map Row.rowKey).eraseDups =
      if row.rowKey ∈ (recorded changes).map Row.rowKey then
        ((recorded changes).map Row.rowKey).eraseDups
      else ((recorded changes).map Row.rowKey).eraseDups ++ [row.rowKey] := by
  rw [Change.recorded_record, List.map_append, List.eraseDups_append, List.removeAll,
    List.map_singleton, List.filter_singleton, List.elem_eq_mem]
  by_cases h : row.rowKey ∈ (recorded changes).map Row.rowKey
  · rw [if_pos h, decide_eq_true h, Bool.not_true, cond_false, List.eraseDups_nil, List.append_nil]
  · rw [if_neg h, decide_eq_false h, Bool.not_false, cond_true]
    rfl

theorem represents_empty : Represents [] empty where
  ordered := rfl
  rows i r h := by simp [empty] at h

theorem Represents.setValue (h : Represents changes l) (i : Nat) (v : Value) :
    Represents (changes ++ [.setValue i v]) (l.setValue i v) where
  ordered := by simpa using h.ordered
  rows j r hr := by
    rw [Listing.setValue, modify, Array.getElem?_modify] at hr
    split at hr
    · obtain ⟨r', hr', rfl⟩ := Option.map_eq_some_iff.1 hr
      subst j
      exact (h.rows i r' hr').assign
    · exact (h.rows j r hr).skip ‹_›

theorem Represents.record (h : Represents changes l) (row : Row) :
    Represents (changes ++ [.record row]) (l.record row).2 := by
  have hmem : row.rowKey ∈ (recorded changes).map Row.rowKey ↔ row.rowKey ∈ l.keys := by
    rw [h.ordered, List.mem_eraseDups]
  cases hi : l.index? row.rowKey with
  | some i =>
    have hkey := index?_some.1 hi
    rw [record_some hi]
    refine ⟨?_, fun j r hr => ?_⟩
    · have hin := hmem.2 (List.mem_of_getElem? hkey)
      rw [keys_modify row.rowKey_refresh, h.ordered, eraseDups_snoc, if_pos hin]
    · rw [modify, Array.getElem?_modify] at hr
      split at hr
      · obtain ⟨r', hr', rfl⟩ := Option.map_eq_some_iff.1 hr
        subst j
        rw [getElem?_keys, hr'] at hkey
        exact (h.rows i r' hr').refresh (Option.some.inj hkey).symm
      · -- Another row is written to, for the index knows one place for a key.
        refine (h.rows j r hr).skip fun hkey' => ?_
        have hj : l.keys[j]? = some row.rowKey := by
          rw [getElem?_keys, hr]
          exact congrArg some hkey'.symm
        exact absurd (Option.some.inj (hi.symm.trans (index?_some.2 hj))) ‹_›
  | none =>
    have hnew := not_mem_of_index? hi
    have hfirst : ∀ r ∈ recorded changes, r.rowKey ≠ row.rowKey := fun r hr he =>
      hnew (hmem.1 (List.mem_map.2 ⟨r, hr, he⟩))
    rw [record_none hi]
    refine ⟨?_, fun j r hr => ?_⟩
    · have hout := mt hmem.1 hnew
      rw [keys_push, h.ordered, eraseDups_snoc, if_neg hout]
    · rw [push, Array.getElem?_push] at hr
      split at hr
      · cases hr
        exact .first hfirst
      · refine (h.rows j r hr).skip fun hkey => hnew ?_
        rw [show row.rowKey = r.rowKey from hkey]
        exact List.mem_map_of_mem (Array.mem_toList_iff.2 (Array.mem_of_getElem? hr))

theorem Represents.apply (h : Represents changes l) (c : Change) :
    Represents (changes ++ [c]) (l.apply c) := by
  cases c with
  | record row => exact h.record row
  | setValue i v => exact h.setValue i v

theorem run_append (changes more : List Change) :
    run (changes ++ more) = more.foldl apply (run changes) :=
  List.foldl_append ..

theorem run_represents (changes : List Change) : Represents changes (run changes) := by
  induction changes using List.reverseRecOn with
  | nil => exact represents_empty
  | append_singleton changes c ih =>
    rw [run_append]
    exact ih.apply c

theorem keys_apply (l : Listing) (c : Change) : l.keys <+: (l.apply c).keys := by
  cases c with
  | record row => exact keys_record l row
  | setValue i v => exact (keys_setValue l i v).symm ▸ List.prefix_rfl

/-- Rows are never moved or taken out. -/
theorem keys_run_append (changes more : List Change) :
    (run changes).keys <+: (run (changes ++ more)).keys := by
  rw [run_append]
  induction more using List.reverseRecOn with
  | nil => exact List.prefix_rfl
  | append_singleton more c ih =>
    rw [List.foldl_append]
    exact ih.trans (keys_apply _ c)

/-! ## Searches -/

/-- An answer is the first row that fits, or says that none does. -/
def IsFirst (l : Listing) (fits : Row → Prop) : Option Row → Prop
  | some r => ∃ i : Nat, l.rows[i]? = some r ∧ fits r ∧
      ∀ j < i, ∀ r', l.rows[j]? = some r' → ¬ fits r'
  | none => ∀ (i : Nat) r, l.rows[i]? = some r → ¬ fits r

theorem isFirst_find? (l : Listing) {test : Row → Bool} {fits : Row → Prop}
    (h : ∀ r, test r = true ↔ fits r) : l.IsFirst fits (l.rows.find? test) := by
  cases hfind : l.rows.find? test with
  | some r =>
    obtain ⟨hr, i, hi, rfl, hbefore⟩ := Array.find?_eq_some_iff_getElem.1 hfind
    refine ⟨i, Array.getElem?_eq_getElem hi, (h _).1 hr, fun j hj r' hr' hfits => ?_⟩
    obtain ⟨_, rfl⟩ := Array.getElem?_eq_some_iff.1 hr'
    simpa [(h _).2 hfits] using hbefore j hj
  | none =>
    intro i r hr hfits
    exact Array.find?_eq_none.1 hfind r (Array.mem_of_getElem? hr) ((h r).2 hfits)

theorem isFirst_byName (l : Listing) (name : String) :
    l.IsFirst (·.key = Text.fold name) (l.find? name) :=
  l.isFirst_find? fun _ => beq_iff_eq

theorem isFirst_byNameIn (l : Listing) (name scope : String) :
    l.IsFirst (fun r => r.scope = scope ∧ r.key = Text.fold name) (l.findIn? name scope) :=
  l.isFirst_find? fun _ => by simp only [Bool.and_eq_true, beq_iff_eq]

/-- After any changes of a new listing no two rows have one key, and the index leads from the keys
of the rows, and from no others, to their places, those that recording answers with. The rows stand
in the order in which their keys came up first and stay there whatever is changed next. Each says
what was recorded under its key and shows the last value given to it. A search finds the first row
that fits. -/
theorem run_kept (changes : List Change) :
    (run changes).keys.Nodup ∧
      (∀ key i, (run changes).index.lookup key = some i ↔ (run changes).keys[i]? = some key) ∧
      (∀ row, (run (changes ++ [.record row])).index.lookup row.rowKey =
        some ((run changes).record row).1) ∧
      (run changes).keys = ((recorded changes).map Row.rowKey).eraseDups ∧
      (∀ more, (run changes).keys <+: (run (changes ++ more)).keys) ∧
      (∀ (i : Nat) (r : Row), (run changes).rows[i]? = some r → r.Records changes i) ∧
      ∀ name, (run changes).IsFirst (·.key = Text.fold name) ((run changes).find? name) ∧
        ∀ scope, (run changes).IsFirst (fun r => r.scope = scope ∧ r.key = Text.fold name)
          ((run changes).findIn? name scope) := by
  have hkept := run_represents changes
  refine ⟨keys_nodup _, fun _ _ => index?_some, fun row => ?_, hkept.ordered,
    keys_run_append changes, hkept.rows,
    fun name => ⟨isFirst_byName _ name, isFirst_byNameIn _ name⟩⟩
  rw [run_append]
  exact index?_record (run changes) row

end Listing

end Primer
