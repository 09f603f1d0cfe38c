import Mathlib
import Primer.Builtin

/-!
# Searching texts and containers

There are two ways to look for something, a function that gives an index and a method that tells
whether there is one, and each looks through texts and through containers. All of them look for
the first place where something holds (`FirstAt`): where a text begins with another one, or where
an item equals a value. An index is a number of sixty-four bits, so it tells the place apart from
none as long as the text or the container is shorter than 2⁶³ (`FirstAt.number`), which is as long
as anything in memory can be.
-/

namespace Primer

/-- The least index with a property, or none where no index has it. -/
def FirstAt (p : Nat → Prop) (r : Option Nat) : Prop := ∀ i, r = some i ↔ IsLeast {j | p j} i

/-- The least index with a property as a number, which is -1 where no index has it. -/
structure Finds (p : Nat → Prop) (z : Int64) : Prop where
  found : ∀ i : Nat, z.toInt = i ↔ IsLeast {j | p j} i
  missed : z = -1 ↔ ∀ i, ¬ p i

namespace FirstAt

variable {p : Nat → Prop} {r : Option Nat}

theorem eq_none_iff (h : FirstAt p r) : r = none ↔ ∀ i, ¬ p i := by
  classical
  constructor
  · intro hr i hi
    have hex : ∃ j, p j := ⟨i, hi⟩
    have hleast : IsLeast {j | p j} (Nat.find hex) :=
      ⟨Nat.find_spec hex, fun _ hj => Nat.find_min' hex hj⟩
    rw [← h, hr] at hleast
    cases hleast
  · intro hp
    rcases r with _ | i
    · rfl
    · exact absurd ((h i).1 rfl).1 (hp i)

theorem eq_zero_iff (h : FirstAt p r) : r = some 0 ↔ p 0 :=
  (h 0).trans ⟨fun hl => hl.1, fun h0 => ⟨h0, fun _ _ => Nat.zero_le _⟩⟩

theorem zero (h0 : p 0) : FirstAt p (some 0) := by
  intro i
  constructor
  · rintro ⟨⟩
    exact ⟨h0, fun _ _ => Nat.zero_le _⟩
  · intro hl
    rw [Nat.le_zero.1 (hl.2 h0)]

/-- Where the first index does not have the property, the first that has it is one behind. -/
theorem succ (h0 : ¬ p 0) (h : FirstAt (fun i => p (i + 1)) r) : FirstAt p (r.map (· + 1)) := by
  intro i
  rcases i with _ | i
  · refine iff_of_false ?_ fun hl => h0 hl.1
    cases r <;> simp
  have hiff : r.map (· + 1) = some (i + 1) ↔ r = some i := by simp
  rw [hiff, h i]
  constructor
  · rintro ⟨hi, hmin⟩
    refine ⟨hi, fun j hj => ?_⟩
    rcases j with _ | j
    · exact absurd hj h0
    · exact Nat.succ_le_succ (hmin hj)
  · rintro ⟨hi, hmin⟩
    exact ⟨hi, fun j hj => Nat.le_of_succ_le_succ (hmin hj)⟩

/-- Whether a first index was found and what it is, read off its number. -/
theorem number {n : Nat} (h : FirstAt p r) (hr : ∀ i, r = some i → i ≤ n) (hn : n < 2 ^ 63) :
    ∃ z, Builtin.indexValue r = .int z ∧ Finds p z ∧ (z = 0 ↔ p 0) ∧ (0 ≤ z ↔ r.isSome) := by
  rcases hi : r with _ | i
  · have hnone := h.eq_none_iff.1 hi
    have hone : (-1 : Int64).toInt = -1 := rfl
    refine ⟨-1, rfl, ⟨fun i => ?_, by simp [hnone]⟩, iff_of_false (by decide) (hnone 0), by decide⟩
    exact iff_of_false (by omega) fun hl => hnone i hl.1
  · have hlt : i < 2 ^ 63 := Nat.lt_of_le_of_lt (hr i hi) hn
    have hz : (Int64.ofNat i).toInt = i := Int64.toInt_ofNat_of_lt hlt
    have hp : p i := ((h i).1 hi).1
    have heq : ∀ j : Nat, (Int64.ofNat i).toInt = j ↔ r = some j := by
      intro j
      rw [hz, hi, Option.some.injEq]
      exact Int.ofNat_inj
    have hzero : (Int64.ofNat i).toInt = (0 : Int64).toInt ↔ r = some 0 := heq 0
    refine ⟨Int64.ofNat i, rfl, ⟨fun j => (heq j).trans (h j), ?_⟩, ?_, ?_⟩
    · refine iff_of_false (fun hneg => ?_) fun hnone => hnone i hp
      have hone : (Int64.ofNat i).toInt = -1 := congrArg Int64.toInt hneg
      omega
    · rw [← Int64.toInt_inj, hzero, h.eq_zero_iff]
    · have hle : (0 : Int64).toInt ≤ (Int64.ofNat i).toInt := by
        rw [hz]
        exact Int.natCast_nonneg i
      exact iff_of_true (Int64.le_iff_toInt_le.2 hle) rfl

end FirstAt

namespace Text

/-- A search in a text finds the first place from which on it begins with what is looked for. -/
theorem find?_first (needle : List Char) : ∀ cs : List Char,
    FirstAt (fun i => needle <+: cs.drop i) (find? needle cs)
  | [] => by
    unfold find?
    by_cases hn : needle = []
    · subst hn
      exact .zero (List.nil_prefix)
    · have hnone : ∀ i, ¬ needle <+: ([] : List Char).drop i := by
        intro i h
        rw [List.drop_nil] at h
        exact hn (List.prefix_nil.1 h)
      rw [if_neg (by simpa using hn)]
      exact fun i => iff_of_false nofun fun hl => hnone i hl.1
  | c :: rest => by
    unfold find?
    by_cases hp : needle.isPrefixOf (c :: rest) = true
    · rw [if_pos hp]
      exact .zero (List.isPrefixOf_iff_prefix.1 hp)
    · rw [if_neg hp]
      exact .succ (fun h => hp (List.isPrefixOf_iff_prefix.2 h)) (find?_first needle rest)

theorem find?_le {needle cs : List Char} {i : Nat} (h : find? needle cs = some i) :
    i ≤ cs.length := by
  obtain ⟨hi, hmin⟩ := (find?_first needle cs i).1 h
  by_cases hle : i ≤ cs.length
  · exact hle
  · -- Only the empty text begins behind the end, and it begins everywhere.
    have hdrop : cs.drop i = [] := List.drop_eq_nil_of_le (by omega)
    have hn : needle = [] := by
      have hi : needle <+: cs.drop i := hi
      rw [hdrop] at hi
      exact List.prefix_nil.1 hi
    exact absurd (hmin (show needle <+: cs.drop 0 by rw [hn]; exact List.nil_prefix)) (by omega)

/-- A character stands in a text where the text of that one character is found. -/
theorem isSome_find?_singleton (c : Char) (cs : List Char) :
    (find? [c] cs).isSome = cs.contains c := by
  induction cs with
  | nil => rfl
  | cons d rest ih =>
    unfold find?
    by_cases hcd : c = d
    · simp [hcd]
    · simp [hcd, ih]

end Text

namespace Store

/-- A search in a container finds the first item that equals what is looked for. -/
theorem find?_first (s : Store) (q : Sequence) (v : Value) :
    FirstAt (fun i => ∃ w, s.get? q i = some w ∧ s.equal w v = true) (s.find? q v) := by
  intro i
  unfold find? get?
  rw [Array.findIdx?_eq_some_iff_getElem]
  constructor
  · rintro ⟨hi, heq, hmin⟩
    refine ⟨⟨_, Array.getElem?_eq_getElem hi, heq⟩, ?_⟩
    rintro j ⟨w, hw, heq'⟩
    obtain ⟨hj, rfl⟩ := Array.getElem?_eq_some_iff.1 hw
    by_cases hij : i ≤ j
    · exact hij
    · exact absurd heq' (hmin j (by omega))
  · rintro ⟨⟨w, hw, heq⟩, hmin⟩
    obtain ⟨hi, rfl⟩ := Array.getElem?_eq_some_iff.1 hw
    refine ⟨hi, heq, fun j hj heq' => ?_⟩
    have hle : i ≤ j := hmin ⟨_, Array.getElem?_eq_getElem (by omega), heq'⟩
    omega

theorem find?_lt {s : Store} {q : Sequence} {v : Value} {i : Nat} (h : s.find? q v = some i) :
    i < s.length q := by
  obtain ⟨⟨w, hw, -⟩, -⟩ := (s.find?_first q v i).1 h
  exact (Array.getElem?_eq_some_iff.1 hw).1

end Store

section Calls

variable {s : Store} {container v : Value} {q : Sequence}

theorem Builtin.find_container (h : container = .vector q ∨ container = .list q) :
    Builtin.find.call s [container, v] = .ok (indexValue (s.find? q v)) := by
  rcases h with rfl | rfl <;> rfl

theorem Method.find_container (h : container = .vector q ∨ container = .list q) :
    Method.find.call s container [v] = .ok (.bool (s.find? q v).isSome, .keep) := by
  rcases h with rfl | rfl <;> rfl

end Calls

/-- The function gives the first place, as a number, and the method tells whether there is one; a
text starts with another exactly where that is found at its beginning, and a character is looked
for as the text of that one character. -/
theorem searches_agree (s : Store) :
    (∀ t u : String, t.length < 2 ^ 63 → ∃ z : Int64,
      Builtin.find.call s [.string t, .string u] = .ok (.int z) ∧
      Finds (fun i => u.toList <+: t.toList.drop i) z ∧
      Builtin.startsWith.call s [.string t, .string u] = .ok (.bool (z = 0)) ∧
      Method.startsWith.call s (.string t) [.string u] = .ok (.bool (z = 0), .keep) ∧
      Method.find.call s (.string t) [.string u] = .ok (.bool (0 ≤ z), .keep)) ∧
    (∀ (t : String) (c : Char), Method.find.call s (.string t) [.char c] =
      Method.find.call s (.string t) [.string (String.singleton c)]) ∧
    ∀ (container : Value) (q : Sequence) (v : Value),
      container = .vector q ∨ container = .list q → s.length q < 2 ^ 63 → ∃ z : Int64,
        Builtin.find.call s [container, v] = .ok (.int z) ∧
        Finds (fun i => ∃ w, s.get? q i = some w ∧ s.equal w v = true) z ∧
        Method.find.call s container [v] = .ok (.bool (0 ≤ z), .keep) := by
  refine ⟨fun t u ht => ?_, fun t c => ?_, fun container q v hq hlen => ?_⟩
  · have hfirst := Text.find?_first u.toList t.toList
    have hle : ∀ i, Text.find? u.toList t.toList = some i → i ≤ t.length := by
      intro i hi
      rw [← String.length_toList]
      exact Text.find?_le hi
    obtain ⟨z, hz, hfinds, hzero, hsome⟩ := hfirst.number hle ht
    have hprefix : u.toList.isPrefixOf t.toList = decide (z = 0) := by
      rw [Bool.eq_iff_iff, List.isPrefixOf_iff_prefix, decide_eq_true_iff, hzero, List.drop_zero]
    have hfind : (Text.find? u.toList t.toList).isSome = decide (0 ≤ z) := by
      rw [Bool.eq_iff_iff, decide_eq_true_iff, hsome]
    refine ⟨z, ?_, hfinds, ?_, ?_, ?_⟩
    · exact congrArg Except.ok hz
    · exact congrArg (fun b => Except.ok (Value.bool b)) hprefix
    · exact congrArg (fun b => Except.ok (Value.bool b, Edit.keep)) hprefix
    · exact congrArg (fun b => Except.ok (Value.bool b, Edit.keep)) hfind
  · have hc := Text.isSome_find?_singleton c t.toList
    rw [← String.toList_singleton] at hc
    exact congrArg (fun b => Except.ok (Value.bool b, Edit.keep)) hc.symm
  · obtain ⟨z, hz, hfinds, -, hsome⟩ :=
      (s.find?_first q v).number (fun i hi => (Store.find?_lt hi).le) hlen
    have hfind : (s.find? q v).isSome = decide (0 ≤ z) := by
      rw [Bool.eq_iff_iff, decide_eq_true_iff, hsome]
    refine ⟨z, ?_, hfinds, ?_⟩
    · rw [Builtin.find_container hq, hz]
    · rw [Method.find_container hq, hfind]

/-- An overlapping beginning is passed over, and the text is not ASCII; a list has what is looked
for twice. -/
theorem searches_agree_overlap :
    let s : Store := ⟨#[#[.char 'a', .char 'b', .char 'b']]⟩
    let q : Sequence := ⟨.char, 0⟩
    ("éééa".length < 2 ^ 63 ∧ ∃ z : Int64,
      Builtin.find.call s [.string "éééa", .string "éa"] = .ok (.int z) ∧
      Finds (fun i => "éa".toList <+: "éééa".toList.drop i) z ∧
      Method.find.call s (.string "éééa") [.string "éa"] = .ok (.bool (0 ≤ z), .keep)) ∧
    (s.length q < 2 ^ 63 ∧ ∃ z : Int64,
      Builtin.find.call s [.list q, .char 'b'] = .ok (.int z) ∧
      Finds (fun i => ∃ w, s.get? q i = some w ∧ s.equal w (.char 'b') = true) z ∧
      Method.find.call s (.list q) [.char 'b'] = .ok (.bool (0 ≤ z), .keep)) := by
  intro s q
  obtain ⟨htexts, -, hcontainers⟩ := searches_agree s
  obtain ⟨z, hfind, hfinds, -, -, hmethod⟩ := htexts "éééa" "éa" (by decide)
  have hlen : s.length q < 2 ^ 63 := by decide
  exact ⟨⟨by decide, z, hfind, hfinds, hmethod⟩, hlen, hcontainers _ q _ (.inr rfl) hlen⟩

end Primer
