import Mathlib
import Primer.Text.Fold

/-!
# Small letters

The case of plain letters makes no difference to the small form of a text (`Text.fold_plainLower`).
No letter outside the plain ones becomes one of the characters that the names of types are made of
(`Text.exists_foreign`), so for those names it makes no difference either which other letters have a
case (`Text.lower_eq_iff`).
-/

namespace Primer.Text

/-! ## Plain letters -/

theorem toLower_cases (c : Char) : c.toLower = c ∨ c.isAlpha ∧ c.toLower.isAlpha := by
  by_cases hc : c.isUpper
  · have hu : c.isAlpha := by simp [Char.isAlpha, hc]
    exact .inr ⟨hu, by rwa [Char.isAlpha_toLower_eq_isAlpha]⟩
  · exact .inl (Char.toLower_eq_of_not_isUpper hc)

/-- What is the same for all letters does not depend on their case. -/
theorem toLower_blind {β : Type} (P : Char → β) {b : β} (h : ∀ c : Char, c.isAlpha → P c = b)
    (c : Char) : P c.toLower = P c := by
  rcases toLower_cases c with hc | ⟨hc, hl⟩
  · rw [hc]
  · rw [h _ hc, h _ hl]

theorem toLower_eq_iff {d : Char} (hd : d.isAlpha = false) (c : Char) : c.toLower = d ↔ c = d := by
  refine iff_of_eq (toLower_blind (b := False) (· = d) (fun c hc => ?_) c)
  exact eq_false fun h => by simp [← h, hc] at hd

theorem isAlpha_cases {c : Char} (h : c.isAlpha) :
    65 ≤ c.toNat ∧ c.toNat ≤ 90 ∨ 97 ≤ c.toNat ∧ c.toNat ≤ 122 := by
  simpa [Char.isAlpha, Char.isUpper, Char.isLower, UInt32.le_iff_toNat_le] using h

theorem isCased_toLower (c : Char) : isCased c.toLower = isCased c := by
  refine toLower_blind isCased (b := true) (fun c hc => List.any_eq_true.2 ?_) c
  rcases isAlpha_cases hc with hc | hc
  · exact ⟨(0x41, 0x5a), by decide, by simpa using hc⟩
  · exact ⟨(0x61, 0x7a), by decide, by simpa using hc⟩

/-- No plain letter is passed over. -/
theorem ignorable_far : ∀ r ∈ ignorableRanges,
    r.2 < 65 ∨ 90 < r.1 ∧ r.2 < 97 ∨ 122 < r.1 := by
  decide +kernel

theorem isIgnorable_toLower (c : Char) : isIgnorable c.toLower = isIgnorable c := by
  refine toLower_blind isIgnorable (b := false) (fun c hc => List.any_eq_false.2 fun r hr => ?_) c
  have hc := isAlpha_cases hc
  have hr := ignorable_far r hr
  simp only [Bool.and_eq_true, decide_eq_true_eq]
  omega

/-- A text with its plain letters small. -/
def plainLower (s : String) : String := String.ofList (s.toList.map Char.toLower)

theorem plainLower_plainLower (s : String) : plainLower (plainLower s) = plainLower s := by
  simp only [plainLower, String.toList_ofList, List.map_map]
  exact congrArg String.ofList (List.map_congr_left fun c _ => c.toLower_toLower_eq_toLower)

/-! ## Other letters -/

variable {final : List Char → List Char → Bool} {c : Char} {cs w before behind : List Char}

/-- Whether a character occurs in no name of a type. -/
def Foreign (c : Char) : Prop := 0x80 ≤ c.toNat ∨ c = 'k'

instance (c : Char) : Decidable (Foreign c) := inferInstanceAs (Decidable (_ ∨ _))

theorem toLower_of_foreign (h : 0x80 ≤ c.toNat) : c.toLower = c := by
  refine Char.toLower_eq_of_not_isUpper fun hu => ?_
  have hle : c.val ≤ 'Z'.val := by
    simp only [Char.isUpper, decide_eq_true_eq] at hu
    exact hu.2
  have hz : c.toNat ≤ 'Z'.toNat := UInt32.le_iff_toNat_le.1 hle
  exact absurd (h.trans hz) (by decide)

theorem not_foreign (h : (cs.all fun c => c.toNat < 0x80 && c != 'k') = true) :
    ∀ x ∈ cs, ¬ Foreign x := by
  intro x hx
  have hx := List.all_eq_true.1 h x hx
  simp only [Bool.and_eq_true, decide_eq_true_eq, bne_iff_ne] at hx
  exact not_or_intro (Nat.not_le.2 hx.1) hx.2

/-- Of the capitals beyond the plain letters, the small letter of the Kelvin sign alone is a plain
one. -/
theorem capitals_far : ∀ r ∈ capitals, r.first = 0x212a ∧ r.last = 0x212a ∧ r.shift = -8383 ∨
    0x80 ≤ r.first + r.shift ∧ (r.last + r.shift < 0xd800 ∨
      0xdfff < r.first + r.shift ∧ r.last + r.shift < 0x110000) := by
  decide +kernel

theorem foreign_small (h : 0x80 ≤ c.toNat) : Foreign (small c) := by
  unfold small
  rw [if_neg (Nat.not_lt.2 h)]
  split
  · rename_i r hr
    have hhas := List.find?_some hr
    simp only [Capitals.has, Bool.and_eq_true, decide_eq_true_eq] at hhas
    obtain ⟨⟨hfirst, hlast⟩, -⟩ := hhas
    rcases capitals_far r (List.mem_of_find?_eq_some hr) with ⟨hk, hk', hshift⟩ | ⟨hlow, hhigh⟩
    · have hc : c.toNat = 0x212a := by omega
      exact .inr (by rw [hc, hshift]; rfl)
    · refine .inl ?_
      have hvalid : (c.toNat + r.shift).toNat.isValidChar := by
        unfold Nat.isValidChar
        omega
      rw [Char.toNat_ofNat, if_pos hvalid]
      omega
  · exact .inl h

/-- A character beyond the plain ones does not become one of a name. -/
theorem exists_foreign (final : List Char → List Char → Bool) (before behind : List Char)
    (h : 0x80 ≤ c.toNat) : ∃ x ∈ smallBetween final before c behind, Foreign x := by
  unfold smallBetween
  split_ifs
  · exact ⟨'\u0307', by simp, by decide⟩
  · exact ⟨_, List.mem_singleton_self _, by decide⟩
  · exact ⟨_, List.mem_singleton_self _, by decide⟩
  · exact ⟨_, List.mem_singleton_self _, foreign_small h⟩

theorem smallBetween_plain (h : c.toNat < 0x80) :
    smallBetween final before c behind = [c.toLower] := by
  unfold smallBetween small
  rw [if_neg (by rintro rfl; exact absurd h (by decide)),
    if_neg (by rintro rfl; exact absurd h (by decide)), if_pos h]

theorem lowerBehind_eq_iff (hw : ∀ x ∈ w, ¬ Foreign x) :
    lowerBehind final before cs = w ↔ cs.map Char.toLower = w := by
  induction cs generalizing before w with
  | nil => rfl
  | cons c cs ih =>
    rw [lowerBehind, List.map_cons]
    by_cases h : c.toNat < 0x80
    · rw [smallBetween_plain h, List.singleton_append]
      cases w with
      | nil => simp
      | cons x w =>
        rw [List.cons.injEq, List.cons.injEq, ih fun y hy => hw y (List.mem_cons_of_mem x hy)]
    · rw [Nat.not_lt] at h
      obtain ⟨x, hx, hforeign⟩ := exists_foreign final before cs h
      constructor
      · rintro rfl
        exact absurd hforeign (hw x (List.mem_append_left _ hx))
      · rintro rfl
        refine absurd (.inl ?_) (hw _ List.mem_cons_self)
        rwa [toLower_of_foreign h]

theorem lower_eq_iff (final : List Char → List Char → Bool) (hw : ∀ x ∈ w, ¬ Foreign x) :
    lower final cs = w ↔ cs.map Char.toLower = w :=
  lowerBehind_eq_iff hw

/-! ## Names -/

theorem startsCased_map_toLower (cs : List Char) :
    startsCased (cs.map Char.toLower) = startsCased cs := by
  simp only [startsCased, List.find?_map, Option.any_map, Function.comp_def, isIgnorable_toLower,
    isCased_toLower]

theorem endsWord_map_toLower (before behind : List Char) :
    endsWord (before.map Char.toLower) (behind.map Char.toLower) = endsWord before behind := by
  simp only [endsWord, startsCased_map_toLower]

theorem smallBetween_toLower (before : List Char) (c : Char) (behind : List Char) :
    smallBetween endsWord (before.map Char.toLower) c.toLower (behind.map Char.toLower) =
      smallBetween endsWord before c behind := by
  by_cases h : c.toNat < 0x80
  · have hlow : c.toLower.toNat < 0x80 := by
      rcases toLower_cases c with hc | ⟨-, hc⟩
      · rwa [hc]
      · have hrange := isAlpha_cases hc
        omega
    rw [smallBetween_plain h, smallBetween_plain hlow, Char.toLower_toLower_eq_toLower]
  · rw [toLower_of_foreign (Nat.not_lt.1 h)]
    simp only [smallBetween, endsWord_map_toLower]

theorem lowerBehind_map_toLower (before cs : List Char) :
    lowerBehind endsWord (before.map Char.toLower) (cs.map Char.toLower) =
      lowerBehind endsWord before cs := by
  induction cs generalizing before with
  | nil => rfl
  | cons c cs ih =>
    have ih := ih (c :: before)
    rw [List.map_cons] at ih
    rw [List.map_cons, lowerBehind, lowerBehind, smallBetween_toLower, ih]

/-- A name is the same name whatever the case of its plain letters. -/
theorem fold_plainLower (s : String) : fold (plainLower s) = fold s := by
  have h := lowerBehind_map_toLower [] s.toList
  rw [List.map_nil] at h
  simp only [fold, plainLower, lower, String.toList_ofList, h]

end Primer.Text
