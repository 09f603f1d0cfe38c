import Mathlib
import Primer.Value.Operator

/-!
# Powers of whole numbers

Whole numbers wrap around, so a product is known modulo 2⁶⁴, and a power by repeated squaring is
too (`Value.powerOf_modEq`). No power is taken to more than 2³² - 1. Above that, two powers agree
modulo 2⁶⁴ where the base is even, as both are zero, and for an odd base only where the factors
between them multiply to one (`pow_mul_modEq_iff`).
-/

namespace Primer

/-- Some factors more do not change a high power of an even number, which is zero, and those of an
odd number only if they are one together. -/
theorem pow_mul_modEq_iff (x m : ℤ) {k : ℕ} (hk : 64 ≤ k) :
    x ^ k * m ≡ x ^ k [ZMOD 2 ^ 64] ↔ Even x ∨ m ≡ 1 [ZMOD 2 ^ 64] := by
  have hdvd : x ^ k * m ≡ x ^ k [ZMOD 2 ^ 64] ↔ (2 : ℤ) ^ 64 ∣ x ^ k * (m - 1) := by
    rw [Int.modEq_comm, Int.modEq_iff_dvd, mul_sub, mul_one]
  have hone : m ≡ 1 [ZMOD 2 ^ 64] ↔ (2 : ℤ) ^ 64 ∣ m - 1 := by
    rw [Int.modEq_comm, Int.modEq_iff_dvd]
  rw [hdvd, hone]
  by_cases hx : Even x
  · have hpow : (2 : ℤ) ^ 64 ∣ x ^ k :=
      (pow_dvd_pow 2 hk).trans (pow_dvd_pow_of_dvd hx.two_dvd k)
    exact iff_of_true (hpow.mul_right _) (.inl hx)
  · have hodd : IsCoprime (2 : ℤ) x :=
      (Int.isCoprime_two_right.2 (Int.not_even_iff_odd.1 hx)).symm
    constructor
    · exact fun h => .inr (hodd.pow.dvd_of_dvd_mul_left h)
    · rintro (h | h)
      · exact absurd h hx
      · exact h.mul_left _

theorem toInt_mul_modEq (a b : Int64) : (a * b).toInt ≡ a.toInt * b.toInt [ZMOD 2 ^ 64] := by
  rw [Int64.toInt_mul]
  exact Int.bmod_emod

/-- Two words with one number modulo 2⁶⁴ are the same. -/
theorem toInt_modEq_iff {a b : Int64} : a.toInt ≡ b.toInt [ZMOD 2 ^ 64] ↔ a = b := by
  constructor
  · intro h
    rw [← Int64.toInt_inj]
    have ha := a.toInt_lt
    have ha' := a.le_toInt
    have hb := b.toInt_lt
    have hb' := b.le_toInt
    unfold Int.ModEq at h
    omega
  · rintro rfl
    rfl

namespace Value

/-- Squaring the base doubles the exponent. -/
theorem square_modEq {x z : Int64} {k : ℕ} (h : z.toInt ≡ (x * x).toInt ^ k [ZMOD 2 ^ 64]) :
    z.toInt ≡ x.toInt ^ (2 * k) [ZMOD 2 ^ 64] := by
  calc z.toInt
      ≡ (x * x).toInt ^ k [ZMOD 2 ^ 64] := h
    _ ≡ (x.toInt * x.toInt) ^ k [ZMOD 2 ^ 64] := (toInt_mul_modEq x x).pow k
    _ = x.toInt ^ (2 * k) := by rw [← pow_two, ← pow_mul]

theorem powerOf_modEq (x : Int64) (n : ℕ) :
    (powerOf x n).toInt ≡ x.toInt ^ n [ZMOD 2 ^ 64] := by
  induction x, n using powerOf.induct with
  | case1 x =>
    unfold powerOf
    rw [if_pos rfl, pow_zero]
    rfl
  | case2 x n hn heven ih =>
    have h2 : 2 * (n / 2) = n := by omega
    unfold powerOf
    rw [if_neg hn, if_pos heven]
    have hhalf := square_modEq ih
    rwa [h2] at hhalf
  | case3 x n hn hodd ih =>
    have h2 : n = 2 * (n / 2) + 1 := by omega
    unfold powerOf
    rw [if_neg hn, if_neg hodd]
    calc (powerOf (x * x) (n / 2) * x).toInt
        ≡ (powerOf (x * x) (n / 2)).toInt * x.toInt [ZMOD 2 ^ 64] := toInt_mul_modEq _ _
      _ ≡ x.toInt ^ (2 * (n / 2)) * x.toInt [ZMOD 2 ^ 64] := (square_modEq ih).mul_right _
      _ = x.toInt ^ n := by rw [← pow_succ, ← h2]

variable {x y : Int64} {a b : Value}

theorem power_modEq (x : Int64) (hy : 0 ≤ y) :
    (power x y).toInt ≡ x.toInt ^ min y.toInt.toNat (2 ^ 32 - 1) [ZMOD 2 ^ 64] := by
  have hneg : ¬ y < 0 := by
    rw [Int64.lt_iff_toInt_lt]
    rw [Int64.le_iff_toInt_le] at hy
    omega
  unfold power
  rw [if_neg hneg, ← Int64.toNat_toInt]
  exact powerOf_modEq x _

/-- Where a power is exact. -/
theorem power_exact_iff (x : Int64) (hy : 0 ≤ y) :
    (power x y).toInt ≡ x.toInt ^ y.toInt.toNat [ZMOD 2 ^ 64] ↔ y.toInt < 2 ^ 32 ∨
      Even x.toInt ∨ x.toInt ^ (y.toInt.toNat - (2 ^ 32 - 1)) ≡ 1 [ZMOD 2 ^ 64] := by
  have hpower := power_modEq x hy
  by_cases hlt : y.toInt < 2 ^ 32
  · rw [min_eq_left (by omega)] at hpower
    exact iff_of_true hpower (.inl hlt)
  · have hsplit : y.toInt.toNat = (2 ^ 32 - 1) + (y.toInt.toNat - (2 ^ 32 - 1)) := by omega
    rw [min_eq_right (by omega)] at hpower
    calc (power x y).toInt ≡ x.toInt ^ y.toInt.toNat [ZMOD 2 ^ 64]
        ↔ x.toInt ^ (2 ^ 32 - 1) * x.toInt ^ (y.toInt.toNat - (2 ^ 32 - 1)) ≡
            x.toInt ^ (2 ^ 32 - 1) [ZMOD 2 ^ 64] := by
          rw [← pow_add, ← hsplit]
          exact ⟨fun h => h.symm.trans hpower, fun h => hpower.trans h.symm⟩
      _ ↔ Even x.toInt ∨ x.toInt ^ (y.toInt.toNat - (2 ^ 32 - 1)) ≡ 1 [ZMOD 2 ^ 64] :=
          pow_mul_modEq_iff _ _ (by omega)
      _ ↔ _ := by simp only [hlt, false_or]

/-- Where one factor more is a multiplication. -/
theorem power_succ_iff (x : Int64) (hy : 0 ≤ y) (hnext : y.toInt + 1 < 2 ^ 63) :
    power x (y + 1) = power x y * x ↔ y.toInt + 1 < 2 ^ 32 ∨ Even x.toInt ∨ x = 1 := by
  have hpos : 0 ≤ y.toInt := by
    rw [Int64.le_iff_toInt_le] at hy
    exact hy
  have hsucc : (y + 1).toInt = y.toInt + 1 := by
    rw [Int64.toInt_add]
    exact Int.bmod_eq_of_le (by rw [Int64.toInt_one]; omega) (by rw [Int64.toInt_one]; omega)
  have hy' : 0 ≤ y + 1 := by
    rw [Int64.le_iff_toInt_le, hsucc]
    exact Int.add_nonneg hpos Int.one_nonneg
  have hpower := power_modEq x hy
  have hpower' := power_modEq x hy'
  have hmul : (power x y * x).toInt ≡
      x.toInt ^ min y.toInt.toNat (2 ^ 32 - 1) * x.toInt [ZMOD 2 ^ 64] :=
    (toInt_mul_modEq _ _).trans (hpower.mul_right _)
  rw [hsucc] at hpower'
  by_cases hlt : y.toInt + 1 < 2 ^ 32
  · have hexp : (y.toInt + 1).toNat = y.toInt.toNat + 1 := by omega
    rw [min_eq_left (by omega), hexp, pow_succ x.toInt] at hpower'
    rw [min_eq_left (by omega)] at hmul
    exact iff_of_true (toInt_modEq_iff.1 (hpower'.trans hmul.symm)) (.inl hlt)
  · rw [min_eq_right (by omega)] at hpower' hmul
    have hone : x.toInt ≡ 1 [ZMOD 2 ^ 64] ↔ x = 1 := by
      rw [← Int64.toInt_one, toInt_modEq_iff]
    calc power x (y + 1) = power x y * x
        ↔ x.toInt ^ (2 ^ 32 - 1) * x.toInt ≡ x.toInt ^ (2 ^ 32 - 1) [ZMOD 2 ^ 64] := by
          rw [← toInt_modEq_iff]
          exact ⟨fun h => hmul.symm.trans (h.symm.trans hpower'),
            fun h => hpower'.trans (h.symm.trans hmul.symm)⟩
      _ ↔ Even x.toInt ∨ x.toInt ≡ 1 [ZMOD 2 ^ 64] := pow_mul_modEq_iff _ _ (by omega)
      _ ↔ _ := by simp only [hlt, false_or, hone]

end Value

namespace Store

variable {s : Store} {a b : Value} {x y : Int64}

/-- An operator on ints and chars, other than the joining of texts, works on their whole numbers. -/
theorem arithmetic_ints {op : ArithmeticOp} (ha : a.toInt? = some x) (hb : b.toInt? = some y) :
    s.arithmetic op a b = Value.intArithmetic op x y := by
  have ha' : a.isString = false := by cases a <;> first | rfl | cases ha
  have hb' : b.isString = false := by cases b <;> first | rfl | cases hb
  unfold arithmetic
  simp [ha, hb, ha', hb']

end Store

/-- A power is exact modulo 2⁶⁴ up to the greatest exponent, and from there on it stays the power
to that exponent: it is still exact where the base is even or the factors left out multiply to one,
and one factor more is still a multiplication where the base is even or one. -/
theorem power_wraps (s : Store) {a b : Value} {x y : Int64} (ha : a.toInt? = some x)
    (hb : b.toInt? = some y) (hy : 0 ≤ y) :
    ∃ z : Int64, s.arithmetic .power a b = .ok (.int z) ∧
      z.toInt ≡ x.toInt ^ min y.toInt.toNat (2 ^ 32 - 1) [ZMOD 2 ^ 64] ∧
      (z.toInt ≡ x.toInt ^ y.toInt.toNat [ZMOD 2 ^ 64] ↔ y.toInt < 2 ^ 32 ∨ Even x.toInt ∨
        x.toInt ^ (y.toInt.toNat - (2 ^ 32 - 1)) ≡ 1 [ZMOD 2 ^ 64]) ∧
      ∀ c : Value, c.toInt? = some (y + 1) → y.toInt + 1 < 2 ^ 63 →
        (s.arithmetic .power a c = s.arithmetic .multiply (.int z) a ↔
          y.toInt + 1 < 2 ^ 32 ∨ Even x.toInt ∨ x = 1) := by
  refine ⟨Value.power x y, Store.arithmetic_ints ha hb, Value.power_modEq x hy,
    Value.power_exact_iff x hy, fun c hc hnext => ?_⟩
  rw [Store.arithmetic_ints ha hc, Store.arithmetic_ints (y := x) rfl ha,
    ← Value.power_succ_iff x hy hnext]
  constructor
  · exact fun h => Value.int.inj (Except.ok.inj h)
  · exact fun h => congrArg (fun z => Except.ok (Value.int z)) h

/-- The power of a char, past the greatest number, and one factor more. -/
theorem power_wraps_char : ∃ z : Int64,
    ({} : Store).arithmetic .power (.char 'a') (.int 13) = .ok (.int z) ∧
      z.toInt ≡ 97 ^ 13 [ZMOD 2 ^ 64] ∧
      ({} : Store).arithmetic .power (.char 'a') (.int 14) =
        ({} : Store).arithmetic .multiply (.int z) (.char 'a') := by
  obtain ⟨z, hz, -, hexact, hnext⟩ :=
    power_wraps {} (a := .char 'a') (b := .int 13) rfl rfl (by decide)
  exact ⟨z, hz, hexact.2 (.inl (by decide)),
    (hnext (.int 14) rfl (by decide)).2 (.inl (by decide))⟩

/-- The power of -1 to 2³², which is even, is -1. -/
theorem power_clipped : ∃ z : Int64,
    ({} : Store).arithmetic .power (.int (-1)) (.int 4294967296) = .ok (.int z) ∧
      ¬ z.toInt ≡ (-1) ^ 4294967296 [ZMOD 2 ^ 64] := by
  have hodd : Odd 4294967295 := by decide
  have heven : Even 4294967296 := by decide
  have hpower := Value.power_modEq (-1) (y := 4294967296) (by decide)
  have hclip : min (4294967296 : Int64).toInt.toNat (2 ^ 32 - 1) = 4294967295 := by decide
  rw [hclip, show (-1 : Int64).toInt = -1 from rfl, hodd.neg_one_pow] at hpower
  refine ⟨_, Store.arithmetic_ints rfl rfl, fun h => ?_⟩
  rw [heven.neg_one_pow] at h
  exact absurd (hpower.symm.trans h) (by decide)

end Primer
