import Mathlib
import Telemetry.Number.Binary64

/-! Rounding to binary64. A ratio that is at most a number is rounded to at most that number, and
one that is at least a number to at least that number (`roundRatio_le`, `le_roundRatio`). So
rounding keeps the order, and what is a number already stays as it is. -/

namespace Telemetry.Binary64

/-- The magnitude of a number. An infinity counts as the power of two that does not fit any more. -/
def magnitude (x : Binary64) : ℚ := x.num / x.den

theorem den_pos (x : Binary64) : 0 < x.den := Nat.pow_pos (by decide)

theorem magnitude_eq (x : Binary64) : x.magnitude = x.parts.1 * 2 ^ x.parts.2 := by
  rw [magnitude, num, den]
  rcases Int.le_total 0 x.parts.2 with h | h
  · obtain ⟨n, hn⟩ := Int.eq_ofNat_of_zero_le h
    rw [hn]
    simp
  · obtain ⟨n, hn⟩ := Int.exists_eq_neg_ofNat h
    rw [hn]
    simp [div_eq_mul_inv]

theorem pow_mul_zpow (k : Nat) (q : Int) : (2 : ℚ) ^ k * 2 ^ q = 2 ^ (q + k) := by
  rw [zpow_add₀ (by norm_num), zpow_natCast, mul_comm]

/-- A word with its significand and its last place. -/
structure HasParts (word m : Nat) (q : Int) : Prop where
  word_eq : (word : Int) = (q + 1074) * 2 ^ 52 + m
  lowest : -1074 ≤ q
  lt : m < 2 ^ 53
  normal : q = -1074 ∨ 2 ^ 52 ≤ m

theorem hasParts (x : Binary64) : HasParts x.word x.parts.1 x.parts.2 := by
  have hdiv := Nat.div_add_mod x.word (2 ^ 52)
  have hmod : x.word % 2 ^ 52 < 2 ^ 52 := Nat.mod_lt _ (by decide)
  simp only [parts, Nat.pow_eq]
  split
  · exact ⟨by omega, le_refl _, by omega, .inl rfl⟩
  · exact ⟨by omega, by omega, by omega, .inr (by omega)⟩

/-! ## Quotients -/

section Quotient

variable {a b k : Nat}

theorem roundQuotient_le (hb : 0 < b) (h : a ≤ k * b) : roundQuotient a b ≤ k := by
  have hdiv := Nat.div_add_mod a b
  simp only [roundQuotient]
  by_cases hr : a % b = 0
  · rw [if_pos (by omega)]
    exact Nat.div_le_of_le_mul (by rwa [Nat.mul_comm])
  · have hlt : a / b < k := by
      refine Nat.lt_of_mul_lt_mul_left (a := b) ?_
      rw [Nat.mul_comm b k]
      omega
    split_ifs <;> omega

theorem le_roundQuotient (hb : 0 < b) (h : k * b ≤ a) : k ≤ roundQuotient a b := by
  have hq : k ≤ a / b := (Nat.le_div_iff_mul_le hb).mpr h
  simp only [roundQuotient]
  split_ifs <;> omega

end Quotient

/-! ## Ratios -/

section Ratio

variable {num den : Nat} {q : Int}

/-- The numerator of a ratio in units of a place. -/
def scaledNum (num : Nat) (q : Int) : Nat := num * 2 ^ (-q).toNat

/-- The denominator of a ratio in units of a place. -/
def scaledDen (den : Nat) (q : Int) : Nat := den * 2 ^ q.toNat

theorem scaledDen_pos (hden : 0 < den) (q : Int) : 0 < scaledDen den q :=
  Nat.mul_pos hden (Nat.pow_pos (by decide))

theorem ratio_eq (num den : Nat) (q : Int) :
    (num : ℚ) / den = scaledNum num q / scaledDen den q * 2 ^ q := by
  rw [scaledNum, scaledDen]
  rcases Int.le_total 0 q with h | h
  · obtain ⟨n, rfl⟩ := Int.eq_ofNat_of_zero_le h
    simp [div_mul_eq_div_div]
  · obtain ⟨n, rfl⟩ := Int.exists_eq_neg_ofNat h
    simp [mul_div_right_comm]

theorem ratio_le_iff (hden : 0 < den) (k : Nat) (q : Int) :
    (num : ℚ) / den ≤ k * 2 ^ q ↔ scaledNum num q ≤ k * scaledDen den q := by
  have hd : (0 : ℚ) < scaledDen den q := by exact_mod_cast scaledDen_pos hden q
  rw [ratio_eq num den q, mul_le_mul_iff_left₀ (by positivity), div_le_iff₀ hd]
  exact_mod_cast Iff.rfl

theorem le_ratio_iff (hden : 0 < den) (k : Nat) (q : Int) :
    k * 2 ^ q ≤ (num : ℚ) / den ↔ k * scaledDen den q ≤ scaledNum num q := by
  have hd : (0 : ℚ) < scaledDen den q := by exact_mod_cast scaledDen_pos hden q
  rw [ratio_eq num den q, mul_le_mul_iff_left₀ (by positivity), le_div_iff₀ hd]
  exact_mod_cast Iff.rfl

/-- The binary logarithms place a ratio within a factor of four. -/
theorem ratio_bounds (hnum : 0 < num) (hden : 0 < den) :
    (2 : ℚ) ^ ((num.log2 : Int) - den.log2 - 1) ≤ num / den ∧
      (num : ℚ) / den < 2 ^ ((num.log2 : Int) - den.log2 + 1) := by
  have hd : (0 : ℚ) < den := by exact_mod_cast hden
  have hnumLow : (2 : ℚ) ^ num.log2 ≤ num := by exact_mod_cast Nat.log2_self_le hnum.ne'
  have hnumHigh : (num : ℚ) < 2 ^ (num.log2 + 1) := by exact_mod_cast Nat.lt_log2_self
  have hdenLow : (2 : ℚ) ^ den.log2 ≤ den := by exact_mod_cast Nat.log2_self_le hden.ne'
  have hdenHigh : (den : ℚ) < 2 ^ (den.log2 + 1) := by exact_mod_cast Nat.lt_log2_self
  constructor
  · rw [le_div_iff₀ hd]
    calc (2 : ℚ) ^ ((num.log2 : Int) - den.log2 - 1) * den
        ≤ 2 ^ ((num.log2 : Int) - den.log2 - 1) * 2 ^ (den.log2 + 1) := by gcongr
      _ = 2 ^ num.log2 := by
        rw [← zpow_natCast, ← zpow_natCast, ← zpow_add₀ (by norm_num)]
        congr 1
        push_cast
        ring
      _ ≤ num := hnumLow
  · rw [div_lt_iff₀ hd]
    calc (num : ℚ) < 2 ^ (num.log2 + 1) := hnumHigh
      _ = 2 ^ ((num.log2 : Int) - den.log2 + 1) * 2 ^ den.log2 := by
        rw [← zpow_natCast, ← zpow_natCast, ← zpow_add₀ (by norm_num)]
        congr 1
        push_cast
        ring
      _ ≤ 2 ^ ((num.log2 : Int) - den.log2 + 1) * den := by gcongr

/-- The last place is the one of a significand of 53 bits, or the lowest one for what is too small
for that. -/
theorem exists_lastPlace (hnum : 0 < num) (hden : 0 < den) :
    ∃ place : Int, lastPlace num den = max (-1074) place ∧
      2 ^ (place + 52) ≤ (num : ℚ) / den ∧ (num : ℚ) / den < 2 ^ (place + 53) := by
  obtain ⟨hlow, hhigh⟩ := ratio_bounds hnum hden
  obtain ⟨place, hplace⟩ : ∃ q : Int, q = (num.log2 : Int) - den.log2 - 53 := ⟨_, rfl⟩
  have hsmall : (if place < 0 then num * Nat.pow 2 (-place).toNat < den * Nat.pow 2 53
      else num < den * Nat.pow 2 (place.toNat + 53)) ↔ (num : ℚ) / den < 2 ^ (place + 53) := by
    have hscaled : ¬((2 ^ 53 : Nat) * (2 : ℚ) ^ place ≤ num / den) ↔
        ¬(2 ^ 53 * scaledDen den place ≤ scaledNum num place) :=
      (le_ratio_iff hden (2 ^ 53) place).not
    rw [Nat.cast_pow, Nat.cast_ofNat, pow_mul_zpow, not_le, not_le, scaledNum, scaledDen] at hscaled
    refine Iff.trans ?_ hscaled.symm
    simp only [Nat.pow_eq]
    split_ifs with h
    · rw [show place.toNat = 0 by omega, pow_zero, Nat.mul_one, Nat.mul_comm den]
    · rw [show (-place).toNat = 0 by omega, pow_zero, Nat.mul_one, Nat.pow_add,
        Nat.mul_comm (2 ^ 53), Nat.mul_assoc]
  rw [show (num.log2 : Int) - den.log2 - 1 = place + 52 by omega] at hlow
  rw [show (num.log2 : Int) - den.log2 + 1 = place + 1 + 53 by omega] at hhigh
  simp only [lastPlace, ← hplace, hsmall]
  by_cases h : (num : ℚ) / den < 2 ^ (place + 53)
  · exact ⟨place, by rw [if_pos h], hlow, h⟩
  · refine ⟨place + 1, by rw [if_neg h], ?_, hhigh⟩
    rw [show place + 1 + 52 = place + 53 by omega]
    exact not_lt.mp h

/-- A ratio counted in units of its last place, rounded to the nearest integer. -/
structure Rounds (num den m : Nat) (q : Int) : Prop where
  lowest : -1074 ≤ q
  lt : (num : ℚ) / den < 2 ^ (q + 53)
  normal : q = -1074 ∨ 2 ^ (q + 52) ≤ (num : ℚ) / den
  le : ∀ k : Nat, (num : ℚ) / den ≤ k * 2 ^ q → m ≤ k
  ge : ∀ k : Nat, k * 2 ^ q ≤ (num : ℚ) / den → k ≤ m

/-- The significand of the number nearest to a ratio, or 2^53 if it carries into the next place. -/
def significand (num den : Nat) : Nat :=
  roundQuotient (scaledNum num (lastPlace num den)) (scaledDen den (lastPlace num den))

theorem roundRatio_eq (hnum : 0 < num) : roundRatio num den =
    min infinityWord ((lastPlace num den + 1074).toNat * 2 ^ 52 + significand num den) := by
  rw [roundRatio, if_neg hnum.ne']
  simp only [significand, scaledNum, scaledDen, Nat.pow_eq]
  split_ifs with h
  · rw [show (lastPlace num den).toNat = 0 by omega, pow_zero, Nat.mul_one]
  · rw [show (-lastPlace num den).toNat = 0 by omega, pow_zero, Nat.mul_one]

theorem rounds (hnum : 0 < num) (hden : 0 < den) :
    Rounds num den (significand num den) (lastPlace num den) := by
  obtain ⟨place, hplace, hlow, hhigh⟩ := exists_lastPlace hnum hden
  have hpos := scaledDen_pos hden (lastPlace num den)
  refine ⟨?_, ?_, ?_, ?_, ?_⟩
  · omega
  · exact hhigh.trans_le (zpow_le_zpow_right₀ (by norm_num) (by omega))
  · rcases le_total (-1074) place with h | h
    · rw [hplace, max_eq_right h]
      exact .inr hlow
    · exact .inl (hplace.trans (max_eq_left h))
  · exact fun k hk => roundQuotient_le hpos ((ratio_le_iff hden k _).mp hk)
  · exact fun k hk => le_roundQuotient hpos ((le_ratio_iff hden k _).mp hk)

theorem Rounds.le_pow {m : Nat} (h : Rounds num den m q) : m ≤ 2 ^ 53 :=
  h.le _ (by exact_mod_cast h.lt.le.trans_eq (pow_mul_zpow 53 q).symm)

theorem Rounds.pow_le {m : Nat} (h : Rounds num den m q) : q = -1074 ∨ 2 ^ 52 ≤ m :=
  h.normal.imp_right fun hn => h.ge _ (by exact_mod_cast (pow_mul_zpow 52 q).trans_le hn)

/-- A significand is too small for a ratio whose last place is a higher one. -/
theorem mul_zpow_lt {m : Nat} {q p : Int} (hm : m < 2 ^ 53) (hqp : q < p) :
    (m : ℚ) * 2 ^ q < 2 ^ (p + 52) := by
  calc (m : ℚ) * 2 ^ q < 2 ^ 53 * 2 ^ q := by
        gcongr
        exact_mod_cast hm
    _ = 2 ^ (q + 53) := pow_mul_zpow 53 q
    _ ≤ 2 ^ (p + 52) := zpow_le_zpow_right₀ (by norm_num) (by omega)

/-- A ratio that is at most a number is rounded to at most that number. -/
theorem roundRatio_le {x : Binary64} (hden : 0 < den) (h : (num : ℚ) / den ≤ x.magnitude) :
    roundRatio num den ≤ x.word := by
  rcases Nat.eq_zero_or_pos num with rfl | hnum
  · exact Nat.zero_le _
  obtain ⟨hword, hlowest, hlt, hnormal⟩ := x.hasParts
  have hr := rounds hnum hden
  rw [roundRatio_eq hnum]
  generalize lastPlace num den = q at hr ⊢
  generalize significand num den = m at hr ⊢
  rw [magnitude_eq] at h
  have hlow := hr.lowest
  refine (min_le_right _ _).trans ?_
  rcases lt_trichotomy q x.parts.2 with hq | rfl | hq
  · have hm := hr.le_pow
    omega
  · have hm := hr.le _ h
    omega
  · have hnum := hr.normal.resolve_left (by omega)
    exact absurd (hnum.trans h) (not_le.mpr (mul_zpow_lt hlt hq))

/-- A ratio that is at least a number is rounded to at least that number. -/
theorem le_roundRatio {x : Binary64} (hx : x.word ≤ infinityWord) (hden : 0 < den)
    (h : x.magnitude ≤ (num : ℚ) / den) : x.word ≤ roundRatio num den := by
  obtain ⟨hword, hlowest, hlt, hnormal⟩ := x.hasParts
  rw [magnitude_eq] at h
  rcases Nat.eq_zero_or_pos num with rfl | hnum
  · have hzero : (x.parts.1 : ℚ) ≤ 0 := by
      rw [Nat.cast_zero, zero_div] at h
      exact nonpos_of_mul_nonpos_left h (by positivity)
    have hm : x.parts.1 ≤ 0 := by exact_mod_cast hzero
    omega
  have hr := rounds hnum hden
  rw [roundRatio_eq hnum]
  generalize lastPlace num den = q at hr ⊢
  generalize significand num den = m at hr ⊢
  have hlow := hr.lowest
  refine le_min hx ?_
  rcases lt_trichotomy q x.parts.2 with hq | rfl | hq
  · have hm : (2 : ℚ) ^ (q + 53) ≤ x.parts.1 * 2 ^ x.parts.2 := by
      calc (2 : ℚ) ^ (q + 53) ≤ 2 ^ (x.parts.2 + 52) :=
            zpow_le_zpow_right₀ (by norm_num) (by omega)
        _ = 2 ^ 52 * 2 ^ x.parts.2 := (pow_mul_zpow 52 _).symm
        _ ≤ x.parts.1 * 2 ^ x.parts.2 := by
          gcongr
          exact_mod_cast hnormal.resolve_left (by omega)
    exact absurd hr.lt (not_lt.mpr (hm.trans h))
  · have hm := hr.ge _ h
    omega
  · have hm := hr.pow_le.resolve_left (by omega)
    omega

end Ratio

end Telemetry.Binary64
