import BasilLang.Number.Reading
import Mathlib.Algebra.Order.Field.Power
import Mathlib.Data.Rat.Cast.Order
import Mathlib.Tactic.FieldSimp
import Mathlib.Tactic.Linarith
import Mathlib.Tactic.NormNum
import Mathlib.Tactic.Positivity
import Mathlib.Tactic.Ring

/-! Rounding to binary64. What a ratio is rounded to depends on its value alone,
the value of a number is rounded to that number, and a whole number to a whole
one. Hence all decimals of one value stand for one number, also those whose
powers of ten are too great or too small to be worked out. -/
namespace BasilLang.Number

section Powers

/-- A power with an integer exponent as a ratio of naturals. -/
theorem zpow_eq_ratio (base : Nat) (positive : 0 < base) (e : Int) :
    (base : ℚ) ^ e = (base ^ e.toNat : Nat) / (base ^ (-e).toNat : Nat) := by
  have nonzero : (base : ℚ) ≠ 0 := by positivity
  have parts : e = (e.toNat : Int) - (-e).toNat := by omega
  conv => lhs; rw [parts]
  rw [zpow_sub₀ nonzero, zpow_natCast, zpow_natCast]
  push_cast
  rfl

/-- A power of two is a ratio of whole numbers. -/
theorem two_zpow_eq_ratio (e : Int) : (2 : ℚ) ^ e = 2 ^ e.toNat / 2 ^ (-e).toNat := by
  have ratio := zpow_eq_ratio 2 (by norm_num) e
  push_cast at ratio
  exact ratio

theorem twoTo_eq (exponent : Nat) : twoTo exponent = 2 ^ exponent := rfl

private theorem tenTo_eq (exponent : Nat) : tenTo exponent = 10 ^ exponent := rfl

private theorem lt_of_two_zpow_lt {e e' : Int} (below : (2 : ℚ) ^ e < 2 ^ e') : e < e' :=
  (zpow_lt_zpow_iff_right₀ (by norm_num)).mp below

end Powers

/-- Whether a positive value has a significand of 53 bits at the exponent, or of
fewer at the least exponent of all. -/
structure IsExponent (value : ℚ) (e : Int) : Prop where
  least : -1074 ≤ e
  above : value < 2 ^ (e + 53)
  below : e = -1074 ∨ 2 ^ (e + 52) ≤ value

/-- A value has one exponent. -/
theorem IsExponent.unique {value : ℚ} {e e' : Int} (is : IsExponent value e)
    (is' : IsExponent value e') : e = e' := by
  have notLess : ∀ {e e'}, IsExponent value e → IsExponent value e' → ¬ e < e' := by
    intro e e' is is' less
    rcases is'.below with least | below
    · have := is.least
      omega
    · have := lt_of_two_zpow_lt (below.trans_lt is.above)
      omega
  have := notLess is is'
  have := notLess is' is
  omega

section Exponents
variable {num den : Nat}

private theorem ratio_lt (num : Nat) (positive : 0 < den) :
    (num : ℚ) / den < 2 ^ ((num.log2 : Int) - den.log2 + 1) := by
  have above : (num : ℚ) < 2 ^ (num.log2 + 1) := by exact_mod_cast Nat.lt_log2_self
  have below : (2 : ℚ) ^ den.log2 ≤ den := by exact_mod_cast Nat.log2_self_le positive.ne'
  have same : (2 : ℚ) ^ ((num.log2 : Int) - den.log2 + 1) = 2 ^ (num.log2 + 1) / 2 ^ den.log2 := by
    rw [show (num.log2 : Int) - den.log2 + 1 = ((num.log2 + 1 : Nat) : Int) - (den.log2 : Nat) by
      push_cast; ring, zpow_sub₀ (by norm_num), zpow_natCast, zpow_natCast]
  rw [same]
  exact div_lt_div₀ above below (by positivity) (by positivity)

private theorem lt_ratio (positive : 0 < num) (positive' : 0 < den) :
    (2 : ℚ) ^ ((num.log2 : Int) - den.log2 - 1) < num / den := by
  have below : (2 : ℚ) ^ num.log2 ≤ num := by exact_mod_cast Nat.log2_self_le positive.ne'
  have above : (den : ℚ) < 2 ^ (den.log2 + 1) := by exact_mod_cast Nat.lt_log2_self
  have same : (2 : ℚ) ^ ((num.log2 : Int) - den.log2 - 1) = 2 ^ num.log2 / 2 ^ (den.log2 + 1) := by
    rw [show (num.log2 : Int) - den.log2 - 1 = (num.log2 : Int) - ((den.log2 + 1 : Nat) : Int) by
      push_cast; ring, zpow_sub₀ (by norm_num), zpow_natCast, zpow_natCast]
  have : (0 : ℚ) < den := by exact_mod_cast positive'
  rw [same]
  exact div_lt_div₀' below above (by positivity) this

private theorem test_iff (positive : 0 < den) (low : Int) :
    den * twoTo low.toNat * twoTo 53 ≤ num * twoTo (-low).toNat ↔
      (2 : ℚ) ^ (low + 53) ≤ num / den := by
  have positive : (0 : ℚ) < den := by exact_mod_cast positive
  have powers : (2 : ℚ) ^ (low + 53) =
      2 ^ low.toNat * 2 ^ 53 / 2 ^ (-low).toNat := by
    rw [zpow_add₀ (by norm_num), two_zpow_eq_ratio low, div_mul_eq_mul_div]
    norm_cast
  rw [powers, div_le_div_iff₀ (by positivity) positive, ← Nat.cast_le (α := ℚ), twoTo_eq, twoTo_eq,
    twoTo_eq, Nat.cast_mul, Nat.cast_mul, Nat.cast_mul, Nat.cast_pow, Nat.cast_pow, Nat.cast_pow,
    mul_assoc, mul_comm (den : ℚ)]
  rfl

/-- The exponent that is worked out is that of the value. -/
theorem isExponent_exponentFor (positive : 0 < num) (positive' : 0 < den) :
    IsExponent (num / den) (exponentFor num den) := by
  have above := ratio_lt num positive'
  have below := lt_ratio positive positive'
  have least : leastExponent num den = max ((num.log2 : Int) - den.log2 - 53) (-1074) := rfl
  have two : (1 : ℚ) ≤ 2 := by norm_num
  unfold exponentFor
  dsimp only
  by_cases test : den * twoTo (leastExponent num den).toNat * twoTo 53 ≤
      num * twoTo (-leastExponent num den).toNat
  · rw [if_pos test]
    have reached := (test_iff positive' _).mp test
    refine ⟨by omega, above.trans_le (zpow_le_zpow_right₀ two (by omega)), .inr ?_⟩
    rwa [show leastExponent num den + 1 + 52 = leastExponent num den + 53 by ring]
  · rw [if_neg test]
    have missed := not_le.mp (mt (test_iff positive' _).mpr test)
    refine ⟨by omega, missed, ?_⟩
    by_cases bottom : leastExponent num den = -1074
    · exact .inl bottom
    · exact .inr ((zpow_le_zpow_right₀ two (by omega)).trans below.le)

end Exponents

section Quotients
variable {num den num' den' : Nat}

private theorem roundQuotient_mul {factor : Nat} (positive : 0 < factor) (num den : Nat) :
    roundQuotient (factor * num) (factor * den) = roundQuotient num den := by
  have less : 2 * (factor * (num % den)) < factor * den ↔ 2 * (num % den) < den := by
    rw [Nat.mul_left_comm]
    exact Nat.mul_lt_mul_left positive
  have same : 2 * (factor * (num % den)) = factor * den ↔ 2 * (num % den) = den := by
    rw [Nat.mul_left_comm]
    exact Nat.mul_right_inj positive.ne'
  simp only [roundQuotient, Nat.mul_mod_mul_left, Nat.mul_div_mul_left _ _ positive, less, same,
    beq_eq_decide]

/-- A quotient is rounded by its value. -/
theorem roundQuotient_congr (positive : 0 < den) (positive' : 0 < den')
    (same : num * den' = num' * den) : roundQuotient num den = roundQuotient num' den' := by
  rw [← roundQuotient_mul positive' num den, ← roundQuotient_mul positive num' den',
    Nat.mul_comm den' num, same, Nat.mul_comm num' den, Nat.mul_comm den' den]

/-- A whole quotient is not changed by rounding. -/
theorem roundQuotient_whole (positive : 0 < den) (whole : Nat) :
    roundQuotient (whole * den) den = whole := by
  simp [roundQuotient, Nat.mul_div_cancel _ positive, positive]

private theorem div_le_roundQuotient (num den : Nat) : num / den ≤ roundQuotient num den := by
  unfold roundQuotient
  dsimp only
  split
  · exact Nat.le_refl _
  · exact Nat.le_succ _

private theorem roundQuotient_le (num den : Nat) : roundQuotient num den ≤ num / den + 1 := by
  unfold roundQuotient
  dsimp only
  split
  · exact Nat.le_succ _
  · exact Nat.le_refl _

/-- Less than half of a unit is rounded to nothing. -/
theorem roundQuotient_small (small : 2 * num < den) : roundQuotient num den = 0 := by
  have below : num < den := by omega
  simp [roundQuotient, Nat.div_eq_of_lt below, Nat.mod_eq_of_lt below, small]

/-- Ratios are compared by multiplying crosswise. -/
theorem ratio_eq_iff (positive : 0 < den) (positive' : 0 < den') :
    (num : ℚ) / den = num' / den' ↔ num * den' = num' * den := by
  have : (den : ℚ) ≠ 0 := by exact_mod_cast positive.ne'
  have : (den' : ℚ) ≠ 0 := by exact_mod_cast positive'.ne'
  rw [div_eq_div_iff ‹_› ‹_›]
  exact_mod_cast Iff.rfl

/-- Two ratios of one value are rounded to one number. -/
theorem magnitudeCode_congr (positive : 0 < den) (positive' : 0 < den')
    (same : num * den' = num' * den) : magnitudeCode num den = magnitudeCode num' den' := by
  by_cases zero : num = 0
  · have zero' : num' = 0 := by
      rw [zero, Nat.zero_mul, eq_comm, Nat.mul_eq_zero] at same
      omega
    rw [zero, zero', magnitudeCode, magnitudeCode, if_pos rfl, if_pos rfl]
  · have nonzero' : num' ≠ 0 := by
      rintro rfl
      rw [Nat.zero_mul, Nat.mul_eq_zero] at same
      omega
    have is := isExponent_exponentFor (Nat.pos_of_ne_zero zero) positive
    rw [(ratio_eq_iff positive positive').mpr same] at is
    have exponent := is.unique (isExponent_exponentFor (Nat.pos_of_ne_zero nonzero') positive')
    rw [magnitudeCode, magnitudeCode, if_neg zero, if_neg nonzero']
    dsimp only
    rw [exponent, roundQuotient_congr]
    · exact Nat.mul_pos positive (Nat.pow_pos (by decide))
    · exact Nat.mul_pos positive' (Nat.pow_pos (by decide))
    · rw [Nat.mul_mul_mul_comm, same, Nat.mul_mul_mul_comm]

end Quotients

/-- The value of the finite number with the given magnitude code. -/
def codeValue (code : Nat) : ℚ :=
  if code / twoTo 52 = 0 then code * 2 ^ (-1074 : Int)
  else (twoTo 52 + code % twoTo 52 : Nat) * 2 ^ ((code / twoTo 52 : Nat) - 1075 : Int)

section Codes
variable {e : Int} {significand code num den : Nat}

/-- The code of a significand at an exponent has their value, also if the
significand has run over. -/
theorem codeValue_significand (least : -1074 ≤ e) (above : significand ≤ 2 ^ 53)
    (below : e = -1074 ∨ 2 ^ 52 ≤ significand) :
    codeValue ((e + 1074).toNat * twoTo 52 + significand) = significand * 2 ^ e := by
  unfold codeValue
  rw [twoTo_eq]
  by_cases short : significand < 2 ^ 52
  · obtain rfl : e = -1074 := by omega
    rw [if_pos (by omega)]
    simp
  · by_cases full : significand = 2 ^ 53
    · have place : ((e + 1074).toNat * 2 ^ 52 + significand) / 2 ^ 52 = (e + 1076).toNat := by omega
      have rest : ((e + 1074).toNat * 2 ^ 52 + significand) % 2 ^ 52 = 0 := by omega
      have exponent : (((e + 1076).toNat : Nat) : Int) - 1075 = 1 + e := by omega
      rw [place, rest, if_neg (by omega), exponent, zpow_add₀ (by norm_num), full]
      push_cast
      ring
    · have place : ((e + 1074).toNat * 2 ^ 52 + significand) / 2 ^ 52 = (e + 1075).toNat := by omega
      have rest : 2 ^ 52 + ((e + 1074).toNat * 2 ^ 52 + significand) % 2 ^ 52 = significand := by
        omega
      have exponent : (((e + 1075).toNat : Nat) : Int) - 1075 = e := by omega
      rw [place, rest, if_neg (by omega), exponent]

/-- Every code is that of a significand of at most 53 bits. -/
theorem exists_significand (code : Nat) : ∃ (e : Int) (significand : Nat), -1074 ≤ e ∧
    significand < 2 ^ 53 ∧ (e = -1074 ∨ 2 ^ 52 ≤ significand) ∧
    code = (e + 1074).toNat * twoTo 52 + significand := by
  rw [twoTo_eq]
  by_cases low : code / 2 ^ 52 = 0
  · exact ⟨-1074, code, by omega, by omega, .inl rfl, by omega⟩
  · exact ⟨(code / 2 ^ 52 : Nat) - 1075, 2 ^ 52 + code % 2 ^ 52, by omega, by omega,
      .inr (by omega), by omega⟩

/-- The value of a finite number is rounded to the number itself. -/
theorem magnitudeCode_exact (positive : 0 < den) (finite : code < infinityCode)
    (same : (num : ℚ) / den = codeValue code) : magnitudeCode num den = code := by
  obtain ⟨e, significand, least, above, below, rfl⟩ := exists_significand code
  rw [codeValue_significand least above.le below] at same
  have nonzero : (den : ℚ) ≠ 0 := by exact_mod_cast positive.ne'
  by_cases zero : num = 0
  · have none : significand = 0 := by
      rw [zero, Nat.cast_zero, zero_div, eq_comm, mul_eq_zero] at same
      exact_mod_cast same.resolve_right (by positivity)
    obtain rfl : e = -1074 := by omega
    rw [magnitudeCode, if_pos zero, none]
    rfl
  · have is : IsExponent (num / den) e := by
      refine ⟨least, ?_, below.imp_right fun below => ?_⟩
      · rw [same, add_comm, zpow_add₀ (by norm_num)]
        gcongr
        exact_mod_cast above
      · rw [same, add_comm, zpow_add₀ (by norm_num)]
        gcongr
        exact_mod_cast below
    have exponent : exponentFor num den = e :=
      (isExponent_exponentFor (Nat.pos_of_ne_zero zero) positive).unique is
    have whole : num * twoTo (-e).toNat = significand * (den * twoTo e.toNat) := by
      rw [two_zpow_eq_ratio, mul_div_assoc', div_eq_div_iff nonzero (by positivity)] at same
      rw [twoTo_eq, twoTo_eq, Nat.mul_comm den, ← Nat.mul_assoc]
      exact_mod_cast same
    have scale : 0 < den * twoTo e.toNat := Nat.mul_pos positive (Nat.two_pow_pos _)
    rw [magnitudeCode, if_neg zero]
    dsimp only
    rw [exponent, whole, roundQuotient_whole scale]
    exact Nat.min_eq_right finite.le

private theorem significand_bounds (positive : 0 < den) (is : IsExponent (num / den) e) :
    roundQuotient (num * twoTo (-e).toNat) (den * twoTo e.toNat) ≤ 2 ^ 53 ∧
      (e = -1074 ∨ 2 ^ 52 ≤ roundQuotient (num * twoTo (-e).toNat) (den * twoTo e.toNat)) := by
  have scale : 0 < den * twoTo e.toNat := Nat.mul_pos positive (Nat.two_pow_pos _)
  have nonzero : (0 : ℚ) < den := by exact_mod_cast positive
  have above : num * twoTo (-e).toNat < 2 ^ 53 * (den * twoTo e.toNat) := by
    have above := is.above
    rw [add_comm, zpow_add₀ (by norm_num), two_zpow_eq_ratio e, mul_div_assoc',
      div_lt_div_iff₀ nonzero (by positivity)] at above
    rw [twoTo_eq, twoTo_eq, Nat.mul_comm den, ← Nat.mul_assoc]
    exact_mod_cast above
  refine ⟨(roundQuotient_le _ _).trans ((Nat.div_lt_iff_lt_mul scale).mpr above), ?_⟩
  refine is.below.imp_right fun below => le_trans ?_ (div_le_roundQuotient _ _)
  rw [add_comm, zpow_add₀ (by norm_num), two_zpow_eq_ratio e, mul_div_assoc',
    div_le_div_iff₀ (by positivity) nonzero] at below
  rw [Nat.le_div_iff_mul_le scale, twoTo_eq, twoTo_eq, Nat.mul_comm den, ← Nat.mul_assoc]
  exact_mod_cast below

/-- A whole number is rounded to a whole number. -/
theorem codeValue_whole {whole : Nat} (rounds : magnitudeCode whole 1 = code)
    (finite : code < infinityCode) : ∃ result : Nat, codeValue code = result := by
  by_cases zero : whole = 0
  · rw [magnitudeCode, if_pos zero] at rounds
    refine ⟨0, ?_⟩
    rw [← rounds]
    norm_num [codeValue]
  · have is : IsExponent (whole / (1 : Nat)) (exponentFor whole 1) :=
      isExponent_exponentFor (Nat.pos_of_ne_zero zero) Nat.one_pos
    obtain ⟨above, below⟩ := significand_bounds Nat.one_pos is
    rw [magnitudeCode, if_neg zero] at rounds
    dsimp only at rounds
    generalize exponentFor whole 1 = e at *
    generalize rounded : roundQuotient (whole * twoTo (-e).toNat) (1 * twoTo e.toNat) = s at *
    obtain rfl : code = (e + 1074).toNat * twoTo 52 + s := by omega
    rw [codeValue_significand is.least above below]
    rw [two_zpow_eq_ratio]
    by_cases negative : e < 0
    · have none : e.toNat = 0 := by omega
      have exact : s = whole * 2 ^ (-e).toNat := by
        have kept := roundQuotient_whole Nat.one_pos (whole * twoTo (-e).toNat)
        rw [Nat.mul_one] at kept
        rw [← rounded, none]
        exact kept
      refine ⟨whole, ?_⟩
      rw [exact, none]
      push_cast
      field_simp
    · have none : (-e).toNat = 0 := by omega
      refine ⟨s * 2 ^ e.toNat, ?_⟩
      rw [none]
      push_cast
      ring

/-- Less than half of the least number is rounded to zero. -/
theorem magnitudeCode_tiny (positive : 0 < den) (tiny : (num : ℚ) / den < 2 ^ (-1075 : Int)) :
    magnitudeCode num den = 0 := by
  by_cases zero : num = 0
  · rw [magnitudeCode, if_pos zero]
  · have nonzero : (0 : ℚ) < den := by exact_mod_cast positive
    have is : IsExponent (num / den) (-1074) :=
      ⟨le_rfl, tiny.trans_le (zpow_le_zpow_right₀ (by norm_num) (by norm_num)), .inl rfl⟩
    have exponent : exponentFor num den = -1074 :=
      (isExponent_exponentFor (Nat.pos_of_ne_zero zero) positive).unique is
    have small : 2 * (num * 2 ^ 1074) < den * 2 ^ 0 := by
      rw [zpow_neg, lt_inv_comm₀ (by positivity) (by positivity), inv_div,
        lt_div_iff₀ (by positivity)] at tiny
      have tiny : 2 ^ 1075 * num < den := by exact_mod_cast tiny
      omega
    have up : (-(-1074 : Int)).toNat = 1074 := by decide
    have down : (-1074 : Int).toNat = 0 := by decide
    rw [magnitudeCode, if_neg zero]
    dsimp only
    rw [exponent, up, down, twoTo_eq 1074, twoTo_eq 0, roundQuotient_small small]
    rfl

/-- What is beyond all numbers is rounded to infinity. -/
theorem magnitudeCode_huge (positive : 0 < den) (huge : (2 : ℚ) ^ (1024 : Int) ≤ num / den) :
    magnitudeCode num den = infinityCode := by
  have nonzero : num ≠ 0 := by
    rintro rfl
    rw [Nat.cast_zero, zero_div] at huge
    exact absurd huge (not_le.mpr (by positivity))
  have is := isExponent_exponentFor (Nat.pos_of_ne_zero nonzero) positive
  obtain ⟨-, below⟩ := significand_bounds positive is
  have exponent := lt_of_two_zpow_lt (huge.trans_lt is.above)
  have place : infinityCode = 2047 * 2 ^ 52 := rfl
  rw [magnitudeCode, if_neg nonzero]
  dsimp only
  refine Nat.min_eq_left ?_
  rw [place, twoTo_eq 52]
  omega

end Codes

namespace Decimal

/-- The exact value of a decimal. -/
def value (d : Decimal) : ℚ := d.digits * 10 ^ d.exponent

theorem ratio_positive (d : Decimal) : 0 < d.ratio.2 :=
  Nat.pow_pos (by decide)

/-- The ratio of a decimal is its value. -/
theorem value_eq_ratio (d : Decimal) : d.value = (d.ratio.1 : ℚ) / d.ratio.2 := by
  have power := zpow_eq_ratio 10 (by norm_num) d.exponent
  push_cast at power
  rw [value, power, ratio, tenTo_eq, tenTo_eq]
  push_cast
  ring

/-- Decimals of one value stand for one number. -/
theorem code_congr {d d' : Decimal} (same : d.value = d'.value) : d.code = d'.code := by
  rw [value_eq_ratio, value_eq_ratio, ratio_eq_iff d.ratio_positive d'.ratio_positive] at same
  exact magnitudeCode_congr d.ratio_positive d'.ratio_positive same

end Decimal

/-- A number lies below the power of ten that its digits count to. -/
theorem lt_ten_pow_length (n : Nat) : n < 10 ^ (Nat.toDigits 10 n).length :=
  (Nat.length_toDigits_le_iff (by decide) Nat.length_toDigits_pos).mp le_rfl

/-- A positive number reaches the power of ten of its first digit. -/
theorem ten_pow_le {n : Nat} (positive : 0 < n) : 10 ^ ((Nat.toDigits 10 n).length - 1) ≤ n := by
  by_contra less
  have short := Nat.length_toDigits_pos (b := 10) (n := n)
  by_cases single : (Nat.toDigits 10 n).length - 1 = 0
  · rw [single] at less
    omega
  · have fewer := (Nat.length_toDigits_le_iff (b := 10) (by decide) (Nat.pos_of_ne_zero single)).mpr
      (not_le.mp less)
    omega

private theorem two_pow_le_ten_pow (count : Nat) : (2 : ℚ) ^ (3 * count) ≤ 10 ^ count := by
  rw [pow_mul]
  exact pow_le_pow_left₀ (by norm_num) (by norm_num) count

/-- The powers of ten that are not worked out would not have mattered. -/
theorem decimalCode_eq (digits : Nat) (exponent : Int) :
    decimalCode digits exponent = Decimal.code ⟨digits, exponent⟩ := by
  let d : Decimal := ⟨digits, exponent⟩
  have ten : (1 : ℚ) ≤ 10 := by norm_num
  have length := Nat.length_toDigits_pos (b := 10) (n := digits)
  unfold decimalCode
  dsimp only
  split
  · next small =>
    simp only [Bool.or_eq_true, decide_eq_true_eq] at small
    refine (magnitudeCode_tiny d.ratio_positive ?_).symm
    rw [← d.value_eq_ratio]
    rcases small with zero | small
    · change (digits : ℚ) * _ < _
      rw [zero, Nat.cast_zero, zero_mul]
      positivity
    · calc (digits : ℚ) * 10 ^ exponent
          < 10 ^ (Nat.toDigits 10 digits).length * 10 ^ exponent := by
            gcongr
            exact_mod_cast lt_ten_pow_length digits
        _ = 10 ^ (exponent + (Nat.toDigits 10 digits).length) := by
            rw [add_comm, zpow_add₀ (by norm_num), zpow_natCast]
        _ ≤ 10 ^ (-(401 : Nat) : Int) := zpow_le_zpow_right₀ ten (by omega)
        _ ≤ 2 ^ (-(3 * 401 : Nat) : Int) := by
            rw [zpow_neg, zpow_neg, zpow_natCast, zpow_natCast]
            exact inv_anti₀ (by positivity) (two_pow_le_ten_pow 401)
        _ ≤ 2 ^ (-1075 : Int) := zpow_le_zpow_right₀ (by norm_num) (by norm_num)
  · next notSmall =>
    simp only [Bool.or_eq_true, decide_eq_true_eq, not_or] at notSmall
    split
    · next large =>
      refine (magnitudeCode_huge d.ratio_positive ?_).symm
      rw [← d.value_eq_ratio]
      calc (2 : ℚ) ^ (1024 : Int)
          ≤ 2 ^ ((3 * 400 : Nat) : Int) := zpow_le_zpow_right₀ (by norm_num) (by norm_num)
        _ ≤ 10 ^ ((400 : Nat) : Int) := by
            rw [zpow_natCast, zpow_natCast]
            exact two_pow_le_ten_pow 400
        _ ≤ 10 ^ (exponent + ((Nat.toDigits 10 digits).length - 1 : Nat)) :=
            zpow_le_zpow_right₀ ten (by omega)
        _ = 10 ^ ((Nat.toDigits 10 digits).length - 1) * 10 ^ exponent := by
            rw [add_comm, zpow_add₀ (by norm_num), zpow_natCast]
        _ ≤ digits * 10 ^ exponent := by
            gcongr
            exact_mod_cast ten_pow_le (Nat.pos_of_ne_zero notSmall.1)
    · rfl

end BasilLang.Number
