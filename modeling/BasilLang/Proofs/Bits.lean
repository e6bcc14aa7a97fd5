import BasilLang.Number.View
import Mathlib

/-! The bits of a number. A number and its sign and magnitude code determine
each other, so what is rebuilt from them is the number itself, sign of zero
included. Equality of numbers is read off the codes: two numbers are equal if
they are one number or both zeros, and a code beyond that of infinity is that
of the not-a-number. -/
namespace BasilLang.Number
open Float.Model (Format UnpackedFloat)
open Float.Model.UnpackedFloat

private theorem toNat_unpackMantissa (b : BitVec 64) :
    (@unpackMantissa Format.binary64 b).toNat = b.toNat % 2 ^ 52 := by
  simp [unpackMantissa]

private theorem toNat_unpackExponent (b : BitVec 64) :
    (@unpackExponent Format.binary64 b).toNat = b.toNat / 2 ^ 52 % 2 ^ 11 := by
  simp [unpackExponent, Nat.shiftRight_eq_div_pow]

private theorem toNat_unpackSign (b : BitVec 64) :
    (@unpackSign Format.binary64 b).toNat = b.toNat / 2 ^ 63 % 2 := by
  simp [unpackSign, Nat.shiftRight_eq_div_pow]

private theorem toBitVec_ofBitVec : ∀ b : BitVec 1, (Sign.ofBitVec b).toBitVec = b := by
  decide

private theorem toNat_append {m n : Nat} (high : BitVec m) (low : BitVec n) :
    (high ++ low).toNat = high.toNat * 2 ^ n + low.toNat := by
  rw [BitVec.toNat_append, ← Nat.shiftLeft_add_eq_or_of_lt low.isLt, Nat.shiftLeft_eq]

private theorem packComponents_unpacked (b : BitVec 64) :
    packComponents Format.binary64 (Sign.ofBitVec (@unpackSign Format.binary64 b))
      (@unpackExponent Format.binary64 b) (@unpackMantissa Format.binary64 b) = b := by
  apply BitVec.eq_of_toNat_eq
  have small := b.isLt
  rw [packComponents, toNat_append, toNat_append, toBitVec_ofBitVec, toNat_unpackSign,
    toNat_unpackExponent, toNat_unpackMantissa]
  dsimp only [Format.numBits] at small ⊢
  omega

section Packing
variable {exponent : BitVec 11} {mantissa : BitVec 52} (sign : Sign)

private theorem pack_subnormal (positive : 0 < mantissa.toNat) :
    pack Format.binary64 (.finite sign mantissa.toNat (-1074) positive) =
      packComponents Format.binary64 sign 0#11 mantissa := by
  have short : mantissa.toNat.log2 < 52 := (Nat.log2_lt positive.ne').mpr mantissa.isLt
  rw [pack]
  dsimp only
  rw [if_neg (by decide), if_neg (by simp only [Format.mantissaBits]; omega), BitVec.ofNat_toNat,
    BitVec.setWidth_eq]

private theorem pack_normal (notFull : exponent ≠ -1#11) (positive : 0 < (1#1 ++ mantissa).toNat) :
    pack Format.binary64
        (.finite sign (1#1 ++ mantissa).toNat ((exponent.toNat : Int) - 1075) positive) =
      packComponents Format.binary64 sign exponent mantissa := by
  have below : exponent.toNat < 2047 := by
    have small := exponent.isLt
    have other : exponent.toNat ≠ 2047 := fun same => notFull (BitVec.eq_of_toNat_eq same)
    omega
  have whole : (1#1 ++ mantissa).toNat = 2 ^ 52 + mantissa.toNat := by
    rw [toNat_append]
    simp
  have long : (1#1 ++ mantissa).toNat.log2 = 52 := by
    have small := mantissa.isLt
    exact (Nat.log2_eq_iff positive.ne').mpr ⟨by omega, by omega⟩
  have biased : ((exponent.toNat : Int) - 1075 + Format.binary64.exponentBias + (52 : Nat)).toNat =
      exponent.toNat := by
    simp only [Format.exponentBias]
    omega
  have field : BitVec.ofNat 52 (1#1 ++ mantissa).toNat = mantissa := by
    apply BitVec.eq_of_toNat_eq
    rw [whole, BitVec.toNat_ofNat, Nat.add_mod_left, Nat.mod_eq_of_lt mantissa.isLt]
  rw [pack]
  dsimp only
  rw [biased, long, if_neg (by omega), if_pos (by decide), field, BitVec.ofNat_toNat,
    BitVec.setWidth_eq]

end Packing

private theorem pack_unpack {b : BitVec 64} (valid : Format.binary64.Valid b) :
    pack Format.binary64 (unpack Format.binary64 b) = b := by
  have parts := packComponents_unpacked b
  unfold unpack
  dsimp only
  split
  · next full =>
    split
    · next empty =>
      rw [full, empty] at parts
      exact parts
    · next payload => exact (valid.eq_packedNaN full payload).symm
  · next notFull =>
    split
    · next least =>
      split
      · next empty =>
        rw [least, empty] at parts
        exact parts
      · next payload =>
        have zero : ((@unpackExponent Format.binary64 b).toNat : Int) -
            (Format.binary64.exponentBias + (52 : Nat)) + 1 = -1074 := by
          rw [least]
          rfl
        rw [least] at parts
        simp only [zero]
        exact (pack_subnormal _ _).trans parts
    · exact (pack_normal _ notFull _).trans parts

/-- A number is what its bits say. -/
theorem ofBits_toBits (x : Float) : Float.ofBits x.toBits = x := by
  obtain ⟨⟨bits, valid⟩⟩ := x
  have same : UInt64.ofBitVec (pack Format.binary64 (unpack Format.binary64 bits.toBitVec)) =
      bits := by
    rw [pack_unpack valid]
  unfold Float.ofBits Float.Model.ofBits Float.Model.pack Float.toBits
  simp only [same]

/-- The magnitude code of a number. -/
def codeOf (x : Float) : Nat :=
  x.toBits.toNat % signCode

/-- Whether the sign bit of a number is set. -/
def isNegative (x : Float) : Bool :=
  decide (signCode ≤ x.toBits.toNat)

/-- A number is rebuilt from its sign and its code. -/
theorem ofCode_codeOf (x : Float) : ofCode (isNegative x) (codeOf x) = x := by
  have bits : (if isNegative x then signCode + codeOf x else codeOf x) = x.toBits.toNat := by
    have small := x.toBits.toNat_lt
    have place : signCode = 2 ^ 63 := rfl
    unfold isNegative codeOf
    rw [place]
    simp only [decide_eq_true_eq]
    split
    · omega
    · omega
  rw [ofCode, bits, UInt64.ofNat_toNat, ofBits_toBits]

theorem decode_eq (x : Float) : decode x =
    if infinityCode < codeOf x then .nan
    else if codeOf x = infinityCode then .infinite (isNegative x)
    else if codeOf x / twoTo 52 = 0 then .finite (isNegative x) (codeOf x % twoTo 52) (-1074)
    else .finite (isNegative x) (twoTo 52 + codeOf x % twoTo 52)
      ((codeOf x / twoTo 52 : Nat) - 1075) := rfl

section Comparing
variable {x y : Float}

private theorem fields (x : Float) :
    (@unpackExponent Format.binary64 x.toBits.toBitVec).toNat = codeOf x / 2 ^ 52 ∧
    (@unpackMantissa Format.binary64 x.toBits.toBitVec).toNat = codeOf x % 2 ^ 52 := by
  have place : signCode = 2 ^ 63 := rfl
  rw [toNat_unpackExponent, toNat_unpackMantissa, codeOf, place]
  change x.toBits.toNat / _ % _ = _ ∧ x.toBits.toNat % _ = _
  omega

private theorem unpack_cases (x : Float) :
    (infinityCode < codeOf x ∧ x.toModel.unpack = .notANumber) ∨
    (codeOf x = infinityCode ∧ ∃ sign, x.toModel.unpack = .infinity sign) ∨
    (codeOf x = 0 ∧ ∃ sign, x.toModel.unpack = .zero sign) ∨
    (0 < codeOf x ∧ codeOf x < infinityCode ∧
      ∃ sign mantissa exponent positive,
        x.toModel.unpack = .finite sign mantissa exponent positive) := by
  obtain ⟨exponent, mantissa⟩ := fields x
  have place : infinityCode = 2047 * 2 ^ 52 := rfl
  have small : codeOf x < 2 ^ 63 := Nat.mod_lt _ (by decide)
  change (_ ∧ unpack Format.binary64 x.toBits.toBitVec = _) ∨
    (_ ∧ ∃ sign, unpack Format.binary64 x.toBits.toBitVec = _) ∨
    (_ ∧ ∃ sign, unpack Format.binary64 x.toBits.toBitVec = _) ∨
    (_ ∧ _ ∧ ∃ sign mantissa exponent positive, unpack Format.binary64 x.toBits.toBitVec = _)
  rw [place]
  unfold unpack
  dsimp only
  split
  · next full =>
    rw [full] at exponent
    change 2047 = _ at exponent
    split
    · next empty =>
      rw [empty] at mantissa
      change 0 = _ at mantissa
      exact .inr (.inl ⟨by omega, _, rfl⟩)
    · next payload =>
      have nonzero : codeOf x % 2 ^ 52 ≠ 0 :=
        fun zero => payload (BitVec.eq_of_toNat_eq (mantissa.trans zero))
      exact .inl ⟨by omega, rfl⟩
  · next notFull =>
    have other : codeOf x / 2 ^ 52 ≠ 2047 :=
      fun same => notFull (BitVec.eq_of_toNat_eq (exponent.trans same))
    split
    · next least =>
      rw [least] at exponent
      change 0 = _ at exponent
      split
      · next empty =>
        rw [empty] at mantissa
        change 0 = _ at mantissa
        exact .inr (.inr (.inl ⟨by omega, _, rfl⟩))
      · next payload =>
        have nonzero : codeOf x % 2 ^ 52 ≠ 0 :=
          fun zero => payload (BitVec.eq_of_toNat_eq (mantissa.trans zero))
        exact .inr (.inr (.inr ⟨by omega, by omega, _, _, _, by omega, rfl⟩))
    · next normal =>
      have nonzero : codeOf x / 2 ^ 52 ≠ 0 :=
        fun zero => normal (BitVec.eq_of_toNat_eq (exponent.trans zero))
      have positive : 0 < (1#1 ++ @unpackMantissa Format.binary64 x.toBits.toBitVec).toNat := by
        rw [toNat_append]
        simp
      exact .inr (.inr (.inr ⟨by omega, by omega, _, _, _, positive, rfl⟩))

/-- The codes beyond that of infinity belong to the not-a-number. -/
theorem isNaN_iff : x.isNaN = true ↔ infinityCode < codeOf x := by
  change x.toModel.unpack.isNaN = true ↔ _
  have place : infinityCode = 2047 * 2 ^ 52 := rfl
  rcases unpack_cases x with ⟨above, unpacked⟩ | ⟨same, sign, unpacked⟩ | ⟨zero, sign, unpacked⟩ |
    ⟨-, below, sign, mantissa, exponent, positive, unpacked⟩
  · simp [unpacked, UnpackedFloat.isNaN, above]
  · simp [unpacked, UnpackedFloat.isNaN, same]
  · simp [unpacked, UnpackedFloat.isNaN, zero]
  · simp only [unpacked, UnpackedFloat.isNaN, Bool.false_eq_true, false_iff]
    omega

private theorem compare_sign : ∀ s t : Sign, compare s t = .eq ↔ s = t := by
  rintro (_ | _) (_ | _)
  · exact ⟨fun _ => rfl, fun _ => rfl⟩
  · exact ⟨nofun, nofun⟩
  · exact ⟨nofun, nofun⟩
  · exact ⟨fun _ => rfl, fun _ => rfl⟩

private theorem beq_unpacked {a b : UnpackedFloat} (number : a ≠ .notANumber) :
    a.beq b = true ↔ a = b ∨ (∃ s, a = .zero s) ∧ ∃ t, b = .zero t := by
  unfold UnpackedFloat.beq
  cases a with
  | notANumber => exact absurd rfl number
  | infinity s =>
    cases b with
    | infinity t => simp [UnpackedFloat.compare, compare_sign]
    | _ => cases s <;> simp [UnpackedFloat.compare]
  | zero s =>
    cases b with
    | infinity t => cases t <;> simp [UnpackedFloat.compare]
    | finite t => cases t <;> simp [UnpackedFloat.compare]
    | _ => simp [UnpackedFloat.compare]
  | finite s m e =>
    cases b with
    | infinity t => cases t <;> simp [UnpackedFloat.compare]
    | finite t => cases s <;> cases t <;> simp [UnpackedFloat.compare, and_comm]
    | zero => cases s <;> simp [UnpackedFloat.compare]
    | notANumber => simp [UnpackedFloat.compare]

private theorem eq_of_unpack (same : x.toModel.unpack = y.toModel.unpack) : x = y := by
  obtain ⟨⟨bits, valid⟩⟩ := x
  obtain ⟨⟨bits', valid'⟩⟩ := y
  have packed : bits.toBitVec = bits'.toBitVec := by
    rw [← pack_unpack valid, ← pack_unpack valid']
    exact congrArg (pack Format.binary64) same
  obtain rfl := UInt64.toBitVec_inj.mp packed
  rfl

/-- Numbers are equal if they are the same, or both zeros. -/
theorem beq_iff (number : x.isNaN = false) :
    (x == y) = true ↔ x = y ∨ codeOf x = 0 ∧ codeOf y = 0 := by
  have zero : ∀ z : Float, (∃ sign, z.toModel.unpack = .zero sign) ↔ codeOf z = 0 := by
    intro z
    have positive : 0 < infinityCode := by decide
    rcases unpack_cases z with ⟨above, unpacked⟩ | ⟨same, sign, unpacked⟩ | ⟨zero, sign, unpacked⟩ |
      ⟨above, -, sign, mantissa, exponent, positive, unpacked⟩
    · simp [unpacked]
      omega
    · simp [unpacked]
      omega
    · simp [unpacked, zero]
    · simp [unpacked]
      omega
  have notNaN : x.toModel.unpack ≠ .notANumber := by
    intro nan
    have holds : x.isNaN = true := by
      change x.toModel.unpack.isNaN = true
      rw [nan]
      rfl
    rw [number] at holds
    cases holds
  change x.toModel.unpack.beq y.toModel.unpack = true ↔ _
  rw [beq_unpacked notNaN, zero, zero]
  refine or_congr_left ⟨eq_of_unpack, fun same => by rw [same]⟩

end Comparing

end BasilLang.Number
