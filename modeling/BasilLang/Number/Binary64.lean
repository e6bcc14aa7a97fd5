/-! Binary64 numbers as exact quantities. A finite number is a signed natural
significand times a power of two; a positive ratio of naturals is rounded to
the nearest such number, and a tie goes to the even significand. All reading
and writing of numbers rests on these two directions. -/
namespace BasilLang.Number

/-- A power of two. -/
abbrev twoTo (exponent : Nat) : Nat := Nat.pow 2 exponent

/-- A power of ten. -/
abbrev tenTo (exponent : Nat) : Nat := Nat.pow 10 exponent

/-- What the bits of a number say. -/
inductive Decoded where
  | nan
  | infinite (negative : Bool)
  | finite (negative : Bool) (significand : Nat) (exponent : Int)
deriving DecidableEq, Repr

/-- The magnitude code of infinity; codes below it are those of finite numbers
and grow with the number. -/
def infinityCode : Nat := 2047 * twoTo 52

/-- The place of the sign bit. -/
def signCode : Nat := twoTo 63

/-- The exact meaning of a number. -/
def decode (x : Float) : Decoded :=
  let code : Nat := x.toBits.toNat % signCode
  let negative := decide (signCode ≤ x.toBits.toNat)
  let biased : Nat := code / twoTo 52
  let fraction : Nat := code % twoTo 52
  if infinityCode < code then .nan
  else if code = infinityCode then .infinite negative
  else if biased = 0 then .finite negative fraction (-1074)
  else .finite negative (twoTo 52 + fraction) ((biased : Int) - 1075)

/-- The quotient rounded to the nearest natural, a tie to the even one. -/
def roundQuotient (num den : Nat) : Nat :=
  let quotient := num / den
  let twice := 2 * (num % den)
  if twice < den || (twice == den && quotient % 2 == 0) then quotient else quotient + 1

/-- A lower bound for the exponent at which the ratio has a significand of at
most 53 bits; the least exponent of all is that of the smallest number. -/
def leastExponent (num den : Nat) : Int :=
  max ((num.log2 : Int) - den.log2 - 53) (-1074)

/-- The exponent at which the ratio has a significand of 53 bits, or fewer
at the least exponent. -/
def exponentFor (num den : Nat) : Int :=
  let low := leastExponent num den
  if den * twoTo low.toNat * twoTo 53 ≤ num * twoTo (-low).toNat then low + 1 else low

/-- The magnitude code of the number nearest to the ratio. Adding the
significand to the exponent's place makes the carry of a rounding that reaches
the next power of two come out right. -/
def magnitudeCode (num den : Nat) : Nat :=
  if num = 0 then 0
  else
    let exponent := exponentFor num den
    let significand :=
      roundQuotient (num * twoTo (-exponent).toNat) (den * twoTo exponent.toNat)
    min infinityCode ((exponent + 1074).toNat * twoTo 52 + significand)

/-- The number with the given sign and magnitude code. -/
def ofCode (negative : Bool) (code : Nat) : Float :=
  Float.ofBits (UInt64.ofNat (if negative then signCode + code else code))

/-- The number nearest to an integer. -/
def ofInt (i : Int) : Float :=
  ofCode (i < 0) (magnitudeCode i.natAbs 1)

/-- The quiet not-a-number. -/
def nan : Float := ofCode false (infinityCode + twoTo 51)

/-- Infinity of either sign. -/
def infinity (negative : Bool) : Float := ofCode negative infinityCode

/-- Numerator and denominator of a significand times a power of two. -/
def ratioOf (significand : Nat) (exponent : Int) : Nat × Nat :=
  (significand * twoTo exponent.toNat, twoTo (-exponent).toNat)

/-- The greatest integer that is not above the number, which must be finite. -/
def floor? (x : Float) : Option Int :=
  match decode x with
  | .finite negative significand exponent =>
    let (num, den) := ratioOf significand exponent
    some (if negative then -(((num + den - 1) / den : Nat) : Int) else ((num / den : Nat) : Int))
  | _ => none

end BasilLang.Number
