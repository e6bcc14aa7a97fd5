import BasilLang.Number.Writing

/-! Arithmetic that goes beyond the four basic operations: the remainder of a
truncated division, and rounding to an integer far enough to tell zero. Both
are undefined on some numbers, and say so. -/
namespace BasilLang.Number

/-- An operation that has no result on the numbers it was given. -/
inductive Undefined where
  | remainderOfInfinity
  | integerOfInfinity
  | integerOfNan
deriving DecidableEq, Repr

/-- The text of the complaint. -/
def Undefined.message : Undefined → String
  | .remainderOfInfinity => "math domain error"
  | .integerOfInfinity => "cannot convert float infinity to integer"
  | .integerOfNan => "cannot convert float NaN to integer"

/-- The remainder of dividing the significands at their common exponent. -/
def remainderCode (left : Nat) (leftExponent : Int) (right : Nat) (rightExponent : Int) : Nat :=
  let common := min leftExponent rightExponent
  let rest := (left * twoTo (leftExponent - common).toNat) %
    (right * twoTo (rightExponent - common).toNat)
  let (num, den) := ratioOf rest common
  magnitudeCode num den

/-- What truncated division by a number other than zero leaves over; it has
the sign of the dividend. -/
def remainder (x y : Float) : Except Undefined Float :=
  match decode x, decode y with
  | .nan, _ => .ok nan
  | _, .nan => .ok nan
  | .infinite _, _ => .error .remainderOfInfinity
  | _, .infinite _ => .ok x
  | .finite negative left leftExponent, .finite _ right rightExponent =>
    .ok (ofCode negative (remainderCode left leftExponent right rightExponent))

/-- Whether the number rounds to zero, halves going away from zero. -/
def roundsToZero (x : Float) : Except Undefined Bool :=
  match decode x with
  | .nan => .error .integerOfNan
  | .infinite _ => .error .integerOfInfinity
  | .finite .. => .ok (x.abs + 0.5 < 1.0)

end BasilLang.Number
