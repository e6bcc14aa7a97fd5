import BasilLang.Number.Binary64

/-! The fewest decimal digits that read back. For one digit, two digits and so
on, the two decimals of that many digits that enclose the number are tried;
the first that rounds to the number wins, of two the nearer, and a tie goes to
the even digit. If none does within seventeen digits the exact decimal is
taken, so the answer reads back in every case. What reads back with some
number of digits does so with any greater number, hence most numbers are
spared the search below sixteen digits. -/
namespace BasilLang.Number

/-- A natural number of units of a power of ten. -/
structure Decimal where
  digits : Nat
  exponent : Int
deriving DecidableEq, Repr

namespace Decimal

/-- The exact value as a ratio of naturals. -/
def ratio (d : Decimal) : Nat × Nat :=
  (d.digits * tenTo d.exponent.toNat, tenTo (-d.exponent).toNat)

/-- The magnitude code of the nearest binary64 number. -/
def code (d : Decimal) : Nat :=
  magnitudeCode d.ratio.1 d.ratio.2

/-- Moves trailing zeros from the digits into the exponent. -/
def strip : Nat → Decimal → Decimal
  | 0, d => d
  | steps + 1, d =>
    if d.digits ≠ 0 ∧ d.digits % 10 = 0 then strip steps ⟨d.digits / 10, d.exponent + 1⟩ else d

end Decimal

/-- The power of ten of the leading digit of a positive ratio. -/
def leadingExponent (num den : Nat) : Int :=
  if den ≤ num then ((Nat.toDigits 10 (num / den)).length : Int) - 1
  else -((Nat.toDigits 10 ((den - 1) / num)).length : Int)

/-- The decimal with the given number of digits that reads back, if there is
one, for a ratio whose leading digit has the given exponent. -/
def withDigits? (num den code : Nat) (leading : Int) (count : Nat) : Option Decimal :=
  let exponent := leading - count + 1
  let num' := num * tenTo (-exponent).toNat
  let den' := den * tenTo exponent.toNat
  let below : Decimal := ⟨num' / den', exponent⟩
  let above : Decimal := ⟨num' / den' + 1, exponent⟩
  let twice := 2 * (num' % den')
  let belowIsNearer := twice < den' || (twice == den' && below.digits % 2 == 0)
  match below.code == code, above.code == code with
  | true, true => some (if belowIsNearer then below else above)
  | true, false => some below
  | false, true => some above
  | false, false => none

/-- The numbers of digits to try in order: those from sixteen on if fifteen are
too few. -/
def digitCounts (fifteenSuffice : Bool) : List Nat :=
  if fifteenSuffice then List.range' 1 15 else [16, 17]

/-- The shortest decimal that reads back as the positive finite number with
this significand and exponent. -/
def shortest (significand : Nat) (exponent : Int) : Decimal :=
  let (num, den) := ratioOf significand exponent
  let code := magnitudeCode num den
  let leading := leadingExponent num den
  let attempt := withDigits? num den code leading
  match (digitCounts (attempt 15).isSome).findSome? attempt with
  | some d => d.strip 20
  | none => ⟨significand * twoTo exponent.toNat * Nat.pow 5 (-exponent).toNat, -(-exponent).toNat⟩

end BasilLang.Number
