import BasilLang.Number.Shortest

/-! The text of a number. Integral numbers are written in full as integers,
others with the fewest digits that read back; a number below one
ten-thousandth takes an exponent of at least two digits. -/
namespace BasilLang.Number

/-- The sign in front of a negative number. -/
def signText (negative : Bool) : String :=
  if negative then "-" else ""

/-- The least exponent of a leading digit that is written with a plain point. -/
def plainFrom : Int := -4

/-- A decimal laid out: the point inside the digits, before them, or an
exponent after them. -/
def layOut (d : Decimal) : String :=
  let digits := Nat.toDigits 10 d.digits
  let leading := d.exponent + digits.length - 1
  if leading < plainFrom then
    let fraction := if digits.length = 1 then [] else '.' :: digits.drop 1
    let power := Nat.toDigits 10 leading.natAbs
    let padding := List.replicate (2 - power.length) '0'
    String.ofList (digits.take 1 ++ fraction ++ 'e' :: '-' :: padding ++ power)
  else if leading < 0 then
    String.ofList ('0' :: '.' :: List.replicate (leading.natAbs - 1) '0' ++ digits)
  else
    let whole := leading.toNat + 1
    String.ofList (digits.take whole ++ '.' :: digits.drop whole)

/-- The text of a number. Negative zero is written as zero. -/
def write (x : Float) : String :=
  match decode x with
  | .nan => "nan"
  | .infinite negative => signText negative ++ "inf"
  | .finite negative significand exponent =>
    let (num, den) := ratioOf significand exponent
    if num % den = 0 then
      signText (negative && num ≠ 0) ++ toString (num / den)
    else
      signText negative ++ layOut (shortest significand exponent)

end BasilLang.Number
