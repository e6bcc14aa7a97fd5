import BasilLang.Number.Shortest
import BasilLang.Text.Blank
import BasilLang.Text.Digit

/-! Reading numbers from text. Blanks at the ends are dropped, decimal digits
of any script count, and a single underscore may stand between two digits. A
real number has a sign, a whole part, a fraction and an exponent, any of which
may be missing as long as one digit is there, or is a spelled infinity or
not-a-number in any case. An integer has a sign and digits. -/
namespace BasilLang.Number

/-- The ASCII form of a character in a number: a decimal digit becomes the
ASCII digit of its value, a blank becomes a space, and any other character
above ASCII becomes one that no number holds. -/
def plainChar (c : Char) : Char :=
  if c.toNat < 128 then c
  else if Text.isBlank c then ' '
  else match Text.decimalValue? c with
    | some digit => Char.ofNat ('0'.toNat + digit)
    | none => '?'

/-- The blanks that may stand around a number, in ASCII form. -/
def isMargin (c : Char) : Bool :=
  c == ' ' || 9 ≤ c.toNat && c.toNat ≤ 13

/-- Drops the underscores of a text in which each stands between two digits;
the first argument is the character before the text. -/
def dropUnderscores : Char → List Char → Option (List Char)
  | before, [] => if before == '_' then none else some []
  | before, c :: cs =>
    if c == '_' then
      if before.isDigit then dropUnderscores c cs else none
    else if before == '_' && !c.isDigit then none
    else (dropUnderscores c cs).map (c :: ·)

/-- The characters that the grammar of numbers sees. -/
def plainNumber? (text : String) : Option (List Char) :=
  dropUnderscores ' ' (Text.trimmed isMargin (text.toList.map plainChar))

/-- An optional sign and what follows it. -/
def takeSign : List Char → Bool × List Char
  | '-' :: cs => (true, cs)
  | '+' :: cs => (false, cs)
  | cs => (false, cs)

/-- The value of a run of ASCII digits. -/
def digitsValue (cs : List Char) : Nat :=
  cs.foldl (fun value c => 10 * value + (c.toNat - '0'.toNat)) 0

/-- The exponent that ends a number; nothing stands for zero. -/
def exponent? : List Char → Option Int
  | [] => some 0
  | c :: cs =>
    if c == 'e' || c == 'E' then
      let (negative, digits) := takeSign cs
      if digits.isEmpty || !digits.all Char.isDigit then none
      else some (if negative then -(digitsValue digits : Int) else digitsValue digits)
    else none

/-- The magnitude code of a decimal of any size. Far beyond the greatest or
below the least number the power of ten is not worked out. -/
def decimalCode (digits : Nat) (exponent : Int) : Nat :=
  let leading := exponent + (Nat.toDigits 10 digits).length
  if digits = 0 || leading < -400 then 0
  else if 400 < leading then infinityCode
  else Decimal.code ⟨digits, exponent⟩

/-- The magnitude of an unsigned decimal: whole part, fraction, exponent. -/
def decimal? (cs : List Char) : Option Nat :=
  let whole := cs.takeWhile Char.isDigit
  let rest := cs.dropWhile Char.isDigit
  let fraction := match rest with
    | '.' :: after => after.takeWhile Char.isDigit
    | _ => []
  let tail := match rest with
    | '.' :: after => after.dropWhile Char.isDigit
    | _ => rest
  if whole.isEmpty && fraction.isEmpty then none
  else (exponent? tail).map fun exponent =>
    decimalCode (digitsValue (whole ++ fraction)) (exponent - fraction.length)

/-- The number that a text spells. -/
def read? (text : String) : Option Float := do
  let (negative, unsigned) := takeSign (← plainNumber? text)
  let word := String.ofList (unsigned.map Char.toLower)
  if word == "inf" || word == "infinity" then return infinity negative
  if word == "nan" then return nan
  return ofCode negative (← decimal? unsigned)

/-- The most digits an integer may have. -/
def integerDigits : Nat := 4300

/-- The integer that a text spells. -/
def readInt? (text : String) : Option Int := do
  let (negative, digits) := takeSign (← plainNumber? text)
  if digits.isEmpty || !digits.all Char.isDigit || integerDigits < digits.length then none
  else if negative then return -(digitsValue digits : Int)
  else return digitsValue digits

end BasilLang.Number
