import BasilLang.Text.Printable

/-! How a diagnostic shows a text: between quotes, on one line, with every
character that cannot be printed replaced by a numeric escape. This is for
reading by people; the quoting of the language itself is `Text.Quoted`. -/
namespace BasilLang.Text

/-- The lower-case hexadecimal digits of a number, padded with zeros. -/
def hexadecimal (width number : Nat) : List Char :=
  let digits := Nat.toDigits 16 number
  List.replicate (width - digits.length) '0' ++ digits

/-- The escape of a character that cannot be printed, in the shortest of the
three widths that holds its code point. -/
def codeEscape (c : Char) : List Char :=
  if c.toNat < 0x100 then '\\' :: 'x' :: hexadecimal 2 c.toNat
  else if c.toNat < 0x10000 then '\\' :: 'u' :: hexadecimal 4 c.toNat
  else '\\' :: 'U' :: hexadecimal 8 c.toNat

/-- One character as shown between the given quotes. -/
def shownChar (quote c : Char) : List Char :=
  if c == quote || c == '\\' then ['\\', c]
  else if c == '\n' then ['\\', 'n']
  else if c == '\r' then ['\\', 'r']
  else if c == '\t' then ['\\', 't']
  else if isPrintable c then [c]
  else codeEscape c

/-- Single quotes enclose a text, unless it holds single quotes and no double
quote. -/
def shownQuote (cs : List Char) : Char :=
  if cs.contains '\'' && !cs.contains '"' then '"' else '\''

/-- The text as a diagnostic shows it. -/
def shown (text : String) : String :=
  let cs := text.toList
  let quote := shownQuote cs
  String.ofList (quote :: cs.flatMap (shownChar quote) ++ [quote])

end BasilLang.Text
