import BasilLang.Text.Span

/-! Blank characters at the ends of a text. This is the wide class used on
typed input and settings, not the four separators of the language itself. -/
namespace BasilLang.Text

/-- Blank characters above ASCII. -/
def blankSpans : Spans :=
  [(0x85, 0x85), (0xA0, 0xA0), (0x1680, 0x1680), (0x2000, 0x200A), (0x2028, 0x2029),
   (0x202F, 0x202F), (0x205F, 0x205F), (0x3000, 0x3000)]

/-- Controls from tab to carriage return, the four information separators,
the space, and the blanks of other scripts. -/
def isBlank (c : Char) : Bool :=
  classify (fun c => c == ' ' || 9 ≤ c.toNat && c.toNat ≤ 13 || 28 ≤ c.toNat && c.toNat ≤ 31)
    blankSpans c

/-- The characters without the blanks at either end. -/
def trimmed (p : Char → Bool) (cs : List Char) : List Char :=
  ((cs.dropWhile p).reverse.dropWhile p).reverse

/-- The text without the blanks at either end. -/
def trim (text : String) : String :=
  String.ofList (trimmed isBlank text.toList)

end BasilLang.Text
