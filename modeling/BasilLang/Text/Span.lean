/-! Sets of characters given as spans of code points, the form in which the
character classes of Unicode are tabulated. -/
namespace BasilLang.Text

/-- Spans of code points, first and last included. -/
abbrev Spans := List (Nat × Nat)

/-- Whether the character lies in one of the spans. -/
def Spans.has (spans : Spans) (c : Char) : Bool :=
  spans.any fun (first, last) => first ≤ c.toNat && c.toNat ≤ last

/-- A class that is settled by rule on ASCII and by table above it. -/
def classify (ascii : Char → Bool) (beyond : Spans) (c : Char) : Bool :=
  if c.toNat < 128 then ascii c else beyond.has c

end BasilLang.Text
