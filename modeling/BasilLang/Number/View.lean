import BasilLang.Fault
import BasilLang.Number.Reading
import BasilLang.Number.Writing

/-! Values seen as numbers. Only Numbers and Booleans have a numeric view;
everything else is simply not true. -/
namespace BasilLang.Value

/-- The Number that stands for a binary64 number. -/
def ofNumber (x : Float) : Value := ⟨.number, Number.write x⟩

/-- Whether the kind has a numeric view. -/
def isNumeric (value : Value) : Bool :=
  value.kind = .number || value.kind = .boolean

/-- The number that a Number or Boolean stands for; the words for the truth
values stand for one and zero. -/
def number (value : Value) : Except EvalFault Float :=
  if !value.isNumeric then .error (.notANumber value)
  else if value.text = "true" then .ok 1.0
  else if value.text = "false" then .ok 0.0
  else match Number.read? value.text with
    | some x => .ok x
    | none => .error (.notNumeric value.text)

/-- Whether a condition holds: a Number or Boolean that is neither zero nor
not-a-number. -/
def truth (value : Value) : Except EvalFault Bool :=
  if !value.isNumeric then .ok false
  else do
    let x ← value.number
    return x == x && x != 0.0

end BasilLang.Value
