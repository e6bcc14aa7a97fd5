import BasilLang.Evaluation.Machine
import BasilLang.Number.View

/-! What operators do to values that are already there. Ordering compares
numbers and gives a Number with a truth word as its text; arithmetic gives the
Number that spells the result. -/
namespace BasilLang

/-- The Number that a comparison gives. -/
def Value.ordering (holds : Bool) : Value :=
  ⟨.number, if holds then "true" else "false"⟩

namespace Eval

/-- The result of an arithmetic operation, or why it has none. -/
def ofArithmetic {α : Type} : Except Number.Undefined α → Eval α
  | .ok a => pure a
  | .error cause => stop (.undefined cause)

/-- The quotient of two numbers. -/
def quotient (x y : Float) : Eval Value :=
  if y == 0.0 then fail .divisionByZero else return .ofNumber (x / y)

/-- What division leaves over. -/
def remainder (x y : Float) : Eval Value :=
  if y == 0.0 then fail .moduloByZero
  else do return .ofNumber (← ofArithmetic (Number.remainder x y))

end Eval

/-- Applies an operator to its operand. Negation gives a Number; `not` gives
the Boolean that tells whether the operand rounds to zero. -/
def UnaryOp.apply (op : UnaryOp) (operand : Value) : Eval Value := do
  let x ← Eval.lift operand.number
  match op with
  | .negate => return .ofNumber (-x)
  | .not => return .boolean (← Eval.ofArithmetic (Number.roundsToZero x))

/-- Applies an operator to two values. Equality compares kind and text; all but
it and the logical operators are for numbers. -/
def BinaryOp.apply (op : BinaryOp) (x y : Value) : Eval Value := do
  match op with
  | .or => return .boolean ((← Eval.lift x.truth) || (← Eval.lift y.truth))
  | .and => return .boolean ((← Eval.lift x.truth) && (← Eval.lift y.truth))
  | .is => return .boolean (x = y)
  | .isnt => return .boolean (x ≠ y)
  | op =>
    let left ← Eval.lift x.number
    let right ← Eval.lift y.number
    match op with
    | .less => return .ordering (left < right)
    | .lessEq => return .ordering (left ≤ right)
    | .greater => return .ordering (left > right)
    | .greaterEq => return .ordering (left ≥ right)
    | .add => return .ofNumber (left + right)
    | .subtract => return .ofNumber (left - right)
    | .multiply => return .ofNumber (left * right)
    | .divide => Eval.quotient left right
    | _ => Eval.remainder left right

end BasilLang
