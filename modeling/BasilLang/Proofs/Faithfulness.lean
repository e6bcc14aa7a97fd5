import BasilLang.Proofs.Binding
import BasilLang.Proofs.Bits
import BasilLang.Proofs.Equality
import BasilLang.Proofs.Numerals
import BasilLang.Proofs.Rounding

/-! The text of a number is faithful. Whichever branch writes it, the decimal that
it spells is rounded to the number again: whole numbers are spelled exactly, and
of the others the digits that were found, or else all of them. So a number is
read back as itself, but for the sign of zero, and two numbers have one text
exactly if they are equal. Arithmetic gives such texts only, and therefore `is`
compares its results as numbers. -/
namespace BasilLang

namespace Number

section Decoding
variable {x : Float} {negative : Bool} {significand : Nat} {exponent : Int}

private theorem ratioOf_positive (significand : Nat) (exponent : Int) :
    0 < (ratioOf significand exponent).2 :=
  Nat.two_pow_pos _

private theorem ratioOf_value (significand : Nat) (exponent : Int) :
    ((ratioOf significand exponent).1 : ℚ) / (ratioOf significand exponent).2 =
      significand * 2 ^ exponent := by
  rw [two_zpow_eq_ratio, ratioOf, twoTo_eq, twoTo_eq]
  push_cast
  ring

/-- A finite number has the sign and the value that its bits say. -/
theorem value_of_finite (finite : decode x = .finite negative significand exponent) :
    codeOf x < infinityCode ∧ negative = isNegative x ∧
      codeValue (codeOf x) = significand * 2 ^ exponent := by
  rw [decode_eq] at finite
  by_cases beyond : infinityCode < codeOf x
  · rw [if_pos beyond] at finite
    cases finite
  · rw [if_neg beyond] at finite
    by_cases infinite : codeOf x = infinityCode
    · rw [if_pos infinite] at finite
      cases finite
    · rw [if_neg infinite] at finite
      refine ⟨by omega, ?_⟩
      unfold codeValue
      by_cases low : codeOf x / twoTo 52 = 0
      · rw [if_pos low] at finite ⊢
        obtain ⟨rfl, rfl, rfl⟩ := Decoded.finite.inj finite
        have small : codeOf x < twoTo 52 := (Nat.div_eq_zero_iff_lt (Nat.two_pow_pos 52)).mp low
        exact ⟨rfl, by rw [Nat.mod_eq_of_lt small]⟩
      · rw [if_neg low] at finite ⊢
        obtain ⟨rfl, rfl, rfl⟩ := Decoded.finite.inj finite
        exact ⟨rfl, rfl⟩

/-- A finite number is what its significand and its exponent are rounded to. -/
theorem magnitudeCode_finite (finite : decode x = .finite negative significand exponent) :
    magnitudeCode (ratioOf significand exponent).1 (ratioOf significand exponent).2 =
      codeOf x := by
  obtain ⟨below, -, value⟩ := value_of_finite finite
  refine magnitudeCode_exact (ratioOf_positive _ _) below ?_
  rw [ratioOf_value, value]

end Decoding

section Shortest
variable {num den code count : Nat} {leading : Int} {d : Decimal}

/-- What is found with some number of digits reads back. -/
theorem withDigits?_code (found : withDigits? num den code leading count = some d) :
    d.code = code := by
  unfold withDigits? at found
  dsimp only at found
  split at found
  · next below above =>
    split at found
    · obtain rfl := Option.some.inj found
      exact beq_iff_eq.mp below
    · obtain rfl := Option.some.inj found
      exact beq_iff_eq.mp above
  · next below _ =>
    obtain rfl := Option.some.inj found
    exact beq_iff_eq.mp below
  · next _ above =>
    obtain rfl := Option.some.inj found
    exact beq_iff_eq.mp above
  · cases found

/-- Zeros at the end can be left out. -/
theorem strip_value (steps : Nat) (d : Decimal) : (d.strip steps).value = d.value := by
  induction steps generalizing d with
  | zero => rfl
  | succ steps ih =>
    unfold Decimal.strip
    split
    · next zeros =>
      rw [ih]
      have tenth : 10 * (d.digits / 10) = d.digits :=
        Nat.mul_div_cancel' (Nat.dvd_of_mod_eq_zero zeros.2)
      unfold Decimal.value
      dsimp only
      rw [zpow_add₀ (by norm_num)]
      conv => rhs; rw [← tenth]
      push_cast
      ring
    · rfl

/-- The shortest decimal stands for the number. -/
theorem shortest_code (significand : Nat) (exponent : Int) :
    (shortest significand exponent).code =
      magnitudeCode (ratioOf significand exponent).1 (ratioOf significand exponent).2 := by
  unfold shortest
  dsimp only
  split
  · next found =>
    obtain ⟨count, -, found⟩ := List.exists_of_findSome?_eq_some found
    rw [Decimal.code_congr (strip_value 20 _)]
    exact withDigits?_code found
  · -- none of the lengths was enough, so the decimal is the exact value
    refine magnitudeCode_congr (Decimal.ratio_positive _) (ratioOf_positive _ _) ?_
    rw [← ratio_eq_iff (Decimal.ratio_positive _) (ratioOf_positive _ _), ← Decimal.value_eq_ratio,
      ratioOf_value, Decimal.value, two_zpow_eq_ratio, zpow_neg, zpow_natCast, twoTo_eq]
    have five : Nat.pow 5 (-exponent).toNat = 5 ^ (-exponent).toNat := rfl
    have ten : (10 : ℚ) ^ (-exponent).toNat = 2 ^ (-exponent).toNat * 5 ^ (-exponent).toNat := by
      rw [← mul_pow]
      norm_num
    rw [five, ten]
    push_cast
    field_simp

/-- A number that is not whole is written with digits after the point. -/
theorem shortest_exponent {x : Float} {negative : Bool} {significand : Nat} {exponent : Int}
    (finite : decode x = .finite negative significand exponent)
    (broken : (ratioOf significand exponent).1 % (ratioOf significand exponent).2 ≠ 0) :
    (shortest significand exponent).exponent ≤ 0 := by
  by_contra positive
  -- without digits after the point the decimal is whole, and so is what it is rounded to
  obtain ⟨below, -, value⟩ := value_of_finite finite
  have code := (shortest_code significand exponent).trans (magnitudeCode_finite finite)
  have one : (shortest significand exponent).ratio.2 = 1 := by
    rw [Decimal.ratio, show (-(shortest significand exponent).exponent).toNat = 0 by omega]
  rw [Decimal.code, one] at code
  obtain ⟨whole, same⟩ := codeValue_whole code below
  rw [value, ← ratioOf_value, div_eq_iff (by exact_mod_cast (ratioOf_positive _ _).ne')] at same
  have multiple : (ratioOf significand exponent).1 = whole * (ratioOf significand exponent).2 := by
    exact_mod_cast same
  rw [multiple, Nat.mul_mod_left] at broken
  exact broken rfl

end Shortest

section Reading
variable {x : Float}

/-- A finite number is read back from its text, but for the sign of zero. -/
theorem read_write_finite {negative : Bool} {significand : Nat} {exponent : Int}
    (finite : decode x = .finite negative significand exponent) :
    read? (write x) = some (ofCode (isNegative x && codeOf x ≠ 0) (codeOf x)) := by
  obtain ⟨below, rfl, value⟩ := value_of_finite finite
  have rounds := magnitudeCode_finite finite
  have nothing : (ratioOf significand exponent).1 = 0 ↔ codeOf x = 0 := by
    constructor
    · intro zero
      rw [← rounds, zero, magnitudeCode, if_pos rfl]
    · intro zero
      rw [zero, codeValue, if_pos (by decide), Nat.cast_zero, zero_mul, eq_comm,
        mul_eq_zero] at value
      have none : significand = 0 := by exact_mod_cast value.resolve_right (by positivity)
      rw [ratioOf, none, Nat.zero_mul]
  simp only [write, finite]
  split
  · next whole =>
    obtain ⟨n, written, spells⟩ := toString_numeral
      ((ratioOf significand exponent).1 / (ratioOf significand exponent).2)
    have code : Decimal.code ⟨(ratioOf significand exponent).1 /
        (ratioOf significand exponent).2, 0⟩ = codeOf x := by
      rw [← rounds]
      refine magnitudeCode_congr (Decimal.ratio_positive _) (ratioOf_positive _ _) ?_
      change _ / _ * 1 * _ = _ * 1
      rw [Nat.mul_one, Nat.mul_one, Nat.div_mul_cancel (Nat.dvd_of_mod_eq_zero whole)]
    rw [written, n.read_text, Numeral.code, decimalCode_eq, spells, code]
    simp only [ne_eq, nothing]
  · next broken =>
    obtain ⟨n, laid, spells⟩ := layOut_numeral (shortest significand exponent)
    have nonzero : codeOf x ≠ 0 := by
      intro zero
      rw [nothing.mpr zero, Nat.zero_mod] at broken
      exact broken rfl
    rw [laid, n.read_text, Numeral.code, decimalCode_eq, spells (shortest_exponent finite broken),
      shortest_code, rounds, decide_eq_true nonzero, Bool.and_true]

private theorem codeOf_zero : codeOf 0.0 = 0 := rfl

/-- A number is equal to zero if it is one of the two zeros. -/
theorem beq_zero_iff (number : x.isNaN = false) : (x == 0.0) = true ↔ codeOf x = 0 := by
  rw [beq_iff number]
  constructor
  · rintro (rfl | ⟨zero, -⟩)
    · exact codeOf_zero
    · exact zero
  · exact fun zero => .inr ⟨zero, codeOf_zero⟩

/-- A number is read back from its text; both zeros are read as zero. -/
theorem read_write_number (number : x.isNaN = false) :
    read? (write x) = some (if x == 0.0 then 0.0 else x) := by
  have notBeyond : ¬ infinityCode < codeOf x := by
    rw [← isNaN_iff, number]
    decide
  cases meaning : decode x with
  | nan =>
    rw [decode_eq, if_neg notBeyond] at meaning
    split at meaning
    · cases meaning
    · split at meaning
      · cases meaning
      · cases meaning
  | infinite negative =>
    obtain ⟨code, rfl⟩ : codeOf x = infinityCode ∧ negative = isNegative x := by
      rw [decode_eq, if_neg notBeyond] at meaning
      split at meaning
      · next code => exact ⟨code, (Decoded.infinite.inj meaning).symm⟩
      · split at meaning
        · cases meaning
        · cases meaning
    have nonzero : ¬ (x == 0.0) = true := by
      rw [beq_zero_iff number, code]
      decide
    have written : write x = signText (isNegative x) ++ "inf" := by rw [write, meaning]
    have reads : ∀ negative, read? (signText negative ++ "inf") = some (infinity negative) := by
      rintro (_ | _)
      · rfl
      · rfl
    rw [written, reads, if_neg nonzero, infinity, ← code, ofCode_codeOf]
  | finite negative significand exponent =>
    rw [read_write_finite meaning]
    by_cases zero : codeOf x = 0
    · rw [if_pos ((beq_zero_iff number).mpr zero), zero, decide_eq_false (not_not_intro rfl),
        Bool.and_false]
      rfl
    · rw [if_neg (mt (beq_zero_iff number).mp zero), decide_eq_true zero, Bool.and_true,
        ofCode_codeOf]

end Reading

end Number

namespace Value
variable {x y : Float}

/-- A number stands for itself; both zeros stand for zero. -/
theorem number_ofNumber_eq (number : x.isNaN = false) :
    (ofNumber x).number = .ok (if x == 0.0 then 0.0 else x) := by
  have reads := Number.read_write_number number
  have noWord : ∀ word : String, Number.read? word = none → Number.write x ≠ word := by
    intro word unread same
    rw [same, unread] at reads
    cases reads
  rw [ofNumber, number_of_text (noWord "true" rfl) (noWord "false" rfl), reads]

/-- Both zeros have one text. -/
theorem ofNumber_zero (zero : Number.codeOf x = 0) : ofNumber x = ⟨.number, "0"⟩ := by
  rw [← Number.ofCode_codeOf x, zero]
  cases Number.isNegative x with
  | false => decide +kernel
  | true => decide +kernel

/-- Numbers have one text exactly if they are equal. -/
theorem ofNumber_eq_iff (number : x.isNaN = false) (number' : y.isNaN = false) :
    ofNumber x = ofNumber y ↔ (x == y) = true := by
  rw [Number.beq_iff number]
  constructor
  · intro same
    have stands := number_ofNumber_eq number
    rw [same, number_ofNumber_eq number'] at stands
    have read := Except.ok.inj stands
    by_cases zero : Number.codeOf x = 0
    · rw [if_pos ((Number.beq_zero_iff number).mpr zero)] at read
      by_cases zero' : Number.codeOf y = 0
      · exact .inr ⟨zero, zero'⟩
      · rw [if_neg (mt (Number.beq_zero_iff number').mp zero')] at read
        exact absurd (congrArg Number.codeOf read) zero'
    · rw [if_neg (mt (Number.beq_zero_iff number).mp zero)] at read
      by_cases zero' : Number.codeOf y = 0
      · rw [if_pos ((Number.beq_zero_iff number').mpr zero')] at read
        exact absurd (congrArg Number.codeOf read.symm) zero
      · rw [if_neg (mt (Number.beq_zero_iff number').mp zero')] at read
        exact .inl read.symm
  · rintro (rfl | ⟨zero, zero'⟩)
    · rfl
    · rw [ofNumber_zero zero, ofNumber_zero zero']


end Value

/-- Whether an operator makes a number of two numbers. -/
def BinaryOp.isArithmetic : BinaryOp → Bool
  | .add | .subtract | .multiply | .divide | .modulo => true
  | .or | .and | .is | .isnt | .less | .lessEq | .greater | .greaterEq => false

/-- Whether the value of an expression is the result of an arithmetic
operation. -/
def Expr.isArithmetic : Expr → Bool
  | .unary .negate _ _ => true
  | .binary _ op _ _ => op.isArithmetic
  | .group inner _ => inner.isArithmetic
  | _ => false

section Results
variable {α β : Type} {P : α → Prop} {Q : β → Prop}

/-- Whatever the action gives has the property. -/
def Eval.Gains (act : Eval α) (P : α → Prop) : Prop :=
  ∀ m a after, act m = (.ok a, after) → P a

private theorem Eval.gains_pure {a : α} (holds : P a) : (pure a : Eval α).Gains P := by
  rintro m _ after ⟨⟩
  exact holds

private theorem Eval.gains_stop (reason : Stop) : (Eval.stop reason : Eval α).Gains P := nofun

private theorem Eval.Gains.bind {next : α → Eval β} (act : Eval α) (rest : ∀ a, (next a).Gains Q) :
    (act >>= next).Gains Q := by
  intro m b after ran
  rcases Eval.bind_cases act next m with ⟨a, middle, -, goesOn⟩ | ⟨reason, last, -, stops⟩
  · exact rest a middle b after (goesOn.symm.trans ran)
  · cases stops.symm.trans ran

private theorem Eval.Gains.located {act : Eval α} (gains : act.Gains P) (loc : Loc) :
    (act.located loc).Gains P := by
  intro m a after ran
  unfold Eval.located at ran
  split at ran
  · cases ran
  · exact gains m a after ran

end Results

/-- Whether the value is what some number is written as. -/
def Value.IsWritten (v : Value) : Prop := ∃ x, v = .ofNumber x

namespace Evaluation
variable {inside : Meaning}

/-- Arithmetic gives what is written as a number. -/
theorem gains_binary {op : BinaryOp} (arithmetic : op.isArithmetic = true) (left right : Expr) :
    (binary inside left op right).Gains Value.IsWritten := by
  unfold binary
  cases op with
  | add => exact .bind _ fun _ => Eval.gains_pure ⟨_, rfl⟩
  | subtract => exact .bind _ fun _ => Eval.gains_pure ⟨_, rfl⟩
  | multiply => exact .bind _ fun _ => Eval.gains_pure ⟨_, rfl⟩
  | divide =>
    refine .bind _ fun _ => ?_
    dsimp only [Eval.quotient]
    split
    · exact Eval.gains_stop _
    · exact Eval.gains_pure ⟨_, rfl⟩
  | modulo =>
    refine .bind _ fun _ => ?_
    dsimp only [Eval.remainder]
    split
    · exact Eval.gains_stop _
    · exact .bind _ fun _ => Eval.gains_pure ⟨_, rfl⟩
  | or | and | is | isnt | less | lessEq | greater | greaterEq => cases arithmetic

/-- An arithmetic node does so if the arithmetic nodes inside it do. -/
theorem gains_expr {e : Expr} (arithmetic : e.isArithmetic = true)
    (below : ∀ inner : Expr, inner.isArithmetic = true →
      (inside.expr inner).Gains Value.IsWritten) : (expr inside e).Gains Value.IsWritten := by
  unfold expr
  cases e with
  | unary op _ operand =>
    cases op with
    | negate => exact .bind _ fun _ => .bind _ fun _ => Eval.gains_pure ⟨_, rfl⟩
    | not => cases arithmetic
  | binary left op _ right => exact gains_binary arithmetic left right
  | group inner _ => exact below inner arithmetic
  | literal | identifier | call | proc => cases arithmetic

end Evaluation

/-- The value of an arithmetic expression is written as a number. -/
theorem gains_arithmetic {e : Expr} (arithmetic : e.isArithmetic = true)
    (patience room units : Nat) :
    (interpret patience room units (.expr e)).Gains Value.IsWritten := by
  rw [Binding.interpret_units]
  generalize room - units = room
  induction room using Nat.strongRecOn generalizing e with
  | ind room ih =>
    cases room with
    | zero => exact Eval.gains_stop _
    | succ room =>
      by_cases enough : Room.work ≤ room
      · rw [Binding.interpret_succ enough]
        refine .located (Evaluation.gains_expr arithmetic fun inner arithmetic => ?_) _
        change (interpret patience room _ (.expr inner)).Gains _
        rw [Binding.interpret_units]
        exact ih _ (by omega) arithmetic
      · rw [interpret, if_pos (Nat.not_le.mp enough)]
        exact Eval.gains_stop _

/-- The text of a number is faithful: it is read back as the number, and as zero
if it is that of a negative zero. Hence the results of arithmetic are the same
value exactly if they are equal numbers, and `is` tells so. -/
theorem number_text_is_faithful :
    (∀ x : Float, x.isNaN = false →
      (Value.ofNumber x).number = .ok (if x == 0.0 then 0.0 else x)) ∧
    (∀ (patience room units : Nat) (e : Expr) (m after : Machine) (v : Value),
      e.isArithmetic = true → interpret patience room units (.expr e) m = (.ok v, after) →
      ∃ x, v = .ofNumber x) ∧
    ∀ (patience room : Nat) (left right : Expr) (mark : Mark) (m middle after : Machine)
      (x y : Float), Room.work ≤ room → x.isNaN = false → y.isNaN = false →
      interpret patience room Room.node (.expr left) m = (.ok (.ofNumber x), middle) →
      interpret patience room Room.node (.expr right) middle = (.ok (.ofNumber y), after) →
      interpret patience (room + 1) 0 (.expr (.binary left .is mark right)) m =
        (.ok (.boolean (x == y)), after) := by
  refine ⟨fun x number => Value.number_ofNumber_eq number, ?_, ?_⟩
  · intro patience room units e m after v arithmetic ran
    exact gains_arithmetic arithmetic patience room units m v after ran
  · intro patience room left right mark m middle after x y enough number number' first second
    have same : decide (Value.ofNumber x = .ofNumber y) = (x == y) := by
      rw [Bool.eq_iff_iff, decide_eq_true_iff]
      exact Value.ofNumber_eq_iff number number'
    have compared : Evaluation.binary ((interpreter patience room).after Room.node) left .is right
        m = (.ok (.boolean (x == y)), after) := by
      have both : Evaluation.operands ((interpreter patience room).after Room.node) left right m =
          (.ok (.ofNumber x, .ofNumber y), after) :=
        (Eval.bind_of_ok first).trans (Eval.bind_of_ok second)
      rw [← same]
      exact Eval.bind_of_ok both
    have node : Evaluation.stmt patience ((interpreter patience room).after
        (Stmt.expr (.binary left .is mark right)).units) (.expr (.binary left .is mark right)) m =
          (.ok (.boolean (x == y)), after) := compared
    rw [Binding.interpret_succ enough, Eval.located_eq, node]
    rfl

/-- The literal of a number, standing nowhere in particular. -/
private def numeral (text : String) : Expr := .literal ⟨.number, text⟩ default

/-- The sum of two such literals. -/
private def sum (left right : String) : Expr :=
  .binary (numeral left) .add ⟨"+", default⟩ (numeral right)

/-- One tenth and two tenths are not quite three, but both zeros are zero. -/
theorem tenths_differ_and_zeros_agree :
    (Value.ofNumber (-0.0)).number = .ok 0.0 ∧
    interpret 0 101 0 (.expr (.binary (sum "0.1" "0.2") .is ⟨"is", default⟩ (sum "0.3" "0")))
      ⟨{}, {}⟩ = (.ok (.boolean false), ⟨{}, {}⟩) ∧
    interpret 0 101 0 (.expr (.binary (sum "-0" "-0") .is ⟨"is", default⟩ (sum "0" "0")))
      ⟨{}, {}⟩ = (.ok (.boolean true), ⟨{}, {}⟩) := by
  obtain ⟨reads, -, is⟩ := number_text_is_faithful
  refine ⟨(reads (-0.0) (by decide +kernel)).trans (by decide +kernel), ?_, ?_⟩
  · exact (is 0 100 (sum "0.1" "0.2") (sum "0.3" "0") ⟨"is", default⟩ ⟨{}, {}⟩ ⟨{}, {}⟩ ⟨{}, {}⟩
      (0.1 + 0.2) 0.3 (by decide) (by decide +kernel) (by decide +kernel)
      (by decide +kernel) (by decide +kernel)).trans (by decide +kernel)
  · exact (is 0 100 (sum "-0" "-0") (sum "0" "0") ⟨"is", default⟩ ⟨{}, {}⟩ ⟨{}, {}⟩ ⟨{}, {}⟩
      (-0.0) 0.0 (by decide) (by decide +kernel) (by decide +kernel)
      (by decide +kernel) (by decide +kernel)).trans (by decide +kernel)

end BasilLang
