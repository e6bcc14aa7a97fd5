import BasilLang.Number.View
import BasilLang.Proofs.Lexing
import Mathlib

/-! Numbers as they are written can be read. A finite number is written as a
numeral, with a sign in front of it if it is negative: digits, perhaps a point
with more digits, perhaps a negative power of ten. A numeral is read as the
number nearest to the decimal that it spells. So whatever arithmetic gives can
be calculated with further. -/
namespace BasilLang

namespace Number

section Characters
variable {c : Char} {cs : List Char}

/-- What may stand in a number as it is: ASCII, no margin and no underscore. -/
def isBare (c : Char) : Bool :=
  c.toNat < 128 && !isMargin c && c != '_'

theorem isBare_of_digit (digit : c.isDigit = true) : isBare c = true := by
  obtain ⟨low, high⟩ : 48 ≤ c.toNat ∧ c.toNat ≤ 57 := Char.isDigit_iff_toNat.mp digit
  have other : ∀ d : Char, d.toNat < 48 ∨ 57 < d.toNat → c ≠ d := by
    rintro d outside rfl
    omega
  have blank : c ≠ ' ' := other ' ' (by decide)
  have underscore : c ≠ '_' := other '_' (by decide)
  simp only [isBare, isMargin, Bool.and_eq_true, decide_eq_true_eq, Bool.not_eq_true',
    Bool.or_eq_false_iff, beq_eq_false_iff_ne, Bool.and_eq_false_iff, decide_eq_false_iff_not,
    bne_iff_ne]
  exact ⟨⟨by omega, blank, .inr (by omega)⟩, underscore⟩

private theorem dropUnderscores_bare (bare : ∀ c ∈ cs, isBare c = true) {before : Char}
    (start : before ≠ '_') : dropUnderscores before cs = some cs := by
  induction cs generalizing before with
  | nil => simp [dropUnderscores, start]
  | cons c cs ih =>
    have here : c ≠ '_' := by
      have holds := bare c List.mem_cons_self
      simp only [isBare, Bool.and_eq_true, bne_iff_ne] at holds
      exact holds.2
    have rest := ih (fun d member => bare d (List.mem_cons_of_mem _ member)) here
    simp [dropUnderscores, here, start, rest]

private theorem trimmed_bare (bare : ∀ c ∈ cs, isBare c = true) :
    Text.trimmed isMargin cs = cs := by
  have kept : ∀ ds : List Char, (∀ c ∈ ds, c ∈ cs) → ds.dropWhile isMargin = ds := by
    intro ds among
    cases ds with
    | nil => rfl
    | cons c ds =>
      have holds := bare c (among c List.mem_cons_self)
      simp only [isBare, Bool.and_eq_true, Bool.not_eq_true'] at holds
      rw [List.dropWhile_cons, holds.1.2]
      rfl
  rw [Text.trimmed, kept cs fun _ member => member,
    kept cs.reverse fun _ member => List.mem_reverse.mp member, List.reverse_reverse]

/-- A text whose characters are bare in ASCII form is seen in that form. -/
theorem plainNumber?_map (bare : ∀ c ∈ cs, isBare (plainChar c) = true) :
    plainNumber? (String.ofList cs) = some (cs.map plainChar) := by
  have bare : ∀ c ∈ cs.map plainChar, isBare c = true := by simpa using bare
  rw [plainNumber?, String.toList_ofList, trimmed_bare bare]
  exact dropUnderscores_bare bare (by decide)

private theorem plainChar_bare (bare : isBare c = true) : plainChar c = c := by
  simp only [isBare, Bool.and_eq_true, decide_eq_true_eq] at bare
  rw [plainChar, if_pos bare.1.1]

private theorem plainNumber?_bare (bare : ∀ c ∈ cs, isBare c = true) :
    plainNumber? (String.ofList cs) = some cs := by
  have same : cs.map plainChar = cs := by
    conv =>
      rhs
      rw [← List.map_id cs]
    exact List.map_congr_left fun c member => plainChar_bare (bare c member)
  have plain : ∀ c ∈ cs, isBare (plainChar c) = true := by
    intro c member
    rw [plainChar_bare (bare c member)]
    exact bare c member
  rw [plainNumber?_map plain, same]

end Characters

/-- The parts of an unsigned numeral: the digits before the point, those after
it if there is a point, and those of a negative power of ten. -/
structure Numeral where
  whole : List Char
  fraction : Option (List Char)
  power : List Char
  begins : whole ≠ []
  digits : ∀ c ∈ whole ++ fraction.getD [] ++ power, c.isDigit = true

namespace Numeral

/-- The point and what follows it. -/
def pointText (n : Numeral) : List Char :=
  match n.fraction with
  | some digits => '.' :: digits
  | none => []

/-- The power of ten. -/
def powerText (n : Numeral) : List Char :=
  if n.power = [] then [] else 'e' :: '-' :: n.power

/-- The numeral in full. -/
def text (n : Numeral) : List Char :=
  n.whole ++ (n.pointText ++ n.powerText)

/-- The decimal that it spells. -/
def decimal (n : Numeral) : Decimal :=
  ⟨digitsValue (n.whole ++ n.fraction.getD []),
    -(digitsValue n.power : Int) - (n.fraction.getD []).length⟩

/-- The magnitude code of the number that it spells. -/
def code (n : Numeral) : Nat :=
  decimalCode n.decimal.digits n.decimal.exponent

variable (n : Numeral)

private theorem all_whole : n.whole.all Char.isDigit = true :=
  List.all_eq_true.mpr fun c member => n.digits c (by simp [member])

private theorem all_fraction {digits : List Char} (point : n.fraction = some digits) :
    digits.all Char.isDigit = true :=
  List.all_eq_true.mpr fun c member => n.digits c (by simp [point, member])

private theorem all_power : n.power.all Char.isDigit = true :=
  List.all_eq_true.mpr fun c member => n.digits c (by simp [member])

private theorem exponent_powerText :
    exponent? n.powerText = some (-(digitsValue n.power : Int)) := by
  unfold powerText
  by_cases plain : n.power = []
  · rw [if_pos plain, plain]
    rfl
  · rw [if_neg plain]
    simp [exponent?, takeSign, plain, n.all_power]

/-- No digit follows the digits in front of the power of ten. -/
theorem powerText_stops : ∀ c ∈ n.powerText.head?, c.isDigit = false := by
  unfold powerText
  split
  · simp
  · simp

private theorem decimal_text : decimal? n.text = some n.code := by
  have stops : ∀ c ∈ (n.pointText ++ n.powerText).head?, c.isDigit = false := by
    unfold pointText
    split
    · simp
    · exact n.powerText_stops
  obtain ⟨whole, rest⟩ := Lexing.span_ends _ n.all_whole stops
  have written : (n.whole.isEmpty : Bool) = false := by simpa using n.begins
  unfold decimal? text
  rw [whole, rest]
  cases point : n.fraction with
  | none =>
    have exponent := n.exponent_powerText
    unfold powerText at exponent ⊢
    by_cases plain : n.power = []
    · rw [if_pos plain] at exponent ⊢
      simp [pointText, point, written, exponent, code, decimal]
    · rw [if_neg plain] at exponent ⊢
      simp [pointText, point, written, exponent, code, decimal]
  | some digits =>
    obtain ⟨fraction, tail⟩ := Lexing.span_ends _ (n.all_fraction point) n.powerText_stops
    simp [pointText, point, fraction, tail, written, n.exponent_powerText, code,
      decimal]

/-- A numeral is written without margins, underscores and letters of other
alphabets. -/
theorem bare_text : ∀ c ∈ n.text, isBare c = true := by
  have digit : ∀ cs : List Char, cs.all Char.isDigit = true → ∀ c ∈ cs, isBare c = true :=
    fun cs all c member => isBare_of_digit (List.all_eq_true.mp all c member)
  intro c member
  simp only [text, List.mem_append] at member
  rcases member with inWhole | inPoint | inPower
  · exact digit _ n.all_whole c inWhole
  · unfold pointText at inPoint
    split at inPoint
    · next digits point =>
      rcases List.mem_cons.mp inPoint with rfl | inFraction
      · decide
      · exact digit _ (n.all_fraction point) c inFraction
    · cases inPoint
  · unfold powerText at inPower
    split at inPower
    · cases inPower
    · rcases List.mem_cons.mp inPower with rfl | more
      · decide
      · rcases List.mem_cons.mp more with rfl | inPower
        · decide
        · exact digit _ n.all_power c inPower

private theorem text_starts : ∃ c rest, n.text = c :: rest ∧ c.isDigit = true := by
  cases parts : n.whole with
  | nil => exact absurd parts n.begins
  | cons c rest =>
    exact ⟨c, rest ++ (n.pointText ++ n.powerText), by simp [text, parts],
      n.digits c (by simp [parts])⟩

private theorem toLower_digit {c : Char} (digit : c.isDigit = true) : c.toLower = c := by
  obtain ⟨-, high⟩ : 48 ≤ c.toNat ∧ c.toNat ≤ 57 := Char.isDigit_iff_toNat.mp digit
  rw [Char.toLower, dif_neg]
  rintro ⟨capital, -⟩
  have above : 65 ≤ c.toNat := UInt32.le_iff_toNat_le.mp capital
  omega

/-- A numeral is none of the words that stand for numbers. -/
theorem text_no_word (word : List Char) (letter : word.all fun c => !c.isDigit) :
    String.ofList (n.text.map Char.toLower) ≠ String.ofList word := by
  obtain ⟨c, rest, starts, digit⟩ := n.text_starts
  rw [starts, List.map_cons, toLower_digit digit]
  intro same
  have spelled : c :: rest.map Char.toLower = word := String.ofList_injective same
  rw [← spelled] at letter
  simp [digit] at letter

private theorem takeSign_text (negative : Bool) :
    takeSign ((if negative then ['-'] else []) ++ n.text) = (negative, n.text) := by
  obtain ⟨c, rest, starts, digit⟩ := n.text_starts
  cases negative with
  | true => rfl
  | false =>
    rw [starts]
    change takeSign (c :: rest) = _
    unfold takeSign
    split
    · next same =>
      obtain ⟨rfl, -⟩ := List.cons.inj same
      exact absurd digit (by decide)
    · next same =>
      obtain ⟨rfl, -⟩ := List.cons.inj same
      exact absurd digit (by decide)
    · rfl

/-- Signed or not, a numeral is read character by character as it is written. -/
theorem plainNumber?_text (negative : Bool) :
    plainNumber? (signText negative ++ String.ofList n.text) =
      some ((if negative then ['-'] else []) ++ n.text) := by
  have spelled : signText negative ++ String.ofList n.text =
      String.ofList ((if negative then ['-'] else []) ++ n.text) := by
    cases negative with
    | false => simp [signText]
    | true => simp [signText]
  rw [spelled]
  apply plainNumber?_bare
  intro d member
  rcases List.mem_append.mp member with sign | inText
  · cases negative with
    | false => cases sign
    | true =>
      obtain rfl := List.mem_singleton.mp sign
      decide
  · exact n.bare_text d inText

/-- A numeral, with a sign or without, is read as the number that it spells. -/
theorem read_text (negative : Bool) :
    read? (signText negative ++ String.ofList n.text) = some (ofCode negative n.code) := by
  have inf : String.ofList (n.text.map Char.toLower) ≠ "inf" :=
    n.text_no_word ['i', 'n', 'f'] (by decide)
  have infinity : String.ofList (n.text.map Char.toLower) ≠ "infinity" :=
    n.text_no_word ['i', 'n', 'f', 'i', 'n', 'i', 't', 'y'] (by decide)
  have nan : String.ofList (n.text.map Char.toLower) ≠ "nan" :=
    n.text_no_word ['n', 'a', 'n'] (by decide)
  simp [read?, n.plainNumber?_text, n.takeSign_text, inf, infinity, nan, n.decimal_text]

end Numeral

section Writing
variable {x : Float}

private theorem toDigits_digits (value : Nat) : ∀ c ∈ Nat.toDigits 10 value, c.isDigit = true :=
  fun _ member => Nat.isDigit_of_mem_toDigits (by decide) (by decide) member

private theorem digitsValue_toDigits (value : Nat) :
    digitsValue (Nat.toDigits 10 value) = value :=
  Nat.ofDigitChars_ten_toDigits

private theorem digitsValue_zeros (count : Nat) (cs : List Char) :
    digitsValue (List.replicate count '0' ++ cs) = digitsValue cs := by
  induction count with
  | zero => rfl
  | succ count ih => exact ih

private theorem Numeral.decimal_eq {n : Numeral} {d : Decimal}
    (digits : digitsValue (n.whole ++ n.fraction.getD []) = d.digits)
    (exponent : -(digitsValue n.power : Int) - (n.fraction.getD []).length = d.exponent) :
    n.decimal = d := by
  rw [Numeral.decimal, digits, exponent]

/-- A natural is written as a numeral that spells it. -/
theorem toString_numeral (value : Nat) :
    ∃ n : Numeral, toString value = String.ofList n.text ∧ n.decimal = ⟨value, 0⟩ := by
  let n : Numeral := {
    whole := Nat.toDigits 10 value
    fraction := none
    power := []
    begins := Nat.toDigits_ne_nil
    digits := by simpa using toDigits_digits value }
  refine ⟨n, ?_, Numeral.decimal_eq ?_ rfl⟩
  · simp [n, Numeral.text, Numeral.pointText, Numeral.powerText]
    rfl
  · simpa [n] using digitsValue_toDigits value

/-- A decimal is laid out as a numeral, which spells it unless it would end in
zeros. -/
theorem layOut_numeral (d : Decimal) : ∃ n : Numeral, layOut d = String.ofList n.text ∧
    (d.exponent ≤ 0 → n.decimal = d) := by
  have digit := toDigits_digits d.digits
  have begun : Nat.toDigits 10 d.digits ≠ [] := Nat.toDigits_ne_nil
  have spelled : digitsValue (Nat.toDigits 10 d.digits) = d.digits := digitsValue_toDigits d.digits
  have zeros : ∀ count, ∀ c ∈ List.replicate count '0', c.isDigit = true := by
    intro count c member
    rw [List.eq_of_mem_replicate member]
    rfl
  unfold layOut
  dsimp only
  generalize Nat.toDigits 10 d.digits = digits at digit begun spelled
  have length : 0 < digits.length := List.length_pos_iff.mpr begun
  have taken : ∀ count, ∀ c ∈ digits.take count, c.isDigit = true :=
    fun _ c member => digit c (List.mem_of_mem_take member)
  have dropped : ∀ count, ∀ c ∈ digits.drop count, c.isDigit = true :=
    fun _ c member => digit c (List.mem_of_mem_drop member)
  generalize position : d.exponent + digits.length - 1 = leading
  by_cases small : leading < plainFrom
  · have power := toDigits_digits leading.natAbs
    have begun' : Nat.toDigits 10 leading.natAbs ≠ [] := Nat.toDigits_ne_nil
    have scaled := List.forall_mem_append.mpr
      ⟨zeros (2 - (Nat.toDigits 10 leading.natAbs).length), power⟩
    have value : digitsValue (List.replicate (2 - (Nat.toDigits 10 leading.natAbs).length) '0' ++
        Nat.toDigits 10 leading.natAbs) = leading.natAbs := by
      rw [digitsValue_zeros, digitsValue_toDigits]
    have negative : leading < 0 := Int.lt_trans small (by decide)
    rw [if_pos small]
    by_cases single : digits.length = 1
    · refine ⟨⟨digits.take 1, none, _, by simpa using begun, List.forall_mem_append.mpr
        ⟨by simpa using taken 1, scaled⟩⟩, ?_, fun _ => Numeral.decimal_eq ?_ ?_⟩
      · simp [Numeral.text, Numeral.pointText, Numeral.powerText, single, begun']
      · have all : digits.take 1 = digits := List.take_of_length_le (Nat.le_of_eq single)
        simpa [all] using spelled
      · rw [value]
        simp only [Option.getD_none, List.length_nil]
        omega
    · refine ⟨⟨digits.take 1, some (digits.drop 1), _, by simpa using begun,
        List.forall_mem_append.mpr ⟨List.forall_mem_append.mpr ⟨taken 1, dropped 1⟩, scaled⟩⟩,
        ?_, fun _ => Numeral.decimal_eq ?_ ?_⟩
      · simp [Numeral.text, Numeral.pointText, Numeral.powerText, single, begun']
      · exact (congrArg digitsValue (List.take_append_drop 1 digits)).trans spelled
      · rw [value]
        simp only [Option.getD_some, List.length_drop]
        omega
  · rw [if_neg small]
    by_cases below : leading < 0
    · have fraction := List.forall_mem_append.mpr ⟨zeros (leading.natAbs - 1), digit⟩
      rw [if_pos below]
      refine ⟨⟨['0'], some _, [], nofun, List.forall_mem_append.mpr
        ⟨List.forall_mem_append.mpr ⟨zeros 1, fraction⟩, nofun⟩⟩, ?_,
        fun _ => Numeral.decimal_eq ?_ ?_⟩
      · simp [Numeral.text, Numeral.pointText, Numeral.powerText]
      · exact (digitsValue_zeros (leading.natAbs - 1 + 1) digits).trans spelled
      · simp only [digitsValue, List.foldl_nil, Option.getD_some, List.length_append,
          List.length_replicate]
        omega
    · rw [if_neg below]
      refine ⟨⟨digits.take (leading.toNat + 1), some (digits.drop (leading.toNat + 1)), [],
        by simpa using begun, List.forall_mem_append.mpr
        ⟨List.forall_mem_append.mpr ⟨taken _, dropped _⟩, nofun⟩⟩, ?_,
        fun _ => Numeral.decimal_eq ?_ ?_⟩
      · simp [Numeral.text, Numeral.pointText, Numeral.powerText]
      · exact (congrArg digitsValue (List.take_append_drop _ digits)).trans spelled
      · simp only [digitsValue, List.foldl_nil, Option.getD_some, List.length_drop]
        omega

/-- A finite number is written as a numeral, perhaps with a sign. -/
theorem write_numeral {negative : Bool} {significand : Nat} {exponent : Int}
    (finite : decode x = .finite negative significand exponent) :
    ∃ (sign : Bool) (n : Numeral), write x = signText sign ++ String.ofList n.text := by
  simp only [write, finite]
  split
  · obtain ⟨n, written, -⟩ := toString_numeral
      ((ratioOf significand exponent).1 / (ratioOf significand exponent).2)
    exact ⟨_, n, by rw [written]⟩
  · obtain ⟨n, laid, -⟩ := layOut_numeral (shortest significand exponent)
    exact ⟨negative, n, by rw [laid]⟩

/-- Whatever has been written can be read. -/
theorem read_write (x : Float) : ∃ y, read? (write x) = some y := by
  cases meaning : decode x with
  | nan =>
    have written : write x = "nan" := by rw [write, meaning]
    rw [written]
    exact ⟨nan, rfl⟩
  | infinite negative =>
    have written : write x = signText negative ++ "inf" := by rw [write, meaning]
    rw [written]
    cases negative with
    | false => exact ⟨infinity false, rfl⟩
    | true => exact ⟨infinity true, rfl⟩
  | finite negative significand exponent =>
    obtain ⟨sign, n, written⟩ := write_numeral meaning
    rw [written]
    exact ⟨_, n.read_text sign⟩

end Writing

end Number

/-- A Number whose text is no truth word stands for what is read. -/
theorem Value.number_of_text {text : String} (noTrue : text ≠ "true") (noFalse : text ≠ "false") :
    (⟨.number, text⟩ : Value).number = match Number.read? text with
      | some x => .ok x
      | none => .error (.notNumeric text) := by
  unfold number
  rw [if_neg (by simp [isNumeric]), if_neg noTrue]
  exact if_neg noFalse

/-- Every result of arithmetic is a number to calculate with. -/
theorem Value.number_ofNumber (x : Float) : ∃ y, (Value.ofNumber x).number = .ok y := by
  obtain ⟨y, reads⟩ := Number.read_write x
  have noWord : ∀ word : String, Number.read? word = none → Number.write x ≠ word := by
    intro word unread same
    rw [same, unread] at reads
    cases reads
  refine ⟨y, ?_⟩
  rw [ofNumber, number_of_text (noWord "true" rfl) (noWord "false" rfl), reads]

end BasilLang
