import BasilLang.Proofs.Numerals
import BasilLang.Proofs.Placement
import BasilLang.Proofs.Rounding

/-! Which number tokens are numbers. The lexer takes digits with and without
place value into a number, and reading a number takes only those with one. The
tables of the two kinds do not meet, so a token is the number that its digits
spell if none of them is a superscript, a circled digit or another sign of that
kind, and otherwise it is not numeric. -/
namespace BasilLang

namespace Text

section Tables
variable {c : Char}

/-- Whether no span of one table meets a span of the other. -/
def Spans.apart (spans others : Spans) : Bool :=
  spans.all fun (first, last) => others.all fun (first', last') => last < first' || last' < first

private theorem Spans.not_has_of_apart (spans others : Spans) (apart : spans.apart others = true)
    (inside : spans.has c = true) : others.has c = false := by
  obtain ⟨⟨first, last⟩, member, holds⟩ := List.any_eq_true.mp inside
  refine Bool.eq_false_iff.mpr fun both => ?_
  obtain ⟨⟨first', last'⟩, member', holds'⟩ := List.any_eq_true.mp both
  have separate := List.all_eq_true.mp (List.all_eq_true.mp apart _ member) _ member'
  simp only [Bool.and_eq_true, Bool.or_eq_true, decide_eq_true_eq] at holds holds' separate
  omega

/-- The spans of the decimal digits. -/
def decimalSpans : Spans :=
  decimalZeros.map fun first => (first, first + 9)

private theorem decimalSpans_has_iff :
    decimalSpans.has c = true ↔ (decimalValue? c).isSome = true := by
  simp only [decimalSpans, Spans.has, decimalValue?, List.any_map, List.any_eq_true,
    Option.isSome_map, List.find?_isSome, Function.comp_apply, Bool.and_eq_true, decide_eq_true_eq]
  refine exists_congr fun first => and_congr_right fun _ => ?_
  omega

private theorem decimalValue?_lt {digit : Nat} (value : decimalValue? c = some digit) :
    digit < 10 := by
  obtain ⟨first, found, rfl⟩ := Option.map_eq_some_iff.mp value
  have holds := List.find?_some found
  simp only [Bool.and_eq_true, decide_eq_true_eq] at holds
  omega

/-- In ASCII the decimal digits are the digits. -/
theorem decimalValue?_ascii (digit : c.isDigit = true) :
    decimalValue? c = some (c.toNat - '0'.toNat) := by
  have bounds : 48 ≤ c.toNat ∧ c.toNat ≤ 57 := Char.isDigit_iff_toNat.mp digit
  have found : (decimalZeros.find? fun first => first ≤ c.toNat && c.toNat < first + 10) =
      some 48 := by
    rw [decimalZeros, List.find?_cons_of_pos]
    simp only [Bool.and_eq_true, decide_eq_true_eq]
    omega
  rw [decimalValue?, found]
  rfl

private theorem decimalValue?_of_signDigit (sign : signDigitSpans.has c = true) :
    decimalValue? c = none := by
  have other := Spans.not_has_of_apart signDigitSpans decimalSpans (by decide +kernel) sign
  rw [← Bool.not_eq_true, decimalSpans_has_iff] at other
  exact Option.not_isSome_iff_eq_none.mp other

/-- A digit has a value or is a sign without one. -/
theorem isDigit_cases (digit : isDigit c = true) :
    (∃ value, decimalValue? c = some value) ∨ signDigitSpans.has c = true := by
  unfold isDigit at digit
  split at digit
  · exact .inl ⟨_, decimalValue?_ascii digit⟩
  · rcases Bool.or_eq_true_iff.mp digit with decimal | sign
    · exact .inl (Option.isSome_iff_exists.mp decimal)
    · exact .inr sign

private theorem isBlank_beyond (beyond : ¬ c.toNat < 128) : isBlank c = blankSpans.has c := by
  rw [isBlank, classify, if_neg beyond]

end Tables

end Text

namespace Number
open Text (decimalValue? signDigitSpans)

section Characters
variable {c : Char} {digit : Nat}

private theorem ofNat_digit : ∀ digit < 10, (Char.ofNat ('0'.toNat + digit)).isDigit = true ∧
    (Char.ofNat ('0'.toNat + digit)).toNat - '0'.toNat = digit := by
  decide

/-- A digit with a value is seen as the ASCII digit of that value. -/
theorem plainChar_decimal (value : decimalValue? c = some digit) :
    plainChar c = Char.ofNat ('0'.toNat + digit) := by
  unfold plainChar
  split
  · next ascii =>
    obtain ⟨first, found, rfl⟩ := Option.map_eq_some_iff.mp value
    have holds := List.find?_some found
    have least : ∀ first ∈ Text.decimalZeros, first < 128 → first = '0'.toNat := by decide
    simp only [Bool.and_eq_true, decide_eq_true_eq] at holds
    obtain rfl := least first (List.mem_of_find?_eq_some found) (by omega)
    rw [Nat.add_sub_of_le holds.1, Char.ofNat_toNat]
  · next beyond =>
    have decimal := Text.decimalSpans_has_iff.mpr (Option.isSome_iff_exists.mpr ⟨_, value⟩)
    rw [Text.isBlank_beyond beyond, Text.Spans.not_has_of_apart Text.decimalSpans Text.blankSpans
      (by decide +kernel) decimal, value]
    rfl

/-- A digit without a value is seen as a character that no number holds. -/
theorem plainChar_signDigit (sign : signDigitSpans.has c = true) : plainChar c = '?' := by
  have beyond : ¬ c.toNat < 128 := by
    obtain ⟨⟨first, last⟩, member, holds⟩ := List.any_eq_true.mp sign
    have high : ∀ span ∈ signDigitSpans, 128 ≤ span.1 := by decide
    have := high _ member
    simp only [Bool.and_eq_true, decide_eq_true_eq] at holds
    omega
  rw [plainChar, if_neg beyond, Text.isBlank_beyond beyond,
    Text.Spans.not_has_of_apart signDigitSpans Text.blankSpans (by decide +kernel) sign,
    Text.decimalValue?_of_signDigit sign]
  rfl

end Characters

section Unknown
variable {cs : List Char}

private theorem mem_takeSign (unknown : '?' ∈ cs) : '?' ∈ (takeSign cs).2 := by
  unfold takeSign
  split
  · simpa using unknown
  · simpa using unknown
  · exact unknown

private theorem mem_dropWhile_digits (unknown : '?' ∈ cs) : '?' ∈ cs.dropWhile Char.isDigit := by
  rw [← @List.takeWhile_append_dropWhile _ Char.isDigit cs] at unknown
  rcases List.mem_append.mp unknown with digit | rest
  · exact absurd (List.all_eq_true.mp List.all_takeWhile '?' digit) (by decide)
  · exact rest

private theorem exponent?_of_unknown (unknown : '?' ∈ cs) : exponent? cs = none := by
  cases cs with
  | nil => cases unknown
  | cons c cs =>
    rw [exponent?]
    split
    · next letter =>
      have inside : '?' ∈ cs := by
        rcases List.mem_cons.mp unknown with rfl | inside
        · cases letter
        · exact inside
      have mixed : (takeSign cs).2.all Char.isDigit = false :=
        List.all_eq_false.mpr ⟨'?', mem_takeSign inside, by decide⟩
      simp [mixed]
    · rfl

private theorem decimal?_of_unknown (unknown : '?' ∈ cs) : decimal? cs = none := by
  have rest := mem_dropWhile_digits unknown
  unfold decimal?
  dsimp only
  split
  · next after pointed =>
    rw [pointed] at rest
    have inside : '?' ∈ after := by simpa using rest
    simp [exponent?_of_unknown (mem_dropWhile_digits inside)]
  · simp [exponent?_of_unknown rest]

/-- A text with such a character is not read as a number. -/
theorem read?_of_unknown {text : String} (plain : plainNumber? text = some cs)
    (unknown : '?' ∈ cs) : read? text = none := by
  have unsigned := mem_takeSign unknown
  have noWord : ∀ word : String, '?' ∉ word.toList →
      String.ofList ((takeSign cs).2.map Char.toLower) ≠ word := by
    rintro word known rfl
    refine known ?_
    rw [String.toList_ofList]
    exact List.mem_map.mpr ⟨'?', unsigned, by decide⟩
  simp [read?, plain, noWord "inf" (by decide), noWord "infinity" (by decide),
    noWord "nan" (by decide), decimal?_of_unknown unsigned]

end Unknown

/-- The number that a run of decimal digits spells. -/
def placeValue (cs : List Char) : Nat :=
  cs.foldl (fun value c => 10 * value + (decimalValue? c).getD 0) 0

/-- The decimal that digits, alone or around a point, spell. -/
def spelled (cs : List Char) : Decimal :=
  ⟨placeValue (cs.filter (· ≠ '.')), -(((cs.dropWhile (· ≠ '.')).drop 1).length : Int)⟩

section Spelling
variable {cs whole : List Char} {fraction : Option (List Char)}

private theorem isDigit_plainChar {c : Char} (decimal : (decimalValue? c).isSome = true) :
    (plainChar c).isDigit = true := by
  obtain ⟨digit, value⟩ := Option.isSome_iff_exists.mp decimal
  rw [plainChar_decimal value]
  exact (ofNat_digit digit (Text.decimalValue?_lt value)).1

private theorem numeral_parts (numeral : Text.isNumeral cs = true) :
    ∃ (whole : List Char) (fraction : Option (List Char)), whole ≠ [] ∧
      (∀ c ∈ whole ++ fraction.getD [], Text.isDigit c = true) ∧
      cs = whole ++ fraction.elim [] ('.' :: ·) := by
  obtain ⟨whole, begins, digits, rfl | ⟨part, -, more, rfl⟩⟩ := Lexing.numeral_cases numeral
  · exact ⟨cs, none, begins, by simpa using digits, by simp⟩
  · refine ⟨whole, some part, begins, List.forall_mem_append.mpr ⟨?_, ?_⟩, rfl⟩
    · simpa using digits
    · simpa using more

private theorem plainNumber?_numeral {text : String} (numeral : Text.isNumeral text.toList = true) :
    plainNumber? text = some (text.toList.map plainChar) := by
  obtain ⟨whole, fraction, -, digits, parts⟩ := numeral_parts numeral
  have bare : ∀ c ∈ text.toList, isBare (plainChar c) = true := by
    intro c member
    have digit : Text.isDigit c = true ∨ c = '.' := by
      rw [parts] at member
      cases fraction with
      | none => exact .inl (digits c (by simpa using member))
      | some part =>
        rcases List.mem_append.mp member with inWhole | inPoint
        · exact .inl (digits c (List.mem_append_left _ inWhole))
        · exact (List.mem_cons.mp inPoint).symm.imp_left fun inPart =>
            digits c (List.mem_append_right _ inPart)
    rcases digit with digit | rfl
    · rcases Text.isDigit_cases digit with ⟨value, decimal⟩ | sign
      · exact isBare_of_digit (isDigit_plainChar (Option.isSome_iff_exists.mpr ⟨value, decimal⟩))
      · rw [plainChar_signDigit sign]
        decide
    · decide
  rw [← plainNumber?_map bare, String.ofList_toList]

private theorem digitsValue_map (decimal : ∀ c ∈ cs, (decimalValue? c).isSome = true) :
    digitsValue (cs.map plainChar) = placeValue cs := by
  have all : ∀ start, (cs.map plainChar).foldl (fun value c => 10 * value + (c.toNat - '0'.toNat))
      start = cs.foldl (fun value c => 10 * value + (decimalValue? c).getD 0) start := by
    induction cs with
    | nil => exact fun _ => rfl
    | cons c cs ih =>
      intro start
      obtain ⟨digit, value⟩ := Option.isSome_iff_exists.mp (decimal c List.mem_cons_self)
      have seen := (ofNat_digit digit (Text.decimalValue?_lt value)).2
      rw [List.map_cons, List.foldl_cons, List.foldl_cons, plainChar_decimal value, seen, value]
      exact ih (fun d member => decimal d (List.mem_cons_of_mem _ member)) _
  exact all 0

private theorem point_no_digit : ¬ Text.isDigit '.' = true := by decide

private theorem spelled_parts (digits : ∀ c ∈ whole ++ fraction.getD [], Text.isDigit c = true) :
    spelled (whole ++ fraction.elim [] ('.' :: ·)) =
      ⟨placeValue (whole ++ fraction.getD []), -((fraction.getD []).length : Int)⟩ := by
  have plain : ∀ c ∈ whole ++ fraction.getD [], decide (c ≠ '.') = true := by
    intro c member
    rw [decide_eq_true_eq]
    rintro rfl
    exact point_no_digit (digits _ member)
  obtain ⟨inWhole, inFraction⟩ := List.forall_mem_append.mp plain
  unfold spelled
  rw [List.filter_append, List.filter_eq_self.mpr inWhole, List.dropWhile_append_of_pos inWhole]
  cases fraction with
  | none => rfl
  | some part =>
    have kept : part.filter (fun c => !decide (c = '.')) = part :=
      List.filter_eq_self.mpr (by simpa using inFraction)
    simp [kept]

/-- Digits that have values, alone or around a point, are read as the number
that they spell. -/
theorem read?_spelled (begins : whole ≠ [])
    (digits : ∀ c ∈ whole ++ fraction.getD [], Text.isDigit c = true)
    (decimal : ∀ c ∈ whole ++ fraction.getD [], (decimalValue? c).isSome = true) :
    read? (String.ofList (whole ++ fraction.elim [] ('.' :: ·))) =
      some (ofCode false (spelled (whole ++ fraction.elim [] ('.' :: ·))).code) := by
  let n : Numeral := {
    whole := whole.map plainChar
    fraction := fraction.map (·.map plainChar)
    power := []
    begins := by simpa using begins
    digits := by
      intro c member
      obtain ⟨d, inside, rfl⟩ : ∃ d ∈ whole ++ fraction.getD [], plainChar d = c := by
        cases fraction with
        | none => simpa using member
        | some part => simpa [or_and_right, exists_or] using member
      exact isDigit_plainChar (decimal d inside) }
  have text : n.text = (whole ++ fraction.elim [] ('.' :: ·)).map plainChar := by
    cases fraction with
    | none => simp [n, Numeral.text, Numeral.pointText, Numeral.powerText]
    | some part =>
      have point : plainChar '.' = '.' := rfl
      simp [n, Numeral.text, Numeral.pointText, Numeral.powerText, point]
  have value : n.decimal = spelled (whole ++ fraction.elim [] ('.' :: ·)) := by
    have places := digitsValue_map decimal
    rw [spelled_parts digits]
    cases fraction with
    | none => simpa [n, Numeral.decimal, digitsValue] using places
    | some part => simpa [n, Numeral.decimal, digitsValue] using places
  have seen : plainNumber? (String.ofList (whole ++ fraction.elim [] ('.' :: ·))) =
      plainNumber? (signText false ++ String.ofList n.text) := by
    have bare := n.bare_text
    rw [text, List.forall_mem_map] at bare
    rw [plainNumber?_map bare, n.plainNumber?_text, text]
    rfl
  have same : read? (String.ofList (whole ++ fraction.elim [] ('.' :: ·))) =
      read? (signText false ++ String.ofList n.text) := by
    rw [read?, read?, seen]
  rw [same, n.read_text, Numeral.code, decimalCode_eq, value]

end Spelling

end Number

/-- A number token stands for the number that its digits spell, unless one of
them is a digit without place value: then it is not numeric. -/
theorem number_token_is_what_its_digits_spell {source file : String} {tokens : List Token}
    {token : Token} (read : tokenize source file = .ok tokens) (member : token ∈ tokens)
    (kind : token.kind = .number) :
    (⟨.number, token.text⟩ : Value).number =
      if token.text.toList.any Text.signDigitSpans.has then .error (.notNumeric token.text)
      else .ok (Number.ofCode false (Number.spelled token.text.toList).code) := by
  have numeral :=
    (Placement.laid_wellSpelled (Placement.tokenize_laid read) token member).numeral kind
  have noWord : ∀ word : String, Text.isNumeral word.toList = false → token.text ≠ word := by
    rintro word other rfl
    rw [numeral] at other
    cases other
  rw [Value.number_of_text (noWord "true" (by decide)) (noWord "false" (by decide))]
  obtain ⟨whole, fraction, begins, digits, spelled⟩ := Number.numeral_parts numeral
  have text : token.text = String.ofList (whole ++ fraction.elim [] ('.' :: ·)) := by
    rw [← spelled, String.ofList_toList]
  by_cases signed : token.text.toList.any Text.signDigitSpans.has = true
  · obtain ⟨c, inside, sign⟩ := List.any_eq_true.mp signed
    have unknown : '?' ∈ token.text.toList.map Number.plainChar :=
      List.mem_map.mpr ⟨c, inside, Number.plainChar_signDigit sign⟩
    rw [if_pos signed, Number.read?_of_unknown (Number.plainNumber?_numeral numeral) unknown]
  · have decimal : ∀ c ∈ whole ++ fraction.getD [], (Text.decimalValue? c).isSome = true := by
      intro c inside
      rcases Text.isDigit_cases (digits c inside) with ⟨value, decimal⟩ | sign
      · rw [decimal]
        rfl
      · refine absurd (List.any_eq_true.mpr ⟨c, ?_, sign⟩) signed
        rw [spelled]
        cases fraction with
        | none => simpa using inside
        | some part => simpa using (List.mem_append.mp inside).imp_right (.inr ·)
    rw [if_neg signed, spelled, text, Number.read?_spelled begins digits decimal]

/-- Digits of another script have place values as well. -/
theorem arabic_fraction_is_a_number :
    tokenize "٣.٥f" "<input>" = .ok
      [⟨.number, "٣.٥", ⟨"<input>", ⟨1, 1⟩⟩⟩, ⟨.eof, "", ⟨"<input>", ⟨1, 5⟩⟩⟩] ∧
    (⟨.number, "٣.٥"⟩ : Value).number = .ok 3.5 := by
  have read : tokenize "٣.٥f" "<input>" = .ok
      [⟨.number, "٣.٥", ⟨"<input>", ⟨1, 1⟩⟩⟩, ⟨.eof, "", ⟨"<input>", ⟨1, 5⟩⟩⟩] := by
    decide +kernel
  have value := number_token_is_what_its_digits_spell read List.mem_cons_self rfl
  exact ⟨read, value.trans (by decide +kernel)⟩

/-- A superscript is read as a number by the lexer and as none by arithmetic. -/
theorem superscript_is_a_number_token_but_no_number :
    ∃ tokens token, tokenize "²" "<input>" = .ok tokens ∧ token ∈ tokens ∧
      token.kind = .number ∧
      (⟨.number, token.text⟩ : Value).number = .error (.notNumeric "²") :=
  ⟨[⟨.number, "²", ⟨"<input>", ⟨1, 1⟩⟩⟩, ⟨.eof, "", ⟨"<input>", ⟨1, 2⟩⟩⟩], _, by decide +kernel,
    List.mem_cons_self, rfl, by decide +kernel⟩

end BasilLang
