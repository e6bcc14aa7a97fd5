import BasilLang.Proofs.Shape

/-! What the lexer makes of words, numbers, strings and marks, and how the
tokens of a text follow from those of its parts. A part is always read with
the characters that follow it present, so that joining two readings cannot
cut a longer word in two. -/
namespace BasilLang.Lexing
open Lexer

/-- What may follow a word, a number or an operator so that it ends there. -/
def Breaks (rest : List Char) : Prop :=
  ∀ c ∈ rest.head?, isWordChar c = false ∧ c ≠ '.' ∧ c ≠ '='

/-- Nothing is asked of what follows. -/
def Anything (_ : List Char) : Prop := True

/-- In front of a text that may follow it, the spelling is cut off as one
lexeme. It stands on one line. -/
def Lexes (afterImport : Bool) (follow : List Char → Prop) (spelling : List Char)
    (kind : TokenKind) (text : String) : Prop :=
  '\n' ∉ spelling ∧ ∃ c more, spelling = c :: more ∧ ∀ rest, follow rest →
    scan afterImport c (more ++ rest) = .lexeme ⟨kind, text, spelling⟩ rest

/-- What can stand before anything can stand before some things. -/
theorem lexes_of_anywhere {afterImport : Bool} {follow : List Char → Prop} {spelling : List Char}
    {kind : TokenKind} {text : String} (lexes : Lexes afterImport Anything spelling kind text) :
    Lexes afterImport follow spelling kind text := by
  obtain ⟨oneLine, c, more, rfl, cuts⟩ := lexes
  exact ⟨oneLine, c, more, rfl, fun rest _ => cuts rest trivial⟩

/-- To evaluate a function of the characters of a literal, the literal is taken
for the list that it is made of. -/
theorem holds_of_literal {P : List Char → Bool} {characters : List Char} {text : String}
    (same : text = String.ofList characters) (holds : P characters = true) :
    P text.toList = true := by
  subst same
  simpa using holds

section Words

/-- A word ends where the text does. -/
theorem breaks_nil : Breaks [] := by
  intro c member
  cases member

/-- A word ends before a character that belongs to none. -/
theorem breaks_cons {c : Char} (ends : (isWordChar c || c == '.' || c == '=') = false)
    (rest : List Char) : Breaks (c :: rest) := by
  intro d member
  obtain rfl : c = d := by simpa using member
  simpa [and_assoc] using ends

/-- The longest run of some characters, if another one follows. -/
theorem span_ends {p : Char → Bool} {word : List Char} (rest : List Char)
    (all : word.all p = true) (stops : ∀ c ∈ rest.head?, p c = false) :
    (word ++ rest).takeWhile p = word ∧ (word ++ rest).dropWhile p = rest := by
  have every : ∀ c ∈ word, p c = true := List.all_eq_true.mp all
  rw [List.takeWhile_append_of_pos every, List.dropWhile_append_of_pos every]
  cases rest with
  | nil => simp
  | cons c rest => simp [stops c rfl]

theorem word_char_of_start {c : Char} (starts : isWordStart c = true) :
    isWordChar c = true := by
  simp only [isWordStart, isWordChar, Text.isAlphanumeric, Bool.or_eq_true] at starts ⊢
  rcases starts with letter | underscore
  · exact .inl (.inl (.inl letter))
  · exact .inr underscore

private theorem word_char_of_digit {c : Char} (digit : Text.isDigit c = true) :
    isWordChar c = true := by
  simp [isWordChar, Text.isAlphanumeric, digit]

private theorem word_char_plain {c : Char} (inWord : isWordChar c = true) :
    isSeparator c = false ∧ c ≠ '#' ∧ c ≠ '"' ∧ c ≠ '.' ∧ c ≠ '\n' := by
  have other : ∀ d, isWordChar d = false → c ≠ d := by
    rintro d outside rfl
    simp [inWord] at outside
  refine ⟨?_, other _ rfl, other _ rfl, other _ rfl, other _ rfl⟩
  simp [isSeparator, other ' ' rfl, other '\t' rfl, other '\n' rfl, other '\r' rfl]

private theorem not_mem_of_all {holds : Char → Bool} {c : Char} {cs : List Char}
    (all : cs.all holds = true) (fails : holds c = false) : c ∉ cs := by
  intro member
  have inside := List.all_eq_true.mp all c member
  rw [fails] at inside
  cases inside

private theorem word_lexes (afterImport : Bool) {c : Char} {more : List Char}
    (starts : isWordStart c = true) (noDigit : Text.isDigit c = false)
    (all : (c :: more).all (fun c => isWordChar c || c == '.') = true)
    (whole : danglingPoint? (c :: more) = none) :
    Lexes afterImport Breaks (c :: more)
      ((TokenKind.keyword? (String.ofList (c :: more))).getD .ident)
      (String.ofList (c :: more)) := by
  refine ⟨not_mem_of_all all rfl, c, more, rfl, fun rest breaks => ?_⟩
  obtain ⟨noSeparator, noComment, noQuote, -⟩ := word_char_plain (word_char_of_start starts)
  have stops : ∀ d ∈ rest.head?, (isWordChar d || d == '.') = false := by
    intro d member
    obtain ⟨outside, noPoint, -⟩ := breaks d member
    simp [outside, noPoint]
  obtain ⟨taken, left⟩ := span_ends rest all stops
  rw [List.cons_append] at taken left
  simp only [scan, noSeparator, noComment, noQuote, noDigit, starts, scanWord, taken, left, whole,
    Bool.false_eq_true, ↓reduceIte]

/-- Whether a text is one word that spells the kind. -/
private def spellsWord (kind : TokenKind) (text : String) : Bool :=
  match text.toList with
  | [] => false
  | c :: more => isWordStart c && !Text.isDigit c &&
      (c :: more).all (fun c => isWordChar c || c == '.') &&
      danglingPoint? (c :: more) == none && TokenKind.keyword? text == some kind

private theorem keywords_spell_words :
    TokenKind.keywords.all (fun kind => kind.spelling?.all (spellsWord kind)) = true := by
  decide +kernel

/-- A reserved word is cut off as itself. -/
theorem keyword_lexes (afterImport : Bool) {kind : TokenKind} {text : String}
    (member : kind ∈ TokenKind.keywords) (spelled : kind.spelling? = some text) :
    Lexes afterImport Breaks text.toList kind text := by
  have spells := List.all_eq_true.mp keywords_spell_words kind member
  rw [spelled, Option.all_some, spellsWord] at spells
  cases chars : text.toList with
  | nil => simp [chars] at spells
  | cons c more =>
    simp only [chars, Bool.and_eq_true, Bool.not_eq_true', beq_iff_eq] at spells
    obtain ⟨⟨⟨⟨starts, noDigit⟩, all⟩, whole⟩, found⟩ := spells
    have same : String.ofList (c :: more) = text := by rw [← chars, String.ofList_toList]
    have lexes := word_lexes afterImport starts noDigit all whole
    rwa [same, found] at lexes

private theorem split_segment {segment : List Char} (plain : '.' ∉ segment) :
    Path.splitDots segment = [segment] := by
  induction segment with
  | nil => rfl
  | cons c segment ih =>
    obtain ⟨first, others⟩ := List.ne_and_not_mem_of_not_mem_cons plain
    simp only [Path.splitDots, Ne.symm first, ↓reduceIte, ih others]

private theorem split_point {segment : List Char} (plain : '.' ∉ segment) (rest : List Char) :
    Path.splitDots (segment ++ '.' :: rest) = segment :: Path.splitDots rest := by
  induction segment with
  | nil => rfl
  | cons c segment ih =>
    obtain ⟨first, others⟩ := List.ne_and_not_mem_of_not_mem_cons plain
    simp only [List.cons_append, Path.splitDots, Ne.symm first, ↓reduceIte, ih others]

private theorem dangling_append {segment : List Char} (plain : '.' ∉ segment)
    {rest : List Char} (whole : danglingPoint? rest = none) :
    danglingPoint? (segment ++ rest) = none := by
  induction segment with
  | nil => exact whole
  | cons c segment ih =>
    obtain ⟨first, others⟩ := List.ne_and_not_mem_of_not_mem_cons plain
    simp [danglingPoint?, Ne.symm first, ih others]

private theorem dangling_point {d : Char} (plain : d ≠ '.') {rest : List Char}
    (whole : danglingPoint? (d :: rest) = none) : danglingPoint? ('.' :: d :: rest) = none := by
  rw [danglingPoint?, whole]
  simp [plain]

/-- A segment of a name. -/
private def IsSegment (segment : String) : Prop :=
  segment.toList ≠ [] ∧ segment.toList.all isWordChar = true

private theorem segment_plain {segment : String} (valid : IsSegment segment) :
    '.' ∉ segment.toList := by
  intro member
  exact (word_char_plain (List.all_eq_true.mp valid.2 _ member)).2.2.2.1 rfl

private theorem text_cons (segment next : String) (others : List String) :
    (Path.text (segment :: next :: others)).toList =
      segment.toList ++ '.' :: (Path.text (next :: others)).toList := by
  simp [Path.text]

private theorem text_begins {segment : String} (valid : IsSegment segment)
    (others : List String) : ∃ c more, (Path.text (segment :: others)).toList = c :: more ∧
      isWordChar c = true := by
  obtain ⟨c, more, chars⟩ := List.exists_cons_of_ne_nil valid.1
  have inWord := List.all_eq_true.mp valid.2 c (by simp [chars])
  cases others with
  | nil => exact ⟨c, more, chars, inWord⟩
  | cons next others => exact ⟨c, _, by rw [text_cons, chars, List.cons_append], inWord⟩

private theorem text_all : (path : Path) → (∀ segment ∈ path, IsSegment segment) →
    path.text.toList.all (fun c => isWordChar c || c == '.') = true
  | [], _ => rfl
  | [segment], valid => by
    refine List.all_eq_true.mpr fun c member => ?_
    simp [List.all_eq_true.mp (valid segment (by simp)).2 c member]
  | segment :: next :: others, valid => by
    rw [text_cons, List.all_append, List.all_cons,
      text_all (next :: others) fun s member => valid s (by simp [member])]
    have inside : segment.toList.all (fun c => isWordChar c || c == '.') = true := by
      refine List.all_eq_true.mpr fun c member => ?_
      simp [List.all_eq_true.mp (valid segment (by simp)).2 c member]
    simp [inside]

private theorem text_dangling : (path : Path) → (∀ segment ∈ path, IsSegment segment) →
    danglingPoint? path.text.toList = none
  | [], _ => rfl
  | [segment], valid => by
    have whole : danglingPoint? (segment.toList ++ []) = none :=
      dangling_append (segment_plain (valid segment (by simp))) rfl
    rwa [List.append_nil] at whole
  | segment :: next :: others, valid => by
    have whole := text_dangling (next :: others) fun s member => valid s (by simp [member])
    obtain ⟨c, more, chars, inWord⟩ := text_begins (valid next (by simp)) others
    rw [text_cons]
    rw [chars] at whole ⊢
    exact dangling_append (segment_plain (valid segment (by simp)))
      (dangling_point (word_char_plain inWord).2.2.2.1 whole)

private theorem of_text_text : (path : Path) → path ≠ [] →
    (∀ segment ∈ path, IsSegment segment) → Path.ofText path.text = path
  | [segment], _, valid => by
    simp [Path.ofText, Path.text, split_segment (segment_plain (valid segment (by simp)))]
  | segment :: next :: others, _, valid => by
    have tail := of_text_text (next :: others) (by simp) fun s member => valid s (by simp [member])
    rw [Path.ofText] at tail ⊢
    rw [text_cons, split_point (segment_plain (valid segment (by simp))), List.map_cons, tail,
      String.ofList_toList]

private theorem split_ne_nil (cs : List Char) : Path.splitDots cs ≠ [] := by
  cases cs with
  | nil => simp [Path.splitDots]
  | cons c cs =>
    unfold Path.splitDots
    split
    · simp
    · split <;> simp

/-- A text is the dotted name of the path that it spells. -/
theorem text_of_text (text : String) : (Path.ofText text).text = text := by
  have chars : ∀ cs, (Path.text ((Path.splitDots cs).map String.ofList)).toList = cs := by
    intro cs
    induction cs with
    | nil => rfl
    | cons c cs ih =>
      obtain ⟨segment, segments, split⟩ := List.exists_cons_of_ne_nil (split_ne_nil cs)
      rw [split] at ih
      by_cases point : c = '.'
      · simp only [Path.splitDots, point, ↓reduceIte, split, List.map_cons, text_cons]
        rw [List.map_cons] at ih
        simp [ih]
      · simp only [Path.splitDots, point, ↓reduceIte, split, List.map_cons]
        cases segments with
        | nil => simpa [Path.text] using ih
        | cons next segments =>
          simp only [List.map_cons, text_cons, String.toList_ofList] at ih ⊢
          rw [List.cons_append, ih]
  exact String.toList_inj.mp (by rw [Path.ofText, chars])

private theorem name_segments {path : Path} (isName : path.isName = true) :
    path ≠ [] ∧ ∀ segment ∈ path, IsSegment segment := by
  simp only [Path.isName, Bool.and_eq_true, List.all_eq_true] at isName
  obtain ⟨⟨⟨nonempty, segments⟩, -⟩, -⟩ := isName
  refine ⟨by rintro rfl; simp at nonempty, fun segment member => ?_⟩
  obtain ⟨filled, all⟩ := segments segment member
  exact ⟨by simpa using filled, List.all_eq_true.mpr all⟩

/-- A name is read as the path that it spells. -/
theorem name_of_text {path : Path} (isName : path.isName = true) :
    Path.ofText path.text = path :=
  of_text_text path (name_segments isName).1 (name_segments isName).2

/-- A name of one segment has no points. -/
theorem plain_name_undotted {name : String} (isName : Path.isName [name] = true) :
    Path.isDotted name = false := by
  simpa [Path.isDotted] using segment_plain ((name_segments isName).2 name (by simp))

/-- A text without points spells a path of one segment. -/
theorem ofText_undotted {name : String} (plain : Path.isDotted name = false) :
    Path.ofText name = [name] := by
  have noPoint : '.' ∉ name.toList := by simpa [Path.isDotted] using plain
  simp [Path.ofText, split_segment noPoint]

/-- A name is cut off whole, as an identifier. -/
theorem name_lexes (afterImport : Bool) {path : Path} (isName : path.isName = true) :
    Lexes afterImport Breaks path.text.toList .ident path.text := by
  obtain ⟨nonempty, segments⟩ := name_segments isName
  obtain ⟨segment, others, rfl⟩ := List.exists_cons_of_ne_nil nonempty
  obtain ⟨c, more, chars, -⟩ := text_begins (segments segment (by simp)) others
  simp only [Path.isName, Bool.and_eq_true, chars, List.head?_cons, Option.all_some,
    Option.isNone_iff_eq_none] at isName
  obtain ⟨⟨-, starts, noDigit⟩, free⟩ := isName
  have all := text_all _ segments
  have whole := text_dangling _ segments
  have same : String.ofList (c :: more) = Path.text (segment :: others) := by
    rw [← chars, String.ofList_toList]
  rw [chars] at all whole ⊢
  have lexes := word_lexes afterImport starts (by simpa using noDigit) all whole
  rwa [same, free] at lexes

private theorem split_words {cs : List Char}
    (all : cs.all (fun c => isWordChar c || c == '.') = true) (whole : danglingPoint? cs = none) :
    ∃ first others, Path.splitDots cs = first :: others ∧ first.all isWordChar = true ∧
      (first = [] → cs = [] ∨ cs.head? = some '.') ∧
      ∀ segment ∈ others, segment ≠ [] ∧ segment.all isWordChar = true := by
  induction cs with
  | nil => exact ⟨[], [], rfl, rfl, fun _ => .inl rfl, by simp⟩
  | cons c cs ih =>
    rw [List.all_cons, Bool.and_eq_true] at all
    rw [danglingPoint?] at whole
    split at whole
    · cases whole
    · next notDangling =>
      have later : danglingPoint? cs = none := Option.map_eq_none_iff.mp whole
      obtain ⟨first, others, split, words, missing, more⟩ := ih all.2 later
      by_cases point : c = '.'
      · have filled : first ≠ [] := by
          intro empty
          rcases missing empty with rfl | begins
          · simp [point] at notDangling
          · simp [point, begins] at notDangling
        refine ⟨[], first :: others, by rw [Path.splitDots, if_pos point, split], rfl,
          fun _ => .inr (by simp [point]), List.forall_mem_cons.mpr ⟨⟨filled, words⟩, more⟩⟩
      · have inWord : isWordChar c = true := by simpa [point] using all.1
        refine ⟨c :: first, others, by rw [Path.splitDots, if_neg point, split], ?_, nofun, more⟩
        rw [List.all_cons, inWord, words]
        rfl

/-- A word that the lexer takes for an identifier is a name. -/
theorem name_of_word {c : Char} {more : List Char} (starts : isWordStart c = true)
    (noDigit : Text.isDigit c = false)
    (all : (c :: more).all (fun c => isWordChar c || c == '.') = true)
    (whole : danglingPoint? (c :: more) = none)
    (free : TokenKind.keyword? (String.ofList (c :: more)) = none) :
    (Path.ofText (String.ofList (c :: more))).isName = true := by
  obtain ⟨first, others, split, words, missing, more'⟩ := split_words all whole
  have noPoint : c ≠ '.' := (word_char_plain (word_char_of_start starts)).2.2.2.1
  have filled : first ≠ [] := by
    intro empty
    rcases missing empty with none | begins
    · cases none
    · exact noPoint (by simpa using begins)
  have segments : ∀ segment ∈ first :: others, segment ≠ [] ∧ segment.all isWordChar = true :=
    List.forall_mem_cons.mpr ⟨⟨filled, words⟩, more'⟩
  rw [Path.isName, text_of_text, free, String.toList_ofList, Path.ofText, String.toList_ofList,
    split]
  simp only [List.head?_cons, Option.all_some, starts, noDigit, Bool.and_true, Bool.not_false,
    Option.isNone_none, Bool.and_eq_true, List.all_eq_true]
  refine ⟨rfl, fun segment member => ?_⟩
  obtain ⟨segment, inside, rfl⟩ := List.mem_map.mp member
  obtain ⟨filled, words⟩ := segments segment inside
  simpa [filled] using words

end Words

section Numbers

/-- Digits make a number, alone or around a point. -/
theorem numeral_of_digits {whole : List Char} (nonempty : whole ≠ [])
    (all : whole.all Text.isDigit = true) :
    Text.isNumeral whole = true ∧ ∀ part, part ≠ [] → part.all Text.isDigit = true →
      Text.isNumeral (whole ++ '.' :: part) = true := by
  constructor
  · obtain ⟨taken, left⟩ := span_ends [] all (by simp)
    rw [List.append_nil] at taken left
    simp [Text.isNumeral, taken, left, nonempty]
  · intro part filled digits
    obtain ⟨taken, left⟩ := span_ends ('.' :: part) all (by rintro c ⟨⟩; rfl)
    simpa [Text.isNumeral, taken, left, nonempty, filled] using digits

/-- Digits alone, or digits around a point. -/
theorem numeral_cases {cs : List Char} (numeral : Text.isNumeral cs = true) :
    ∃ whole, whole ≠ [] ∧ whole.all Text.isDigit = true ∧
      (cs = whole ∨
        ∃ part, part ≠ [] ∧ part.all Text.isDigit = true ∧ cs = whole ++ '.' :: part) := by
  have parts : cs.takeWhile Text.isDigit ++ cs.dropWhile Text.isDigit = cs :=
    List.takeWhile_append_dropWhile
  simp only [Text.isNumeral, Bool.and_eq_true, Bool.not_eq_true', List.isEmpty_eq_false_iff]
    at numeral
  obtain ⟨nonempty, tail⟩ := numeral
  refine ⟨_, nonempty, List.all_takeWhile, ?_⟩
  split at tail
  · next finished => exact .inl (by rwa [finished, List.append_nil, eq_comm] at parts)
  · next part pointed =>
    rw [Bool.and_eq_true, Bool.not_eq_true', List.isEmpty_eq_false_iff] at tail
    exact .inr ⟨part, tail.1, tail.2, by rwa [pointed, eq_comm] at parts⟩
  · contradiction

private theorem digit_free {rest : List Char} (breaks : Breaks rest) :
    ∀ c ∈ rest.head?, Text.isDigit c = false := by
  intro c member
  refine Bool.eq_false_iff.mpr fun digit => ?_
  have inWord := word_char_of_digit digit
  simp [(breaks c member).1] at inWord

private theorem scan_digit {afterImport : Bool} {c : Char} {cs : List Char}
    (digit : Text.isDigit c = true) : scan afterImport c cs = scanNumber (c :: cs) := by
  obtain ⟨noSeparator, noComment, noQuote, -⟩ := word_char_plain (word_char_of_digit digit)
  simp only [scan, noSeparator, noComment, noQuote, digit, Bool.false_eq_true, ↓reduceIte]

private theorem number_ends {text spelling rest : List Char} (breaks : Breaks rest) :
    endNumber text spelling rest = .lexeme ⟨.number, String.ofList text, spelling⟩ rest := by
  cases rest with
  | nil => rfl
  | cons c rest =>
    obtain ⟨outside, noPoint, -⟩ := breaks c rfl
    simp [endNumber, outside, noPoint]

private theorem whole_number {whole rest : List Char} (all : whole.all Text.isDigit = true)
    (breaks : Breaks rest) :
    scanNumber (whole ++ rest) = .lexeme ⟨.number, String.ofList whole, whole⟩ rest := by
  obtain ⟨taken, left⟩ := span_ends rest all (digit_free breaks)
  have noFraction : fraction? rest = none := by
    cases rest with
    | nil => rfl
    | cons c rest => simp [fraction?, (breaks c rfl).2.1]
  simp only [scanNumber, taken, left, noFraction]
  exact number_ends breaks

private theorem fraction_number {whole part rest : List Char}
    (all : whole.all Text.isDigit = true) (partAll : part.all Text.isDigit = true)
    (nonempty : part ≠ []) (breaks : Breaks rest) :
    scanNumber (whole ++ '.' :: (part ++ 'f' :: rest)) =
      .lexeme ⟨.number, String.ofList (whole ++ '.' :: part), whole ++ '.' :: part ++ ['f']⟩
        rest := by
  obtain ⟨taken, left⟩ := span_ends ('.' :: (part ++ 'f' :: rest)) all
    (by rintro c ⟨⟩; rfl)
  obtain ⟨partTaken, partLeft⟩ := span_ends ('f' :: rest) partAll (by rintro c ⟨⟩; rfl)
  have noneEmpty : part.isEmpty = false := List.isEmpty_eq_false_iff.mpr nonempty
  simp only [scanNumber, taken, left, fraction?, partTaken, partLeft, noneEmpty,
    Bool.false_eq_true, ↓reduceIte]
  exact number_ends breaks

/-- A number is cut off whole; the letter after a fraction is not part of its
text. -/
theorem number_lexes {text : String} (numeral : Text.isNumeral text.toList = true) :
    Lexes false Breaks (Value.render ⟨.number, text⟩).toList .number text := by
  obtain ⟨whole, nonempty, all, finished | ⟨part, filled, partAll, pointed⟩⟩ :=
    numeral_cases numeral
  · have noPoint : '.' ∉ text.toList := by
      rw [finished]
      exact not_mem_of_all all rfl
    have rendered : (Value.render ⟨.number, text⟩).toList = whole := by
      rw [← finished]
      simp [Value.render, noPoint]
    have same : String.ofList whole = text := by rw [← finished, String.ofList_toList]
    rw [rendered]
    refine ⟨not_mem_of_all all rfl, ?_⟩
    obtain ⟨c, more, rfl⟩ := List.exists_cons_of_ne_nil nonempty
    refine ⟨c, more, rfl, fun rest breaks => ?_⟩
    rw [scan_digit (List.all_eq_true.mp all c (by simp)), ← List.cons_append,
      whole_number all breaks, same]
  · have hasPoint : '.' ∈ text.toList := by simp [pointed]
    have rendered : (Value.render ⟨.number, text⟩).toList = whole ++ '.' :: part ++ ['f'] := by
      rw [← pointed]
      simp [Value.render, hasPoint]
    have same : String.ofList (whole ++ '.' :: part) = text := by
      rw [← pointed, String.ofList_toList]
    rw [rendered]
    have oneLine : ∀ {digits : List Char}, digits.all Text.isDigit = true → '\n' ∉ digits :=
      fun digits => not_mem_of_all digits rfl
    refine ⟨by simp [oneLine all, oneLine partAll], ?_⟩
    obtain ⟨c, more, rfl⟩ := List.exists_cons_of_ne_nil nonempty
    refine ⟨c, more ++ '.' :: part ++ ['f'], rfl, fun rest breaks => ?_⟩
    have scanned := fraction_number all partAll filled breaks
    rw [same] at scanned
    rw [scan_digit (List.all_eq_true.mp all c (by simp))]
    simpa using scanned

end Numbers

section Strings

private theorem read_escape (c : Char) (cs : List Char) :
    Text.readQuotation (Text.escape c ++ cs) = (Text.readQuotation cs).push c (Text.escape c) := by
  unfold Text.escape
  split
  all_goals try rfl
  rw [List.singleton_append, Text.readQuotation.eq_def]
  split <;> simp_all

private theorem read_escaped (text rest : List Char) :
    Text.readQuotation (text.flatMap Text.escape ++ '"' :: rest) =
      .closed text (text.flatMap Text.escape ++ ['"']) rest := by
  induction text with
  | nil => rfl
  | cons c text ih =>
    rw [List.flatMap_cons, List.append_assoc, read_escape, ih, Text.Quotation.push,
      List.append_assoc]

private theorem escape_one_line (c : Char) : '\n' ∉ Text.escape c := by
  unfold Text.escape
  split <;> simp_all [eq_comm]

/-- A quoted text is cut off whole and read as the text. -/
theorem quote_lexes (afterImport : Bool) (text : String) :
    Lexes afterImport Anything (Text.quote text).toList .string text := by
  refine ⟨by simp [Text.quote, escape_one_line], ?_⟩
  refine ⟨'"', text.toList.flatMap Text.escape ++ ['"'], by simp [Text.quote], fun rest _ => ?_⟩
  have scanned : scan afterImport '"' (text.toList.flatMap Text.escape ++ ['"'] ++ rest) =
      scanString (text.toList.flatMap Text.escape ++ ['"'] ++ rest) := rfl
  rw [scanned, scanString, List.append_assoc, List.singleton_append, read_escaped]
  simp [Text.quote]

end Strings

section Marks

/-- A mark that begins no longer one is cut off whatever follows. -/
theorem mark_lexes {kind : TokenKind} {text : String} (member : kind ∈ TokenKind.symbols)
    (notLess : kind ≠ .less) (notGreater : kind ≠ .greater)
    (spelled : kind.spelling? = some text) : Lexes false Anything text.toList kind text := by
  simp only [TokenKind.symbols, List.mem_cons, List.not_mem_nil, or_false] at member
  rcases member with rfl | rfl | rfl | rfl | rfl | rfl | rfl | rfl | rfl | rfl | rfl | rfl | rfl |
    rfl | rfl <;> cases spelled <;>
    first | contradiction | exact ⟨by simp, _, _, rfl, fun rest _ => rfl⟩

private theorem comparison_lexes {c : Char} {longer shorter : TokenKind}
    (marks : c = '<' ∧ longer = .lessEq ∧ shorter = .less ∨
      c = '>' ∧ longer = .greaterEq ∧ shorter = .greater) :
    Lexes false Breaks [c] shorter (String.ofList [c]) := by
  refine ⟨by rcases marks with ⟨rfl, -⟩ | ⟨rfl, -⟩ <;> simp, c, [], rfl, fun rest breaks => ?_⟩
  have notLonger : beginsWith (c :: rest) longer = false := by
    cases rest with
    | nil => rcases marks with ⟨rfl, rfl, rfl⟩ | ⟨rfl, rfl, rfl⟩ <;> rfl
    | cons d rest =>
      have differs : ('=' == d) = false := beq_eq_false_iff_ne.mpr (breaks d rfl).2.2.symm
      rcases marks with ⟨rfl, rfl, rfl⟩ | ⟨rfl, rfl, rfl⟩ <;>
        exact (congrArg (· && _) differs).trans (Bool.false_and _)
  have found : TokenKind.symbols.find? (beginsWith (c :: rest)) = some shorter := by
    rcases marks with ⟨rfl, rfl, rfl⟩ | ⟨rfl, rfl, rfl⟩
    · rw [TokenKind.symbols, List.find?_cons_of_neg (by simp [notLonger])]
      rfl
    · rw [TokenKind.symbols, List.find?_cons_of_neg (by exact Bool.false_ne_true),
        List.find?_cons_of_neg (by simp [notLonger])]
      rfl
  rcases marks with ⟨rfl, rfl, rfl⟩ | ⟨rfl, rfl, rfl⟩
  · have scanned : scan false '<' rest = scanSymbol '<' rest := rfl
    rw [List.nil_append, scanned, scanSymbol, found]
    rfl
  · have scanned : scan false '>' rest = scanSymbol '>' rest := rfl
    rw [List.nil_append, scanned, scanSymbol, found]
    rfl

/-- The operator of a binary operation is cut off in front of a blank. -/
theorem operator_lexes (op : BinaryOp) {text : String} (spelled : op.kind.spelling? = some text) :
    Lexes false Breaks text.toList op.kind text := by
  cases op with
  | or | and | is | isnt => exact keyword_lexes false (List.contains_iff_mem.mp rfl) spelled
  | less =>
    cases spelled
    exact comparison_lexes (.inl ⟨rfl, rfl, rfl⟩)
  | greater =>
    cases spelled
    exact comparison_lexes (.inr ⟨rfl, rfl, rfl⟩)
  | _ => exact lexes_of_anywhere (mark_lexes (List.contains_iff_mem.mp rfl) nofun nofun spelled)

end Marks

/-- A place in a text: whether the word before it is `import`, its position,
and the characters that are left. -/
structure Spot where
  afterImport : Bool
  pos : Pos
  text : List Char

/-- The tokens between two spots of one text. -/
inductive Reads (file : String) : Spot → List Token → Spot → Prop where
  | done (spot : Spot) : Reads file spot [] spot
  | blank {afterImport : Bool} {pos : Pos} {c : Char} {cs : List Char} {tokens : List Token}
      {last : Spot} (separates : isSeparator c = true)
      (others : Reads file ⟨afterImport, pos.next c, cs⟩ tokens last) :
      Reads file ⟨afterImport, pos, c :: cs⟩ tokens last
  | gap {afterImport : Bool} {pos : Pos} {c : Char} {more rest : List Char} {tokens : List Token}
      {last : Spot} (cuts : scan afterImport c (more ++ rest) = .gap (c :: more) rest)
      (others : Reads file ⟨afterImport, pos.after (c :: more), rest⟩ tokens last) :
      Reads file ⟨afterImport, pos, c :: (more ++ rest)⟩ tokens last
  | lexeme {afterImport : Bool} {pos : Pos} {c : Char} {more rest : List Char} {kind : TokenKind}
      {text : String} {tokens : List Token} {last : Spot}
      (cuts : scan afterImport c (more ++ rest) = .lexeme ⟨kind, text, c :: more⟩ rest)
      (others : Reads file ⟨kind = .kwImport, pos.after (c :: more), rest⟩ tokens last) :
      Reads file ⟨afterImport, pos, c :: (more ++ rest)⟩ (⟨kind, text, ⟨file, pos⟩⟩ :: tokens) last

section Spots
variable {file : String} {before middle last : Spot} {tokens others : List Token}

/-- Tokens are read one after the other. -/
theorem reads_append (first : Reads file before tokens middle)
    (second : Reads file middle others last) : Reads file before (tokens ++ others) last := by
  induction first with
  | done => exact second
  | blank separates _ ih => exact .blank separates (ih second)
  | gap cuts _ ih => exact .gap cuts (ih second)
  | lexeme cuts _ ih => exact .lexeme cuts (ih second)

/-- A lexeme in front of what may follow it is one token. -/
theorem reads_lexeme {afterImport : Bool} {follow : List Char → Prop} {spelling rest : List Char}
    {kind : TokenKind} {text : String} (lexes : Lexes afterImport follow spelling kind text)
    (follows : follow rest) (file : String) (pos : Pos) :
    Reads file ⟨afterImport, pos, spelling ++ rest⟩ [⟨kind, text, ⟨file, pos⟩⟩]
      ⟨kind = .kwImport, pos.after spelling, rest⟩ := by
  obtain ⟨-, c, more, rfl, cuts⟩ := lexes
  exact .lexeme (cuts rest follows) (.done _)

/-- A position moves over one text and then over the next. -/
theorem after_append (pos : Pos) (first second : List Char) :
    pos.after (first ++ second) = (pos.after first).after second :=
  List.foldl_append

private theorem line_le_after (pos : Pos) (cs : List Char) : pos.line ≤ (pos.after cs).line := by
  induction cs generalizing pos with
  | nil => exact Nat.le_refl _
  | cons c cs ih =>
    refine Nat.le_trans ?_ (ih (pos.next c))
    unfold Pos.next
    split <;> simp

/-- A text on one line moves the column alone. -/
theorem after_one_line {cs : List Char} (pos : Pos) (oneLine : '\n' ∉ cs) :
    pos.after cs = ⟨pos.line, pos.column + cs.length⟩ := by
  induction cs generalizing pos with
  | nil => rfl
  | cons c cs ih =>
    obtain ⟨first, rest⟩ := List.ne_and_not_mem_of_not_mem_cons oneLine
    have moved := ih (pos.next c) rest
    simp only [Pos.next, Ne.symm first, ↓reduceIte] at moved
    simp only [Pos.after, List.foldl_cons, List.length_cons, Pos.next, Ne.symm first, ↓reduceIte]
    rw [Pos.after] at moved
    rw [moved, Nat.add_right_comm, Nat.add_assoc]

/-- Tokens stand between the lines of the two spots. -/
theorem reads_lines (read : Reads file before tokens last) :
    before.pos.line ≤ last.pos.line ∧
      ∀ token ∈ tokens,
        before.pos.line ≤ token.loc.pos.line ∧ token.loc.pos.line ≤ last.pos.line := by
  induction read with
  | done => simp
  | @blank afterImport pos c cs tokens last separates others ih =>
    have later : pos.line ≤ (pos.next c).line := line_le_after pos [c]
    refine ⟨Nat.le_trans later ih.1, fun token member => ?_⟩
    exact ⟨Nat.le_trans later (ih.2 token member).1, (ih.2 token member).2⟩
  | @gap afterImport pos c more rest tokens last cuts others ih =>
    have later := line_le_after pos (c :: more)
    refine ⟨Nat.le_trans later ih.1, fun token member => ?_⟩
    exact ⟨Nat.le_trans later (ih.2 token member).1, (ih.2 token member).2⟩
  | @lexeme afterImport pos c more rest kind text tokens last cuts others ih =>
    have later := line_le_after pos (c :: more)
    refine ⟨Nat.le_trans later ih.1, fun token member => ?_⟩
    rcases List.mem_cons.mp member with rfl | member
    · exact ⟨Nat.le_refl _, Nat.le_trans later ih.1⟩
    · exact ⟨Nat.le_trans later (ih.2 token member).1, (ih.2 token member).2⟩

private theorem place_reads (read : Reads file before tokens last) (finished : last.text = [])
    (steps : Nat) (enough : before.text.length ≤ steps) :
    place file before.pos (cut steps before.afterImport before.text) =
      .ok (tokens ++ [⟨.eof, "", ⟨file, last.pos⟩⟩]) := by
  induction read generalizing steps with
  | done spot =>
    rw [finished, cut]
    · rfl
    · simp
  | @blank afterImport pos c cs tokens last separates others ih =>
    simp only [List.length_cons] at enough
    obtain ⟨steps, rfl⟩ : ∃ less, steps = less + 1 := ⟨steps - 1, by omega⟩
    simp only [cut, scan, separates, ↓reduceIte, place]
    -- Blanks that follow belong to the same gap.
    cases cs with
    | nil => exact ih finished steps (Nat.zero_le _)
    | cons d cs =>
      by_cases again : isSeparator d = true
      · have merged := ih finished (steps + 1) (by simp only [List.length_cons] at enough ⊢; omega)
        simp only [cut, scan, again, ↓reduceIte, place] at merged
        simpa [again, Pos.after] using merged
      · have alone := ih finished steps (by simp only [List.length_cons] at enough ⊢; omega)
        simpa [again, Pos.after] using alone
  | @gap afterImport pos c more rest tokens last cuts others ih =>
    simp only [List.length_cons, List.length_append] at enough
    obtain ⟨steps, rfl⟩ : ∃ less, steps = less + 1 := ⟨steps - 1, by omega⟩
    simp only [cut, cuts, place]
    exact ih finished steps (by simp only; omega)
  | @lexeme afterImport pos c more rest kind text tokens last cuts others ih =>
    simp only [List.length_cons, List.length_append] at enough
    obtain ⟨steps, rfl⟩ : ∃ less, steps = less + 1 := ⟨steps - 1, by omega⟩
    have remaining := ih finished steps (by simp only; omega)
    simp only [cut, cuts, place]
    simp only at remaining
    rw [remaining]
    rfl

/-- Reading a whole source gives its tokens. -/
theorem tokenize_of_reads {source : String} {afterImport : Bool} {pos : Pos}
    (read : Reads file ⟨false, .first, source.toList⟩ tokens ⟨afterImport, pos, []⟩) :
    tokenize source file = .ok (tokens ++ [⟨.eof, "", ⟨file, pos⟩⟩]) :=
  place_reads read rfl _ (Nat.le_refl _)

end Spots

/-- Wherever the text stands in front of one that may follow it, it reads as
tokens with the given property. It stands on one line. -/
structure Writes (follow : List Char → Prop) (text : List Char) (good : List Token → Prop) :
    Prop where
  oneLine : '\n' ∉ text
  reads : ∀ file pos rest, follow rest → ∃ tokens,
    Reads file ⟨false, pos, text ++ rest⟩ tokens ⟨false, pos.after text, rest⟩ ∧ good tokens

/-- One token of the given kind and text. -/
def Single (kind : TokenKind) (text : String) (tokens : List Token) : Prop :=
  ∃ token, tokens = [token] ∧ token.kind = kind ∧ token.text = text

section Writing
variable {follow follow' : List Char → Prop} {text text' : List Char}
  {good good' : List Token → Prop}

/-- Less is said of the tokens. -/
theorem writes_imp (written : Writes follow text good)
    (imp : ∀ tokens, good tokens → good' tokens) : Writes follow text good' := by
  refine ⟨written.oneLine, fun file pos rest follows => ?_⟩
  obtain ⟨tokens, read, holds⟩ := written.reads file pos rest follows
  exact ⟨tokens, read, imp tokens holds⟩

theorem writes_of_anywhere (written : Writes Anything text good) : Writes follow text good :=
  ⟨written.oneLine, fun file pos rest _ => written.reads file pos rest trivial⟩

/-- Two texts are written one after the other if the second can follow the
first. -/
theorem writes_append (first : Writes follow text good) (second : Writes follow' text' good')
    (meets : ∀ rest, follow' rest → follow (text' ++ rest)) :
    Writes follow' (text ++ text')
      (fun tokens => ∃ own others, tokens = own ++ others ∧ good own ∧ good' others) := by
  refine ⟨by simp [first.oneLine, second.oneLine], fun file pos rest follows => ?_⟩
  obtain ⟨own, read, holds⟩ := first.reads file pos (text' ++ rest) (meets rest follows)
  obtain ⟨others, read', holds'⟩ := second.reads file (pos.after text) rest follows
  refine ⟨own ++ others, ?_, own, others, rfl, holds, holds'⟩
  rw [List.append_assoc, after_append]
  exact reads_append read read'

theorem writes_blank : Writes Anything [' '] (· = []) :=
  ⟨by simp, fun _ _ _ _ => ⟨[], .blank rfl (.done _), rfl⟩⟩

theorem writes_nothing : Writes follow [] (· = []) :=
  ⟨by simp, fun _ _ _ _ => ⟨[], .done _, rfl⟩⟩

/-- The spelling of a token is written as that token. -/
theorem writes_lexeme {kind : TokenKind} {name : String} (lexes : Lexes false follow text kind name)
    (notImport : kind ≠ .kwImport) : Writes follow text (Single kind name) := by
  refine ⟨lexes.1, fun file pos rest follows => ⟨_, ?_, ⟨kind, name, ⟨file, pos⟩⟩, rfl, rfl, rfl⟩⟩
  have read := reads_lexeme lexes follows file pos
  rwa [decide_eq_false notImport] at read

/-- A text that begins with a character no word goes on with. -/
theorem breaks_of_head {text : List Char}
    (ends : text.head?.any (fun c => !(isWordChar c || c == '.' || c == '=')) = true)
    (rest : List Char) : Breaks (text ++ rest) := by
  cases text with
  | nil => cases ends
  | cons c text => exact breaks_cons (by simpa using ends) _

end Writing

end BasilLang.Lexing
