import BasilLang.Proofs.Placement

/-! How a source is made up of gaps and lexemes. What a gap is, how a token is
spelled and what is wrong with a text that is no token are said here without
the lexer, and places are counted from the beginning of the text. The main
statement is that the lexer's answer, be it tokens or a fault, is the one that
these rules give. -/
namespace BasilLang.Partition
open Lexer Lexing

/-- Where the character after a text stands: one line further for every line
feed, one column for every character since the last of them. -/
def placeAfter (before : List Char) : Pos :=
  ⟨before.count '\n' + 1, (before.reverse.takeWhile (· != '\n')).length + 1⟩

/-- Blanks and comments. A comment runs to the next line feed; only where
`atEnd` holds may it be the last thing in the gap. -/
inductive Gap (atEnd : Prop) : List Char → Prop where
  | nil : Gap atEnd []
  | blank {c : Char} {gap : List Char} (isBlank : c = ' ' ∨ c = '\t' ∨ c = '\n' ∨ c = '\r')
      (others : Gap atEnd gap) : Gap atEnd (c :: gap)
  | comment {words gap : List Char} (oneLine : '\n' ∉ words) (others : Gap atEnd ('\n' :: gap)) :
      Gap atEnd ('#' :: (words ++ '\n' :: gap))
  | lastComment {words : List Char} (ends : atEnd) (oneLine : '\n' ∉ words) :
      Gap atEnd ('#' :: words)

/-- A text and how it stands inside quotes. Every character but the quote and
the backslash may stand for itself, and a backslash makes an escape of the
letter after it. -/
inductive Quoted : List Char → List Char → Prop where
  | nil : Quoted [] []
  | plain {c : Char} {text inner : List Char} (noQuote : c ≠ '"') (noBackslash : c ≠ '\\')
      (others : Quoted text inner) : Quoted (c :: text) (c :: inner)
  | escape {letter c : Char} {text inner : List Char} (known : Text.unescape letter = some c)
      (others : Quoted text inner) : Quoted (c :: text) ('\\' :: letter :: inner)

/-- One digit or more. -/
def Digits (cs : List Char) : Prop :=
  cs ≠ [] ∧ ∀ c ∈ cs, Text.isDigit c = true

/-- How a token is spelled; `afterImport` tells whether it follows directly on
the word `import`. -/
inductive Spells (afterImport : Bool) : TokenKind → String → List Char → Prop where
  | fixed {kind : TokenKind} {text : String} (spelled : kind.spelling? = some text) :
      Spells afterImport kind text text.toList
  | path {text : String} (isName : (Path.ofText text).isName = true) :
      Spells afterImport .ident text text.toList
  | whole {digits : List Char} (isWhole : Digits digits) :
      Spells afterImport .number (String.ofList digits) digits
  | fraction {digits part : List Char} (isWhole : Digits digits) (isPart : Digits part) :
      Spells afterImport .number (String.ofList (digits ++ '.' :: part))
        (digits ++ '.' :: part ++ ['f'])
  | library {name : List Char} (directly : afterImport = true) (nonempty : name ≠ [])
      (isWord : ∀ c ∈ name, isWordChar c = true) :
      Spells afterImport .libraryPath (String.ofList name) ('<' :: name ++ ['>'])
  | string {text inner : List Char} (decodes : Quoted text inner) :
      Spells afterImport .string (String.ofList text) ('"' :: inner ++ ['"'])

/-- The kinds whose tokens are words or numbers. -/
def isWordLike (kind : TokenKind) : Bool :=
  kind == .ident || kind == .number || TokenKind.keywords.contains kind

/-- What follows a lexeme is not a part of it: a word or a number does not run
on, and `<` and `>` are not followed by an equals sign. -/
def Ends (kind : TokenKind) (rest : List Char) : Prop :=
  ∀ c ∈ rest.head?, (isWordLike kind = true → isWordChar c = false ∧ c ≠ '.') ∧
    (kind = .less ∨ kind = .greater → c ≠ '=')

/-- What is wrong with a text that begins with neither a gap nor a lexeme, and
the part of it in front of the place that is blamed. -/
inductive Offends (afterImport : Bool) : List Char → List Char → LexFault → Prop where
  | unterminated {text inner tail : List Char} (decodes : Quoted text inner)
      (cut : tail = [] ∨ tail = ['\\']) :
      Offends afterImport ('"' :: (inner ++ tail)) [] .unterminatedString
  | unknownEscape {text inner rest : List Char} {letter : Char} (decodes : Quoted text inner)
      (unknown : Text.unescape letter = none) :
      Offends afterImport ('"' :: (inner ++ '\\' :: letter :: rest)) ('"' :: inner)
        (.unknownEscape letter)
  | unmarkedFraction {digits part rest : List Char} (isWhole : Digits digits)
      (isPart : Digits part) (unmarked : rest.head? ≠ some 'f')
      (ends : ∀ c ∈ rest.head?, Text.isDigit c = false) :
      Offends afterImport (digits ++ '.' :: (part ++ rest)) []
        (.unmarkedFraction (String.ofList (digits ++ '.' :: part)))
  | runningNumber {text : String} {spelling rest : List Char} {c : Char}
      (spells : Spells afterImport .number text spelling)
      (runsOn : isWordChar c = true ∨ c = '.') :
      Offends afterImport (spelling ++ c :: rest) [] (.badToken (text.push c))
  | emptySegment {c : Char} {more rest : List Char} (starts : isWordStart c = true)
      (inName : ∀ d ∈ more, isWordChar d = true ∨ d = '.')
      (empty : ∀ d ∈ rest.head?, isWordChar d = false) :
      Offends afterImport (c :: (more ++ '.' :: rest)) []
        (.emptySegment (String.ofList (c :: more ++ ['.'])))
  | badLibraryPath {name rest : List Char} (directly : afterImport = true)
      (isWord : ∀ c ∈ name, isWordChar c = true) (ends : ∀ c ∈ rest.head?, isWordChar c = false)
      (broken : name = [] ∨ rest.head? ≠ some '>') :
      Offends afterImport ('<' :: (name ++ rest)) [] (.badLibraryPath (String.ofList name))
  | noToken {c : Char} {rest : List Char} (noGap : isSeparator c = false ∧ c ≠ '#')
      (noString : c ≠ '"') (noNumber : Text.isDigit c = false) (noWord : isWordStart c = false)
      (noMark : ∀ kind ∈ TokenKind.symbols, ∀ text, kind.spelling? = some text →
        ¬ text.toList <+: c :: rest) :
      Offends afterImport (c :: rest) [] (.badToken (String.ofList [c]))

/-- The answer for a text with another text in front of it. Gaps and lexemes
follow each other, with a token for every lexeme at the place of its first
character. At the end stands the token that closes the input, or else the
first lexeme that is wrong; a comment in front of it can only have been ended
by a null character. -/
inductive Partitioned (file : String) :
    List Char → Bool → List Char → Except Failure (List Token) → Prop where
  | last {before gap : List Char} {afterImport : Bool} (isGap : Gap True gap) :
      Partitioned file before afterImport gap
        (.ok [⟨.eof, "", ⟨file, placeAfter (before ++ gap)⟩⟩])
  | fault {before gap rest offset : List Char} {afterImport : Bool} {fault : LexFault}
      (isGap : Gap (rest.head? = some '\x00') gap)
      (offends : Offends afterImport rest offset fault) :
      Partitioned file before afterImport (gap ++ rest)
        (.error ⟨.lex fault, some ⟨file, placeAfter (before ++ gap ++ offset)⟩⟩)
  | lexeme {before gap spelling rest : List Char} {afterImport : Bool} {kind : TokenKind}
      {text : String} {answer : Except Failure (List Token)} (isGap : Gap False gap)
      (spells : Spells afterImport kind text spelling) (ends : Ends kind rest)
      (others : Partitioned file (before ++ gap ++ spelling) (kind = .kwImport) rest answer) :
      Partitioned file before afterImport (gap ++ (spelling ++ rest))
        (answer.map (⟨kind, text, ⟨file, placeAfter (before ++ gap)⟩⟩ :: ·))

section Places

private theorem next_placeAfter (before : List Char) (c : Char) :
    (placeAfter before).next c = placeAfter (before ++ [c]) := by
  by_cases feed : c = '\n'
  · simp [Pos.next, placeAfter, feed]
  · simp [Pos.next, placeAfter, feed]

/-- Places found by stepping through a text are those found by counting. -/
theorem after_placeAfter (before cs : List Char) :
    (placeAfter before).after cs = placeAfter (before ++ cs) := by
  induction cs generalizing before with
  | nil => simp [Pos.after]
  | cons c cs ih =>
    change ((placeAfter before).next c).after cs = _
    rw [next_placeAfter, ih, List.append_assoc, List.singleton_append]

end Places

section Scanning
variable {afterImport : Bool} {c : Char} {cs rest : List Char}

/-- What the front of a text is said to be is right. -/
def Scanned (afterImport : Bool) (text : List Char) : Scan → Prop
  | .gap spelling rest => text = spelling ++ rest ∧
      ((∀ c ∈ spelling, isSeparator c = true) ∨
        ∃ words, spelling = '#' :: words ∧ '\n' ∉ words ∧
          (rest = [] ∨ rest.head? = some '\n' ∨ rest.head? = some '\x00'))
  | .lexeme lexeme rest => text = lexeme.spelling ++ rest ∧
      Spells afterImport lexeme.kind lexeme.text lexeme.spelling ∧ Ends lexeme.kind rest
  | .fault before fault => Offends afterImport text before fault

/-- What a quotation is said to be is right. -/
private def QuotationRight (cs : List Char) : Text.Quotation → Prop
  | .closed text spelling rest => ∃ inner, Quoted text inner ∧ spelling = inner ++ ['"'] ∧
      cs = spelling ++ rest
  | .unclosed => ∃ text inner tail, Quoted text inner ∧ (tail = [] ∨ tail = ['\\']) ∧
      cs = inner ++ tail
  | .unknownEscape before letter => ∃ text rest, Quoted text before ∧
      Text.unescape letter = none ∧ cs = before ++ '\\' :: letter :: rest

private theorem quotation_push {spelling : List Char}
    (push : ∀ {text inner}, Quoted text inner → Quoted (c :: text) (spelling ++ inner))
    {quotation : Text.Quotation} (right : QuotationRight cs quotation) :
    QuotationRight (spelling ++ cs) (quotation.push c spelling) := by
  cases quotation with
  | closed text inside rest =>
    obtain ⟨inner, quoted, rfl, rfl⟩ := right
    exact ⟨spelling ++ inner, push quoted, by simp, by simp⟩
  | unclosed =>
    obtain ⟨text, inner, tail, quoted, cut, rfl⟩ := right
    exact ⟨c :: text, spelling ++ inner, tail, push quoted, cut, by simp⟩
  | unknownEscape before letter =>
    obtain ⟨text, rest, quoted, unknown, rfl⟩ := right
    exact ⟨c :: text, rest, push quoted, unknown, by simp⟩

private theorem quotation_right (cs : List Char) : QuotationRight cs (Text.readQuotation cs) := by
  fun_induction Text.readQuotation cs with
  | case1 => exact ⟨[], [], [], .nil, .inl rfl, rfl⟩
  | case2 rest => exact ⟨[], .nil, rfl, rfl⟩
  | case3 => exact ⟨[], [], ['\\'], .nil, .inr rfl, rfl⟩
  | case4 letter cs c known ih => exact quotation_push (.escape known) ih
  | case5 letter cs unknown => exact ⟨[], cs, .nil, unknown, rfl⟩
  | case6 c cs noQuote noLast noEscape ih =>
    have noBackslash : c ≠ '\\' := by
      cases cs with
      | nil => exact fun same => noLast same rfl
      | cons letter cs => exact fun same => noEscape letter cs same rfl
    exact quotation_push (.plain noQuote noBackslash) ih

private theorem string_right (cs : List Char) :
    Scanned afterImport ('"' :: cs) (scanString cs) := by
  have right := quotation_right cs
  unfold scanString
  cases read : Text.readQuotation cs with
  | closed text spelling rest =>
    rw [read] at right
    obtain ⟨inner, quoted, rfl, rfl⟩ := right
    exact ⟨rfl, .string quoted, fun _ _ => ⟨nofun, by simp⟩⟩
  | unclosed =>
    rw [read] at right
    obtain ⟨text, inner, tail, quoted, cut, rfl⟩ := right
    exact .unterminated quoted cut
  | unknownEscape before letter =>
    rw [read] at right
    obtain ⟨text, rest, quoted, unknown, rfl⟩ := right
    exact .unknownEscape quoted unknown

private theorem ends_nil {kind : TokenKind} : Ends kind [] := nofun

private theorem number_end_right {text spelling : List Char}
    (spells : Spells afterImport .number (String.ofList text) spelling) (rest : List Char) :
    Scanned afterImport (spelling ++ rest) (endNumber text spelling rest) := by
  cases rest with
  | nil => exact ⟨rfl, spells, ends_nil⟩
  | cons c rest =>
    simp only [endNumber]
    by_cases runsOn : (isWordChar c || c == '.') = true
    · rw [if_pos runsOn]
      have pushed : String.ofList (text ++ [c]) = (String.ofList text).push c := by
        simp
      rw [pushed]
      exact .runningNumber spells (by simpa using runsOn)
    · rw [if_neg runsOn]
      refine ⟨rfl, spells, fun d same => ⟨fun _ => ?_, ?_⟩⟩
      · obtain rfl : c = d := by simpa using same
        simpa using runsOn
      · simp

private theorem stops_after (p : Char → Bool) (cs : List Char) :
    ∀ c ∈ (cs.dropWhile p).head?, p c = false := by
  intro c first
  have stops := List.head?_dropWhile_not p cs
  rw [Option.mem_def.mp first] at stops
  exact stops

private theorem fraction_right {digits : List Char} (found : fraction? cs = some (digits, rest)) :
    cs = '.' :: (digits ++ rest) ∧ Digits digits ∧ ∀ c ∈ rest.head?, Text.isDigit c = false := by
  unfold fraction? at found
  split at found
  · next cs =>
    dsimp only at found
    split at found <;> cases found
    next filled =>
      rw [List.takeWhile_append_dropWhile]
      exact ⟨rfl, ⟨by simpa using filled, List.all_eq_true.mp List.all_takeWhile⟩,
        stops_after _ cs⟩
  · cases found

private theorem number_right (digit : cs.takeWhile Text.isDigit ≠ []) :
    Scanned afterImport cs (scanNumber cs) := by
  have halves : cs.takeWhile Text.isDigit ++ cs.dropWhile Text.isDigit = cs :=
    List.takeWhile_append_dropWhile
  have isWhole : Digits (cs.takeWhile Text.isDigit) :=
    ⟨digit, List.all_eq_true.mp List.all_takeWhile⟩
  unfold scanNumber
  dsimp only
  split
  · have spells : Spells afterImport .number _ _ := .whole isWhole
    have right := number_end_right spells (cs.dropWhile Text.isDigit)
    rwa [halves] at right
  · next part rest found =>
    obtain ⟨splits, isPart, ends⟩ := fraction_right found
    rw [splits] at halves
    split
    · next rest =>
      have spells : Spells afterImport .number _ _ := .fraction isWhole isPart
      have right := number_end_right spells rest
      have whole : cs.takeWhile Text.isDigit ++ '.' :: part ++ ['f'] ++ rest = cs := by
        simpa using halves
      rwa [whole] at right
    · next unmarked =>
      have bare : rest.head? ≠ some 'f' := by
        intro marked
        obtain ⟨others, rfl⟩ := List.head?_eq_some_iff.mp marked
        exact unmarked others rfl
      have wrong : Offends afterImport _ _ _ := .unmarkedFraction isWhole isPart bare ends
      rwa [halves] at wrong

private theorem dangling_right {text : List Char} (found : danglingPoint? cs = some text) :
    ∃ more rest, text = more ++ ['.'] ∧ cs = more ++ '.' :: rest ∧
      ∀ c ∈ rest.head?, c = '.' := by
  fun_induction danglingPoint? cs generalizing text with
  | case1 => cases found
  | case2 c cs here =>
    cases found
    obtain ⟨rfl, last⟩ : c = '.' ∧ (cs = [] ∨ cs.head? = some '.') := by simpa using here
    refine ⟨[], cs, rfl, rfl, fun d first => ?_⟩
    rcases last with rfl | pointed
    · cases first
    · rw [pointed] at first
      exact (Option.some.inj first).symm
  | case3 c cs _ ih =>
    obtain ⟨more, later, rfl⟩ := Option.map_eq_some_iff.mp found
    obtain ⟨more, rest, rfl, rfl, last⟩ := ih later
    exact ⟨c :: more, rest, rfl, rfl, last⟩

/-- What a name is made of. -/
private def inName (c : Char) : Bool := isWordChar c || c == '.'

private theorem outside_name {d : Char} (outside : inName d = false) :
    isWordChar d = false ∧ d ≠ '.' := by
  simpa [inName] using outside

private theorem keyword_right {word : String} {kind : TokenKind}
    (found : TokenKind.keyword? word = some kind) :
    kind.spelling? = some word ∧ kind ≠ .less ∧ kind ≠ .greater := by
  have spelled := List.find?_some found
  have member := List.mem_of_find?_eq_some found
  refine ⟨by simpa using spelled, ?_, ?_⟩
  · rintro rfl
    exact absurd member (by decide)
  · rintro rfl
    exact absurd member (by decide)

private theorem word_right (starts : isWordStart c = true) (noDigit : Text.isDigit c = false) :
    Scanned afterImport (c :: cs) (scanWord (c :: cs)) := by
  have halves : (c :: cs).takeWhile inName ++ (c :: cs).dropWhile inName = c :: cs :=
    List.takeWhile_append_dropWhile
  have begins : (c :: cs).takeWhile inName = c :: cs.takeWhile inName :=
    List.takeWhile_cons_of_pos (by simp [inName, word_char_of_start starts])
  have all : ∀ d ∈ (c :: cs).takeWhile inName, inName d = true :=
    List.all_eq_true.mp List.all_takeWhile
  have stops := stops_after inName (c :: cs)
  have named : (fun d => isWordChar d || d == '.') = inName := rfl
  unfold scanWord
  dsimp only
  rw [named]
  rw [begins] at halves all ⊢
  cases dangling : danglingPoint? (c :: cs.takeWhile inName) with
  | some text =>
    obtain ⟨more, rest, rfl, splits, last⟩ := dangling_right dangling
    cases more with
    | nil =>
      obtain ⟨rfl, -⟩ := List.cons.inj splits
      exact absurd starts (by decide)
    | cons first more =>
      obtain ⟨rfl, splits⟩ := List.cons.inj splits
      rw [splits] at halves all
      have text : c :: (more ++ '.' :: (rest ++ (c :: cs).dropWhile inName)) = c :: cs := by
        simpa using halves
      rw [← text]
      refine .emptySegment starts (fun d member => ?_) fun d first => ?_
      · have inside := all d (by simp [member])
        simpa [inName] using inside
      · cases rest with
        | nil => exact (outside_name (stops d (by simpa using first))).1
        | cons e rest =>
          obtain rfl : e = d := by simpa using first
          rw [last e rfl]
          rfl
  | none =>
    have inside : (c :: cs.takeWhile inName).all (fun d => isWordChar d || d == '.') = true :=
      List.all_eq_true.mpr all
    cases found : TokenKind.keyword? (String.ofList (c :: cs.takeWhile inName)) with
    | none =>
      have isName := name_of_word starts noDigit inside dangling found
      refine ⟨halves.symm, ?_, fun d first => ⟨fun _ => outside_name (stops d first), by simp⟩⟩
      have spells : Spells afterImport _ _ _ := .path isName
      simpa using spells
    | some kind =>
      obtain ⟨spelled, notLess, notGreater⟩ := keyword_right found
      refine ⟨halves.symm, ?_, fun d first => ⟨fun _ => outside_name (stops d first), ?_⟩⟩
      · have spells : Spells afterImport _ _ _ := .fixed spelled
        simpa using spells
      · simp [notLess, notGreater]

private theorem library_right (cs : List Char) :
    Scanned true ('<' :: cs) (scanLibraryPath cs) := by
  have halves : cs.takeWhile isWordChar ++ cs.dropWhile isWordChar = cs :=
    List.takeWhile_append_dropWhile
  have isWord : ∀ c ∈ cs.takeWhile isWordChar, isWordChar c = true :=
    List.all_eq_true.mp List.all_takeWhile
  have stops := stops_after isWordChar cs
  unfold scanLibraryPath
  dsimp only
  split
  · next first others rest taken dropped =>
    rw [dropped] at halves
    refine ⟨by simp [halves], .library rfl (by simp [taken]) isWord, fun _ _ => ⟨nofun, by simp⟩⟩
  · next broken =>
    have unfinished : cs.takeWhile isWordChar = [] ∨
        (cs.dropWhile isWordChar).head? ≠ some '>' := by
      by_cases empty : cs.takeWhile isWordChar = []
      · exact .inl empty
      · refine .inr fun closes => ?_
        obtain ⟨first, others, taken⟩ := List.exists_cons_of_ne_nil empty
        obtain ⟨rest, dropped⟩ := List.head?_eq_some_iff.mp closes
        exact broken first others rest taken dropped
    have wrong : Offends true _ _ _ := .badLibraryPath rfl isWord stops unfinished
    rwa [halves] at wrong

private theorem symbols_plain : ∀ kind ∈ TokenKind.symbols, isWordLike kind = false := by
  decide

private theorem comparison_ends {kind : TokenKind}
    (found : TokenKind.symbols.find? (beginsWith ('<' :: '=' :: rest)) = some kind ∨
      TokenKind.symbols.find? (beginsWith ('>' :: '=' :: rest)) = some kind) :
    kind ≠ .less ∧ kind ≠ .greater := by
  have longer : beginsWith ('<' :: '=' :: rest) .lessEq = true := rfl
  have shorter : beginsWith ('>' :: '=' :: rest) .lessEq = false := rfl
  have other : beginsWith ('>' :: '=' :: rest) .greaterEq = true := rfl
  rcases found with found | found
  · simp only [TokenKind.symbols, List.find?_cons, longer] at found
    cases found
    decide
  · simp only [TokenKind.symbols, List.find?_cons, shorter, other] at found
    cases found
    decide

private theorem symbol_right (noGap : isSeparator c = false ∧ c ≠ '#') (noString : c ≠ '"')
    (noNumber : Text.isDigit c = false) (noWord : isWordStart c = false) :
    Scanned afterImport (c :: cs) (scanSymbol c cs) := by
  unfold scanSymbol
  split
  · next kind found =>
    have begins := List.find?_some found
    have plain := symbols_plain kind (List.mem_of_find?_eq_some found)
    cases spelled : kind.spelling? with
    | none => simp [beginsWith, spelled] at begins
    | some text =>
      simp only [beginsWith, spelled, List.isPrefixOf_iff_prefix] at begins
      obtain ⟨rest, splits⟩ := begins
      have dropped : (c :: cs).drop text.length = rest := by
        rw [← splits, ← String.length_toList, List.drop_left]
      simp only [Option.getD_some, dropped]
      refine ⟨splits.symm, .fixed spelled, fun d first => ⟨fun wordy => ?_, ?_⟩⟩
      · rw [plain] at wordy
        cases wordy
      · rintro comparison rfl
        obtain ⟨others, rfl⟩ := List.head?_eq_some_iff.mp first
        rw [← splits] at found
        rcases comparison with rfl | rfl
        · cases spelled
          exact (comparison_ends (.inl found)).1 rfl
        · cases spelled
          exact (comparison_ends (.inr found)).2 rfl
  · next noSymbol =>
    refine .noToken noGap noString noNumber noWord fun kind member text spelled begins => ?_
    have fails := List.find?_eq_none.mp noSymbol kind member
    simp [beginsWith, spelled, List.isPrefixOf_iff_prefix, begins] at fails

/-- The lexer is right about the front of every text. -/
theorem scan_right (afterImport : Bool) (c : Char) (cs : List Char) :
    Scanned afterImport (c :: cs) (scan afterImport c cs) := by
  unfold scan
  split
  · next blank =>
    refine ⟨by simp, .inl fun d member => ?_⟩
    rcases List.mem_cons.mp member with rfl | member
    · exact blank
    · exact List.all_eq_true.mp List.all_takeWhile d member
  next noBlank =>
  split
  · next hash =>
    refine ⟨by simp, .inr ⟨_, by rw [hash], fun member => ?_, ?_⟩⟩
    · have inside := List.all_eq_true.mp List.all_takeWhile _ member
      exact absurd inside (by decide)
    · have stops := stops_after isCommentChar cs
      cases left : cs.dropWhile isCommentChar with
      | nil => exact .inl rfl
      | cons d rest =>
        rw [left] at stops
        have ended := stops d rfl
        by_cases feed : d = '\n'
        · simp [feed]
        · simpa [isCommentChar, feed] using ended
  next noComment =>
  split
  · next quote =>
    rw [quote]
    exact string_right cs
  next noString =>
  split
  · next digit => exact number_right (by simp [digit])
  next noDigit =>
  split
  · next starts => exact word_right starts (Bool.not_eq_true _ ▸ noDigit)
  next noWord =>
  split
  · next bracket =>
    obtain ⟨rfl, rfl⟩ : c = '<' ∧ afterImport = true := by simpa using bracket
    exact library_right cs
  · exact symbol_right ⟨Bool.not_eq_true _ ▸ noBlank, noComment⟩ noString
      (Bool.not_eq_true _ ▸ noDigit) (Bool.not_eq_true _ ▸ noWord)

end Scanning

section Heads
variable {afterImport : Bool} {kind : TokenKind} {text : String} {spelling : List Char}

/-- A text that is there, and begins with neither a line feed nor a null
character. -/
def Visible (cs : List Char) : Prop :=
  ∃ c more, cs = c :: more ∧ c ≠ '\n' ∧ c ≠ '\x00'

private theorem visible_append {cs : List Char} (visible : Visible cs) (rest : List Char) :
    Visible (cs ++ rest) := by
  obtain ⟨c, more, rfl, noFeed, noNull⟩ := visible
  exact ⟨c, more ++ rest, rfl, noFeed, noNull⟩

private theorem visible_of_class {p : Char → Bool} {c : Char} (member : p c = true)
    (noFeed : p '\n' = false) (noNull : p '\x00' = false) (more : List Char) :
    Visible (c :: more) := by
  refine ⟨c, more, rfl, ?_, ?_⟩
  · rintro rfl
    simp [member] at noFeed
  · rintro rfl
    simp [member] at noNull

private theorem fixed_visible (spelled : kind.spelling? = some text) : Visible text.toList := by
  cases kind <;> cases spelled <;> exact ⟨_, _, rfl, by decide, by decide⟩

private theorem digits_visible {digits : List Char} (isWhole : Digits digits) :
    Visible digits := by
  obtain ⟨c, more, rfl⟩ := List.exists_cons_of_ne_nil isWhole.1
  exact visible_of_class (isWhole.2 c List.mem_cons_self) rfl rfl more

private theorem path_visible (isName : (Path.ofText text).isName = true) :
    Visible text.toList := by
  obtain ⟨-, c, more, spelled, -⟩ := name_lexes false isName
  rw [text_of_text] at spelled
  simp only [Path.isName, text_of_text, spelled, List.head?_cons, Option.all_some,
    Bool.and_eq_true] at isName
  rw [spelled]
  exact visible_of_class isName.1.2.1 rfl rfl more

theorem spells_visible (spells : Spells afterImport kind text spelling) : Visible spelling := by
  cases spells with
  | fixed spelled => exact fixed_visible spelled
  | path isName => exact path_visible isName
  | whole isWhole => exact digits_visible isWhole
  | fraction isWhole =>
    rw [List.append_assoc]
    exact visible_append (digits_visible isWhole) _
  | library | string => exact ⟨_, _, rfl, by decide, by decide⟩

private theorem offends_begins {rest offset : List Char} {fault : LexFault}
    (offends : Offends afterImport rest offset fault) : ∃ c more, rest = c :: more ∧ c ≠ '\n' := by
  have front : ∀ {cs : List Char}, Visible cs → ∃ c more, cs = c :: more ∧ c ≠ '\n' :=
    fun ⟨c, more, same, noFeed, _⟩ => ⟨c, more, same, noFeed⟩
  cases offends with
  | unterminated | unknownEscape | badLibraryPath => exact ⟨_, _, rfl, by decide⟩
  | unmarkedFraction isWhole => exact front (visible_append (digits_visible isWhole) _)
  | runningNumber spells => exact front (visible_append (spells_visible spells) _)
  | emptySegment starts => exact front (visible_of_class starts rfl rfl _)
  | noToken noGap =>
    refine ⟨_, _, rfl, ?_⟩
    rintro rfl
    exact absurd noGap.1 (by decide)

end Heads

section Gaps
variable {atEnd : Prop} {piece gap rest : List Char}

private theorem gap_not_null (isGap : Gap atEnd gap) : gap.head? ≠ some '\x00' := by
  cases isGap with
  | nil => nofun
  | blank isBlank => rcases isBlank with rfl | rfl | rfl | rfl <;> simp
  | comment | lastComment => simp

private theorem blanks_gap (blanks : ∀ c ∈ piece, isSeparator c = true) (isGap : Gap atEnd gap) :
    Gap atEnd (piece ++ gap) := by
  induction piece with
  | nil => exact isGap
  | cons c piece ih =>
    have isBlank : isSeparator c = true := blanks c List.mem_cons_self
    refine .blank ?_ (ih fun d member => blanks d (List.mem_cons_of_mem _ member))
    simpa [isSeparator, or_assoc] using isBlank

private theorem piece_gap {words : List Char} (oneLine : '\n' ∉ words)
    (ended : gap ++ rest = [] ∨ (gap ++ rest).head? = some '\n' ∨
      (gap ++ rest).head? = some '\x00')
    (isGap : Gap atEnd gap) (allowed : gap = [] → atEnd) : Gap atEnd ('#' :: words ++ gap) := by
  cases gap with
  | nil => simpa using Gap.lastComment (allowed rfl) oneLine
  | cons c gap =>
    obtain rfl : c = '\n' := by
      have noNull : c ≠ '\x00' := by simpa using gap_not_null isGap
      simpa [noNull] using ended
    exact .comment oneLine isGap

end Gaps

section Pieces
variable {file : String} {before piece rest : List Char} {afterImport : Bool}
  {answer : Except Failure (List Token)}

private theorem partitioned_gap
    (isPiece : (∀ c ∈ piece, isSeparator c = true) ∨ ∃ words, piece = '#' :: words ∧
      '\n' ∉ words ∧ (rest = [] ∨ rest.head? = some '\n' ∨ rest.head? = some '\x00'))
    (parts : Partitioned file (before ++ piece) afterImport rest answer) :
    Partitioned file before afterImport (piece ++ rest) answer := by
  cases parts with
  | last isGap =>
    rw [List.append_assoc]
    refine .last ?_
    rcases isPiece with blanks | ⟨words, rfl, oneLine, ended⟩
    · exact blanks_gap blanks isGap
    · rw [← List.append_nil rest] at ended
      exact piece_gap oneLine ended isGap fun _ => trivial
  | @fault _ gap rest offset _ fault isGap offends =>
    have longer : Gap (rest.head? = some '\x00') (piece ++ gap) := by
      rcases isPiece with blanks | ⟨words, rfl, oneLine, ended⟩
      · exact blanks_gap blanks isGap
      · refine piece_gap oneLine ended isGap ?_
        rintro rfl
        obtain ⟨c, more, rfl, noFeed⟩ := offends_begins offends
        simpa [noFeed] using ended
    have parts : Partitioned file before _ _ _ := .fault longer offends
    simpa using parts
  | @lexeme _ gap spelling rest _ kind text answer isGap spells ends others =>
    have longer : Gap False (piece ++ gap) := by
      rcases isPiece with blanks | ⟨words, rfl, oneLine, ended⟩
      · exact blanks_gap blanks isGap
      · refine piece_gap oneLine ended isGap ?_
        rintro rfl
        obtain ⟨c, more, rfl, noFeed, noNull⟩ := spells_visible spells
        simp [noFeed, noNull] at ended
    have parts : Partitioned file before _ _ _ := .lexeme longer spells ends (by simpa using others)
    simpa using parts

private theorem partitioned_end : Partitioned file before afterImport []
    (.ok [⟨.eof, "", ⟨file, placeAfter before⟩⟩]) := by
  have parts : Partitioned file before afterImport [] _ := .last .nil
  rwa [List.append_nil] at parts

private theorem place_lexeme (pos : Pos) (lexeme : Lexeme) (pieces : List Piece) :
    place file pos (.lexeme lexeme :: pieces) = (place file (pos.after lexeme.spelling) pieces).map
      (⟨lexeme.kind, lexeme.text, ⟨file, pos⟩⟩ :: ·) := by
  rw [place]
  cases place file (pos.after lexeme.spelling) pieces <;> rfl

private theorem partitioned_cut (file : String) (steps : Nat) (before text : List Char)
    (afterImport : Bool) (enough : text.length ≤ steps) :
    Partitioned file before afterImport text
      (place file (placeAfter before) (cut steps afterImport text)) := by
  induction steps generalizing before text afterImport with
  | zero =>
    obtain rfl := List.length_eq_zero_iff.mp (Nat.le_zero.mp enough)
    exact partitioned_end
  | succ steps ih =>
    cases text with
    | nil => exact partitioned_end
    | cons c cs =>
      have right := scan_right afterImport c cs
      cases cuts : scan afterImport c cs with
      | gap spelling rest =>
        rw [cuts] at right
        obtain ⟨splits, isPiece⟩ := right
        have nonempty := List.length_pos_iff.mpr (Placement.scan_gap cuts).1
        have lengths := congrArg List.length splits
        simp only [List.length_cons, List.length_append] at enough lengths
        simp only [cut, cuts, place, after_placeAfter]
        rw [splits]
        exact partitioned_gap isPiece (ih _ _ _ (by omega))
      | lexeme lexeme rest =>
        rw [cuts] at right
        obtain ⟨splits, spells, ends⟩ := right
        have nonempty := List.length_pos_iff.mpr (Placement.scan_lexeme cuts).nonempty
        have lengths := congrArg List.length splits
        simp only [List.length_cons, List.length_append] at enough lengths
        have others := ih (before ++ lexeme.spelling) rest (lexeme.kind = .kwImport) (by omega)
        simp only [cut, cuts, place_lexeme, after_placeAfter]
        rw [splits]
        have parts : Partitioned file before afterImport _ _ :=
          .lexeme .nil spells ends (by simpa using others)
        simpa using parts
      | fault offset fault =>
        rw [cuts] at right
        have parts : Partitioned file before afterImport _ _ := .fault .nil right
        simp only [cut, cuts, place, after_placeAfter]
        simpa using parts

end Pieces

/-- Lexing partitions the source. If the lexer accepts a text, the text is gaps
and lexemes in turn, with one lexeme for each token but the last, which spells
the token and begins at its place; if it does not, the fault is blamed on the
first character of the first lexeme that is wrong, or on the backslash of an
unknown escape in it. -/
theorem source_partitioned (source file : String) :
    Partitioned file [] false source.toList (tokenize source file) :=
  partitioned_cut file _ [] source.toList false (Nat.le_refl _)

end BasilLang.Partition
