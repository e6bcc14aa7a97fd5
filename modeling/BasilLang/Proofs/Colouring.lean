import BasilLang.Prompt.Highlight
import BasilLang.Proofs.Partition

/-! Colouring loses nothing and colours exactly the tokens. How far a token
reaches is found a second time, from its place, its text and the line, without
the lexer; this agrees with the lexer because a token's text and the character
that follows tell how it was spelled. So the fragments of a line follow the
gaps and lexemes that the line is made up of. Which style a token is due is
listed here group by group, in the words of the terminal. -/
namespace BasilLang.Colouring
open Lexer Lexing BasilLang.Partition Prompt

/-- A fragment as the terminal gets it: the words for its style, and its text. -/
def shown (fragment : Fragment) : String × String :=
  (fragment.style.description, fragment.text)

/-- The words that give a program its structure, and the logical operators. -/
def structuring : List TokenKind :=
  [.kwImport, .kwNamespace, .kwLet, .kwConst, .kwIf, .kwThen, .kwEnd, .kwFor, .kwTo, .kwWhile,
   .kwProc, .kwReturn, .kwAnd, .kwOr, .kwNot, .kwIs, .kwIsnt]

/-- The signs: operators and punctuation. -/
def signs : List TokenKind :=
  [.plus, .minus, .star, .slash, .percent, .less, .lessEq, .greater, .greaterEq, .assign,
   .leftParen, .rightParen, .comma, .semicolon, .colon]

/-- The style that a token is due. Every group of tokens has its own; among the
names those of the built-in operations stand out, and the others are left plain
like the signs. -/
inductive Due : TokenKind → String → String → Prop where
  | structuring {kind : TokenKind} {text : String} (member : kind ∈ structuring) :
      Due kind text "bold ansicyan"
  | constant {kind : TokenKind} {text : String} (member : kind ∈ [.kwTrue, .kwFalse, .kwNull]) :
      Due kind text "ansicyan"
  | number {text : String} : Due .number text "ansimagenta"
  | string {text : String} : Due .string text "ansigreen"
  | libraryPath {text : String} : Due .libraryPath text "ansiyellow"
  | builtin {text : String} (begins : "builtin.".toList <+: text.toList) :
      Due .ident text "bold ansiyellow"
  | name {text : String} (other : ¬ "builtin.".toList <+: text.toList) : Due .ident text ""
  | sign {kind : TokenKind} {text : String} (member : kind ∈ signs) : Due kind text ""

/-- Blanks are shown in one plain fragment, if there are any. -/
def shownBlanks (blanks : List Char) : List (String × String) :=
  if blanks = [] then [] else [("", String.ofList blanks)]

/-- What is shown of a line with another text in front of it, and its tokens:
blanks and lexemes follow each other, with one fragment for every token, which
shows the spelling of the token in the style it is due. At the end stand blanks,
and after them there may be a comment. -/
inductive Coloured (file : String) :
    List Char → Bool → List Char → List Token → List (String × String) → Prop where
  | last {before blanks : List Char} {afterImport : Bool}
      (areBlank : ∀ c ∈ blanks, isSeparator c = true) :
      Coloured file before afterImport blanks
        [⟨.eof, "", ⟨file, placeAfter (before ++ blanks)⟩⟩] (shownBlanks blanks)
  | comment {before blanks words : List Char} {afterImport : Bool}
      (areBlank : ∀ c ∈ blanks, isSeparator c = true) :
      Coloured file before afterImport (blanks ++ '#' :: words)
        [⟨.eof, "", ⟨file, placeAfter (before ++ (blanks ++ '#' :: words))⟩⟩]
        (shownBlanks blanks ++ [("italic ansigray", String.ofList ('#' :: words))])
  | token {before blanks spelling rest : List Char} {afterImport : Bool} {kind : TokenKind}
      {text style : String} {tokens : List Token} {fragments : List (String × String)}
      (areBlank : ∀ c ∈ blanks, isSeparator c = true)
      (spells : Spells afterImport kind text spelling) (due : Due kind text style)
      (others : Coloured file (before ++ blanks ++ spelling) (kind = .kwImport) rest tokens
        fragments) :
      Coloured file before afterImport (blanks ++ (spelling ++ rest))
        (⟨kind, text, ⟨file, placeAfter (before ++ blanks)⟩⟩ :: tokens)
        (shownBlanks blanks ++ (style, String.ofList spelling) :: fragments)

/-- Every token with a spelling is shown in the style that it is due. -/
theorem tokenStyle_due {afterImport : Bool} {kind : TokenKind} {text : String}
    {spelling : List Char} (spells : Spells afterImport kind text spelling) :
    Due kind text (tokenStyle kind text).description := by
  cases kind with
  | ident =>
    by_cases builtin : builtinBeginning.isPrefixOf text.toList = true
    · rw [tokenStyle, if_pos builtin]
      exact .builtin (List.isPrefixOf_iff_prefix.mp builtin)
    · rw [tokenStyle, if_neg builtin]
      exact .name fun begins => builtin (List.isPrefixOf_iff_prefix.mpr begins)
  | eof =>
    cases spells with
    | fixed spelled => cases spelled
  | number => exact .number
  | string => exact .string
  | libraryPath => exact .libraryPath
  | kwTrue | kwFalse | kwNull => exact .constant (by decide)
  | kwImport | kwNamespace | kwLet | kwConst | kwIf | kwThen | kwEnd | kwFor | kwTo | kwWhile
  | kwProc | kwReturn | kwAnd | kwOr | kwNot | kwIs | kwIsnt => exact .structuring (by decide)
  | _ => exact .sign (by decide)

section Gaps
variable {atEnd : Prop} {gap blanks : List Char}

private theorem gap_on_line (isGap : Gap atEnd gap) (oneLine : '\n' ∉ gap) :
    ∃ blanks, (∀ c ∈ blanks, isSeparator c = true) ∧
      (gap = blanks ∨ atEnd ∧ ∃ words, gap = blanks ++ '#' :: words) := by
  induction isGap with
  | nil => exact ⟨[], nofun, .inl rfl⟩
  | @blank c gap isBlank others ih =>
    obtain ⟨blanks, areBlank, rest⟩ := ih (List.not_mem_of_not_mem_cons oneLine)
    have separates : isSeparator c = true := by
      rcases isBlank with rfl | rfl | rfl | rfl <;> rfl
    refine ⟨c :: blanks, List.forall_mem_cons.mpr ⟨separates, areBlank⟩, ?_⟩
    rcases rest with rfl | ⟨ends, words, rfl⟩
    · exact .inl rfl
    · exact .inr ⟨ends, words, rfl⟩
  | comment => simp at oneLine
  | @lastComment words ends _ => exact ⟨[], nofun, .inr ⟨ends, words, rfl⟩⟩

private theorem no_comment_sign (areBlank : ∀ c ∈ blanks, isSeparator c = true) :
    blanks.all (· != '#') = true := by
  refine List.all_eq_true.mpr fun c member => ?_
  rw [bne_iff_ne]
  rintro rfl
  exact absurd (areBlank _ member) (by decide)

private theorem gapFragments_blanks (areBlank : ∀ c ∈ blanks, isSeparator c = true) :
    (gapFragments blanks).map shown = shownBlanks blanks := by
  obtain ⟨taken, left⟩ := span_ends [] (no_comment_sign areBlank) nofun
  rw [List.append_nil] at taken left
  by_cases empty : blanks = [] <;>
    simp [gapFragments, shownBlanks, shown, Style.description, taken, left, empty]

private theorem gapFragments_comment (areBlank : ∀ c ∈ blanks, isSeparator c = true)
    (words : List Char) : (gapFragments (blanks ++ '#' :: words)).map shown =
      shownBlanks blanks ++ [("italic ansigray", String.ofList ('#' :: words))] := by
  obtain ⟨taken, left⟩ := span_ends ('#' :: words) (no_comment_sign areBlank) (by rintro c ⟨⟩; rfl)
  by_cases empty : blanks = [] <;>
    simp [gapFragments, shownBlanks, shown, Style.description, taken, left, empty]

end Gaps

section Reaches
variable {afterImport : Bool} {kind : TokenKind} {text : String} {spelling rest : List Char}

private theorem quotationLength_quoted {content inner : List Char} (quoted : Quoted content inner)
    (rest : List Char) : quotationLength (inner ++ '"' :: rest) = inner.length + 1 := by
  induction quoted with
  | nil => rfl
  | @plain c content inner noQuote noBackslash others ih =>
    rw [List.cons_append, List.length_cons, ← ih, quotationLength.eq_def]
    split <;> simp_all
  | @escape letter c content inner known others ih =>
    rw [List.cons_append, List.cons_append, List.length_cons, List.length_cons, quotationLength, ih]

private theorem tokenLength_fixed (spelled : kind.spelling? = some text) (loc : Loc)
    (cs : List Char) : tokenLength ⟨kind, text, loc⟩ cs = text.length := by
  cases kind <;> first | rfl | cases spelled

/-- A token reaches as far as it was spelled. -/
theorem tokenLength_spells (spells : Spells afterImport kind text spelling) (ends : Ends kind rest)
    (loc : Loc) : tokenLength ⟨kind, text, loc⟩ (spelling ++ rest) = spelling.length := by
  cases spells with
  | fixed spelled => rw [tokenLength_fixed spelled, String.length_toList]
  | path => exact String.length_toList.symm
  | @whole digits isWhole =>
    have noLetter : rest.head? ≠ some 'f' := by
      intro letter
      have outside := ((ends 'f' letter).1 rfl).1
      exact absurd outside (by decide)
    simp [tokenLength, noLetter]
  | @fraction digits part isWhole isPart =>
    have marked : ((digits ++ '.' :: part ++ ['f'] ++ rest).drop
        (String.ofList (digits ++ '.' :: part)).length).head? = some 'f' := by
      rw [List.append_assoc, ← String.length_toList, String.toList_ofList, List.drop_left]
      rfl
    simp only [tokenLength, if_pos marked]
    rw [← String.length_toList, String.toList_ofList]
    simp only [List.length_append, List.length_singleton]
  | @library name directly nonempty isWord => simp [tokenLength]
  | @string content inner decodes =>
    have closes := quotationLength_quoted decodes rest
    simpa [tokenLength] using closes

end Reaches

section Lines
variable {file : String} {before line : List Char} {afterImport : Bool} {tokens : List Token}
  {fragments : List (String × String)}

private theorem column_placeAfter (oneLine : '\n' ∉ before) :
    (placeAfter before).column - 1 = before.length := by
  have all : before.reverse.all (· != '\n') = true := by
    refine List.all_eq_true.mpr fun c member => bne_iff_ne.mpr ?_
    rintro rfl
    exact oneLine (List.mem_reverse.mp member)
  have taken := (span_ends [] all nofun).1
  rw [List.append_nil] at taken
  simp [placeAfter, taken]

private theorem fragmentsFrom_lexeme {gap spelling rest : List Char} {kind : TokenKind}
    {text : String} (oneLine : '\n' ∉ before ++ gap)
    (spells : Spells afterImport kind text spelling) (ends : Ends kind rest) :
    fragmentsFrom (before ++ (gap ++ (spelling ++ rest))) before.length
        (⟨kind, text, ⟨file, placeAfter (before ++ gap)⟩⟩ :: tokens) =
      gapFragments gap ++ ⟨tokenStyle kind text, String.ofList spelling⟩ ::
        fragmentsFrom (before ++ gap ++ spelling ++ rest) (before ++ gap ++ spelling).length
          tokens := by
  have inside : kind ≠ .eof := by
    rintro rfl
    cases spells with
    | fixed spelled => cases spelled
  have reach := tokenLength_spells spells ends ⟨file, placeAfter (before ++ gap)⟩
  have later : ¬ (before ++ gap).length < before.length := by
    simp
  have stop : (before ++ gap).length + spelling.length = (before ++ gap ++ spelling).length :=
    List.length_append.symm
  rw [fragmentsFrom, ← List.append_assoc]
  simp only [column_placeAfter oneLine, inside, later, decide_false, Bool.or_self,
    Bool.false_eq_true, if_false, List.drop_left, List.take_left, reach, stop]
  rw [← List.append_assoc, List.take_left, List.drop_left]

/-- A line that is made up of gaps and lexemes is coloured by them. -/
theorem coloured_of_partitioned {answer : Except Failure (List Token)}
    (parts : Partitioned file before afterImport line answer) (oneLine : '\n' ∉ before ++ line)
    (lexed : answer = .ok tokens) :
    Coloured file before afterImport line tokens
      ((fragmentsFrom (before ++ line) before.length tokens).map shown) := by
  induction parts generalizing tokens with
  | @last before gap afterImport isGap =>
    obtain ⟨blanks, areBlank, shape⟩ :=
      gap_on_line isGap fun member => oneLine (List.mem_append_right _ member)
    obtain rfl := (Except.ok.inj lexed).symm
    simp only [fragmentsFrom, decide_true, Bool.true_or, if_true, List.drop_left]
    rcases shape with rfl | ⟨-, words, rfl⟩
    · rw [gapFragments_blanks areBlank]
      exact .last areBlank
    · rw [gapFragments_comment areBlank]
      exact .comment areBlank
  | fault => cases lexed
  | @lexeme before gap spelling rest afterImport kind text answer isGap spells ends others ih =>
    cases answer with
    | error stop => cases lexed
    | ok tokens =>
      obtain rfl := (Except.ok.inj lexed).symm
      rw [← List.append_assoc, ← List.append_assoc] at oneLine
      have oneGap : '\n' ∉ before ++ gap := fun member =>
        oneLine (List.mem_append_left _ (List.mem_append_left _ member))
      obtain ⟨blanks, areBlank, rfl | ⟨impossible, -⟩⟩ :=
        gap_on_line isGap fun member => oneGap (List.mem_append_right _ member)
      · dsimp only
        rw [fragmentsFrom_lexeme oneGap spells ends, List.map_append, gapFragments_blanks areBlank]
        exact .token areBlank spells (tokenStyle_due spells) (ih oneLine rfl)
      · exact impossible.elim

private theorem shownBlanks_text (blanks : List Char) :
    (shownBlanks blanks).flatMap (·.2.toList) = blanks := by
  by_cases empty : blanks = []
  · simp [shownBlanks, empty]
  · simp [shownBlanks, empty]

private theorem shownBlanks_visible (blanks : List Char) :
    ∀ fragment ∈ shownBlanks blanks, fragment.2 ≠ "" := by
  by_cases empty : blanks = []
  · simp [shownBlanks, empty]
  · simp [shownBlanks, empty]

private theorem Coloured.text (coloured : Coloured file before afterImport line tokens fragments) :
    fragments.flatMap (·.2.toList) = line := by
  induction coloured with
  | last => exact shownBlanks_text _
  | comment => simp [shownBlanks_text]
  | token _ _ _ _ ih => simp [shownBlanks_text, ih]

private theorem Coloured.visible
    (coloured : Coloured file before afterImport line tokens fragments) :
    ∀ fragment ∈ fragments, fragment.2 ≠ "" := by
  induction coloured with
  | last => exact shownBlanks_visible _
  | comment =>
    refine List.forall_mem_append.mpr ⟨shownBlanks_visible _, List.forall_mem_singleton.mpr ?_⟩
    simp
  | token _ spells _ _ ih =>
    obtain ⟨c, more, rfl, -⟩ := spells_visible spells
    refine List.forall_mem_append.mpr ⟨shownBlanks_visible _, List.forall_mem_cons.mpr ⟨?_, ih⟩⟩
    simp

private theorem coloured_of_tokenize (oneLine : '\n' ∉ line)
    (lexed : tokenize (String.ofList line) "<input>" = .ok tokens) :
    Coloured "<input>" [] false line tokens ((fragmentsFrom line 0 tokens).map shown) := by
  have parts := source_partitioned (String.ofList line) "<input>"
  rw [String.toList_ofList] at parts
  exact coloured_of_partitioned parts oneLine lexed

private theorem highlightLine_lexed (oneLine : '\n' ∉ line) (filled : line ≠ [])
    (lexed : tokenize (String.ofList line) "<input>" = .ok tokens) :
    highlightLine line = fragmentsFrom line 0 tokens := by
  have shown := (coloured_of_tokenize oneLine lexed).text
  have nonempty : line.isEmpty = false := List.isEmpty_eq_false_iff.mpr filled
  simp only [highlightLine, nonempty, Bool.false_eq_true, if_false, lexed]
  cases found : fragmentsFrom line 0 tokens with
  | nil =>
    rw [found] at shown
    exact absurd shown.symm filled
  | cons fragment fragments => rfl

private theorem highlightLine_fault {failure : Failure} (filled : line ≠ [])
    (fails : tokenize (String.ofList line) "<input>" = .error failure) :
    highlightLine line = [⟨.plain, String.ofList line⟩] := by
  have nonempty : line.isEmpty = false := List.isEmpty_eq_false_iff.mpr filled
  simp only [highlightLine, nonempty, Bool.false_eq_true, if_false, fails]

end Lines

/-- Colouring a line shows the line, and nothing empty unless the line is. If
the line can be lexed it shows one fragment for each token, in order, with the
style that the token is due and with its spelling; in between stand only
blanks, and at the end there may be a comment. -/
theorem highlight_shows_tokens (line : List Char) (oneLine : '\n' ∉ line) :
    (highlightLine line).flatMap (·.text.toList) = line ∧
      (line ≠ [] → ∀ fragment ∈ highlightLine line, fragment.text ≠ "") ∧
      ∀ tokens, tokenize (String.ofList line) "<input>" = .ok tokens →
        ∃ fragments, Coloured "<input>" [] false line tokens fragments ∧
          (highlightLine line).map shown = if line = [] then [("", "")] else fragments := by
  by_cases empty : line = []
  · subst empty
    exact ⟨rfl, fun filled => absurd rfl filled, fun tokens lexed =>
      ⟨_, coloured_of_tokenize oneLine lexed, rfl⟩⟩
  · simp only [if_neg empty]
    cases lexed : tokenize (String.ofList line) "<input>" with
    | error failure =>
      rw [highlightLine_fault empty lexed]
      exact ⟨by simp, by simp, nofun⟩
    | ok tokens =>
      have coloured := coloured_of_tokenize oneLine lexed
      rw [highlightLine_lexed oneLine empty lexed]
      refine ⟨?_, fun _ fragment member => ?_, fun tokens' same => ?_⟩
      · simpa only [List.flatMap_map, shown] using coloured.text
      · exact coloured.visible (shown fragment) (List.mem_map_of_mem member)
      · obtain rfl := Except.ok.inj same
        exact ⟨_, coloured, rfl⟩

/-- A line in which the texts of three tokens are shorter than their spellings,
with a comment sign inside a string. -/
def busyLine : List Char :=
  "import <std> let s = builtin.f(\"#\\n\", not true, 1.50f)\t # A note.".toList

/-- What is shown of the busy line. -/
def busyFragments : List (String × String) :=
  [("bold ansicyan", "import"), ("", " "), ("ansiyellow", "<std>"), ("", " "),
   ("bold ansicyan", "let"), ("", " "), ("", "s"), ("", " "), ("", "="), ("", " "),
   ("bold ansiyellow", "builtin.f"), ("", "("), ("ansigreen", "\"#\\n\""), ("", ","), ("", " "),
   ("bold ansicyan", "not"), ("", " "), ("ansicyan", "true"), ("", ","), ("", " "),
   ("ansimagenta", "1.50f"), ("", ")"), ("", "\t "), ("italic ansigray", "# A note.")]

theorem busy_line_is_coloured :
    (tokenize (String.ofList busyLine) "<input>").toBool = true ∧
      (highlightLine busyLine).flatMap (·.text.toList) = busyLine ∧
      (highlightLine busyLine).map shown = busyFragments ∧
      ∃ tokens, Coloured "<input>" [] false busyLine tokens busyFragments := by
  have lexed : (tokenize (String.ofList busyLine) "<input>").toBool = true := by
    decide +kernel
  have oneLine : '\n' ∉ busyLine := by
    decide +kernel
  have fragments : (highlightLine busyLine).map shown = busyFragments := by
    decide +kernel
  obtain ⟨whole, -, coloured⟩ := highlight_shows_tokens busyLine oneLine
  refine ⟨lexed, whole, fragments, ?_⟩
  cases read : tokenize (String.ofList busyLine) "<input>" with
  | error failure =>
    rw [read] at lexed
    cases lexed
  | ok tokens =>
    obtain ⟨due, coloured, same⟩ := coloured tokens read
    rw [if_neg (by decide +kernel), fragments] at same
    rw [same]
    exact ⟨tokens, coloured⟩

end BasilLang.Colouring
