import BasilLang.Proofs.Partition

/-! Lexing undoes spelling. Every token has a spelling of its own, and the
spellings of the tokens of a source, with a blank between each two, are read as
the same tokens. A spelling is recognised wherever a blank or the end of the
text follows it; only after `import` it matters that a bracket opens the path
of a library, and there the lexer has let nothing else begin with one. -/
namespace BasilLang

/-- How a token with this text is written: a string between quotes with its
escapes, a number with a fraction with the letter that ends it, the path of a
library between its brackets. -/
def TokenKind.written (kind : TokenKind) (text : String) : String :=
  match kind with
  | .string => Text.quote text
  | .number => if text.toList.contains '.' then text ++ "f" else text
  | .libraryPath => "<" ++ text ++ ">"
  | _ => text

namespace Respelling
open Lexer Lexing BasilLang.Partition Placement

/-- The tokens written one after the other with single blanks between them. The
end of input is not written. -/
def written (tokens : List Token) : String :=
  " ".intercalate
    ((tokens.filter (·.kind ≠ .eof)).map fun token => token.kind.written token.text)

/-- The kinds and texts of tokens, which leaves their places out. -/
def kindsAndTexts (tokens : List Token) : List (TokenKind × String) :=
  tokens.map fun token => (token.kind, token.text)

section Spellings
variable {afterImport : Bool} {kind : TokenKind} {text : String} {spelling rest : List Char}

private theorem bracket_compares {lexeme : Lexeme} {cs : List Char}
    (cuts : scan false '<' cs = .lexeme lexeme rest) :
    lexeme.kind = .less ∨ lexeme.kind = .lessEq := by
  change scanSymbol '<' cs = _ at cuts
  unfold scanSymbol at cuts
  have shorter : beginsWith ('<' :: cs) .less = true := rfl
  cases longer : beginsWith ('<' :: cs) .lessEq with
  | true =>
    rw [TokenKind.symbols, List.find?_cons_of_pos longer] at cuts
    cases cuts
    exact .inr rfl
  | false =>
    have found : TokenKind.symbols.find? (beginsWith ('<' :: cs)) = some .less := by
      rw [TokenKind.symbols, List.find?_cons_of_neg (by simp [longer])]
      rfl
    rw [found] at cuts
    cases cuts
    exact .inl rfl

private theorem lexes_after_import {follow : List Char → Prop} (ends : follow [])
    (lexes : Lexes false follow spelling kind text) (notLess : kind ≠ .less)
    (notLessEq : kind ≠ .lessEq) (afterImport : Bool) :
    Lexes afterImport follow spelling kind text := by
  obtain ⟨oneLine, c, more, rfl, cuts⟩ := lexes
  have noBracket : c ≠ '<' := by
    rintro rfl
    rcases bracket_compares (cuts [] ends) with isLess | isLessEq
    · exact notLess isLess
    · exact notLessEq isLessEq
  refine ⟨oneLine, c, more, rfl, fun rest follows => ?_⟩
  rw [← cuts rest follows]
  simp [scan, noBracket]

private theorem keyword_or_symbol (kind : TokenKind) (fixed : kind.spelling? ≠ none) :
    kind ∈ TokenKind.keywords ∨ kind ∈ TokenKind.symbols := by
  revert fixed
  cases kind <;> decide

private theorem fixed_lexes (spelled : kind.spelling? = some text) (notLess : kind ≠ .less)
    (notLessEq : kind ≠ .lessEq) : Lexes afterImport Breaks text.toList kind text := by
  rcases keyword_or_symbol kind (by simp [spelled]) with reserved | isMark
  · exact keyword_lexes afterImport reserved spelled
  · refine lexes_after_import breaks_nil ?_ notLess notLessEq afterImport
    by_cases isGreater : kind = .greater
    · subst isGreater
      exact operator_lexes .greater spelled
    · exact lexes_of_anywhere (mark_lexes isMark notLess isGreater spelled)

private theorem less_lexes (spelled : kind.spelling? = some text)
    (compares : kind = .less ∨ kind = .lessEq) : Lexes false Breaks text.toList kind text := by
  rcases compares with rfl | rfl
  · exact operator_lexes .less spelled
  · exact operator_lexes .lessEq spelled

private theorem library_lexes {name : List Char} (nonempty : name ≠ [])
    (isWord : ∀ c ∈ name, isWordChar c = true) :
    Lexes true Anything ('<' :: name ++ ['>']) .libraryPath (String.ofList name) := by
  have all : name.all isWordChar = true := List.all_eq_true.mpr isWord
  have oneLine : '\n' ∉ name := fun member => absurd (isWord _ member) (by decide)
  refine ⟨by simp [oneLine], '<', name ++ ['>'], rfl, fun rest _ => ?_⟩
  obtain ⟨taken, left⟩ := span_ends ('>' :: rest) all (by rintro c ⟨⟩; rfl)
  obtain ⟨first, others, rfl⟩ := List.exists_cons_of_ne_nil nonempty
  have scanned : scan true '<' (first :: others ++ ['>'] ++ rest) =
      scanLibraryPath (first :: others ++ '>' :: rest) := by
    rw [List.append_assoc]
    rfl
  rw [scanned, scanLibraryPath, taken, left]
  rfl

private theorem numeral_lexes {digits : List Char} (numeral : Text.isNumeral digits = true) :
    Lexes afterImport Breaks (TokenKind.number.written (String.ofList digits)).toList .number
      (String.ofList digits) := by
  have readable : Text.isNumeral (String.ofList digits).toList = true := by
    rwa [String.toList_ofList]
  exact lexes_after_import breaks_nil (number_lexes readable) nofun nofun afterImport

private theorem written_lexes (spells : Spells afterImport kind text spelling)
    (noBracket : afterImport = true → kind ≠ .less ∧ kind ≠ .lessEq) :
    Lexes afterImport Breaks (kind.written text).toList kind text := by
  cases spells with
  | fixed spelled =>
    have plain : kind.written text = text := by cases kind <;> first | rfl | cases spelled
    rw [plain]
    by_cases compares : kind = .less ∨ kind = .lessEq
    · cases afterImport with
      | false => exact less_lexes spelled compares
      | true => exact absurd compares (by simpa using noBracket rfl)
    · rw [not_or] at compares
      exact fixed_lexes spelled compares.1 compares.2
  | path isName =>
    have lexes := name_lexes afterImport isName
    rwa [text_of_text] at lexes
  | whole isWhole =>
    exact numeral_lexes (numeral_of_digits isWhole.1 (List.all_eq_true.mpr isWhole.2)).1
  | fraction isWhole isPart =>
    exact numeral_lexes ((numeral_of_digits isWhole.1 (List.all_eq_true.mpr isWhole.2)).2 _
      isPart.1 (List.all_eq_true.mpr isPart.2))
  | library directly nonempty isWord =>
    subst directly
    have lexes : Lexes true Breaks _ _ _ := lexes_of_anywhere (library_lexes nonempty isWord)
    simpa [TokenKind.written] using lexes
  | string => exact lexes_of_anywhere (quote_lexes afterImport _)

private theorem no_comparison {c : Char} {cs : List Char}
    (cuts : scan true c cs = .lexeme ⟨kind, text, spelling⟩ rest) :
    kind ≠ .less ∧ kind ≠ .lessEq := by
  obtain ⟨faithful, -, splits⟩ := scan_lexeme cuts
  by_cases bracket : c = '<'
  · subst bracket
    change scanLibraryPath cs = _ at cuts
    unfold scanLibraryPath at cuts
    dsimp only at cuts
    split at cuts
    · cases cuts
      exact ⟨nofun, nofun⟩
    · cases cuts
  · constructor
    · rintro rfl
      rw [(faithful.fixed "<" rfl).2] at splits
      exact bracket (List.cons.inj splits).1
    · rintro rfl
      rw [(faithful.fixed "<=" rfl).2] at splits
      exact bracket (List.cons.inj splits).1

/-- What the lexer cuts off is recognised in the way it is written, too. -/
theorem cut_written {c : Char} {cs : List Char}
    (cuts : scan afterImport c cs = .lexeme ⟨kind, text, spelling⟩ rest) :
    Lexes afterImport Breaks (kind.written text).toList kind text := by
  have right := scan_right afterImport c cs
  rw [cuts] at right
  refine written_lexes right.2.1 ?_
  rintro rfl
  exact no_comparison cuts

end Spellings

section Texts
variable {file : String} {spot : Spot} {token : Token} {tokens : List Token}

private theorem written_nothing (ended : tokens.filter (·.kind ≠ .eof) = []) :
    (written tokens).toList = [] := by
  rw [written, ended]
  rfl

private theorem written_cons (notEof : token.kind ≠ .eof) (tokens : List Token) :
    (written (token :: tokens)).toList = (token.kind.written token.text).toList ++
      if tokens.filter (·.kind ≠ .eof) = [] then [] else ' ' :: (written tokens).toList := by
  have kept : (token :: tokens).filter (·.kind ≠ .eof) =
      token :: tokens.filter (·.kind ≠ .eof) := List.filter_cons_of_pos (by simpa using notEof)
  rw [written, kept, List.map_cons]
  split
  · next ended =>
    rw [ended, List.map_nil, String.intercalate_singleton, List.append_nil]
  · next more =>
    rw [String.intercalate_cons_of_ne_nil (by simpa using more), String.append_assoc,
      String.toList_append, String.toList_append]
    rfl

private theorem reads_written (laid : Laid file spot tokens) (file' : String) (pos : Pos) :
    ∃ tokens' afterImport last,
      Reads file' ⟨spot.afterImport, pos, (written tokens).toList⟩ tokens'
        ⟨afterImport, last, []⟩ ∧
      kindsAndTexts tokens = kindsAndTexts tokens' ++ [(.eof, "")] := by
  induction laid generalizing pos with
  | last => exact ⟨[], _, _, .done _, rfl⟩
  | gap _ _ ih => exact ih pos
  | @lexeme afterImport place c more rest kind text tokens cuts others ih =>
    have notEof : kind ≠ .eof := (scan_lexeme cuts).faithful.notEof
    have lexes := cut_written cuts
    have here : ∀ following, Breaks following →
        Reads file' ⟨afterImport, pos, (kind.written text).toList ++ following⟩
          [⟨kind, text, ⟨file', pos⟩⟩]
          ⟨kind = .kwImport, pos.after (kind.written text).toList, following⟩ :=
      fun following breaks => reads_lexeme lexes breaks file' pos
    rw [written_cons notEof]
    dsimp only
    split
    · next ended =>
      obtain ⟨tokens', ai, last, read, same⟩ := ih (pos.after (kind.written text).toList)
      rw [written_nothing ended] at read
      exact ⟨_, ai, last, reads_append (here [] breaks_nil) read, congrArg (_ :: ·) same⟩
    · obtain ⟨tokens', ai, last, read, same⟩ :=
        ih ((pos.after (kind.written text).toList).next ' ')
      have after := reads_append (here _ (breaks_cons rfl _)) (.blank rfl read)
      exact ⟨_, ai, last, after, congrArg (_ :: ·) same⟩

end Texts

/-- Lexing undoes spelling. If the lexer accepts a source, it accepts its tokens
written one after the other with single blanks between them, and reads tokens of
the same kinds and texts; and whatever a text is, its quotation is read as one
string, which is that text. -/
theorem written_tokens_lex_again :
    (∀ source file tokens, tokenize source file = .ok tokens → ∀ file', ∃ tokens',
      tokenize (written tokens) file' = .ok tokens' ∧
        kindsAndTexts tokens' = kindsAndTexts tokens) ∧
    ∀ text file, ∃ last, tokenize (Text.quote text) file =
      .ok [⟨.string, text, Loc.start file⟩, ⟨.eof, "", ⟨file, last⟩⟩] := by
  constructor
  · intro source file tokens read file'
    obtain ⟨tokens', afterImport, last, again, same⟩ :=
      reads_written (tokenize_laid read) file' .first
    refine ⟨_, tokenize_of_reads again, ?_⟩
    rw [same]
    simp [kindsAndTexts]
  · intro text file
    have read : Reads file ⟨false, .first, (Text.quote text).toList ++ []⟩ _ _ :=
      reads_lexeme (quote_lexes false text) trivial file .first
    rw [List.append_nil] at read
    exact ⟨_, tokenize_of_reads read⟩

/-- A source without a blank that is not needed. -/
def closelyWritten : String :=
  "import<std>\nlet s=\"a\\'\tb\"# A note.\nif x.y<=2.50f then print(-s)end"

/-- Its tokens with single blanks between them. -/
def widelyWritten : String :=
  "import <std> let s = \"a'\\tb\" if x.y <= 2.50f then print ( - s ) end"

theorem close_source_is_written_widely :
    ∃ tokens, tokenize closelyWritten "close" = .ok tokens ∧ written tokens = widelyWritten ∧
      ∃ tokens', tokenize widelyWritten "wide" = .ok tokens' ∧
        kindsAndTexts tokens' = kindsAndTexts tokens := by
  have spelled : (tokenize closelyWritten "close").toOption.map written = some widelyWritten := by
    decide +kernel
  cases read : tokenize closelyWritten "close" with
  | error failure => simp [read, Except.toOption] at spelled
  | ok tokens =>
    rw [read] at spelled
    have wide : written tokens = widelyWritten := Option.some.inj spelled
    obtain ⟨tokens', again, same⟩ := written_tokens_lex_again.1 _ _ tokens read "wide"
    rw [wide] at again
    exact ⟨tokens, rfl, wide, tokens', again, same⟩

end Respelling

end BasilLang
