import BasilLang.Proofs.Grammar
import BasilLang.Proofs.Lexing

/-! Where the tokens of a source stand. The lexer cuts the text into gaps and
lexemes without losing a character, so every token has its own stretch of the
text, at the place that the token names. Hence no two tokens share a place, and
whether a parenthesis touches the name before it can be told from the places
alone. -/
namespace BasilLang.Placement
open Lexer Lexing BasilLang.Parser

/-- What a lexeme says about its spelling: a kind with one spelling is spelled
so, and a name is spelled by its own text, on one line. Names and numbers are
what they should be. -/
structure Faithful (lexeme : Lexeme) : Prop where
  notEof : lexeme.kind ≠ .eof
  fixed : ∀ text, lexeme.kind.spelling? = some text →
    lexeme.text = text ∧ lexeme.spelling = text.toList
  named : lexeme.kind = .ident →
    lexeme.spelling = lexeme.text.toList ∧ '\n' ∉ lexeme.spelling
  name : lexeme.kind = .ident → (Path.ofText lexeme.text).isName = true
  numeral : lexeme.kind = .number → Text.isNumeral lexeme.text.toList = true

/-- The lexeme is faithful, it is not empty, and it is cut off the front of the
text without a loss. -/
structure CutsOff (text : List Char) (lexeme : Lexeme) (rest : List Char) : Prop where
  faithful : Faithful lexeme
  nonempty : lexeme.spelling ≠ []
  splits : text = lexeme.spelling ++ rest

section Scanning
variable {c : Char} {cs rest : List Char} {lexeme : Lexeme}

private theorem faithful_of_free (free : lexeme.kind.spelling? = none) (notEof : lexeme.kind ≠ .eof)
    (notName : lexeme.kind ≠ .ident)
    (numeral : lexeme.kind = .number → Text.isNumeral lexeme.text.toList = true) :
    Faithful lexeme where
  notEof := notEof
  fixed text spelled := by simp [free] at spelled
  named isName := absurd isName notName
  name isName := absurd isName notName
  numeral := numeral

private theorem quotation_splits {text spelling : List Char}
    (read : Text.readQuotation cs = .closed text spelling rest) : cs = spelling ++ rest := by
  fun_induction Text.readQuotation cs generalizing text spelling rest with
  | case1 | case3 => cases read
  | case2 => cases read; rfl
  | case4 letter cs c unescaped ih =>
    cases inner : Text.readQuotation cs with
    | closed text' spelling' rest' =>
      rw [inner] at read
      cases read
      simp [ih inner]
    | unclosed | unknownEscape => rw [inner] at read; cases read
  | case5 => cases read
  | case6 c cs _ _ _ ih =>
    cases inner : Text.readQuotation cs with
    | closed text' spelling' rest' =>
      rw [inner] at read
      cases read
      simp [ih inner]
    | unclosed | unknownEscape => rw [inner] at read; cases read

private theorem string_scanned (cuts : scanString cs = .lexeme lexeme rest) :
    CutsOff ('"' :: cs) lexeme rest := by
  unfold scanString at cuts
  split at cuts
  · next text spelling left read =>
    cases cuts
    exact ⟨faithful_of_free rfl nofun nofun nofun, by simp, by simp [quotation_splits read]⟩
  · cases cuts
  · cases cuts

private theorem number_ended {text spelling left : List Char}
    (numeral : Text.isNumeral text = true)
    (cuts : endNumber text spelling left = .lexeme lexeme rest) :
    Faithful lexeme ∧ lexeme.spelling = spelling ∧ rest = left := by
  have same : Text.isNumeral (String.ofList text).toList = true := by simpa using numeral
  unfold endNumber at cuts
  split at cuts
  · cases cuts
    exact ⟨faithful_of_free rfl nofun nofun fun _ => same, rfl, rfl⟩
  · split at cuts
    · cases cuts
    · cases cuts
      exact ⟨faithful_of_free rfl nofun nofun fun _ => same, rfl, rfl⟩

private theorem fraction_splits {digits : List Char} (found : fraction? cs = some (digits, rest)) :
    cs = '.' :: (digits ++ rest) ∧ digits ≠ [] ∧ digits.all Text.isDigit = true := by
  unfold fraction? at found
  split at found
  · dsimp only at found
    split at found <;> cases found
    next filled =>
      rw [List.takeWhile_append_dropWhile]
      exact ⟨rfl, by simpa using filled, List.all_takeWhile⟩
  · cases found

private theorem number_scanned (digit : cs.takeWhile Text.isDigit ≠ [])
    (cuts : scanNumber cs = .lexeme lexeme rest) : CutsOff cs lexeme rest := by
  have halves : cs = cs.takeWhile Text.isDigit ++ cs.dropWhile Text.isDigit :=
    List.takeWhile_append_dropWhile.symm
  obtain ⟨whole, pointed⟩ := numeral_of_digits digit List.all_takeWhile
  unfold scanNumber at cuts
  dsimp only at cuts
  split at cuts
  · obtain ⟨faithful, spelled, rfl⟩ := number_ended whole cuts
    rw [← spelled] at digit halves
    exact ⟨faithful, digit, halves⟩
  · next digits left found =>
    obtain ⟨splits, filled, all⟩ := fraction_splits found
    split at cuts
    · next left =>
      obtain ⟨faithful, spelled, rfl⟩ := number_ended (pointed digits filled all) cuts
      rw [splits] at halves
      constructor
      · exact faithful
      · simp [spelled]
      · rw [spelled]
        simpa using halves
    · cases cuts

private theorem keyword_spelled {word : String} {kind : TokenKind}
    (found : TokenKind.keyword? word = some kind) :
    kind.spelling? = some word ∧ kind ≠ .ident ∧ kind ≠ .number := by
  have spelled := List.find?_some found
  refine ⟨by simpa using spelled, ?_, ?_⟩
  · rintro rfl
    cases spelled
  · rintro rfl
    cases spelled

private theorem word_scanned (starts : isWordStart c = true) (noDigit : Text.isDigit c = false)
    (cuts : scanWord (c :: cs) = .lexeme lexeme rest) : CutsOff (c :: cs) lexeme rest := by
  unfold scanWord at cuts
  dsimp only at cuts
  split at cuts
  · cases cuts
  · next whole =>
    cases cuts
    refine ⟨?_, by simp [word_char_of_start starts],
      by simp only [List.takeWhile_append_dropWhile]⟩
    have oneLine : '\n' ∉ (c :: cs).takeWhile fun c => isWordChar c || c == '.' := by
      intro member
      have inName := List.all_eq_true.mp List.all_takeWhile _ member
      simp [show isWordChar '\n' = false from rfl] at inName
    cases found : TokenKind.keyword?
      (String.ofList ((c :: cs).takeWhile fun c => isWordChar c || c == '.'))
    case none =>
      have begins : (c :: cs).takeWhile (fun c => isWordChar c || c == '.') =
          c :: cs.takeWhile fun c => isWordChar c || c == '.' :=
        List.takeWhile_cons_of_pos (by simp [word_char_of_start starts])
      have all : ((c :: cs).takeWhile fun c => isWordChar c || c == '.').all
          (fun c => isWordChar c || c == '.') = true := List.all_takeWhile
      refine ⟨nofun, nofun, fun _ => ⟨by simp, oneLine⟩, fun _ => ?_, nofun⟩
      rw [begins] at all whole found ⊢
      exact name_of_word starts noDigit all whole found
    case some kind =>
      obtain ⟨spelled, notName, notNumber⟩ := keyword_spelled found
      refine ⟨?_, fun text same => ?_, fun isName => absurd isName notName,
        fun isName => absurd isName notName, fun isNumber => absurd isNumber notNumber⟩
      · rintro rfl
        cases spelled
      · rw [Option.getD_some, spelled] at same
        cases same
        exact ⟨rfl, by simp⟩

private theorem library_scanned (cuts : scanLibraryPath cs = .lexeme lexeme rest) :
    CutsOff ('<' :: cs) lexeme rest := by
  unfold scanLibraryPath at cuts
  dsimp only at cuts
  split at cuts
  · next first others left taken dropped =>
    cases cuts
    refine ⟨faithful_of_free rfl nofun nofun nofun, by simp, ?_⟩
    have halves := List.takeWhile_append_dropWhile (p := isWordChar) (l := cs)
    rw [dropped] at halves
    simp [halves]
  · cases cuts

private theorem symbols_spelled : ∀ kind ∈ TokenKind.symbols,
    kind ≠ .eof ∧ kind ≠ .ident ∧ kind ≠ .number ∧ kind.spelling? ≠ some "" := by
  decide

private theorem symbol_scanned (cuts : scanSymbol c cs = .lexeme lexeme rest) :
    CutsOff (c :: cs) lexeme rest := by
  unfold scanSymbol at cuts
  split at cuts
  · next kind found =>
    have begins := List.find?_some found
    obtain ⟨notEof, notName, notNumber, notEmpty⟩ :=
      symbols_spelled kind (List.mem_of_find?_eq_some found)
    cases spelled : kind.spelling? with
    | none => simp [beginsWith, spelled] at begins
    | some text =>
      simp only [beginsWith, spelled, List.isPrefixOf_iff_prefix] at begins
      obtain ⟨left, split⟩ := begins
      simp only [spelled, Option.getD_some, Scan.lexeme.injEq] at cuts
      obtain ⟨rfl, rfl⟩ := cuts
      refine ⟨⟨notEof, fun other same => ?_, fun isName => absurd isName notName,
        fun isName => absurd isName notName, fun isNumber => absurd isNumber notNumber⟩, ?_, ?_⟩
      · rw [spelled] at same
        cases same
        exact ⟨rfl, rfl⟩
      · intro empty
        rw [spelled, String.toList_eq_nil_iff.mp empty] at notEmpty
        exact notEmpty rfl
      · rw [← split, ← String.length_toList, List.drop_left]
  · cases cuts

/-- A lexeme is cut off the front of the text. -/
theorem scan_lexeme {afterImport : Bool} (cuts : scan afterImport c cs = .lexeme lexeme rest) :
    CutsOff (c :: cs) lexeme rest := by
  unfold scan at cuts
  split at cuts
  · cases cuts
  split at cuts
  · cases cuts
  split at cuts
  · next quote =>
    rw [quote]
    exact string_scanned cuts
  split at cuts
  · next digit => exact number_scanned (by simp [digit]) cuts
  next noDigit =>
  split at cuts
  · next starts => exact word_scanned starts (Bool.not_eq_true _ ▸ noDigit) cuts
  split at cuts
  · next bracket =>
    obtain ⟨rfl, -⟩ : c = '<' ∧ afterImport = true := by simpa using bracket
    exact library_scanned cuts
  · exact symbol_scanned cuts

section Gaps
variable {spelling : List Char}

private theorem string_no_gap : scanString cs ≠ .gap spelling rest := by
  unfold scanString
  split <;> exact nofun

private theorem end_number_no_gap {text whole left : List Char} :
    endNumber text whole left ≠ .gap spelling rest := by
  unfold endNumber
  split
  · exact nofun
  · split <;> exact nofun

private theorem number_no_gap : scanNumber cs ≠ .gap spelling rest := by
  unfold scanNumber
  dsimp only
  split
  · exact end_number_no_gap
  · split
    · exact end_number_no_gap
    · exact nofun

private theorem word_no_gap : scanWord cs ≠ .gap spelling rest := by
  unfold scanWord
  dsimp only
  split <;> exact nofun

private theorem library_no_gap : scanLibraryPath cs ≠ .gap spelling rest := by
  unfold scanLibraryPath
  dsimp only
  split <;> exact nofun

private theorem symbol_no_gap : scanSymbol c cs ≠ .gap spelling rest := by
  unfold scanSymbol
  split <;> exact nofun

/-- A gap is not empty, and nothing is lost behind it. -/
theorem scan_gap {afterImport : Bool} (cuts : scan afterImport c cs = .gap spelling rest) :
    spelling ≠ [] ∧ c :: cs = spelling ++ rest := by
  unfold scan at cuts
  split at cuts
  · cases cuts
    exact ⟨nofun, by simp⟩
  split at cuts
  · cases cuts
    exact ⟨nofun, by simp⟩
  split at cuts
  · exact absurd cuts string_no_gap
  split at cuts
  · exact absurd cuts number_no_gap
  split at cuts
  · exact absurd cuts word_no_gap
  split at cuts
  · exact absurd cuts library_no_gap
  · exact absurd cuts symbol_no_gap

end Gaps

end Scanning

/-- How the tokens of a source stand in its text: gaps and lexemes follow each
other without a break, and the token that closes the input stands at its end. -/
inductive Laid (file : String) : Spot → List Token → Prop where
  | last {afterImport : Bool} {pos : Pos} :
      Laid file ⟨afterImport, pos, []⟩ [⟨.eof, "", ⟨file, pos⟩⟩]
  | gap {afterImport : Bool} {pos : Pos} {c : Char} {more rest : List Char} {tokens : List Token}
      (cuts : scan afterImport c (more ++ rest) = .gap (c :: more) rest)
      (others : Laid file ⟨afterImport, pos.after (c :: more), rest⟩ tokens) :
      Laid file ⟨afterImport, pos, c :: (more ++ rest)⟩ tokens
  | lexeme {afterImport : Bool} {pos : Pos} {c : Char} {more rest : List Char} {kind : TokenKind}
      {text : String} {tokens : List Token}
      (cuts : scan afterImport c (more ++ rest) = .lexeme ⟨kind, text, c :: more⟩ rest)
      (others : Laid file ⟨kind = .kwImport, pos.after (c :: more), rest⟩ tokens) :
      Laid file ⟨afterImport, pos, c :: (more ++ rest)⟩ (⟨kind, text, ⟨file, pos⟩⟩ :: tokens)

private theorem cut_front {c : Char} {cs spelling rest : List Char}
    (splits : c :: cs = spelling ++ rest) (nonempty : spelling ≠ []) :
    ∃ more, spelling = c :: more ∧ cs = more ++ rest := by
  obtain ⟨first, more, rfl⟩ := List.exists_cons_of_ne_nil nonempty
  obtain ⟨rfl, rfl⟩ := List.cons.inj splits
  exact ⟨more, rfl, rfl⟩

private theorem laid_of_place {file : String} {tokens : List Token} (steps : Nat)
    (afterImport : Bool) (pos : Pos) (text : List Char) (enough : text.length ≤ steps)
    (placed : place file pos (cut steps afterImport text) = .ok tokens) :
    Laid file ⟨afterImport, pos, text⟩ tokens := by
  induction steps generalizing afterImport pos text tokens with
  | zero =>
    obtain rfl := List.length_eq_zero_iff.mp (Nat.le_zero.mp enough)
    cases placed
    exact .last
  | succ steps ih =>
    cases text with
    | nil =>
      cases placed
      exact .last
    | cons c cs =>
      cases cuts : scan afterImport c cs with
      | gap spelling rest =>
        obtain ⟨nonempty, splits⟩ := scan_gap cuts
        obtain ⟨more, rfl, rfl⟩ := cut_front splits nonempty
        simp only [cut, cuts, place] at placed
        simp only [List.length_cons, List.length_append] at enough
        exact .gap cuts (ih _ _ _ (by omega) placed)
      | lexeme lexeme rest =>
        obtain ⟨kind, name, spelling⟩ := lexeme
        obtain ⟨-, nonempty, splits⟩ := scan_lexeme cuts
        obtain ⟨more, rfl, rfl⟩ := cut_front splits nonempty
        simp only [cut, cuts, place] at placed
        simp only [List.length_cons, List.length_append] at enough
        cases others : place file (pos.after (c :: more))
            (cut steps (kind = .kwImport) rest) with
        | error failure =>
          rw [others] at placed
          cases placed
        | ok tokens' =>
          rw [others] at placed
          cases placed
          exact .lexeme cuts (ih _ _ _ (by omega) others)
      | fault before fault =>
        simp only [cut, cuts, place] at placed
        cases placed

/-- The tokens of a source are laid out in its text. -/
theorem tokenize_laid {source file : String} {tokens : List Token}
    (read : tokenize source file = .ok tokens) :
    Laid file ⟨false, .first, source.toList⟩ tokens :=
  laid_of_place _ _ _ _ (Nat.le_refl _) read

end BasilLang.Placement

namespace BasilLang

/-- The tokens are closed by the end of input, which stands nowhere else. -/
def Closed : List Token → Prop
  | [] => False
  | [token] => token.kind = .eof
  | token :: next :: rest => token.kind ≠ .eof ∧ Closed (next :: rest)

/-- A token of a kind with one spelling carries that spelling. -/
def Token.Fixed (token : Token) : Prop :=
  ∀ text, token.kind.spelling? = some text → token.text = text

namespace Placement
open Lexer Lexing BasilLang.Parser

section Tokens
variable {file : String} {spot : Spot} {token : Token} {tokens : List Token}

theorem closed_ne_nil (closed : Closed tokens) : tokens ≠ [] := by
  rintro rfl
  exact closed

/-- A token before others that end the text. -/
theorem closed_cons (notEof : token.kind ≠ .eof) (closed : Closed tokens) :
    Closed (token :: tokens) := by
  obtain ⟨next, rest, rfl⟩ := List.exists_cons_of_ne_nil (closed_ne_nil closed)
  exact ⟨notEof, closed⟩

/-- Tokens laid out over a text end with its end. -/
theorem laid_closed (laid : Laid file spot tokens) : Closed tokens := by
  induction laid with
  | last => rfl
  | gap _ _ ih => exact ih
  | lexeme cuts _ ih => exact closed_cons (scan_lexeme cuts).faithful.notEof ih

/-- They all tell of the same file. -/
theorem laid_file (laid : Laid file spot tokens) : ∀ token ∈ tokens, token.loc.file = file := by
  induction laid with
  | last => simp
  | gap _ _ ih => exact ih
  | lexeme _ _ ih => simpa using ih

/-- A token of a name has a name for its text, and one of a number a number. -/
structure WellSpelled (token : Token) : Prop where
  fixed : token.Fixed
  name : token.kind = .ident → (Path.ofText token.text).isName = true
  numeral : token.kind = .number → Text.isNumeral token.text.toList = true

/-- They are all spelled as their kinds are. -/
theorem laid_wellSpelled (laid : Laid file spot tokens) : ∀ token ∈ tokens, WellSpelled token := by
  induction laid with
  | last =>
    intro token member
    obtain rfl := List.mem_singleton.mp member
    exact ⟨nofun, nofun, nofun⟩
  | gap _ _ ih => exact ih
  | lexeme cuts _ ih =>
    have faithful := (scan_lexeme cuts).faithful
    intro token member
    rcases List.mem_cons.mp member with rfl | member
    · exact ⟨fun text spelled => (faithful.fixed text spelled).1, faithful.name, faithful.numeral⟩
    · exact ih token member

end Tokens

section Places
variable {file : String} {spot : Spot} {tokens : List Token} {pos : Pos}

/-- The order in which a text passes through places. -/
def Before (first second : Pos) : Prop :=
  first.line < second.line ∨ first.line = second.line ∧ first.column < second.column

private theorem before_trans {first second third : Pos} (one : Before first second)
    (two : Before second third) : Before first third := by
  unfold Before at *
  omega

private theorem before_next (pos : Pos) (c : Char) : Before pos (pos.next c) := by
  unfold Before Pos.next
  split <;> simp

private theorem before_after (pos : Pos) {cs : List Char} (nonempty : cs ≠ []) :
    Before pos (pos.after cs) := by
  induction cs generalizing pos with
  | nil => exact absurd rfl nonempty
  | cons c cs ih =>
    have step : Before pos (pos.next c) := before_next pos c
    cases cs with
    | nil => exact step
    | cons d cs => exact before_trans step (ih (pos.next c) nofun)

private theorem not_before_self (pos : Pos) : ¬ Before pos pos := by
  unfold Before
  omega

/-- No token stands before the spot that it is read from. -/
theorem laid_not_before (laid : Laid file spot tokens) :
    ∀ token ∈ tokens, ¬ Before token.loc.pos spot.pos := by
  induction laid with
  | last =>
    intro token member
    obtain rfl := List.mem_singleton.mp member
    exact not_before_self _
  | @gap _ pos c more _ _ _ _ ih =>
    intro token member before
    exact ih token member (before_trans before (before_after pos (List.cons_ne_nil c more)))
  | @lexeme _ pos c more _ _ _ _ _ _ ih =>
    intro token member before
    rcases List.mem_cons.mp member with rfl | member
    · exact not_before_self _ before
    · exact ih token member (before_trans before (before_after pos (List.cons_ne_nil c more)))

/-- The tokens stand at places that follow each other. -/
theorem laid_places (laid : Laid file spot tokens) :
    tokens.Pairwise fun first second => first.loc ≠ second.loc := by
  induction laid with
  | last => exact List.pairwise_singleton _ _
  | gap _ _ ih => exact ih
  | @lexeme _ pos c more _ _ _ _ _ others ih =>
    refine List.pairwise_cons.mpr ⟨fun token member same => ?_, ih⟩
    have later := laid_not_before others token member
    rw [← same] at later
    exact later (before_after pos (List.cons_ne_nil c more))

end Places

section Source
variable {file : String} {spot : Spot} {token name opening : Token} {before after : List Token}

end Source

end Placement

end BasilLang
