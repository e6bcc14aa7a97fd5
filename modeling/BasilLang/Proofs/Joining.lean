import BasilLang.Proofs.Lockstep
import BasilLang.Proofs.Narrowing
import BasilLang.Proofs.Partition
import BasilLang.Proofs.Resuming
import BasilLang.Proofs.RoundTrip

/-! Sources that are joined by a line feed, a semicolon and another line feed.
No lexeme and no comment runs on over a line feed that follows a whole source,
so the tokens of the joined text are those of its pieces, some lines further
down, with a semicolon between each two. No statement goes on over a semicolon,
so the statements of the joined text are those of the pieces in order, and
there is room for them where there is room for each of the pieces. -/
namespace BasilLang.Joining
open Lexer Lexing Placement Parsing Lockstep Resuming
open BasilLang.Parser (statementsToEof)

/-- What can stand behind a source without being taken for a part of it. -/
def Parted (after : List Char) : Prop :=
  ∀ c ∈ after.head?, c = '\n'

section Scanning
variable {afterImport : Bool} {c : Char} {cs rest after : List Char} {lexeme : Lexeme}

private theorem parted_cases (parted : Parted after) :
    after = [] ∨ ∃ more, after = '\n' :: more := by
  cases after with
  | nil => exact .inl rfl
  | cons c more =>
    obtain rfl : c = '\n' := parted c rfl
    exact .inr ⟨more, rfl⟩

private theorem run_parted {p : Char → Bool} (stops : p '\n' = false) (parted : Parted after)
    (cs : List Char) : (cs ++ after).takeWhile p = cs.takeWhile p ∧
      (cs ++ after).dropWhile p = cs.dropWhile p ++ after := by
  induction cs with
  | nil =>
    rcases parted_cases parted with rfl | ⟨more, rfl⟩
    · exact ⟨rfl, rfl⟩
    · simp [stops]
  | cons c cs ih =>
    by_cases runs : p c = true
    · simpa [runs] using ih
    · simp [runs]

private theorem quotation_before {text spelling : List Char} (after : List Char)
    (read : Text.readQuotation cs = .closed text spelling rest) :
    Text.readQuotation (cs ++ after) = .closed text spelling (rest ++ after) := by
  fun_induction Text.readQuotation cs generalizing text spelling rest with
  | case1 | case3 | case5 => cases read
  | case2 =>
    cases read
    rfl
  | case4 letter cs c unescaped ih =>
    cases inner : Text.readQuotation cs with
    | closed text' spelling' rest' =>
      rw [inner] at read
      cases read
      simp [Text.readQuotation, unescaped, ih inner, Text.Quotation.push]
    | unclosed | unknownEscape =>
      rw [inner] at read
      cases read
  | case6 c cs noQuote noLast noEscape ih =>
    cases inner : Text.readQuotation cs with
    | closed text' spelling' rest' =>
      rw [inner] at read
      cases read
      have noBackslash : c ≠ '\\' := by
        cases cs with
        | nil => exact fun same => noLast same rfl
        | cons letter cs => exact fun same => noEscape letter cs same rfl
      rw [List.cons_append, Text.readQuotation, ih inner]
      · rfl
      · exact noQuote
      · exact fun same _ => noBackslash same
      · exact fun _ _ same _ => noBackslash same
    | unclosed | unknownEscape =>
      rw [inner] at read
      cases read

private theorem string_before (after : List Char) (cuts : scanString cs = .lexeme lexeme rest) :
    scanString (cs ++ after) = .lexeme lexeme (rest ++ after) := by
  unfold scanString at cuts
  split at cuts
  · next text spelling left read =>
    cases cuts
    rw [scanString, quotation_before after read]
  · cases cuts
  · cases cuts

private theorem number_end_before {text spelling left : List Char} (parted : Parted after)
    (cuts : endNumber text spelling left = .lexeme lexeme rest) :
    endNumber text spelling (left ++ after) = .lexeme lexeme (rest ++ after) := by
  cases left with
  | nil =>
    cases cuts
    rcases parted_cases parted with rfl | ⟨more, rfl⟩
    · rfl
    · rfl
  | cons c left =>
    simp only [endNumber] at cuts
    split at cuts
    · cases cuts
    · next ends =>
      cases cuts
      simp only [List.cons_append, endNumber, ends]
      rfl

private theorem fraction_before (parted : Parted after) (cs : List Char) :
    fraction? (cs ++ after) = (fraction? cs).map fun (digits, rest) => (digits, rest ++ after) := by
  cases cs with
  | nil => rcases parted_cases parted with rfl | ⟨more, rfl⟩ <;> rfl
  | cons c cs =>
    by_cases point : c = '.'
    · subst point
      obtain ⟨taken, dropped⟩ := run_parted (p := Text.isDigit) rfl parted cs
      simp only [List.cons_append, fraction?, taken, dropped]
      split <;> rfl
    · simp [fraction?, point]

private theorem number_before (parted : Parted after)
    (cuts : scanNumber cs = .lexeme lexeme rest) :
    scanNumber (cs ++ after) = .lexeme lexeme (rest ++ after) := by
  obtain ⟨taken, dropped⟩ := run_parted (p := Text.isDigit) rfl parted cs
  unfold scanNumber at cuts ⊢
  simp only [taken, dropped, fraction_before parted]
  dsimp only at cuts
  cases found : fraction? (cs.dropWhile Text.isDigit) with
  | none =>
    rw [found] at cuts
    exact number_end_before parted cuts
  | some halves =>
    obtain ⟨digits, left⟩ := halves
    rw [found] at cuts
    simp only [Option.map_some]
    dsimp only at cuts
    split at cuts
    · exact number_end_before parted cuts
    · cases cuts

private theorem word_before (parted : Parted after) (cuts : scanWord cs = .lexeme lexeme rest) :
    scanWord (cs ++ after) = .lexeme lexeme (rest ++ after) := by
  obtain ⟨taken, dropped⟩ := run_parted (p := fun c => isWordChar c || c == '.') rfl parted cs
  unfold scanWord at cuts ⊢
  simp only [taken, dropped]
  dsimp only at cuts
  split at cuts
  · cases cuts
  · next whole =>
    cases cuts
    rfl

private theorem library_before (parted : Parted after)
    (cuts : scanLibraryPath cs = .lexeme lexeme rest) :
    scanLibraryPath (cs ++ after) = .lexeme lexeme (rest ++ after) := by
  obtain ⟨taken, dropped⟩ := run_parted (p := isWordChar) rfl parted cs
  unfold scanLibraryPath at cuts ⊢
  simp only [taken, dropped]
  dsimp only at cuts
  split at cuts
  · next name left named closed =>
    cases cuts
    rw [named, closed]
    rfl
  · cases cuts

private theorem begins_before {word : List Char} (oneLine : '\n' ∉ word) (parted : Parted after)
    (cs : List Char) : word.isPrefixOf (cs ++ after) = word.isPrefixOf cs := by
  induction word generalizing cs with
  | nil => simp
  | cons d word ih =>
    obtain ⟨notFeed, others⟩ := List.ne_and_not_mem_of_not_mem_cons oneLine
    cases cs with
    | nil =>
      rcases parted_cases parted with rfl | ⟨more, rfl⟩
      · rfl
      · simp [List.isPrefixOf, notFeed.symm]
    | cons c cs => simp [List.isPrefixOf, ih others]

private theorem symbols_one_line : ∀ kind ∈ TokenKind.symbols,
    ∀ text ∈ kind.spelling?, '\n' ∉ text.toList := by
  decide

private theorem symbol_before (parted : Parted after)
    (cuts : scanSymbol c cs = .lexeme lexeme rest) :
    scanSymbol c (cs ++ after) = .lexeme lexeme (rest ++ after) := by
  have same : TokenKind.symbols.find? (beginsWith (c :: (cs ++ after))) =
      TokenKind.symbols.find? (beginsWith (c :: cs)) := by
    rw [← List.head?_filter, ← List.head?_filter]
    refine congrArg List.head? (List.filter_congr fun kind member => ?_)
    unfold beginsWith
    split
    · next text spelled =>
      exact begins_before (symbols_one_line kind member text spelled) parted (c :: cs)
    · rfl
  unfold scanSymbol at cuts ⊢
  rw [same]
  split at cuts
  · next kind found =>
    have begins := List.find?_some found
    cases spelled : kind.spelling? with
    | none => simp [beginsWith, spelled] at begins
    | some text =>
      simp only [beginsWith, spelled, List.isPrefixOf_iff_prefix] at begins
      have fits : text.length ≤ (c :: cs).length := by
        simpa only [String.length_toList] using begins.length_le
      simp only [spelled, Option.getD_some] at cuts ⊢
      cases cuts
      rw [← List.cons_append, List.drop_append_of_le_length fits]
  · cases cuts

private theorem lexeme_before (parted : Parted after)
    (cuts : scan afterImport c cs = .lexeme lexeme rest) :
    scan afterImport c (cs ++ after) = .lexeme lexeme (rest ++ after) := by
  unfold scan at cuts ⊢
  split at cuts
  · cases cuts
  next noBlank =>
  rw [if_neg noBlank]
  split at cuts
  · cases cuts
  next noComment =>
  rw [if_neg noComment]
  split at cuts
  · next quote => rw [if_pos quote, string_before after cuts]
  next noString =>
  rw [if_neg noString]
  split at cuts
  · next digit =>
    rw [if_pos digit]
    exact number_before parted cuts
  next noDigit =>
  rw [if_neg noDigit]
  split at cuts
  · next starts =>
    rw [if_pos starts]
    exact word_before parted cuts
  next noWord =>
  rw [if_neg noWord]
  split at cuts
  · next bracket => rw [if_pos bracket, library_before parted cuts]
  · next noPath => rw [if_neg noPath, symbol_before parted cuts]

end Scanning

section Moving
variable {file : String} {spot last : Spot} {tokens : List Token} {after : List Char}

/-- The same column, some lines further down. -/
def lowered (lines : Nat) (pos : Pos) : Pos :=
  ⟨pos.line + lines, pos.column⟩

/-- The same token, some lines further down and in another file. -/
def moved (file : String) (lines : Nat) (token : Token) : Token :=
  { token with loc := ⟨file, lowered lines token.loc.pos⟩ }

private theorem lowered_after (lines : Nat) (pos : Pos) (cs : List Char) :
    (lowered lines pos).after cs = lowered lines (pos.after cs) := by
  induction cs generalizing pos with
  | nil => rfl
  | cons c cs ih =>
    have next : (lowered lines pos).next c = lowered lines (pos.next c) := by
      unfold Pos.next lowered
      split
      · rw [Nat.add_right_comm]
      · rfl
    have rest := ih (pos.next c)
    rw [← next] at rest
    exact rest

private theorem reads_blanks {afterImport : Bool} {pos : Pos} {cs rest : List Char}
    (blanks : ∀ c ∈ cs, isSeparator c = true)
    (others : Reads file ⟨afterImport, pos.after cs, rest⟩ tokens last) :
    Reads file ⟨afterImport, pos, cs ++ rest⟩ tokens last := by
  induction cs generalizing pos with
  | nil => exact others
  | cons c cs ih =>
    obtain ⟨blank, blanks⟩ := List.forall_mem_cons.mp blanks
    exact .blank blank (ih blanks others)

private theorem reads_gap {afterImport : Bool} {pos : Pos} {c : Char} {more rest : List Char}
    (parted : Parted after) (cuts : scan afterImport c (more ++ rest) = .gap (c :: more) rest)
    (others : Reads file ⟨afterImport, pos.after (c :: more), rest ++ after⟩ tokens last) :
    Reads file ⟨afterImport, pos, c :: (more ++ rest) ++ after⟩ tokens last := by
  have right := Partition.scan_right afterImport c (more ++ rest)
  rw [cuts] at right
  rw [List.cons_append, List.append_assoc]
  rcases right.2 with blanks | ⟨words, comment, -⟩
  · exact reads_blanks blanks others
  · obtain ⟨rfl, rfl⟩ := List.cons.inj comment
    obtain ⟨taken, dropped⟩ := run_parted (p := isCommentChar) rfl parted (more ++ rest)
    obtain ⟨inside, left⟩ := Scan.gap.inj cuts
    have longer :
        scan afterImport '#' (more ++ rest ++ after) = .gap ('#' :: more) (rest ++ after) := by
      calc scan afterImport '#' (more ++ rest ++ after)
        _ = .gap ('#' :: (more ++ rest ++ after).takeWhile isCommentChar)
            ((more ++ rest ++ after).dropWhile isCommentChar) := rfl
        _ = .gap ('#' :: more) (rest ++ after) := by rw [taken, dropped, inside, left]
    rw [List.append_assoc] at longer
    exact .gap longer others

private theorem reads_of_laid {file' : String} (parted : Parted after) (lines : Nat)
    (laid : Laid file' spot tokens) :
    ∃ own last afterImport, tokens = own ++ [last] ∧
      Reads file ⟨spot.afterImport, lowered lines spot.pos, spot.text ++ after⟩
        (own.map (moved file lines)) ⟨afterImport, lowered lines last.loc.pos, after⟩ := by
  induction laid with
  | @last afterImport pos => exact ⟨[], _, afterImport, rfl, .done _⟩
  | gap cuts _ ih =>
    obtain ⟨own, last, afterImport, rfl, read⟩ := ih
    rw [← lowered_after] at read
    exact ⟨own, last, afterImport, rfl, reads_gap parted cuts read⟩
  | lexeme cuts _ ih =>
    obtain ⟨own, last, afterImport, rfl, read⟩ := ih
    rw [← lowered_after] at read
    refine ⟨_ :: own, last, afterImport, rfl, ?_⟩
    have longer := lexeme_before parted cuts
    rw [List.append_assoc] at longer
    rw [List.cons_append, List.append_assoc]
    exact .lexeme longer read

private theorem matched_moved (file : String) (lines : Nat) (tokens : List Token) :
    Matched (tokens.map fun token => (token, moved file lines token)) where
  kind := by simp [moved]
  text := by simp [moved]
  touching := by
    intro name opening more suffix _ _
    have paired : ∀ pair ∈ name :: opening :: more, pair.2 = moved file lines pair.1 := by
      intro pair member
      obtain ⟨token, -, rfl⟩ := List.mem_map.mp (suffix.subset member)
      rfl
    rw [paired name (by simp), paired opening (by simp)]
    rw [Bool.eq_iff_iff]
    simp only [Parser.adjacent, Bool.and_eq_true, decide_eq_true_eq]
    simp [moved, lowered]

private theorem closed_split {last : Token} (closed : Closed (tokens ++ [last])) :
    (∀ token ∈ tokens, token.kind ≠ .eof) ∧ last.kind = .eof := by
  induction tokens with
  | nil => exact ⟨nofun, closed⟩
  | cons token tokens ih =>
    obtain ⟨next, rest, split⟩ := List.exists_cons_of_ne_nil (show tokens ++ [last] ≠ [] by simp)
    rw [List.cons_append, split] at closed
    rw [split] at ih
    obtain ⟨inner, isEof⟩ := ih closed.2
    exact ⟨List.forall_mem_cons.mpr ⟨closed.1, inner⟩, isEof⟩

private theorem parsed_moved {room : Nat} {program : Program} (file : String) (lines : Nat)
    (nonempty : tokens ≠ []) (parsed : Program.ofTokensWithin room tokens = .ok program) :
    ∃ program', AlikeStmts program.body program'.body ∧
      Program.ofTokensWithin room (tokens.map (moved file lines)) = .ok program' := by
  have inStep := programs_in_step (matched_moved file lines tokens) (by simpa using nonempty) room
  simp only [List.map_map, Function.comp_def, List.map_id'] at inStep
  rw [parsed] at inStep
  cases read : Program.ofTokensWithin room (tokens.map (moved file lines)) with
  | error failure =>
    rw [read] at inStep
    exact inStep.elim
  | ok program' =>
    rw [read] at inStep
    exact ⟨program', inStep, rfl⟩

end Moving

section Telling
variable {room : Nat} {tokens tokens' : List Token} {body body' : List Stmt}

/-- In the room, the tokens are read as statements like the given ones, and then
reading goes on behind them. -/
private def Tells (room : Nat) (tokens : List Token) (body : List Stmt) : Prop :=
  ∃ found, AlikeStmts body found ∧ ∀ rounds steps tail done, Resumes tail →
    tokens.length < rounds → tokens.length ≤ steps →
    ∃ left, steps ≤ left + tokens.length ∧
      statementsToEof (nestedIn rounds room).statement steps done (.ofTokens (tokens ++ tail)) =
        statementsToEof (nestedIn rounds room).statement left (found.reverse ++ done)
          (.ofTokens tail)

private theorem tells_nothing : Tells room [] [] :=
  ⟨[], rfl, fun _ steps _ _ _ _ _ => ⟨steps, Nat.le_refl _, rfl⟩⟩

private theorem tells_semicolon {token : Token} (isSemicolon : token.kind = .semicolon)
    (tells : Tells room tokens body) : Tells room (token :: tokens) body := by
  obtain ⟨found, alike, reads⟩ := tells
  refine ⟨found, alike, fun rounds steps tail done plain enough enough' => ?_⟩
  simp only [List.length_cons] at enough enough'
  obtain ⟨steps, rfl⟩ : ∃ fewer, steps = fewer + 1 := ⟨steps - 1, by omega⟩
  obtain ⟨left, fewer, read⟩ := reads rounds steps tail done plain (by omega) (by omega)
  refine ⟨left, by simp only [List.length_cons]; omega, ?_⟩
  obtain ⟨next, rest, rfl, -⟩ := plain
  rw [List.cons_append, (to_eof_loop _).skips isSemicolon (by simp), read]

private theorem alike_append {ss ss' others others' : List Stmt} (first : AlikeStmts ss ss')
    (second : AlikeStmts others others') : AlikeStmts (ss ++ others) (ss' ++ others') := by
  simp only [AlikeStmts, unplacedStmts_eq_map] at first second ⊢
  rw [List.map_append, List.map_append, first, second]

private theorem tells_append (first : Tells room tokens body) (second : Tells room tokens' body')
    (resumes : ∀ tail, Resumes tail → Resumes (tokens' ++ tail)) :
    Tells room (tokens ++ tokens') (body ++ body') := by
  obtain ⟨found, alike, reads⟩ := first
  obtain ⟨found', alike', reads'⟩ := second
  refine ⟨found ++ found', alike_append alike alike',
    fun rounds steps tail done plain enough enough' => ?_⟩
  simp only [List.length_append] at enough enough'
  obtain ⟨left, fewer, read⟩ := reads rounds steps (tokens' ++ tail) done (resumes tail plain)
    (by omega) (by omega)
  obtain ⟨left', fewer', read'⟩ := reads' rounds left tail (found.reverse ++ done) plain
    (by omega) (by omega)
  refine ⟨left', by simp only [List.length_append]; omega, ?_⟩
  rw [List.append_assoc, read, read', List.reverse_append, List.append_assoc]

private theorem program_of_tells (tells : Tells room tokens body) (loc : Loc) :
    ∃ program, Program.ofTokensWithin room (tokens ++ [⟨.eof, "", loc⟩]) = .ok program ∧
      AlikeStmts body program.body := by
  obtain ⟨found, alike, reads⟩ := tells
  let closed := tokens ++ [⟨.eof, "", loc⟩]
  have length : closed.length = tokens.length + 1 := List.length_append
  obtain ⟨left, fewer, read⟩ := reads (closed.length + 1) (closed.length + 1) [⟨.eof, "", loc⟩] []
    ⟨_, _, rfl, .inr rfl⟩ (by omega) (by omega)
  obtain ⟨left, rfl⟩ : ∃ less, left = less + 1 := ⟨left - 1, by omega⟩
  have ends : statementsToEof (nestedIn (closed.length + 1) room).statement (closed.length + 1) []
      (.ofTokens closed) = .ok (found, .ofTokens [⟨.eof, "", loc⟩]) := by
    rw [read, statementsToEof, bind_ok current_ok, List.append_nil, List.reverse_reverse]
    rfl
  let start := (Parser.Cursor.ofTokens closed).current
  have whole : Parser.program (nestedIn (closed.length + 1) room) (.ofTokens closed) =
      (statementsToEof (nestedIn (closed.length + 1) room).statement (closed.length + 1) [] >>=
        fun body => pure ⟨start.loc.file, body⟩) (.ofTokens closed) := rfl
  rw [bind_ok ends] at whole
  exact ⟨⟨start.loc.file, found⟩, Acceptance.run_ok whole, alike⟩

end Telling

section Pieces
variable {file file' : String} {room : Nat}

/-- The texts with a semicolon between each two, on a line of its own. -/
def joined (texts : List String) : String :=
  "\n;\n".intercalate texts

/-- What follows a text that others are joined to. -/
private def followed (texts : List String) : List Char :=
  texts.flatMap fun text => "\n;\n".toList ++ text.toList

private theorem followed_parted (texts : List String) : Parted (followed texts) := by
  cases texts with
  | nil => exact nofun
  | cons text texts =>
    intro c member
    exact (Option.some.inj member).symm

private theorem piece_reads {text : String} {program : Program} {after : List Char}
    (parsed : Program.parseWithin room text file' = .ok program) (parted : Parted after)
    (lines : Nat) :
    ∃ tokens afterImport pos, Tells room tokens program.body ∧
      Reads file ⟨false, lowered lines .first, text.toList ++ after⟩ tokens
        ⟨afterImport, pos, after⟩ := by
  cases read : tokenize text file' with
  | error failure =>
    rw [Program.parseWithin, read] at parsed
    cases parsed
  | ok tokens =>
    rw [Program.parseWithin, read] at parsed
    have laid := tokenize_laid read
    obtain ⟨own, last, afterImport, rfl, reads⟩ := reads_of_laid parted lines laid
    obtain ⟨inner, isEof⟩ := closed_split (laid_closed laid)
    obtain ⟨program', alike, parsed'⟩ := parsed_moved file lines (by simp) parsed
    rw [List.map_append, List.map_singleton] at parsed'
    have inner' : ∀ token ∈ own.map (moved file lines), token.kind ≠ .eof := by
      simpa [moved] using inner
    have isEof' : (moved file lines last).kind = .eof := isEof
    refine ⟨_, _, _, ⟨program'.body, alike, fun rounds steps tail done plain enough enough' => ?_⟩,
      reads⟩
    exact statements_resume inner' isEof' parsed' plain enough enough' done

private theorem separator_reads (afterImport : Bool) (pos : Pos) (rest : List Char) :
    Reads file ⟨afterImport, pos, "\n;\n".toList ++ rest⟩
      [⟨.semicolon, ";", ⟨file, ⟨pos.line + 1, 1⟩⟩⟩]
      ⟨false, lowered (pos.line + 1) .first, rest⟩ := by
  refine .blank rfl
    (@Reads.lexeme file afterImport _ ';' [] ('\n' :: rest) .semicolon ";" [] _ ?_ ?_)
  · cases afterImport <;> rfl
  · refine .blank rfl ?_
    have below : lowered (pos.line + 1) .first = (Pos.after (pos.next '\n') [';']).next '\n' := by
      simp [lowered, Pos.first, Pos.after, Pos.next]
      omega
    rw [below]
    exact .done _

/-- Of texts that can all be read, the first can, and the others can. -/
theorem accepted_cons {read : String → Except Failure Program} {text : String}
    {texts : List String} {programs : List Program}
    (accepted : (text :: texts).mapM read = .ok programs) :
    ∃ program others, programs = program :: others ∧ read text = .ok program ∧
      texts.mapM read = .ok others := by
  rw [List.mapM_cons] at accepted
  cases first : read text with
  | error failure =>
    rw [first] at accepted
    cases accepted
  | ok program =>
    cases rest : texts.mapM read with
    | error failure =>
      rw [first, rest] at accepted
      cases accepted
    | ok others =>
      rw [first, rest] at accepted
      cases accepted
      exact ⟨program, others, rfl, rfl, rfl⟩

private theorem others_read (texts : List String) {programs : List Program}
    (accepted : texts.mapM (Program.parseWithin room · file') = .ok programs) (afterImport : Bool)
    (pos : Pos) :
    ∃ tokens afterImport' pos', Tells room tokens (programs.flatMap Program.body) ∧
      (∀ tail, Resumes tail → Resumes (tokens ++ tail)) ∧
      Reads file ⟨afterImport, pos, followed texts⟩ tokens ⟨afterImport', pos', []⟩ := by
  induction texts generalizing programs afterImport pos with
  | nil =>
    cases accepted
    exact ⟨[], _, _, tells_nothing, fun _ resumes => resumes, .done _⟩
  | cons text texts ih =>
    obtain ⟨program, others, rfl, parsed, accepted⟩ := accepted_cons accepted
    obtain ⟨own, afterOwn, place, tells, read⟩ :=
      piece_reads parsed (followed_parted texts) (pos.line + 1)
    obtain ⟨more, afterMore, place', tells', resumes, read'⟩ := ih accepted afterOwn place
    let semicolon : Token := ⟨.semicolon, ";", ⟨file, ⟨pos.line + 1, 1⟩⟩⟩
    refine ⟨semicolon :: (own ++ more), afterMore, place', ?_,
      fun tail _ => ⟨semicolon, _, rfl, .inl rfl⟩, ?_⟩
    · exact tells_semicolon rfl (tells_append tells tells' resumes)
    · have apart : followed (text :: texts) = "\n;\n".toList ++ (text.toList ++ followed texts) := by
        rw [followed, List.flatMap_cons, List.append_assoc]
        rfl
      rw [apart]
      exact reads_append (separator_reads afterImport pos _) (reads_append read read')

/-- Texts that can be read in a room can be read there when they are joined, and
the statements of the whole are those of the texts in order. -/
theorem joined_read {texts : List String} {programs : List Program}
    (accepted : texts.mapM (Program.parseWithin room · file') = .ok programs) (file : String) :
    ∃ whole, Program.parseWithin room (joined texts) file = .ok whole ∧
      AlikeStmts (programs.flatMap Program.body) whole.body := by
  have reads : ∃ tokens afterImport pos, Tells room tokens (programs.flatMap Program.body) ∧
      Reads file ⟨false, .first, (joined texts).toList⟩ tokens ⟨afterImport, pos, []⟩ := by
    cases texts with
    | nil =>
      cases accepted
      exact ⟨[], _, _, tells_nothing, .done _⟩
    | cons text texts =>
      obtain ⟨program, others, rfl, parsed, accepted⟩ := accepted_cons accepted
      obtain ⟨own, afterOwn, place, tells, read⟩ := piece_reads parsed (followed_parted texts) 0
      obtain ⟨more, afterMore, place', tells', resumes, read'⟩ :=
        others_read texts accepted afterOwn place
      refine ⟨own ++ more, afterMore, place', tells_append tells tells' resumes, ?_⟩
      rw [joined, RoundTrip.intercalate_cons]
      exact reads_append read read'
  obtain ⟨tokens, afterImport, pos, tells, read⟩ := reads
  obtain ⟨whole, parsed, alike⟩ := program_of_tells tells ⟨file, pos⟩
  refine ⟨whole, ?_, alike⟩
  rw [Program.parseWithin, tokenize_of_reads read]
  exact parsed

private theorem read_in_common_room {texts : List String} {programs : List Program}
    (accepted : texts.mapM (Program.parse · file) = .ok programs) :
    ∃ enough, ∀ room, enough ≤ room →
      texts.mapM (Program.parseWithin room · file) = .ok programs := by
  induction texts generalizing programs with
  | nil =>
    cases accepted
    exact ⟨0, fun _ _ => rfl⟩
  | cons text texts ih =>
    obtain ⟨program, others, rfl, parsed, accepted⟩ := accepted_cons accepted
    obtain ⟨enough, read⟩ := Narrowing.read_in_enough_room parsed
    obtain ⟨enough', readOthers⟩ := ih accepted
    refine ⟨max enough enough', fun room large => ?_⟩
    rw [List.mapM_cons, read room (by omega), readOthers room (by omega)]
    rfl

/-- Texts that are accepted are accepted when they are joined. -/
theorem joined_accepted {texts : List String} {programs : List Program}
    (accepted : texts.mapM (Program.parse · file') = .ok programs) (file : String) :
    ∃ whole, Program.parse (joined texts) file = .ok whole ∧
      AlikeStmts (programs.flatMap Program.body) whole.body := by
  obtain ⟨enough, read⟩ := read_in_common_room accepted
  obtain ⟨whole, parsed, alike⟩ := joined_read (read enough (Nat.le_refl _)) file
  rcases Narrowing.parse_in_limited_room enough (joined texts) file with same | ⟨loc, lacking⟩
  · exact ⟨whole, same.symm.trans parsed, alike⟩
  · rw [lacking] at parsed
    cases parsed

end Pieces

end BasilLang.Joining
