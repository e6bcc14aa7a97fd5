import BasilLang.Proofs.Acceptance
import BasilLang.Proofs.Lexing

/-! Rendered text reads back as the tree that it was written from, places
apart. For every construct the text is read piece by piece into tokens that
spell the construct again; what the tokens spell, the parser accepts. -/
namespace BasilLang.RoundTrip
open BasilLang.Parser Lexing Acceptance

/-- A sign leads the tokens only if it leads the text. -/
def SignShown (text : List Char) (tokens : List Token) : Prop :=
  ∀ first ∈ tokens.head?, first.kind = .minus → text.head? = some '-'

/-- The tokens spell the expression at some places. -/
def ExprSpelt (e : Expr) (tokens : List Token) : Prop :=
  ∃ placed : Expr, placed.Spelled tokens ∧ placed.unplaced = e.unplaced

/-- The text of the expression is read as tokens that spell it. -/
def ExprWritten (e : Expr) : Prop :=
  Writes Breaks e.render.toList fun tokens =>
    ExprSpelt e tokens ∧ SignShown e.render.toList tokens

/-- The text of the statement is read as tokens that spell it. It never is a
bare return. -/
def StmtWritten (s : Stmt) : Prop :=
  Writes Breaks s.render.toList fun tokens =>
    (∃ placed : Stmt, placed.Spelled tokens ∧ placed.unplaced = s.unplaced) ∧
      SignShown s.render.toList tokens ∧ ∀ opener, tokens = [opener] → opener.kind ≠ .kwReturn

section Pieces

private theorem mark_written (kind : TokenKind) {text : String}
    (single : (TokenKind.symbols.contains kind && kind != .less && kind != .greater) = true)
    (spelled : kind.spelling? = some text) : Writes Anything text.toList (Single kind text) := by
  simp only [Bool.and_eq_true, List.contains_iff_mem, bne_iff_ne] at single
  obtain ⟨⟨member, notLess⟩, notGreater⟩ := single
  refine writes_lexeme (mark_lexes member notLess notGreater spelled) ?_
  rintro rfl
  simp [TokenKind.symbols] at member

private theorem keyword_written (kind : TokenKind) {text : String}
    (reserved : (TokenKind.keywords.contains kind && kind != .kwImport) = true)
    (spelled : kind.spelling? = some text) : Writes Breaks text.toList (Single kind text) := by
  simp only [Bool.and_eq_true, List.contains_iff_mem, bne_iff_ne] at reserved
  exact writes_lexeme (keyword_lexes false reserved.1 spelled) reserved.2

private theorem name_written {path : Path} (isName : path.isName = true) :
    Writes Breaks path.text.toList (Single .ident path.text) :=
  writes_lexeme (name_lexes false isName) nofun

section Blanks
variable {text : List Char} {kind : TokenKind} {name : String}

private theorem written_after_blank {follow : List Char → Prop}
    (written : Writes follow text (Single kind name)) :
    Writes follow ([' '] ++ text) (Single kind name) := by
  refine writes_imp (writes_append writes_blank written fun _ _ => trivial) ?_
  rintro tokens ⟨own, others, rfl, rfl, single⟩
  exact single

private theorem written_before_blank (written : Writes Breaks text (Single kind name)) :
    Writes Anything (text ++ [' ']) (Single kind name) := by
  refine writes_imp (writes_append written writes_blank fun rest _ => breaks_of_head rfl rest) ?_
  rintro tokens ⟨own, others, rfl, single, rfl⟩
  rwa [List.append_nil]

end Blanks

/-- A name and the parenthesis that touches it. -/
theorem callee_written {path : Path} (isName : path.isName = true) :
    Writes Anything (path.text.toList ++ "(".toList) fun tokens =>
      ∃ name opening, tokens = [name, opening] ∧ name.kind = .ident ∧ name.text = path.text ∧
        opening.kind = .leftParen ∧ adjacent name opening = true := by
  have oneLine := (name_lexes false isName).1
  have paren : Lexes false Anything "(".toList .leftParen "(" :=
    mark_lexes (List.contains_iff_mem.mp rfl) nofun nofun rfl
  refine ⟨by simp [oneLine], fun file pos rest _ => ?_⟩
  refine ⟨[⟨.ident, path.text, ⟨file, pos⟩⟩] ++
      [⟨.leftParen, "(", ⟨file, pos.after path.text.toList⟩⟩], ?_, _, _, rfl, rfl, rfl, rfl, ?_⟩
  · rw [after_append, List.append_assoc]
    exact reads_append (reads_lexeme (name_lexes false isName) (breaks_of_head rfl rest) file pos)
      (reads_lexeme paren trivial file _)
  · rw [after_one_line pos oneLine]
    simp [adjacent, String.length_toList]

/-- The word `import` and what it imports. -/
theorem import_written {spelling : List Char} {kind : TokenKind} {text : String}
    (lexes : Lexes true Breaks spelling kind text) (notImport : kind ≠ .kwImport) :
    Writes Breaks ("import".toList ++ ([' '] ++ spelling)) fun tokens =>
      ∃ opener token, tokens = [opener, token] ∧ opener.kind = .kwImport ∧ token.kind = kind ∧
        token.text = text := by
  refine ⟨by simp [lexes.1], fun file pos rest follows => ?_⟩
  have opening : Lexes false Breaks "import".toList .kwImport "import" :=
    keyword_lexes false (List.contains_iff_mem.mp rfl) rfl
  refine ⟨[⟨.kwImport, "import", ⟨file, pos⟩⟩] ++
    [⟨kind, text, ⟨file, (pos.after "import".toList).after [' ']⟩⟩], ?_, _, _, rfl, rfl, rfl, rfl⟩
  rw [after_append, after_append, List.append_assoc, List.append_assoc]
  have target := reads_lexeme lexes follows file ((pos.after "import".toList).after [' '])
  rw [decide_eq_false notImport] at target
  exact reads_append (reads_lexeme opening (breaks_of_head rfl _) file pos) (.blank rfl target)

theorem intercalate_cons (separator text : String) (texts : List String) :
    (separator.intercalate (text :: texts)).toList =
      text.toList ++ texts.flatMap fun next => separator.toList ++ next.toList := by
  induction texts generalizing text with
  | nil => simp
  | cons next texts ih =>
    rw [String.intercalate_cons_of_ne_nil (by simp), String.toList_append, String.toList_append, ih,
      List.flatMap_cons, List.append_assoc, List.append_assoc]

/-- Items with commas between them, each read as itself. -/
theorem listed_written {α : Type} {item : α → List Token → Prop} {erase : α → α} (text : α → String)
    (as : List α) (each : ∀ a ∈ as, Writes Breaks (text a).toList fun tokens =>
      ∃ placed, item placed tokens ∧ erase placed = erase a) :
    Writes Breaks (commaJoin (as.map text)).toList fun tokens =>
      ∃ placed, Listed item placed tokens ∧ placed.map erase = as.map erase := by
  rw [commaJoin]
  cases as with
  | nil =>
    refine writes_imp writes_nothing ?_
    rintro tokens rfl
    exact ⟨[], rfl, rfl⟩
  | cons a as =>
    rw [List.map_cons, intercalate_cons]
    induction as generalizing a with
    | nil =>
      refine writes_imp (writes_append (each a (by simp)) writes_nothing fun _ breaks => breaks) ?_
      rintro tokens ⟨own, others, rfl, ⟨placed, spelled, same⟩, rfl⟩
      rw [List.append_nil]
      exact ⟨[placed], .inl ⟨rfl, spelled⟩, by simp [same]⟩
    | cons b as ih =>
      have others := ih b fun c member => each c (by simp_all)
      have comma := written_before_blank (writes_of_anywhere (mark_written .comma rfl rfl))
      rw [List.map_cons, List.flatMap_cons, List.append_assoc]
      refine writes_imp (writes_append (each a (by simp))
        (writes_append comma others fun _ _ => trivial) fun rest _ => breaks_of_head rfl rest) ?_
      rintro tokens ⟨own, _, rfl, ⟨placed, spelled, same⟩, _, rest, rfl, ⟨token, rfl, kind, -⟩,
        more, listed, sames⟩
      exact ⟨placed :: more, .inr ⟨own, token, rest, rfl, kind, spelled, listed⟩,
        by rw [List.map_cons, List.map_cons, same, sames]⟩

end Pieces

section Exprs

private theorem sign_shown_of_kind {text : List Char} {first : Token} {rest : List Token}
    (other : first.kind ≠ .minus) : SignShown text (first :: rest) := by
  intro token member isMinus
  obtain rfl : first = token := by simpa using member
  exact absurd isMinus other

private theorem tightness_unplaced (e : Expr) : e.unplaced.tightness = e.tightness := by
  cases e <;> rfl

private theorem same_tightness {placed e : Expr} (same : placed.unplaced = e.unplaced) :
    placed.tightness = e.tightness := by
  rw [← tightness_unplaced, same, tightness_unplaced]

private theorem value_lexes {value : Value} (spelled : value.isSpelled = true) :
    ∃ kind, Lexes false Breaks value.render.toList kind value.text ∧ kind ≠ .kwImport ∧
      kind ≠ .minus ∧ ∀ loc, Token.literal? ⟨kind, value.text, loc⟩ = some value := by
  obtain ⟨kind, text⟩ := value
  cases kind with
  | string => exact ⟨.string, lexes_of_anywhere (quote_lexes false text), nofun, nofun,
      fun _ => rfl⟩
  | number => exact ⟨.number, number_lexes spelled, nofun, nofun, fun _ => rfl⟩
  | boolean =>
    simp only [Value.isSpelled, Bool.or_eq_true, beq_iff_eq] at spelled
    rcases spelled with rfl | rfl
    · exact ⟨.kwTrue, keyword_lexes false (List.contains_iff_mem.mp rfl) rfl, nofun, nofun,
        fun _ => rfl⟩
    · exact ⟨.kwFalse, keyword_lexes false (List.contains_iff_mem.mp rfl) rfl, nofun, nofun,
        fun _ => rfl⟩
  | null =>
    obtain rfl : text = "null" := by simpa [Value.isSpelled] using spelled
    exact ⟨.kwNull, keyword_lexes false (List.contains_iff_mem.mp rfl) rfl, nofun, nofun,
      fun _ => rfl⟩

private theorem literal_written {value : Value} (loc : Loc) (spelled : value.isSpelled = true) :
    ExprWritten (.literal value loc) := by
  obtain ⟨kind, lexes, notImport, notMinus, found⟩ := value_lexes spelled
  refine writes_imp (writes_lexeme lexes notImport) ?_
  rintro tokens ⟨⟨_, _, place⟩, rfl, rfl, rfl⟩
  exact ⟨⟨.literal value place, ⟨_, rfl, found place, rfl⟩, rfl⟩, sign_shown_of_kind notMinus⟩

private theorem identifier_written {name : Name} (isName : name.path.isName = true) :
    ExprWritten (.identifier name) := by
  refine writes_imp (name_written isName) ?_
  rintro tokens ⟨token, rfl, kind, text⟩
  refine ⟨⟨.identifier (nameOf token), ⟨token, rfl, kind, rfl⟩, ?_⟩,
    sign_shown_of_kind (by simp [kind])⟩
  simp [Expr.unplaced, Name.unplaced, nameOf, text, name_of_text isName]

private theorem group_written {inner : Expr} (loc : Loc) (written : ExprWritten inner) :
    ExprWritten (.group inner loc) := by
  have layout : (Expr.group inner loc).render.toList =
      "(".toList ++ (inner.render.toList ++ ")".toList) := by
    simp [Expr.render, toString]
  have opening := mark_written .leftParen rfl rfl
  have closing := mark_written .rightParen rfl rfl
  rw [ExprWritten, layout]
  refine writes_imp (writes_append opening (writes_append written (writes_of_anywhere closing)
    fun rest _ => breaks_of_head rfl rest) fun _ _ => trivial) ?_
  rintro tokens ⟨_, _, rfl, ⟨first, rfl, opens, -⟩, inside, _, rfl, ⟨⟨placed, spelled, same⟩, -⟩,
    ⟨last, rfl, closes, -⟩⟩
  refine ⟨⟨.group placed first.loc, ?_, by rw [Expr.unplaced, Expr.unplaced, same]⟩,
    sign_shown_of_kind (by simp [opens])⟩
  exact ⟨first, inside, last, rfl, opens, closes, rfl, spelled⟩

private theorem spelled_mark {kind : TokenKind} {mark : Mark} {text : String}
    (spelled : (kind.spelling? == some mark.text) = true) (known : kind.spelling? = some text) :
    text = mark.text := by
  rw [beq_iff_eq, known] at spelled
  exact Option.some.inj spelled

private theorem unary_written {op : UnaryOp} {mark : Mark} {operand : Expr}
    (spelled : (op.kind.spelling? == some mark.text) = true)
    (tight : unaryLevel ≤ operand.tightness) (written : ExprWritten operand) :
    ExprWritten (.unary op mark operand) := by
  -- What the operator's token has to be, however it is set off from the operand.
  have assembled : ∀ {text tokens}, (op = .negate → text.head? = some '-') →
      (∃ own others, tokens = own ++ others ∧ Single op.kind mark.text own ∧
        ExprSpelt operand others ∧ SignShown operand.render.toList others) →
      ExprSpelt (.unary op mark operand) tokens ∧ SignShown text tokens := by
    rintro text tokens shown ⟨_, others, rfl, ⟨token, rfl, kind, same⟩, ⟨placed, inside, erased⟩, -⟩
    refine ⟨⟨.unary op (markOf token) placed, ⟨token, others, rfl, ?_, rfl, ?_, inside⟩, ?_⟩, ?_⟩
    · rw [kind]
      cases op <;> rfl
    · rwa [same_tightness erased]
    · simp [Expr.unplaced, Mark.unplaced, markOf, same, erased]
    · cases op with
      | negate => exact fun _ _ _ => shown rfl
      | not => exact sign_shown_of_kind (by rw [kind]; decide)
  cases op with
  | negate =>
    have layout : (Expr.unary .negate mark operand).render.toList =
        "-".toList ++ operand.render.toList := by
      simp [Expr.render, toString]
    have sign := mark_written .minus rfl rfl
    rw [spelled_mark spelled rfl] at sign
    rw [ExprWritten, layout, spelled_mark spelled rfl]
    refine writes_imp (writes_append sign written fun _ _ => trivial) fun tokens parts => ?_
    exact assembled (fun _ => by rw [← spelled_mark spelled rfl]; rfl) parts
  | not =>
    have layout : (Expr.unary .not mark operand).render.toList =
        ("not".toList ++ [' ']) ++ operand.render.toList := by
      simp [Expr.render, toString]
    have word := written_before_blank (keyword_written .kwNot rfl rfl)
    rw [spelled_mark spelled rfl] at word
    rw [ExprWritten, layout, spelled_mark spelled rfl]
    refine writes_imp (writes_append word written fun _ _ => trivial) fun tokens parts => ?_
    exact assembled (fun isNegate => by cases isNegate) parts

private theorem binary_written {left right : Expr} {op : BinaryOp} {mark : Mark}
    (spelled : (op.kind.spelling? == some mark.text) = true) (looser : op.level ≤ left.tightness)
    (tighter : op.level < right.tightness) (leftWritten : ExprWritten left)
    (rightWritten : ExprWritten right) : ExprWritten (.binary left op mark right) := by
  have layout : (Expr.binary left op mark right).render.toList =
      left.render.toList ++ (([' '] ++ (mark.text.toList ++ [' '])) ++ right.render.toList) := by
    simp [Expr.render, toString]
  have notImport : op.kind ≠ .kwImport := by cases op <;> nofun
  have operator := written_after_blank (written_before_blank
    (writes_lexeme (operator_lexes op (beq_iff_eq.mp spelled)) notImport))
  rw [ExprWritten, layout]
  refine writes_imp (writes_append leftWritten (writes_append operator rightWritten
    fun _ _ => trivial) fun rest _ => breaks_of_head rfl rest) ?_
  rintro tokens ⟨before, _, rfl, ⟨⟨left', inside, erased⟩, shown⟩, _, after, rfl,
    ⟨token, rfl, kind, text⟩, ⟨⟨right', inside', erased'⟩, -⟩⟩
  refine ⟨⟨.binary left' op (markOf token) right', ⟨before, token, after, rfl, ?_, rfl, ?_, ?_,
    inside, inside'⟩, ?_⟩, ?_⟩
  · rw [kind]
    cases op <;> rfl
  · rwa [same_tightness erased]
  · rwa [same_tightness erased']
  · simp [Expr.unplaced, Mark.unplaced, markOf, text, erased, erased']
  · obtain ⟨first, more, rfl, -⟩ := expr_begins left' before inside
    intro token' member isMinus
    have head := shown token' member isMinus
    rw [List.head?_append, head]
    rfl

private theorem render_exprs_eq_map (es : List Expr) : renderExprs es = es.map Expr.render := by
  induction es with
  | nil => rfl
  | cons e es ih => rw [renderExprs, ih, List.map_cons]

private theorem call_written {callee : Name} {args : List Expr} (argsLoc : Loc)
    (isName : callee.path.isName = true) (written : ∀ e ∈ args, ExprWritten e) :
    ExprWritten (.call callee args argsLoc) := by
  have layout : (Expr.call callee args argsLoc).render.toList =
      (callee.path.text.toList ++ "(".toList) ++
        ((commaJoin (args.map Expr.render)).toList ++ ")".toList) := by
    simp [Expr.render, toString, render_exprs_eq_map]
  have inside := listed_written Expr.render args fun e member =>
    writes_imp (written e member) fun _ parts => parts.1
  have closing := mark_written .rightParen rfl rfl
  rw [ExprWritten, layout]
  refine writes_imp (writes_append (callee_written isName) (writes_append inside
    (writes_of_anywhere closing) fun rest _ => breaks_of_head rfl rest) fun _ _ => trivial) ?_
  rintro tokens ⟨_, _, rfl, ⟨name, opening, rfl, isIdent, text, opens, touches⟩, own, _, rfl,
    ⟨placed, listed, erased⟩, ⟨last, rfl, closes, -⟩⟩
  refine ⟨⟨.call (nameOf name) placed opening.loc, ⟨name, opening, own, last, rfl, isIdent, rfl,
    opens, touches, rfl, closes, (exprs_spelled_iff_listed placed own).mpr listed⟩, ?_⟩,
    sign_shown_of_kind (by simp [isIdent])⟩
  simp only [Expr.unplaced, unplacedExprs_eq_map, erased, Name.unplaced, nameOf, text,
    name_of_text isName]

end Exprs

section Blocks

/-- The text of a block after its header, with the `end` that closes it. -/
def blockText (body : List Stmt) : List Char :=
  (bodyText (renderStmts body)).toList ++ "end".toList

/-- The tokens spell the statements of a block at some places. -/
def BlockSpelt (body : List Stmt) (tokens : List Token) : Prop :=
  ∃ placed, StmtsSpelled .kwEnd placed tokens ∧ unplacedStmts placed = unplacedStmts body

private theorem begins_at_head {tokens : List Token} (nonempty : tokens ≠ []) :
    ∃ loc, BeginsAt tokens loc := by
  obtain ⟨first, rest, rfl⟩ := List.exists_cons_of_ne_nil nonempty
  exact ⟨first.loc, first, rest, rfl, rfl⟩

private theorem ends_before_divider {s : Stmt} {own rest : List Token} {next : Token}
    (divides : next.kind = .kwEnd ∨ next.kind = .semicolon) : s.EndsBefore own (next :: rest) := by
  intro _
  refine ⟨fun token member => ?_, fun token member => ?_⟩
  all_goals obtain rfl : next = token := by simpa using member
  · refine ⟨fun op found => ?_, fun _ _ _ paren => ?_⟩
    · rcases divides with kind | kind <;> simp [kind, BinaryOp.ofKind?] at found
    · rcases divides with kind | kind <;> simp [kind] at paren
  · refine ⟨?_, fun _ _ => ?_⟩
    · rcases divides with kind | kind <;> simp [kind]
    · rcases divides with kind | kind <;> simp [kind]

private theorem more_stmts_written (ss : List Stmt) (written : ∀ s ∈ ss, StmtWritten s) :
    Writes Breaks ((ss.flatMap fun s => "; ".toList ++ s.render.toList) ++
      ([' '] ++ "end".toList)) fun tokens => BlockSpelt ss tokens ∧
        ∃ first more, tokens = first :: more ∧ (first.kind = .kwEnd ∨ first.kind = .semicolon) := by
  induction ss with
  | nil =>
    refine writes_imp (written_after_blank (keyword_written .kwEnd rfl rfl)) ?_
    rintro tokens ⟨token, rfl, kind, -⟩
    exact ⟨⟨[], ⟨[], token, rfl, by simp, kind⟩, rfl⟩, token, [], rfl, .inl kind⟩
  | cons s ss ih =>
    have others := ih fun other member => written other (by simp [member])
    have semicolon := written_before_blank
      (writes_of_anywhere (mark_written .semicolon rfl rfl))
    have breaks : ∀ rest, Breaks ((ss.flatMap fun s => "; ".toList ++ s.render.toList) ++
        ([' '] ++ "end".toList) ++ rest) := by
      cases ss <;> exact breaks_of_head rfl
    rw [List.flatMap_cons, List.append_assoc, List.append_assoc]
    refine writes_imp (writes_append semicolon (writes_append (written s (by simp)) others
      fun rest _ => breaks rest) fun _ _ => trivial) ?_
    rintro tokens ⟨_, _, rfl, ⟨token, rfl, kind, -⟩, own, rest, rfl,
      ⟨⟨placed, spelled, erased⟩, -⟩, ⟨more, stmts, erasedMore⟩, first, tail, rfl, divides⟩
    refine ⟨⟨placed :: more, ⟨[token], own, first :: tail, rfl, by simpa using kind, spelled,
      ends_before_divider divides, stmts⟩, ?_⟩, token, _, rfl, .inr kind⟩
    rw [unplacedStmts, unplacedStmts, erased, erasedMore]

private theorem render_stmts_eq_map (ss : List Stmt) : renderStmts ss = ss.map Stmt.render := by
  induction ss with
  | nil => rfl
  | cons s ss ih => rw [renderStmts, ih, List.map_cons]

private theorem block_text_cons (s : Stmt) (ss : List Stmt) :
    blockText (s :: ss) = [' '] ++ (s.render.toList ++
      ((ss.flatMap fun s => "; ".toList ++ s.render.toList) ++ ([' '] ++ "end".toList))) := by
  simp only [blockText, bodyText, renderStmts, List.isEmpty_cons, Bool.false_eq_true, ↓reduceIte,
    String.toList_append, intercalate_cons, render_stmts_eq_map, List.flatMap_map,
    List.append_assoc]
  rfl

/-- A block whose statements are read back is read back. -/
theorem block_written (body : List Stmt) (written : ∀ s ∈ body, StmtWritten s) :
    Writes Breaks (blockText body) (BlockSpelt body) := by
  cases body with
  | nil =>
    refine writes_imp (written_after_blank (keyword_written .kwEnd rfl rfl)) ?_
    rintro tokens ⟨token, rfl, kind, -⟩
    exact ⟨[], ⟨[], token, rfl, by simp, kind⟩, rfl⟩
  | cons s ss =>
    have others := more_stmts_written ss fun other member => written other (by simp [member])
    have breaks : ∀ rest, Breaks ((ss.flatMap fun s => "; ".toList ++ s.render.toList) ++
        ([' '] ++ "end".toList) ++ rest) := by
      cases ss <;> exact breaks_of_head rfl
    rw [block_text_cons]
    refine writes_imp (writes_append writes_blank (writes_append (written s (by simp)) others
      fun rest _ => breaks rest) fun _ _ => trivial) ?_
    rintro tokens ⟨_, _, rfl, rfl, own, rest, rfl,
      ⟨⟨placed, spelled, erased⟩, -⟩, ⟨more, stmts, erasedMore⟩, first, tail, rfl, divides⟩
    refine ⟨placed :: more, ⟨[], own, first :: tail, rfl, by simp, spelled,
      ends_before_divider divides, stmts⟩, ?_⟩
    rw [unplacedStmts, unplacedStmts, erased, erasedMore]

private theorem block_begins (body : List Stmt) (rest : List Char) :
    Breaks (blockText body ++ rest) := by
  cases body with
  | nil => exact breaks_of_head rfl rest
  | cons s ss =>
    rw [block_text_cons]
    exact breaks_of_head rfl rest

end Blocks

section Parts

/-- A name and the value it is given. -/
theorem assignment_written {name : Name} {value : Expr} (isName : name.path.isName = true)
    (written : ExprWritten value) :
    Writes Breaks (name.path.text.toList ++ (([' '] ++ ("=".toList ++ [' '])) ++
      value.render.toList)) fun tokens => ∃ token equals own, tokens = token :: equals :: own ∧
        token.kind = .ident ∧ (nameOf token).unplaced = name.unplaced ∧ equals.kind = .assign ∧
        ExprSpelt value own := by
  have equals := written_after_blank (written_before_blank
    (writes_of_anywhere (mark_written .assign rfl rfl)))
  refine writes_imp (writes_append (name_written isName) (writes_append equals written
    fun _ _ => trivial) fun rest _ => breaks_of_head rfl rest) ?_
  rintro tokens ⟨_, _, rfl, ⟨token, rfl, isIdent, text⟩, _, own, rfl, ⟨sign, rfl, isAssign, -⟩,
    spelt, -⟩
  refine ⟨token, sign, own, rfl, isIdent, ?_, isAssign, spelt⟩
  simp [Name.unplaced, nameOf, text, name_of_text isName]

/-- The word that ends a header, and the block after it. -/
theorem header_written {body : List Stmt} (written : ∀ s ∈ body, StmtWritten s) :
    Writes Breaks (([' '] ++ "then".toList) ++ blockText body) fun tokens =>
      ∃ header block, tokens = header :: block ∧ header.EndsHeader ∧ BlockSpelt body block := by
  have header := written_after_blank (keyword_written .kwThen rfl rfl)
  refine writes_imp (writes_append header (block_written body written)
    fun rest _ => block_begins body rest) ?_
  rintro tokens ⟨_, block, rfl, ⟨token, rfl, kind, -⟩, spelt⟩
  exact ⟨token, block, rfl, .inl kind, spelt⟩

/-- A condition and the block it guards. -/
theorem guarded_written {condition : Expr} {body : List Stmt}
    (conditionWritten : ExprWritten condition) (written : ∀ s ∈ body, StmtWritten s) :
    Writes Breaks (condition.render.toList ++ (([' '] ++ "then".toList) ++ blockText body))
      fun tokens => ∃ inside header block, tokens = inside ++ header :: block ∧
        header.EndsHeader ∧ ExprSpelt condition inside ∧ BlockSpelt body block := by
  refine writes_imp (writes_append conditionWritten (header_written written)
    fun rest _ => breaks_of_head rfl rest) ?_
  rintro tokens ⟨inside, _, rfl, ⟨spelt, -⟩, header, block, rfl, ends, bodySpelt⟩
  exact ⟨inside, header, block, rfl, ends, spelt, bodySpelt⟩

/-- The text of a proc after its name. -/
def procText : Proc → List Char
  | .mk _ params _ body _ =>
    "(".toList ++ ((commaJoin (params.map Mark.text)).toList ++
      (")".toList ++ (([' '] ++ "then".toList) ++ blockText body)))

/-- The tokens spell the rest of the proc, whatever word opens it. -/
def ProcSpelt (proc : Proc) (tokens : List Token) : Prop :=
  ∀ opener, ∃ placed : Proc, placed.Spelled opener tokens ∧ placed.unplaced = proc.unplaced

private theorem parameter_written {mark : Mark} (isName : Path.isName [mark.text] = true) :
    Writes Breaks mark.text.toList fun tokens =>
      ∃ placed : Mark, placed.Spelled tokens ∧ placed.unplaced = mark.unplaced := by
  refine writes_imp (name_written isName) ?_
  rintro tokens ⟨token, rfl, kind, text⟩
  rw [Path.text] at text
  refine ⟨markOf token, ⟨token, rfl, kind, ?_, rfl⟩, by simp [Mark.unplaced, markOf, text]⟩
  rw [text]
  exact plain_name_undotted isName

private theorem proc_text_written {proc : Proc}
    (plain : ∀ mark ∈ proc.params, Path.isName [mark.text] = true)
    (written : ∀ s ∈ proc.body, StmtWritten s) :
    Writes Breaks (procText proc) (ProcSpelt proc) := by
  obtain ⟨loc, params, paramsLoc, body, bodyLoc⟩ := proc
  have opening := mark_written .leftParen rfl rfl
  have closing := mark_written .rightParen rfl rfl
  have names := listed_written Mark.text params fun mark member =>
    parameter_written (plain mark member)
  refine writes_imp (writes_append opening (writes_append names (writes_append closing
    (header_written written) fun _ _ => trivial) fun rest _ => breaks_of_head rfl rest)
    fun _ _ => trivial) ?_
  rintro tokens ⟨_, _, rfl, ⟨first, rfl, opens, -⟩, inside, _, rfl, ⟨placed, listed, erased⟩,
    _, _, rfl, ⟨last, rfl, closes, -⟩, header, block, rfl, ends, stmts, spelled, erasedBody⟩ opener
  obtain ⟨paramsLoc, paramsBegin⟩ := begins_at_head (show inside ++ [last] ≠ [] by simp)
  obtain ⟨bodyLoc, bodyBegins⟩ := begins_at_head (Parsing.stmts_nonempty stmts spelled)
  refine ⟨.mk opener.loc placed paramsLoc stmts bodyLoc, ⟨first, inside, last, header, block, rfl,
    rfl, opens, closes, ends, paramsBegin, listed, bodyBegins, spelled⟩, ?_⟩
  rw [Proc.unplaced, Proc.unplaced, erased, erasedBody]

end Parts

section Stmts

private theorem opened_plainly {text : List Char} {first : Token} {rest : List Token}
    (notMinus : first.kind ≠ .minus) (notReturn : first.kind ≠ .kwReturn) :
    SignShown text (first :: rest) ∧
      ∀ opener, first :: rest = [opener] → opener.kind ≠ .kwReturn := by
  refine ⟨sign_shown_of_kind notMinus, fun opener single => ?_⟩
  obtain ⟨rfl, -⟩ := List.cons.inj single
  exact notReturn

private theorem expr_stmt_written {e : Expr} (written : ExprWritten e) : StmtWritten (.expr e) := by
  refine writes_imp written ?_
  rintro tokens ⟨⟨placed, spelled, erased⟩, shown⟩
  refine ⟨⟨.expr placed, spelled, by rw [Stmt.unplaced, Stmt.unplaced, erased]⟩, shown, ?_⟩
  rintro opener rfl isReturn
  obtain ⟨first, rest, same, begins, -⟩ := expr_begins placed [opener] spelled
  obtain ⟨rfl, -⟩ := List.cons.inj same
  simp [isReturn, TokenKind.beginsExpr] at begins

private theorem import_library_written {target : Mark} (loc : Loc)
    (isName : (Path.ofText target.text).isName = true) :
    StmtWritten (.importLibrary target loc) := by
  have layout : (Stmt.importLibrary target loc).render.toList =
      "import".toList ++ ([' '] ++ target.text.toList) := by
    simp [Stmt.render, toString]
  have lexes := name_lexes true isName
  rw [text_of_text] at lexes
  rw [StmtWritten, layout]
  refine writes_imp (import_written lexes nofun) ?_
  rintro tokens ⟨opener, token, rfl, opens, kind, text⟩
  refine ⟨⟨.importLibrary (markOf token) opener.loc,
    ⟨opener, token, rfl, opens, rfl, .inl kind, rfl⟩, ?_⟩,
    opened_plainly (by simp [opens]) (by simp [opens])⟩
  simp [Stmt.unplaced, Mark.unplaced, markOf, text]

private theorem import_relative_written (target : Mark) (loc : Loc) :
    StmtWritten (.importRelative target loc) := by
  have layout : (Stmt.importRelative target loc).render.toList =
      "import".toList ++ ([' '] ++ (Text.quote target.text).toList) := by
    simp [Stmt.render, toString]
  rw [StmtWritten, layout]
  refine writes_imp (import_written (lexes_of_anywhere (quote_lexes true target.text))
    nofun) ?_
  rintro tokens ⟨opener, token, rfl, opens, kind, text⟩
  refine ⟨⟨.importRelative (markOf token) opener.loc,
    ⟨opener, token, rfl, opens, rfl, kind, rfl⟩, ?_⟩,
    opened_plainly (by simp [opens]) (by simp [opens])⟩
  simp [Stmt.unplaced, Mark.unplaced, markOf, text]

private theorem opened_written {s : Stmt} (kind : TokenKind) {word : String} {text : List Char}
    {shape : List Token → Prop}
    (reserved : (TokenKind.keywords.contains kind && kind != .kwImport && kind != .kwReturn) = true)
    (spelling : kind.spelling? = some word) (written : Writes Breaks text shape)
    (layout : s.render.toList = (word.toList ++ [' ']) ++ text)
    (spells : ∀ opener tokens, opener.kind = kind → shape tokens →
      ∃ placed : Stmt, placed.Spelled (opener :: tokens) ∧ placed.unplaced = s.unplaced) :
    StmtWritten s := by
  have notMinus : kind ≠ .minus := by
    rintro rfl
    exact Bool.false_ne_true reserved
  obtain ⟨keyword, notReturn⟩ := Bool.and_eq_true_iff.mp reserved
  have opener := written_before_blank (keyword_written kind keyword spelling)
  rw [StmtWritten, layout]
  refine writes_imp (writes_append opener written fun _ _ => trivial) ?_
  rintro tokens ⟨_, others, rfl, ⟨opener, rfl, opens, -⟩, shaped⟩
  exact ⟨spells opener others opens shaped,
    opened_plainly (by rwa [opens]) (by rw [opens]; exact bne_iff_ne.mp notReturn)⟩

private theorem namespace_written {name : Name} {body : List Stmt} (bodyLoc loc : Loc)
    (isName : name.path.isName = true) (written : ∀ s ∈ body, StmtWritten s) :
    StmtWritten (.inNamespace name body bodyLoc loc) := by
  refine opened_written .kwNamespace rfl rfl
    (writes_append (name_written isName) (block_written body written)
      fun rest _ => block_begins body rest)
    (by simp [Stmt.render, toString, blockText]) ?_
  rintro opener _ opens ⟨_, block, rfl, ⟨token, rfl, isIdent, text⟩, stmts, spelled, erased⟩
  obtain ⟨bodyLoc, begins⟩ := begins_at_head (Parsing.stmts_nonempty stmts spelled)
  refine ⟨.inNamespace (nameOf token) stmts bodyLoc opener.loc,
    ⟨opener, token, block, rfl, opens, rfl, isIdent, rfl, begins, spelled⟩, ?_⟩
  simp [Stmt.unplaced, Name.unplaced, nameOf, text, name_of_text isName, erased]

private theorem let_written {name : Name} {value : Expr} (loc : Loc)
    (isName : name.path.isName = true)
    (written : ExprWritten value) : StmtWritten (.letDecl name value loc) := by
  refine opened_written .kwLet rfl rfl (assignment_written isName written)
    (by simp [Stmt.render, toString]) ?_
  rintro opener _ opens ⟨token, equals, own, rfl, isIdent, named, isAssign, placed, spelled,
    erased⟩
  refine ⟨.letDecl (nameOf token) placed opener.loc,
    ⟨opener, token, equals, own, rfl, opens, rfl, isIdent, rfl, isAssign, spelled⟩, ?_⟩
  rw [Stmt.unplaced, Stmt.unplaced, named, erased]

private theorem const_written {name : Name} {value : Expr} (loc : Loc)
    (isName : name.path.isName = true)
    (written : ExprWritten value) : StmtWritten (.constDecl name value loc) := by
  refine opened_written .kwConst rfl rfl (assignment_written isName written)
    (by simp [Stmt.render, toString]) ?_
  rintro opener _ opens ⟨token, equals, own, rfl, isIdent, named, isAssign, placed, spelled,
    erased⟩
  refine ⟨.constDecl (nameOf token) placed opener.loc,
    ⟨opener, token, equals, own, rfl, opens, rfl, isIdent, rfl, isAssign, spelled⟩, ?_⟩
  rw [Stmt.unplaced, Stmt.unplaced, named, erased]

private theorem set_written {name : Name} {value : Expr} (isName : name.path.isName = true)
    (written : ExprWritten value) : StmtWritten (.set name value) := by
  have layout : (Stmt.set name value).render.toList = name.path.text.toList ++
      (([' '] ++ ("=".toList ++ [' '])) ++ value.render.toList) := by
    simp [Stmt.render, toString]
  rw [StmtWritten, layout]
  refine writes_imp (assignment_written isName written) ?_
  rintro tokens ⟨token, equals, own, rfl, isIdent, named, isAssign, placed, spelled, erased⟩
  refine ⟨⟨.set (nameOf token) placed,
    ⟨token, equals, own, rfl, isIdent, rfl, isAssign, spelled⟩, ?_⟩,
    opened_plainly (by simp [isIdent]) (by simp [isIdent])⟩
  rw [Stmt.unplaced, Stmt.unplaced, named, erased]

private theorem if_written {condition : Expr} {body : List Stmt} (bodyLoc loc : Loc)
    (conditionWritten : ExprWritten condition) (written : ∀ s ∈ body, StmtWritten s) :
    StmtWritten (.ifThen condition body bodyLoc loc) := by
  refine opened_written .kwIf rfl rfl (guarded_written conditionWritten written)
    (by simp [Stmt.render, toString, blockText]) ?_
  rintro opener _ opens ⟨inside, header, block, rfl, ends, ⟨placed, spelled, erased⟩, stmts,
    bodySpelled, erasedBody⟩
  obtain ⟨bodyLoc, begins⟩ := begins_at_head (Parsing.stmts_nonempty stmts bodySpelled)
  refine ⟨.ifThen placed stmts bodyLoc opener.loc,
    ⟨opener, inside, header, block, rfl, opens, rfl, ends, spelled, begins, bodySpelled⟩, ?_⟩
  rw [Stmt.unplaced, Stmt.unplaced, erased, erasedBody]

private theorem while_written {condition : Expr} {body : List Stmt} (bodyLoc loc : Loc)
    (conditionWritten : ExprWritten condition) (written : ∀ s ∈ body, StmtWritten s) :
    StmtWritten (.whileTrue condition body bodyLoc loc) := by
  refine opened_written .kwWhile rfl rfl (guarded_written conditionWritten written)
    (by simp [Stmt.render, toString, blockText]) ?_
  rintro opener _ opens ⟨inside, header, block, rfl, ends, ⟨placed, spelled, erased⟩, stmts,
    bodySpelled, erasedBody⟩
  obtain ⟨bodyLoc, begins⟩ := begins_at_head (Parsing.stmts_nonempty stmts bodySpelled)
  refine ⟨.whileTrue placed stmts bodyLoc opener.loc,
    ⟨opener, inside, header, block, rfl, opens, rfl, ends, spelled, begins, bodySpelled⟩, ?_⟩
  rw [Stmt.unplaced, Stmt.unplaced, erased, erasedBody]

private theorem for_written {name : Name} {start stop : Expr} {body : List Stmt} (bodyLoc loc : Loc)
    (isName : name.path.isName = true) (startWritten : ExprWritten start)
    (stopWritten : ExprWritten stop) (written : ∀ s ∈ body, StmtWritten s) :
    StmtWritten (.forRange name start stop body bodyLoc loc) := by
  have middle := written_after_blank (written_before_blank (keyword_written .kwTo rfl rfl))
  refine opened_written .kwFor rfl rfl
    (writes_append (assignment_written isName startWritten)
      (writes_append middle (guarded_written stopWritten written) fun _ _ => trivial)
      fun rest _ => breaks_of_head rfl rest)
    (by simp [Stmt.render, toString, blockText]) ?_
  rintro opener _ opens ⟨_, _, rfl,
    ⟨token, equals, first, rfl, isIdent, named, isAssign, start', startSpelled, startErased⟩,
    _, _, rfl, ⟨upTo, rfl, isTo, -⟩, last, header, block, rfl, ends,
    ⟨stop', stopSpelled, stopErased⟩, stmts, bodySpelled, erasedBody⟩
  obtain ⟨bodyLoc, begins⟩ := begins_at_head (Parsing.stmts_nonempty stmts bodySpelled)
  refine ⟨.forRange (nameOf token) start' stop' stmts bodyLoc opener.loc,
    ⟨opener, token, equals, first, upTo, last, header, block, by simp, opens, rfl, isIdent, rfl,
      isAssign, startSpelled, isTo, stopSpelled, ends, begins, bodySpelled⟩, ?_⟩
  rw [Stmt.unplaced, Stmt.unplaced, named, startErased, stopErased, erasedBody]

private theorem return_written {value : Expr} (loc : Loc) (written : ExprWritten value) :
    StmtWritten (.returning value loc) := by
  have layout : (Stmt.returning value loc).render.toList =
      ("return".toList ++ [' ']) ++ value.render.toList := by
    simp [Stmt.render, toString]
  have opener := written_before_blank (keyword_written .kwReturn rfl rfl)
  rw [StmtWritten, layout]
  refine writes_imp (writes_append opener written fun _ _ => trivial) ?_
  rintro tokens ⟨_, own, rfl, ⟨opener, rfl, opens, -⟩, ⟨placed, spelled, erased⟩, -⟩
  refine ⟨⟨.returning placed opener.loc, ⟨opener, own, rfl, opens, rfl, .inr spelled⟩, ?_⟩,
    sign_shown_of_kind (by simp [opens]), ?_⟩
  · rw [Stmt.unplaced, Stmt.unplaced, erased]
  · intro token single
    obtain ⟨first, rest, rfl, -⟩ := expr_begins placed own spelled
    simp at single

private theorem proc_decl_written {name : Name} {proc : Proc} (isName : name.path.isName = true)
    (plain : ∀ mark ∈ proc.params, Path.isName [mark.text] = true)
    (written : ∀ s ∈ proc.body, StmtWritten s) : StmtWritten (.procDecl name proc) := by
  have layout : (Stmt.procDecl name proc).render.toList =
      ("proc".toList ++ [' ']) ++ (name.path.text.toList ++ procText proc) := by
    obtain ⟨loc, params, paramsLoc, body, bodyLoc⟩ := proc
    simp [Stmt.render, Proc.render, toString, procText, blockText]
  have begins : ∀ rest, Breaks (procText proc ++ rest) := by
    obtain ⟨loc, params, paramsLoc, body, bodyLoc⟩ := proc
    exact breaks_of_head rfl
  refine opened_written .kwProc rfl rfl (writes_append (name_written isName)
    (proc_text_written plain written) fun rest _ => begins rest) layout ?_
  rintro opener _ opens ⟨_, others, rfl, ⟨token, rfl, isIdent, text⟩, spelt⟩
  obtain ⟨placed, spelled, erased⟩ := spelt opener
  refine ⟨.procDecl (nameOf token) placed,
    ⟨opener, token, others, rfl, opens, isIdent, rfl, spelled⟩, ?_⟩
  simp [Stmt.unplaced, Name.unplaced, nameOf, text, name_of_text isName, erased]

private theorem proc_written {proc : Proc}
    (plain : ∀ mark ∈ proc.params, Path.isName [mark.text] = true)
    (written : ∀ s ∈ proc.body, StmtWritten s) : ExprWritten (.proc proc) := by
  have layout : (Expr.proc proc).render.toList = ("proc".toList ++ [' ']) ++ procText proc := by
    obtain ⟨loc, params, paramsLoc, body, bodyLoc⟩ := proc
    simp [Expr.render, Proc.render, toString, procText, blockText]
  have opener := written_before_blank (keyword_written .kwProc rfl rfl)
  rw [ExprWritten, layout]
  refine writes_imp (writes_append opener (proc_text_written plain written) fun _ _ => trivial) ?_
  rintro tokens ⟨_, others, rfl, ⟨opener, rfl, opens, -⟩, spelt⟩
  obtain ⟨placed, spelled, erased⟩ := spelt opener
  refine ⟨⟨.proc placed, ⟨opener, others, rfl, opens, spelled⟩, ?_⟩,
    sign_shown_of_kind (by simp [opens])⟩
  rw [Expr.unplaced, Expr.unplaced, erased]

end Stmts

mutual

/-- The text of every expression in shape is read as tokens that spell it. -/
theorem expr_written : (e : Expr) → e.isShaped = true → ExprWritten e
  | .literal _ loc, shaped => literal_written loc shaped
  | .identifier _, shaped => identifier_written shaped
  | .group inner loc, shaped => group_written loc (expr_written inner shaped)
  | .unary _ _ operand, shaped => by
    simp only [Expr.isShaped, Bool.and_eq_true, decide_eq_true_eq] at shaped
    exact unary_written shaped.1.1 shaped.1.2 (expr_written operand shaped.2)
  | .binary left _ _ right, shaped => by
    simp only [Expr.isShaped, Bool.and_eq_true, decide_eq_true_eq] at shaped
    obtain ⟨⟨⟨⟨spelled, looser⟩, tighter⟩, leftShaped⟩, rightShaped⟩ := shaped
    exact binary_written spelled looser tighter (expr_written left leftShaped)
      (expr_written right rightShaped)
  | .call _ args argsLoc, shaped => by
    simp only [Expr.isShaped, Bool.and_eq_true] at shaped
    exact call_written argsLoc shaped.1 (exprs_written args shaped.2)
  | .proc (.mk _ params _ body _), shaped => by
    simp only [Expr.isShaped, Proc.isShaped, Bool.and_eq_true, List.all_eq_true] at shaped
    exact proc_written shaped.1 (stmts_written body shaped.2)

private theorem exprs_written :
    (es : List Expr) → areExprsShaped es = true → ∀ e ∈ es, ExprWritten e
  | [], _ => by simp
  | e :: es, shaped => by
    simp only [areExprsShaped, Bool.and_eq_true] at shaped
    exact List.forall_mem_cons.mpr ⟨expr_written e shaped.1, exprs_written es shaped.2⟩

/-- The text of every statement in shape is read as tokens that spell it. -/
theorem stmt_written : (s : Stmt) → s.isShaped = true → StmtWritten s
  | .expr e, shaped => expr_stmt_written (expr_written e shaped)
  | .importLibrary _ loc, shaped => import_library_written loc shaped
  | .importRelative target loc, _ => import_relative_written target loc
  | .inNamespace _ body bodyLoc loc, shaped => by
    simp only [Stmt.isShaped, Bool.and_eq_true] at shaped
    exact namespace_written bodyLoc loc shaped.1 (stmts_written body shaped.2)
  | .letDecl _ value loc, shaped => by
    simp only [Stmt.isShaped, Bool.and_eq_true] at shaped
    exact let_written loc shaped.1 (expr_written value shaped.2)
  | .constDecl _ value loc, shaped => by
    simp only [Stmt.isShaped, Bool.and_eq_true] at shaped
    exact const_written loc shaped.1 (expr_written value shaped.2)
  | .set _ value, shaped => by
    simp only [Stmt.isShaped, Bool.and_eq_true] at shaped
    exact set_written shaped.1 (expr_written value shaped.2)
  | .ifThen condition body bodyLoc loc, shaped => by
    simp only [Stmt.isShaped, Bool.and_eq_true] at shaped
    exact if_written bodyLoc loc (expr_written condition shaped.1) (stmts_written body shaped.2)
  | .forRange _ start stop body bodyLoc loc, shaped => by
    simp only [Stmt.isShaped, Bool.and_eq_true] at shaped
    obtain ⟨⟨⟨isName, startShaped⟩, stopShaped⟩, bodyShaped⟩ := shaped
    exact for_written bodyLoc loc isName (expr_written start startShaped)
      (expr_written stop stopShaped) (stmts_written body bodyShaped)
  | .whileTrue condition body bodyLoc loc, shaped => by
    simp only [Stmt.isShaped, Bool.and_eq_true] at shaped
    exact while_written bodyLoc loc (expr_written condition shaped.1) (stmts_written body shaped.2)
  | .returning value loc, shaped => return_written loc (expr_written value shaped)
  | .procDecl _ (.mk _ params _ body _), shaped => by
    simp only [Stmt.isShaped, Proc.isShaped, Bool.and_eq_true, List.all_eq_true] at shaped
    exact proc_decl_written shaped.1 shaped.2.1 (stmts_written body shaped.2.2)

private theorem stmts_written : (ss : List Stmt) → areShaped ss = true → ∀ s ∈ ss, StmtWritten s
  | [], _ => by simp
  | s :: ss, shaped => by
    simp only [areShaped, Bool.and_eq_true] at shaped
    exact List.forall_mem_cons.mpr ⟨stmt_written s shaped.1, stmts_written ss shaped.2⟩

end

section Lines

private theorem same_ending {placed s : Stmt} (same : placed.unplaced = s.unplaced) :
    placed.endsInExpr = s.endsInExpr := by
  have ending : ∀ s : Stmt, s.unplaced.endsInExpr = s.endsInExpr := fun s => by cases s <;> rfl
  rw [← ending, same, ending]

private theorem ends_before_line {s : Stmt} {own rest : List Token} {next : Token}
    (notBare : ∀ opener, own = [opener] → opener.kind ≠ .kwReturn)
    (begins : next.kind.beginsStmt = true)
    (unsigned : s.endsInExpr = true → next.kind ≠ .minus)
    (later : ∀ token ∈ own, token.loc.pos.line < next.loc.pos.line) :
    s.EndsBefore own (next :: rest) := by
  intro ending
  obtain ⟨-, -, -, notAssign, operator⟩ := begins_stmt_plain begins
  refine ⟨fun token member => ?_, fun token member => ?_⟩
  all_goals obtain rfl : next = token := by simpa using member
  · refine ⟨fun op found => absurd (operator op found) (unsigned ending), ?_⟩
    intro last isLast _ _
    have line := later last (List.mem_of_getLast? isLast)
    simp [adjacent, Nat.ne_of_lt line]
  · refine ⟨notAssign, fun single isReturn => ?_⟩
    obtain ⟨only, rfl⟩ := List.length_eq_one_iff.mp single
    obtain ⟨opener, member, kind⟩ := isReturn
    obtain rfl : opener = only := by simpa using member
    exact absurd kind (notBare opener rfl)

private theorem ends_before_eof {s : Stmt} {own : List Token} {eof : Token}
    (isEof : eof.kind = .eof) : s.EndsBefore own [eof] := by
  intro _
  refine ⟨fun next member => ?_, fun next member => ?_⟩
  all_goals obtain rfl : eof = next := by simpa using member
  · exact ⟨fun op found => by simp [isEof, BinaryOp.ofKind?] at found,
      fun _ _ _ paren => by simp [isEof] at paren⟩
  · simp [isEof]

/-- The text of statements that follow on lines of their own. -/
private def moreLines (ss : List Stmt) : List Char :=
  ss.flatMap fun next => "\n".toList ++ next.render.toList

/-- The tokens spell the statements when the end of input closes them. They
begin where the first statement may begin, on the given line or a later one. -/
private structure LinesSpelt (s : Stmt) (ss : List Stmt) (line : Nat) (first : Token)
    (more : List Token) : Prop where
  later : line ≤ first.loc.pos.line
  begins : first.kind.beginsStmt = true
  shown : first.kind = .minus → s.render.toList.head? = some '-'
  spelt : ∃ placed, unplacedStmts placed = unplacedStmts (s :: ss) ∧
    ∀ eof : Token, eof.kind = .eof → StmtsSpelled .eof placed (first :: more ++ [eof])

private theorem lines_read (file : String) (ss : List Stmt) (s : Stmt) (pos : Pos)
    (written : ∀ other ∈ s :: ss, StmtWritten other) (apart : keepApart (s :: ss) = true) :
    ∃ first more last, Reads file ⟨false, pos, s.render.toList ++ moreLines ss⟩ (first :: more)
      ⟨false, last, []⟩ ∧ LinesSpelt s ss pos.line first more := by
  induction ss generalizing s pos with
  | nil =>
    obtain ⟨tokens, read, ⟨placed, spelled, erased⟩, shown, -⟩ :=
      (written s (by simp)).reads file pos [] breaks_nil
    obtain ⟨first, more, rfl, begins⟩ := stmt_begins placed spelled
    refine ⟨first, more, _, read, ((reads_lines read).2 first (by simp)).1, begins,
      shown first rfl, [placed], by rw [unplacedStmts, unplacedStmts, erased]; rfl, ?_⟩
    intro eof isEof
    exact ⟨[], first :: more, [eof], rfl, by simp, spelled, ends_before_eof isEof,
      [], eof, rfl, by simp, isEof⟩
  | cons t ss ih =>
    simp only [keepApart, Bool.and_eq_true, Bool.not_eq_true', Bool.and_eq_false_iff] at apart
    obtain ⟨unsigned, apart⟩ := apart
    have oneLine := (written s (by simp)).oneLine
    obtain ⟨own, read, ⟨placed, spelled, erased⟩, shown, notBare⟩ :=
      (written s (by simp)).reads file pos ('\n' :: (t.render.toList ++ moreLines ss))
        (breaks_cons rfl _)
    obtain ⟨next, others, last, readMore, lines⟩ := ih t ((pos.after s.render.toList).next '\n')
      (fun other member => written other (List.mem_cons_of_mem _ member)) apart
    obtain ⟨placedMore, erasedMore, spelledMore⟩ := lines.spelt
    have ends : ∀ rest, placed.EndsBefore own (next :: rest) := by
      intro rest
      refine ends_before_line notBare lines.begins (fun ending isMinus => ?_) fun token member => ?_
      · rw [same_ending erased] at ending
        rcases unsigned with noExpr | noSign
        · simp [ending] at noExpr
        · simp [lines.shown isMinus] at noSign
      · have within := ((reads_lines read).2 token member).2
        have further := lines.later
        rw [after_one_line pos oneLine] at within further
        exact Nat.lt_of_le_of_lt within further
    obtain ⟨first, more, rfl, begins⟩ := stmt_begins placed spelled
    have layout : s.render.toList ++ moreLines (t :: ss) =
        s.render.toList ++ '\n' :: (t.render.toList ++ moreLines ss) := by
      simp [moreLines]
    refine ⟨first, more ++ next :: others, last, ?_, ((reads_lines read).2 first (by simp)).1,
      begins, shown first rfl, placed :: placedMore, ?_, fun eof isEof => ?_⟩
    · rw [layout]
      exact reads_append read (.blank rfl readMore)
    · rw [unplacedStmts, erased, erasedMore, ← unplacedStmts]
    · refine ⟨[], first :: more, next :: others ++ [eof], by simp, by simp, spelled, ends _, ?_⟩
      exact spelledMore eof isEof

/-- The text of a program in shape is cut into tokens that spell its
statements up to the end of input. -/
theorem program_tokens (program : Program) (file : String) (shaped : program.isShaped = true) :
    ∃ tokens placed, tokenize program.render file = .ok tokens ∧
      StmtsSpelled .eof placed tokens ∧ unplacedStmts placed = unplacedStmts program.body := by
  obtain ⟨origin, body⟩ := program
  obtain ⟨shaped, apart⟩ : areShaped body = true ∧ keepApart body = true := by
    simpa [Program.isShaped] using shaped
  cases body with
  | nil => exact ⟨_, [], rfl, ⟨[], _, rfl, by simp, rfl⟩, rfl⟩
  | cons s ss =>
    obtain ⟨first, more, last, read, lines⟩ :=
      lines_read file ss s .first (stmts_written (s :: ss) shaped) apart
    obtain ⟨placed, erased, spelled⟩ := lines.spelt
    have layout : (Program.render ⟨origin, s :: ss⟩).toList = s.render.toList ++ moreLines ss := by
      rw [Program.render, renderStmts, intercalate_cons, render_stmts_eq_map, List.flatMap_map]
      rfl
    rw [← layout] at read
    exact ⟨_, placed, tokenize_of_reads read, spelled _ rfl, erased⟩

end Lines

/-- Rendered programs and expressions in the shape of the grammar can be read,
and what is read is what was rendered, places apart. -/
theorem render_round_trip (file : String) :
    (∀ program : Program, program.isShaped = true → ∃ parsed,
      Program.parse program.render file = .ok parsed ∧ parsed.unplaced = program.unplaced) ∧
    (∀ e : Expr, e.isShaped = true → ∃ parsed,
      Expr.parse e.render file = .ok parsed ∧ parsed.unplaced = e.unplaced) := by
  constructor
  · intro program shaped
    obtain ⟨tokens, placed, tokenized, spelled, erased⟩ := program_tokens program file shaped
    obtain ⟨origin, parsed⟩ := program_of_tokens spelled
    refine ⟨⟨origin, placed⟩, ?_, by rw [Program.unplaced, Program.unplaced, erased]⟩
    rw [Program.parse, tokenized]
    exact parsed
  · intro e shaped
    obtain ⟨tokens, read, ⟨placed, spelled, erased⟩, -⟩ :=
      (expr_written e shaped).reads file .first [] breaks_nil
    rw [List.append_nil] at read
    refine ⟨placed, ?_, erased⟩
    rw [Expr.parse, tokenize_of_reads read]
    exact expression_of_tokens spelled rfl

/-- A negated name in parentheses, twice negated outside them. -/
def signsAndGroups : Expr :=
  .unary .negate ⟨"-", .nowhere⟩ (.unary .negate ⟨"-", .nowhere⟩
    (.group (.unary .negate ⟨"-", .nowhere⟩ (.identifier ⟨["a", "b"], .nowhere⟩)) .nowhere))

/-- Statements that line breaks and escapes alone keep apart: a name at the end
of a line with a group on the next one, a string that ends in a line feed and a
quote, a fraction, and a body whose second statement begins with a sign. -/
def closeNeighbours : Program :=
  ⟨"", [
    .importRelative ⟨"a\n\"", .nowhere⟩ .nowhere,
    .set ⟨["x"], .nowhere⟩ (.identifier ⟨["if", "y"], .nowhere⟩),
    .expr (.group (.binary (.literal ⟨.number, "2.50"⟩ .nowhere) .less ⟨"<", .nowhere⟩
      (.call ⟨["f"], .nowhere⟩ [.identifier ⟨["x"], .nowhere⟩, signsAndGroups] .nowhere)) .nowhere),
    .procDecl ⟨["f"], .nowhere⟩ (.mk .nowhere [⟨"p", .nowhere⟩, ⟨"q", .nowhere⟩] .nowhere
      [.expr (.identifier ⟨["p"], .nowhere⟩), .expr signsAndGroups,
        .returning (.literal .null .nowhere) .nowhere] .nowhere)]⟩

theorem close_neighbours_round_trip :
    (closeNeighbours.isShaped = true ∧
      ∃ parsed, Program.parse closeNeighbours.render "f" = .ok parsed ∧
        parsed.unplaced = closeNeighbours.unplaced) ∧
    signsAndGroups.isShaped = true ∧ ∃ parsed, Expr.parse signsAndGroups.render "f" = .ok parsed ∧
      parsed.unplaced = signsAndGroups.unplaced :=
  have shaped : closeNeighbours.isShaped = true := rfl
  have shapedExpr : signsAndGroups.isShaped = true := rfl
  ⟨⟨shaped, (render_round_trip "f").1 closeNeighbours shaped⟩,
    shapedExpr, (render_round_trip "f").2 signsAndGroups shapedExpr⟩

end BasilLang.RoundTrip
