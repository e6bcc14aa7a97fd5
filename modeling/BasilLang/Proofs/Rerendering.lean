import BasilLang.Proofs.RoundTrip
import BasilLang.Proofs.Standing

/-! Rendering what has been parsed. The tree of a source has the shape of the
grammar, except for two things that the parser lets through and the printer
does not mark: a library in brackets may have a name that is no name elsewhere,
and semicolons may divide an expression from a sign. Apart from these, the
rendered text is read as the same tree, so rendering it once more changes
nothing. -/
namespace BasilLang.Rerendering

open BasilLang.Parser Placement Standing

/-- What the shape of the grammar asks of a node, apart from what stands inside
it. -/
def Formed : Stmt → Prop
  | .expr (.literal value _) => value.isSpelled = true
  | .expr (.unary op mark operand) =>
    op.kind.spelling? = some mark.text ∧ unaryLevel ≤ operand.tightness
  | .expr (.binary left op mark right) =>
    op.kind.spelling? = some mark.text ∧ op.level ≤ left.tightness ∧ op.level < right.tightness
  | .expr (.proc p) => ∀ mark ∈ p.params, Path.isName [mark.text] = true
  | .procDecl name p => name.path.isName = true ∧ ∀ mark ∈ p.params, Path.isName [mark.text] = true
  | .importLibrary target _ => (Path.ofText target.text).isName = true
  | s => ∀ name, s.name? = some name → name.path.isName = true

section Shape

private theorem block_formed {body : List Stmt} {loc : Loc}
    (formed : (Part.block body loc).Every Formed) : ∀ s ∈ body, (Part.ofStmt s).Every Formed :=
  fun _ member => formed.child (List.mem_map_of_mem member)

mutual

/-- An expression has the shape of the grammar if everything in it is as that
asks for. -/
theorem expr_shaped : (e : Expr) → (Part.expr e).Every Formed → e.isShaped = true
  | .literal _ _, formed => formed.hereExpr
  | .identifier name, formed => formed.hereExpr name rfl
  | .group inner _, formed => expr_shaped inner (formed.child (List.mem_singleton_self _))
  | .unary _ _ operand, formed => by
    obtain ⟨spelled, binds⟩ := formed.hereExpr
    have inner := expr_shaped operand (formed.child (by simp [Part.children, Part.exprChildren]))
    simp [Expr.isShaped, spelled, binds, inner]
  | .binary left _ _ right, formed => by
    obtain ⟨spelled, looser, tighter⟩ := formed.hereExpr
    have first := expr_shaped left (formed.child (by simp [Part.children, Part.exprChildren]))
    have second := expr_shaped right (formed.child (by simp [Part.children, Part.exprChildren]))
    simp [Expr.isShaped, spelled, looser, tighter, first, second]
  | .call callee args argsLoc, formed => by
    have isName := formed.hereExpr callee rfl
    have listed : (Part.argList args argsLoc).Every Formed :=
      formed.child (by simp [Part.children, Part.exprChildren])
    have inner := exprs_shaped args fun e member => listed.child (List.mem_map_of_mem member)
    simp [Expr.isShaped, isName, inner]
  | .proc (.mk _ params _ body bodyLoc), formed => by
    have plain : ∀ mark ∈ params, Path.isName [mark.text] = true := formed.hereExpr
    have block : (Part.block body bodyLoc).Every Formed :=
      formed.child (.tail _ (.tail _ (.head _)))
    have inner := stmts_shaped body (block_formed block)
    simpa [Expr.isShaped, Proc.isShaped, inner] using plain

private theorem exprs_shaped : (es : List Expr) → (∀ e ∈ es, (Part.expr e).Every Formed) →
    areExprsShaped es = true
  | [], _ => rfl
  | e :: es, formed => by
    obtain ⟨first, rest⟩ := List.forall_mem_cons.mp formed
    rw [areExprsShaped, expr_shaped e first, exprs_shaped es rest]
    rfl

private theorem stmt_shaped : (s : Stmt) → (Part.ofStmt s).Every Formed → s.isShaped = true
  | .expr e, formed => expr_shaped e formed
  | .importLibrary _ _, formed => formed.here
  | .importRelative _ _, _ => rfl
  | .inNamespace name body bodyLoc _, formed => by
    have isName := formed.here name rfl
    have block : (Part.block body bodyLoc).Every Formed := formed.child (.tail _ (.head _))
    have inner := stmts_shaped body (block_formed block)
    simp [Stmt.isShaped, isName, inner]
  | .letDecl name value _, formed | .constDecl name value _, formed | .set name value, formed => by
    have isName := formed.here name rfl
    have inner := expr_shaped value (formed.child (.tail _ (.head _)))
    simp [Stmt.isShaped, isName, inner]
  | .ifThen condition body bodyLoc _, formed | .whileTrue condition body bodyLoc _, formed => by
    have test := expr_shaped condition (formed.child (.head _))
    have block : (Part.block body bodyLoc).Every Formed := formed.child (.tail _ (.head _))
    have inner := stmts_shaped body (block_formed block)
    simp [Stmt.isShaped, test, inner]
  | .forRange name start stop body bodyLoc _, formed => by
    have isName := formed.here name rfl
    have first := expr_shaped start (formed.child (.tail _ (.head _)))
    have last := expr_shaped stop (formed.child (.tail _ (.tail _ (.head _))))
    have block : (Part.block body bodyLoc).Every Formed :=
      formed.child (.tail _ (.tail _ (.tail _ (.head _))))
    have inner := stmts_shaped body (block_formed block)
    simp [Stmt.isShaped, isName, first, last, inner]
  | .returning value _, formed => expr_shaped value (formed.child (.head _))
  | .procDecl _ (.mk _ params _ body bodyLoc), formed => by
    obtain ⟨isName, plain⟩ := formed.here
    have plain : ∀ mark ∈ params, Path.isName [mark.text] = true := plain
    have block : (Part.block body bodyLoc).Every Formed :=
      formed.child (.tail _ (.tail _ (.head _)))
    have inner := stmts_shaped body (block_formed block)
    simpa [Stmt.isShaped, Proc.isShaped, isName, inner] using plain

private theorem stmts_shaped : (ss : List Stmt) → (∀ s ∈ ss, (Part.ofStmt s).Every Formed) →
    areShaped ss = true
  | [], _ => rfl
  | s :: ss, formed => by
    obtain ⟨first, rest⟩ := List.forall_mem_cons.mp formed
    rw [areShaped, stmt_shaped s first, stmts_shaped ss rest]
    rfl

end

end Shape

section Parsed
variable {tokens own : List Token} {s : Stmt}

private theorem literal_spelled {token : Token} {value : Value} (well : WellSpelled token)
    (found : token.literal? = some value) : value.isSpelled = true := by
  unfold Token.literal? at found
  split at found
  · next isNumber =>
    cases found
    exact well.numeral isNumber
  · cases found
    rfl
  · next isTrue =>
    cases found
    have text : token.text = "true" := well.fixed "true" (by rw [isTrue]; rfl)
    simp [Value.isSpelled, text]
  · next isFalse =>
    cases found
    have text : token.text = "false" := well.fixed "false" (by rw [isFalse]; rfl)
    simp [Value.isSpelled, text]
  · next isNull =>
    cases found
    have text : token.text = "null" := well.fixed "null" (by rw [isNull]; rfl)
    simp [Value.isSpelled, text]
  · cases found

private theorem params_spelled {params : List Mark} (listed : Listed Mark.Spelled params own)
    (well : ∀ token ∈ own, WellSpelled token) :
    ∀ mark ∈ params, Path.isName [mark.text] = true := by
  have named : ∀ {mark : Mark} {tokens : List Token}, mark.Spelled tokens →
      (∀ token ∈ tokens, WellSpelled token) → Path.isName [mark.text] = true := by
    rintro mark _ ⟨token, rfl, isName, plain, rfl⟩ well
    have name := (well token (List.mem_singleton_self token)).name isName
    rwa [Lexing.ofText_undotted plain] at name
  induction params generalizing own with
  | nil => simp
  | cons mark marks ih =>
    rcases listed with ⟨rfl, single⟩ | ⟨first, comma, rest, rfl, -, single, others⟩
    · exact List.forall_mem_singleton.mpr (named single well)
    · have front := named single fun token member => well token (by simp [member])
      have back := ih others fun token member => well token (by simp [member])
      exact List.forall_mem_cons.mpr ⟨front, back⟩

private theorem proc_params_spelled {opener : Token} {proc : Proc}
    (spelled : proc.Spelled opener own) (well : ∀ token ∈ own, WellSpelled token) :
    ∀ mark ∈ proc.params, Path.isName [mark.text] = true := by
  obtain ⟨loc, params, paramsLoc, body, bodyLoc⟩ := proc
  obtain ⟨opening, inside, closing, header, block, rfl, -, -, -, -, -, listed, -⟩ := spelled
  exact params_spelled listed fun token member => well token (by simp [member])

private theorem operator_spelled {token : Token} {kind : TokenKind} (well : WellSpelled token)
    (same : kind = token.kind) (spelt : kind.spelling?.isSome = true) :
    kind.spelling? = some token.text := by
  obtain ⟨text, spelling⟩ := Option.isSome_iff_exists.mp spelt
  rw [spelling, well.fixed text (by rw [← same]; exact spelling)]

/-- What is spelled by tokens of a source is as the grammar asks for, if a
library in it has a name. -/
theorem formed_of_spelled (spelled : s.Spelled own) (well : ∀ token ∈ own, WellSpelled token)
    (named : ∀ token ∈ own, token.kind = .libraryPath → (Path.ofText token.text).isName = true) :
    Formed s := by
  have names : ∀ name, s.name? = some name → name.path.isName = true := by
    intro name here
    obtain ⟨token, member, isName, rfl⟩ := name_of_spelled spelled here
    exact (well token member).name isName
  cases s with
  | expr e =>
    cases e with
    | literal value loc =>
      obtain ⟨token, rfl, found, -⟩ := spelled
      exact literal_spelled (well token (List.mem_singleton_self token)) found
    | identifier | group | call => exact names
    | unary op mark operand =>
      obtain ⟨token, rest, rfl, found, rfl, binds, -⟩ := spelled
      obtain ⟨same, -⟩ := Retelling.operator_kind.1 op found
      have spelt : op.kind.spelling?.isSome = true := by cases op <;> rfl
      exact ⟨operator_spelled (well token List.mem_cons_self) same spelt, binds⟩
    | binary left op mark right =>
      obtain ⟨before, token, after, rfl, found, rfl, looser, tighter, -⟩ := spelled
      obtain ⟨same, -⟩ := Retelling.operator_kind.2 op found
      have spelt : op.kind.spelling?.isSome = true := by cases op <;> rfl
      exact ⟨operator_spelled (well token (by simp)) same spelt, looser, tighter⟩
    | proc proc =>
      obtain ⟨opener, rest, rfl, -, spelled⟩ := spelled
      exact proc_params_spelled spelled fun token member => well token (by simp [member])
  | importLibrary target loc =>
    obtain ⟨opener, token, rfl, -, -, kind | kind, rfl⟩ := spelled
    · exact (well token (by simp)).name kind
    · exact named token (by simp) kind
  | procDecl name proc =>
    obtain ⟨opener, token, rest, rfl, -, -, -, spelled⟩ := spelled
    exact ⟨names name rfl, proc_params_spelled spelled fun token member =>
      well token (by simp [member])⟩
  | importRelative | inNamespace | letDecl | constDecl | set | ifThen | forRange | whileTrue
  | returning => exact names

/-- Whether every library that stands in brackets in a text has a name, like
one that stands there without brackets. -/
def namesLibraries (file : String) (text : List Char) : Bool :=
  match Lexer.place file .first (Lexer.pieces text) with
  | .ok tokens => tokens.all fun token =>
      token.kind ≠ .libraryPath || (Path.ofText token.text).isName
  | .error _ => true

/-- A source whose libraries have names is parsed to statements in the shape of
the grammar. -/
theorem shaped_of_parse {source file : String} {program : Program}
    (parsed : Program.parse source file = .ok program)
    (named : namesLibraries file source.toList = true) : areShaped program.body = true := by
  obtain ⟨tokens, read, laid, spelled, -⟩ := spelled_of_parse (.inl parsed)
  have placed : Lexer.place file .first (Lexer.pieces source.toList) = .ok tokens := read
  have libraries : ∀ token ∈ tokens, token.kind = .libraryPath →
      (Path.ofText token.text).isName = true := by
    intro token member isLibrary
    rw [namesLibraries, placed, List.all_eq_true] at named
    simpa [isLibrary] using named token member
  have well := laid_wellSpelled laid
  have formed : (Part.program program).Every Formed := by
    refine every_of_stretch (program_has_stretch spelled) fun s below => ?_
    rcases spelled_or_supplied below with ⟨own, after, holds, spelled⟩ | ⟨token, -, rfl⟩
    · have within := holds_sublist holds
      exact formed_of_spelled spelled (fun token member => well token (within.mem member))
        fun token member => libraries token (within.mem member)
    · rfl
  exact stmts_shaped program.body fun s member => formed.child (List.mem_map_of_mem member)

end Parsed

/-- Rendering is stable after one pass. If every library in brackets has a name,
and no statement of the program that ends in an expression is followed by one
that begins with a sign, the rendered text of a parsed source is read as the
same tree, places apart, and renders as itself. -/
theorem rendered_text_renders_as_itself {source file again : String} {program : Program}
    (parsed : Program.parse source file = .ok program)
    (named : namesLibraries file source.toList = true)
    (apart : keepApart program.body = true) :
    ∃ reread, Program.parse program.render again = .ok reread ∧
      reread.unplaced = program.unplaced ∧ reread.render = program.render := by
  have shaped : program.isShaped = true := by
    rw [Program.isShaped, shaped_of_parse parsed named, apart]
    rfl
  obtain ⟨tokens, placed, tokenized, spelled, erased⟩ :=
    RoundTrip.program_tokens program again shaped
  obtain ⟨origin, reread⟩ := Acceptance.program_of_tokens spelled
  refine ⟨⟨origin, placed⟩, ?_, ?_, ?_⟩
  · rw [Program.parse, tokenized]
    exact reread
  · rw [Program.unplaced, Program.unplaced, erased]
  · rw [Program.render, Program.render, ← (stmts_told_unplaced placed).2.1, erased,
      (stmts_told_unplaced program.body).2.1]

/-- A source with semicolons, brackets and short forms that the printer leaves
out. A sign follows an expression inside a body, where it is still divided from
it, and a statement without an expression at its end. -/
def divided : String :=
  "import <std>; let x = 2.50f; if x > 1: x; -(x) end; -x
  proc f(a, b,): return; std.print(\"a\\n\\\"\",) end return"

theorem divided_renders_as_itself :
    ∃ program reread, Program.parse divided "f" = .ok program ∧
      namesLibraries "f" divided.toList = true ∧ keepApart program.body = true ∧
      Program.parse program.render "f" = .ok reread ∧ reread.render = program.render := by
  have named : namesLibraries "f" divided.toList = true := by
    unfold divided
    apply Lexing.holds_of_literal rfl
    decide +kernel
  have passes : ((Program.parse divided "f").toOption.any fun program =>
      keepApart program.body) = true := by
    unfold divided
    apply @Lexing.holds_of_literal fun text =>
      (Lexer.place "f" .first (Lexer.pieces text) >>= Program.ofTokens).toOption.any fun program =>
        keepApart program.body
    · rfl
    · decide +kernel
  cases parsed : Program.parse divided "f" with
  | error failure =>
    rw [parsed] at passes
    cases passes
  | ok program =>
    rw [parsed] at passes
    obtain ⟨reread, again, -, same⟩ := @rendered_text_renders_as_itself _ _ "f" _ parsed named passes
    exact ⟨program, reread, rfl, named, passes, again, same⟩

/-- Rendering leaves out what divides an expression from a sign, and the
brackets around a library. So there are sources whose rendered text is another
program, which renders in another way, or no program at all. -/
theorem sign_and_reserved_library_are_lost :
    ((Program.parse "let x = 1; -x" "f").map Program.render).toOption = some "let x = 1\n-x" ∧
      ((Program.parse "let x = 1\n-x" "f").map Program.render).toOption = some "let x = 1 - x" ∧
      ((Program.parse "import <if>" "f").map Program.render).toOption = some "import if" ∧
      ((Program.parse "import if" "f").map Program.render).toOption = none := by
  decide +kernel

end BasilLang.Rerendering
