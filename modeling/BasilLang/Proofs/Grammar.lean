import BasilLang.Proofs.Shape
import BasilLang.Syntax.Parser

/-! The grammar as a relation between trees and the tokens that spell them,
places included. It is written over the trees alone: no cursor, no room and no
loop of the parser appears in it. What a reader has to look ahead for is said
once, where one statement follows another. -/
namespace BasilLang

open BasilLang.Parser

/-- The value of a token that is a literal by itself. -/
def Token.literal? (token : Token) : Option Value :=
  match token.kind with
  | .number => some ⟨.number, token.text⟩
  | .string => some ⟨.string, token.text⟩
  | .kwTrue | .kwFalse => some ⟨.boolean, token.text⟩
  | .kwNull => some ⟨.null, token.text⟩
  | _ => none

/-- The tokens begin at the given place. -/
def BeginsAt (tokens : List Token) (loc : Loc) : Prop :=
  ∃ first rest, tokens = first :: rest ∧ first.loc = loc

/-- The tokens are items with commas between them, and perhaps one more comma
after the last. -/
def Listed {α : Type} (item : α → List Token → Prop) : List α → List Token → Prop
  | [], tokens => tokens = []
  | a :: as, tokens => (as = [] ∧ item a tokens) ∨
    ∃ first comma rest, tokens = first ++ comma :: rest ∧ comma.kind = .comma ∧
      item a first ∧ Listed item as rest

/-- A parameter is a token with a plain name. -/
def Mark.Spelled (mark : Mark) (tokens : List Token) : Prop :=
  ∃ token, tokens = [token] ∧ token.kind = .ident ∧ Path.isDotted token.text = false ∧
    markOf token = mark

/-- Either word that ends a header. -/
def Token.EndsHeader (token : Token) : Prop :=
  token.kind = .kwThen ∨ token.kind = .colon

/-- The tokens do not go on with an expression that ends in `own`: no operator
of the given level or a tighter one, and no parenthesis that touches a name. -/
def Leaves (level : Nat) (own rest : List Token) : Prop :=
  ∀ next ∈ rest.head?, (∀ op, BinaryOp.ofKind? next.kind = some op → op.level < level) ∧
    ∀ last ∈ own.getLast?, last.kind = .ident → next.kind = .leftParen →
      adjacent last next = false

/-- What may come after the tokens of a statement so that it ends with them. A
bare return has to be followed by the end of what it stands in. -/
def Stmt.EndsBefore (s : Stmt) (own rest : List Token) : Prop :=
  s.endsInExpr = true → Leaves 0 own rest ∧ ∀ next ∈ rest.head?, next.kind ≠ .assign ∧
    (own.length = 1 → (∃ opener ∈ own, opener.kind = .kwReturn) →
      next.kind = .kwEnd ∨ next.kind = .semicolon ∨ next.kind = .eof)

mutual

/-- The tokens after the word `proc` and the name. -/
def Proc.Spelled (opener : Token) : Proc → List Token → Prop
  | .mk loc params paramsLoc body bodyLoc, tokens =>
    ∃ opening inside closing header block,
      tokens = opening :: inside ++ closing :: header :: block ∧ opener.loc = loc ∧
      opening.kind = .leftParen ∧ closing.kind = .rightParen ∧ header.EndsHeader ∧
      BeginsAt (inside ++ [closing]) paramsLoc ∧ Listed Mark.Spelled params inside ∧
      BeginsAt block bodyLoc ∧ StmtsSpelled .kwEnd body block

/-- The tokens of an expression. -/
def Expr.Spelled : Expr → List Token → Prop
  | .literal value loc, tokens =>
    ∃ token, tokens = [token] ∧ token.literal? = some value ∧ token.loc = loc
  | .identifier name, tokens =>
    ∃ token, tokens = [token] ∧ token.kind = .ident ∧ nameOf token = name
  | .group inner loc, tokens =>
    ∃ opening inside closing, tokens = opening :: inside ++ [closing] ∧
      opening.kind = .leftParen ∧ closing.kind = .rightParen ∧ opening.loc = loc ∧
      inner.Spelled inside
  | .unary op mark operand, tokens =>
    ∃ token rest, tokens = token :: rest ∧ UnaryOp.ofKind? token.kind = some op ∧
      markOf token = mark ∧ unaryLevel ≤ operand.tightness ∧ operand.Spelled rest
  | .binary left op mark right, tokens =>
    ∃ before token after, tokens = before ++ token :: after ∧
      BinaryOp.ofKind? token.kind = some op ∧ markOf token = mark ∧
      op.level ≤ left.tightness ∧ op.level < right.tightness ∧
      left.Spelled before ∧ right.Spelled after
  | .call callee args argsLoc, tokens =>
    ∃ name opening inside closing, tokens = name :: opening :: inside ++ [closing] ∧
      name.kind = .ident ∧ nameOf name = callee ∧ opening.kind = .leftParen ∧
      adjacent name opening = true ∧ opening.loc = argsLoc ∧ closing.kind = .rightParen ∧
      ExprsSpelled args inside
  | .proc p, tokens =>
    ∃ opener rest, tokens = opener :: rest ∧ opener.kind = .kwProc ∧ p.Spelled opener rest

/-- The tokens of the arguments of a call. -/
def ExprsSpelled : List Expr → List Token → Prop
  | [], tokens => tokens = []
  | e :: es, tokens => (es = [] ∧ e.Spelled tokens) ∨
    ∃ first comma rest, tokens = first ++ comma :: rest ∧ comma.kind = .comma ∧
      e.Spelled first ∧ ExprsSpelled es rest

/-- The tokens of a statement. -/
def Stmt.Spelled : Stmt → List Token → Prop
  | .expr e, tokens => e.Spelled tokens
  | .importLibrary target loc, tokens =>
    ∃ opener token, tokens = [opener, token] ∧ opener.kind = .kwImport ∧ opener.loc = loc ∧
      (token.kind = .ident ∨ token.kind = .libraryPath) ∧ markOf token = target
  | .importRelative target loc, tokens =>
    ∃ opener token, tokens = [opener, token] ∧ opener.kind = .kwImport ∧ opener.loc = loc ∧
      token.kind = .string ∧ markOf token = target
  | .inNamespace name body bodyLoc loc, tokens =>
    ∃ opener token block, tokens = opener :: token :: block ∧ opener.kind = .kwNamespace ∧
      opener.loc = loc ∧ token.kind = .ident ∧ nameOf token = name ∧
      BeginsAt block bodyLoc ∧ StmtsSpelled .kwEnd body block
  | .letDecl name value loc, tokens =>
    ∃ opener token equals rest, tokens = opener :: token :: equals :: rest ∧
      opener.kind = .kwLet ∧ opener.loc = loc ∧ token.kind = .ident ∧ nameOf token = name ∧
      equals.kind = .assign ∧ value.Spelled rest
  | .constDecl name value loc, tokens =>
    ∃ opener token equals rest, tokens = opener :: token :: equals :: rest ∧
      opener.kind = .kwConst ∧ opener.loc = loc ∧ token.kind = .ident ∧ nameOf token = name ∧
      equals.kind = .assign ∧ value.Spelled rest
  | .set name value, tokens =>
    ∃ token equals rest, tokens = token :: equals :: rest ∧ token.kind = .ident ∧
      nameOf token = name ∧ equals.kind = .assign ∧ value.Spelled rest
  | .ifThen condition body bodyLoc loc, tokens =>
    ∃ opener inside header block, tokens = opener :: inside ++ header :: block ∧
      opener.kind = .kwIf ∧ opener.loc = loc ∧ header.EndsHeader ∧ condition.Spelled inside ∧
      BeginsAt block bodyLoc ∧ StmtsSpelled .kwEnd body block
  | .forRange name start stop body bodyLoc loc, tokens =>
    ∃ opener token equals first middle last header block,
      tokens = opener :: token :: equals :: first ++ middle :: last ++ header :: block ∧
      opener.kind = .kwFor ∧ opener.loc = loc ∧ token.kind = .ident ∧ nameOf token = name ∧
      equals.kind = .assign ∧ start.Spelled first ∧ middle.kind = .kwTo ∧ stop.Spelled last ∧
      header.EndsHeader ∧ BeginsAt block bodyLoc ∧ StmtsSpelled .kwEnd body block
  | .whileTrue condition body bodyLoc loc, tokens =>
    ∃ opener inside header block, tokens = opener :: inside ++ header :: block ∧
      opener.kind = .kwWhile ∧ opener.loc = loc ∧ header.EndsHeader ∧
      condition.Spelled inside ∧ BeginsAt block bodyLoc ∧ StmtsSpelled .kwEnd body block
  | .returning value loc, tokens =>
    ∃ opener rest, tokens = opener :: rest ∧ opener.kind = .kwReturn ∧ opener.loc = loc ∧
      ((rest = [] ∧ value = .literal .null loc) ∨ value.Spelled rest)
  | .procDecl name proc, tokens =>
    ∃ opener token rest, tokens = opener :: token :: rest ∧ opener.kind = .kwProc ∧
      token.kind = .ident ∧ nameOf token = name ∧ proc.Spelled opener rest

/-- The tokens of statements up to a token that stops them. Semicolons may
stand in front of each statement and in front of the stop. -/
def StmtsSpelled (stop : TokenKind) : List Stmt → List Token → Prop
  | [], tokens => ∃ semicolons last, tokens = semicolons ++ [last] ∧
      (∀ token ∈ semicolons, token.kind = .semicolon) ∧ last.kind = stop
  | s :: ss, tokens => ∃ semicolons own rest, tokens = semicolons ++ (own ++ rest) ∧
      (∀ token ∈ semicolons, token.kind = .semicolon) ∧ s.Spelled own ∧
      s.EndsBefore own rest ∧ StmtsSpelled stop ss rest

end

/-- Arguments are spelled as a list of expressions is. -/
theorem exprs_spelled_iff_listed (es : List Expr) (tokens : List Token) :
    ExprsSpelled es tokens ↔ Listed Expr.Spelled es tokens := by
  induction es generalizing tokens with
  | nil => simp only [ExprsSpelled, Listed]
  | cons e es ih => simp only [ExprsSpelled, Listed, ih]

/-- The kinds of token that an expression can begin with. -/
def TokenKind.beginsExpr : TokenKind → Bool
  | .number | .string | .kwTrue | .kwFalse | .kwNull | .leftParen | .kwProc | .ident
  | .minus | .kwNot => true
  | _ => false

/-- The kinds of token that a statement can begin with. -/
def TokenKind.beginsStmt : TokenKind → Bool
  | .kwImport | .kwNamespace | .kwLet | .kwConst | .kwIf | .kwFor | .kwWhile | .kwReturn => true
  | kind => kind.beginsExpr

/-- What tells an expression from the other statements: its first token, and
the one after a name or the word `proc`. -/
def BeginsExpr (tokens : List Token) : Prop :=
  ∃ first rest, tokens = first :: rest ∧ first.kind.beginsExpr = true ∧
    (first.kind = .ident → ∀ next ∈ rest.head?, next.kind ≠ .assign) ∧
    (first.kind = .kwProc → ∃ next more, rest = next :: more ∧ next.kind = .leftParen)

private theorem literal_begins {token : Token} {value : Value}
    (found : token.literal? = some value) : BeginsExpr [token] := by
  refine ⟨token, [], rfl, ?_, ?_, ?_⟩
  all_goals
    unfold Token.literal? at found
    split at found <;> simp_all [TokenKind.beginsExpr]

private theorem begins_append {tokens more : List Token} (begins : BeginsExpr tokens)
    (next : ∀ token ∈ more.head?, token.kind ≠ .assign) : BeginsExpr (tokens ++ more) := by
  obtain ⟨first, rest, rfl, kind, name, proc⟩ := begins
  refine ⟨first, rest ++ more, rfl, kind, ?_, ?_⟩
  · intro isName token member
    cases rest with
    | nil => exact next token member
    | cons second rest => exact name isName token member
  · intro isProc
    obtain ⟨second, more', rfl, opens⟩ := proc isProc
    exact ⟨second, more' ++ more, rfl, opens⟩

/-- The first token of an expression tells that it is one. -/
theorem expr_begins (e : Expr) (tokens : List Token) (spelled : e.Spelled tokens) :
    BeginsExpr tokens := by
  match e with
  | .literal value loc =>
    obtain ⟨token, rfl, found, -⟩ := spelled
    exact literal_begins found
  | .identifier name =>
    obtain ⟨token, rfl, kind, -⟩ := spelled
    exact ⟨token, [], rfl, by simp [kind, TokenKind.beginsExpr], by simp, by simp [kind]⟩
  | .group inner loc =>
    obtain ⟨opening, inside, closing, rfl, kind, -⟩ := spelled
    exact ⟨opening, _, rfl, by simp [kind, TokenKind.beginsExpr], by simp [kind], by simp [kind]⟩
  | .unary op mark operand =>
    obtain ⟨token, rest, rfl, found, -⟩ := spelled
    refine ⟨token, rest, rfl, ?_, ?_, ?_⟩
    all_goals
      unfold UnaryOp.ofKind? at found
      split at found <;> simp_all [TokenKind.beginsExpr]
  | .binary left op mark right =>
    obtain ⟨before, token, after, rfl, found, -, -, -, leftSpelled, -⟩ := spelled
    refine begins_append (expr_begins left before leftSpelled) ?_
    rintro next member kind
    obtain rfl : token = next := by simpa using member
    simp [kind, BinaryOp.ofKind?] at found
  | .call callee args argsLoc =>
    obtain ⟨name, opening, inside, closing, rfl, kind, -, opens, -⟩ := spelled
    refine ⟨name, opening :: inside ++ [closing], rfl, by simp [kind, TokenKind.beginsExpr],
      ?_, by simp [kind]⟩
    rintro - next member isAssign
    obtain rfl : opening = next := by simpa using member
    simp [opens] at isAssign
  | .proc (.mk loc params paramsLoc body bodyLoc) =>
    obtain ⟨opener, rest, rfl, kind, procSpelled⟩ := spelled
    obtain ⟨opening, inside, closing, header, block, rfl, -, opens, -⟩ := procSpelled
    exact ⟨opener, _, rfl, by simp [kind, TokenKind.beginsExpr], by simp [kind],
      fun _ => ⟨opening, _, rfl, opens⟩⟩

/-- The first token of a statement tells that it is one. -/
theorem stmt_begins (s : Stmt) {tokens : List Token} (spelled : s.Spelled tokens) :
    ∃ first more, tokens = first :: more ∧ first.kind.beginsStmt = true := by
  cases s with
  | expr e =>
    obtain ⟨first, more, rfl, kind, -⟩ := expr_begins e tokens spelled
    refine ⟨first, more, rfl, ?_⟩
    unfold TokenKind.beginsStmt
    split <;> first | rfl | exact kind
  | importLibrary target loc =>
    obtain ⟨opener, token, rfl, kind, -⟩ := spelled
    exact ⟨opener, _, rfl, by rw [kind]; rfl⟩
  | importRelative target loc =>
    obtain ⟨opener, token, rfl, kind, -⟩ := spelled
    exact ⟨opener, _, rfl, by rw [kind]; rfl⟩
  | inNamespace name body bodyLoc loc =>
    obtain ⟨opener, token, block, rfl, kind, -⟩ := spelled
    exact ⟨opener, _, rfl, by rw [kind]; rfl⟩
  | letDecl name value loc =>
    obtain ⟨opener, token, equals, rest, rfl, kind, -⟩ := spelled
    exact ⟨opener, _, rfl, by rw [kind]; rfl⟩
  | constDecl name value loc =>
    obtain ⟨opener, token, equals, rest, rfl, kind, -⟩ := spelled
    exact ⟨opener, _, rfl, by rw [kind]; rfl⟩
  | set name value =>
    obtain ⟨token, equals, rest, rfl, kind, -⟩ := spelled
    exact ⟨token, _, rfl, by rw [kind]; rfl⟩
  | ifThen condition body bodyLoc loc =>
    obtain ⟨opener, inside, header, block, rfl, kind, -⟩ := spelled
    exact ⟨opener, _, rfl, by rw [kind]; rfl⟩
  | forRange name start stop body bodyLoc loc =>
    obtain ⟨opener, token, equals, first, middle, last, header, block, rfl, kind, -⟩ := spelled
    exact ⟨opener, _, rfl, by rw [kind]; rfl⟩
  | whileTrue condition body bodyLoc loc =>
    obtain ⟨opener, inside, header, block, rfl, kind, -⟩ := spelled
    exact ⟨opener, _, rfl, by rw [kind]; rfl⟩
  | returning value loc =>
    obtain ⟨opener, rest, rfl, kind, -⟩ := spelled
    exact ⟨opener, _, rfl, by rw [kind]; rfl⟩
  | procDecl name proc =>
    obtain ⟨opener, token, rest, rfl, kind, -⟩ := spelled
    exact ⟨opener, _, rfl, by rw [kind]; rfl⟩

/-- A token that begins a statement ends none, and only a minus sign among
them could go on with the expression before it. -/
theorem begins_stmt_plain {kind : TokenKind} (begins : kind.beginsStmt = true) :
    kind ≠ .kwEnd ∧ kind ≠ .eof ∧ kind ≠ .semicolon ∧ kind ≠ .assign ∧
      ∀ op, BinaryOp.ofKind? kind = some op → kind = .minus := by
  cases kind <;> simp_all [TokenKind.beginsStmt, TokenKind.beginsExpr, BinaryOp.ofKind?]

end BasilLang
