import BasilLang.Proofs.Derivation
import BasilLang.Syntax.Part

/-! A tree can be read back into the tokens it was made from. Its words are the
tokens of the source in their order, up to the few things that a tree does not
keep: semicolons, the short form of `then`, the comma after a last item, and
the brackets of a library path. Every node of the tree stands where its first
token does, and a call is told from a name by the character behind the name. -/
namespace BasilLang

open BasilLang.Parser BasilLang.Placement BasilLang.Derivation

/-- A token without its place. -/
structure Word where
  kind : TokenKind
  text : String
deriving DecidableEq, Repr

namespace Word

/-- The word of a kind that has one spelling. -/
def ofKind (kind : TokenKind) : Word := ⟨kind, kind.spelling?.getD ""⟩

/-- The word of a name. -/
def ofName (name : Name) : Word := ⟨.ident, name.path.text⟩

end Word

/-- The word of a literal. -/
def Value.word (value : Value) : Word :=
  match value.kind with
  | .number => ⟨.number, value.text⟩
  | .string => ⟨.string, value.text⟩
  | .boolean => ⟨if value.text = "true" then .kwTrue else .kwFalse, value.text⟩
  | .null => ⟨.kwNull, value.text⟩

/-- The words of items with commas between them. -/
def commaWords : List (List Word) → List Word
  | [] => []
  | [own] => own
  | own :: next :: rest => own ++ .ofKind .comma :: commaWords (next :: rest)

/-- Whether an expression is the null that a return at the given place was
supplied with. -/
def Expr.isSupplied (loc : Loc) : Expr → Bool
  | .literal value own => value = .null && own = loc
  | _ => false

mutual

/-- The words of a proc after the word `proc` and the name. -/
def Proc.words : Proc → List Word
  | .mk _ params _ body _ =>
    .ofKind .leftParen :: commaWords (params.map fun mark => [⟨.ident, mark.text⟩]) ++
      .ofKind .rightParen :: .ofKind .kwThen :: blockWords body ++ [.ofKind .kwEnd]

/-- The words of an expression. -/
def Expr.words : Expr → List Word
  | .literal value _ => [value.word]
  | .identifier name => [.ofName name]
  | .group inner _ => .ofKind .leftParen :: inner.words ++ [.ofKind .rightParen]
  | .unary op mark operand => ⟨op.kind, mark.text⟩ :: operand.words
  | .binary left op mark right => left.words ++ ⟨op.kind, mark.text⟩ :: right.words
  | .call callee args _ =>
    .ofName callee :: .ofKind .leftParen :: commaWords (itemWords args) ++ [.ofKind .rightParen]
  | .proc p => .ofKind .kwProc :: p.words

/-- The words of each expression. -/
def itemWords : List Expr → List (List Word)
  | [] => []
  | e :: es => e.words :: itemWords es

/-- The words of a statement. A bare return says nothing of the null that it
gives back. -/
def Stmt.words : Stmt → List Word
  | .expr e => e.words
  | .importLibrary target _ => [.ofKind .kwImport, ⟨.ident, target.text⟩]
  | .importRelative target _ => [.ofKind .kwImport, ⟨.string, target.text⟩]
  | .inNamespace name body _ _ =>
    .ofKind .kwNamespace :: .ofName name :: blockWords body ++ [.ofKind .kwEnd]
  | .letDecl name value _ => .ofKind .kwLet :: .ofName name :: .ofKind .assign :: value.words
  | .constDecl name value _ => .ofKind .kwConst :: .ofName name :: .ofKind .assign :: value.words
  | .set name value => .ofName name :: .ofKind .assign :: value.words
  | .ifThen condition body _ _ =>
    .ofKind .kwIf :: condition.words ++ .ofKind .kwThen :: blockWords body ++ [.ofKind .kwEnd]
  | .forRange name start stop body _ _ =>
    .ofKind .kwFor :: .ofName name :: .ofKind .assign :: start.words ++ .ofKind .kwTo ::
      stop.words ++ .ofKind .kwThen :: blockWords body ++ [.ofKind .kwEnd]
  | .whileTrue condition body _ _ =>
    .ofKind .kwWhile :: condition.words ++ .ofKind .kwThen :: blockWords body ++ [.ofKind .kwEnd]
  | .returning value loc =>
    .ofKind .kwReturn :: if value.isSupplied loc then [] else value.words
  | .procDecl name proc => .ofKind .kwProc :: .ofName name :: proc.words

/-- The words of statements, one after the other. -/
def blockWords : List Stmt → List Word
  | [] => []
  | s :: ss => s.words ++ blockWords ss

end

/-- The words of a whole source. -/
def Program.words (program : Program) : List Word := blockWords program.body

/-- What a tree keeps of tokens: all but semicolons, the end of input and a
comma in front of a closing parenthesis. The short form of `then` and the
brackets of a library path are forgotten. -/
def retold : List Token → List Word
  | [] => []
  | token :: rest =>
    match token.kind with
    | .semicolon | .eof => retold rest
    | .comma =>
      if rest.head?.map Token.kind = some .rightParen then retold rest
      else ⟨.comma, token.text⟩ :: retold rest
    | .colon => .ofKind .kwThen :: retold rest
    | .libraryPath => ⟨.ident, token.text⟩ :: retold rest
    | kind => ⟨kind, token.text⟩ :: retold rest

namespace Retelling

/-- Tokens as a source has them: a kind with one spelling carries it, and no
two tokens share a place. -/
structure Sourced (tokens : List Token) : Prop where
  fixed : ∀ token ∈ tokens, token.Fixed
  apart : tokens.Pairwise fun first second => first.loc ≠ second.loc

section Sourced
variable {token : Token} {first second tokens : List Token}

private theorem Sourced.sublist (sourced : Sourced tokens) (within : first.Sublist tokens) :
    Sourced first := by
  constructor
  · intro token member
    exact sourced.fixed token (within.subset member)
  · exact sourced.apart.sublist within

theorem Sourced.left (sourced : Sourced (first ++ second)) : Sourced first :=
  sourced.sublist (List.sublist_append_left ..)

theorem Sourced.right (sourced : Sourced (first ++ second)) : Sourced second :=
  sourced.sublist (List.sublist_append_right ..)

private theorem Sourced.tail (sourced : Sourced (token :: tokens)) : Sourced tokens :=
  sourced.sublist (List.sublist_cons_self ..)

end Sourced

section Words
variable {token : Token} {rest : List Token} {kind : TokenKind} {text : String}

/-- The kinds of token that a tree keeps as they are. -/
def isKept : TokenKind → Bool
  | .semicolon | .eof | .comma | .colon | .libraryPath => false
  | _ => true

private theorem retold_kept (kept : isKept token.kind = true) :
    retold (token :: rest) = ⟨token.kind, token.text⟩ :: retold rest := by
  rw [retold]
  cases same : token.kind <;> rw [same] at kept <;> first | rfl | cases kept

/-- A token of a kind with one spelling, as a word. -/
theorem retold_fixed (fixed : token.Fixed) (same : token.kind = kind) (kept : isKept kind = true)
    (spelled : kind.spelling? = some text) :
    retold (token :: rest) = .ofKind kind :: retold rest := by
  subst same
  rw [retold_kept kept, fixed text spelled, Word.ofKind, spelled]
  rfl

private theorem retold_name (isName : token.kind = .ident) :
    retold (token :: rest) = .ofName (nameOf token) :: retold rest := by
  have kept : isKept token.kind = true := by rw [isName]; rfl
  rw [retold_kept kept, isName, Word.ofName, nameOf, Lexing.text_of_text]

private theorem retold_header (fixed : token.Fixed) (ends : token.EndsHeader) :
    retold (token :: rest) = .ofKind .kwThen :: retold rest := by
  rcases ends with isThen | isColon
  · exact retold_fixed fixed isThen rfl rfl
  · rw [retold, isColon]

private theorem retold_semicolons {semicolons : List Token}
    (all : ∀ token ∈ semicolons, token.kind = .semicolon) :
    retold (semicolons ++ rest) = retold rest := by
  induction semicolons with
  | nil => rfl
  | cons token semicolons ih =>
    have isSemicolon : token.kind = .semicolon := all token (List.mem_cons_self ..)
    have others : ∀ token ∈ semicolons, token.kind = .semicolon := fun other member =>
      all other (List.mem_cons_of_mem token member)
    rw [List.cons_append, retold, isSemicolon]
    exact ih others

private theorem retold_comma (fixed : token.Fixed) (isComma : token.kind = .comma)
    (goesOn : rest.head?.map Token.kind ≠ some .rightParen) :
    retold (token :: rest) = .ofKind .comma :: retold rest := by
  have text : token.text = "," := fixed "," (by rw [isComma]; rfl)
  rw [retold, isComma]
  simp only [goesOn, ↓reduceIte, text]
  rfl

private theorem retold_last_comma (isComma : token.kind = .comma)
    (closes : rest.head?.map Token.kind = some .rightParen) :
    retold (token :: rest) = retold rest := by
  rw [retold, isComma]
  simp only [closes, ↓reduceIte]

private theorem retold_literal {value : Value} (fixed : token.Fixed)
    (found : token.literal? = some value) :
    retold (token :: rest) = value.word :: retold rest := by
  unfold Token.literal? at found
  split at found
  all_goals
    rename_i same
    cases found
  all_goals rw [retold_kept (by rw [same]; rfl), same]
  · rfl
  · rfl
  · rw [fixed "true" (by rw [same]; rfl)]
    rfl
  · rw [fixed "false" (by rw [same]; rfl)]
    rfl
  · rfl

end Words

/-- Reading the expression back gives what a tree keeps of its tokens, whatever
follows them. -/
def ExprRetold (e : Expr) : Prop :=
  ∀ own rest, e.Spelled own → Sourced own → retold (own ++ rest) = e.words ++ retold rest

/-- The same of a statement. -/
def StmtRetold (s : Stmt) : Prop :=
  ∀ own rest, s.Spelled own → Sourced own → retold (own ++ rest) = s.words ++ retold rest

section Lists
variable {α : Type} {item : α → List Token → Prop} {words : α → List Word} {closing : Token}
  {tokens rest : List Token}

private theorem listed_begins
    (begins : ∀ a own, item a own → ∃ first more, own = first :: more ∧ first.kind ≠ .rightParen)
    {a : α} {as : List α} (listed : Listed item (a :: as) tokens) :
    (tokens ++ rest).head?.map Token.kind ≠ some .rightParen := by
  rcases listed with ⟨-, single⟩ | ⟨own, comma, others, rfl, -, single, -⟩
  all_goals
    obtain ⟨first, more, rfl, differs⟩ := begins a _ single
    simpa using differs

/-- Items with commas between them. The comma that may stand after the last
one is in front of the closing parenthesis. -/
theorem listed_retold (closes : closing.kind = .rightParen)
    (begins : ∀ a own, item a own → ∃ first more, own = first :: more ∧ first.kind ≠ .rightParen)
    (as : List α) (listed : Listed item as tokens) (sourced : Sourced tokens)
    (each : ∀ a ∈ as, ∀ own rest, item a own → Sourced own →
      retold (own ++ rest) = words a ++ retold rest) :
    retold (tokens ++ closing :: rest) =
      commaWords (as.map words) ++ retold (closing :: rest) := by
  induction as generalizing tokens with
  | nil =>
    obtain rfl : tokens = [] := listed
    rfl
  | cons a as ih =>
    have first := each a (List.mem_cons_self ..)
    rcases listed with ⟨rfl, single⟩ | ⟨own, comma, others, rfl, isComma, single, listed⟩
    · exact first tokens _ single sourced
    · have fixed : comma.Fixed := sourced.fixed comma (by simp)
      rw [List.append_assoc, first own _ single sourced.left, List.cons_append]
      cases as with
      | nil =>
        obtain rfl : others = [] := listed
        have last : ([] ++ closing :: rest).head?.map Token.kind = some .rightParen := by
          simp [closes]
        rw [retold_last_comma isComma last]
        rfl
      | cons b as =>
        have remaining := ih listed sourced.right.tail fun c member =>
          each c (List.mem_cons_of_mem a member)
        rw [retold_comma fixed isComma (listed_begins begins listed), remaining]
        simp only [List.map_cons, commaWords, List.append_assoc, List.cons_append]

private theorem parameter_starts (mark : Mark) (own : List Token) (spelled : mark.Spelled own) :
    ∃ first more, own = first :: more ∧ first.kind ≠ .rightParen := by
  obtain ⟨token, rfl, isName, -⟩ := spelled
  exact ⟨token, [], rfl, by simp [isName]⟩

private theorem parameter_retold (mark : Mark) (own rest : List Token)
    (spelled : mark.Spelled own) :
    retold (own ++ rest) = [⟨.ident, mark.text⟩] ++ retold rest := by
  obtain ⟨token, rfl, isName, -, rfl⟩ := spelled
  have kept : isKept token.kind = true := by rw [isName]; rfl
  rw [List.singleton_append, retold_kept kept, isName]
  rfl

private theorem parameters_retold {params : List Mark} (closes : closing.kind = .rightParen)
    (listed : Listed Mark.Spelled params tokens) (sourced : Sourced (tokens ++ [closing])) :
    retold (tokens ++ closing :: rest) =
      commaWords (params.map fun mark => [⟨.ident, mark.text⟩]) ++ .ofKind .rightParen ::
        retold rest := by
  have closed : closing.Fixed := sourced.fixed closing (by simp)
  rw [listed_retold closes parameter_starts params listed sourced.left fun mark _ own rest spelled _ =>
      parameter_retold mark own rest spelled, retold_fixed closed closes rfl rfl]

private theorem argument_starts (e : Expr) (own : List Token) (spelled : e.Spelled own) :
    ∃ first more, own = first :: more ∧ first.kind ≠ .rightParen := by
  obtain ⟨first, more, rfl, begins, -⟩ := expr_begins e own spelled
  refine ⟨first, more, rfl, fun closes => ?_⟩
  simp [closes, TokenKind.beginsExpr] at begins

private theorem itemWords_eq_map (es : List Expr) : itemWords es = es.map Expr.words := by
  induction es with
  | nil => rfl
  | cons e es ih => rw [itemWords, ih, List.map_cons]

private theorem arguments_retold {args : List Expr} {opening : Token}
    (each : ∀ e ∈ args, ExprRetold e) (opens : opening.kind = .leftParen)
    (closes : closing.kind = .rightParen) (spelled : ExprsSpelled args tokens)
    (sourced : Sourced (opening :: tokens ++ [closing])) :
    retold (opening :: tokens ++ closing :: rest) =
      .ofKind .leftParen :: commaWords (itemWords args) ++ .ofKind .rightParen :: retold rest := by
  have opened : opening.Fixed := sourced.fixed opening (by simp)
  have closed : closing.Fixed := sourced.fixed closing (by simp)
  have listed := (exprs_spelled_iff_listed args tokens).mp spelled
  rw [List.cons_append, retold_fixed opened opens rfl rfl,
    listed_retold closes argument_starts args listed sourced.left.tail each,
    retold_fixed closed closes rfl rfl, itemWords_eq_map, List.cons_append]

end Lists

section Blocks
variable {tokens rest : List Token} {stop : TokenKind}

/-- Statements up to the token that stops them. -/
theorem stmts_retold (ss : List Stmt) (each : ∀ s ∈ ss, StmtRetold s)
    (spelled : StmtsSpelled stop ss tokens) (sourced : Sourced tokens) :
    ∃ last, last.kind = stop ∧ last.Fixed ∧
      retold (tokens ++ rest) = blockWords ss ++ retold (last :: rest) := by
  induction ss generalizing tokens with
  | nil =>
    obtain ⟨semicolons, last, rfl, all, isStop⟩ := spelled
    refine ⟨last, isStop, sourced.fixed last (by simp), ?_⟩
    rw [List.append_assoc, retold_semicolons all]
    rfl
  | cons s ss ih =>
    obtain ⟨semicolons, own, others, rfl, all, single, -, spelled⟩ := spelled
    have ownSourced : Sourced own := sourced.right.left
    have first := each s (List.mem_cons_self ..) own (others ++ rest) single ownSourced
    obtain ⟨last, isStop, fixed, remaining⟩ := ih (fun t member =>
      each t (List.mem_cons_of_mem s member)) spelled sourced.right.right
    refine ⟨last, isStop, fixed, ?_⟩
    rw [List.append_assoc, retold_semicolons all, List.append_assoc, first, remaining, blockWords,
      List.append_assoc]

/-- A block with the `end` that closes it. -/
theorem block_retold (ss : List Stmt) (each : ∀ s ∈ ss, StmtRetold s)
    (spelled : StmtsSpelled .kwEnd ss tokens) (sourced : Sourced tokens) :
    retold (tokens ++ rest) = blockWords ss ++ .ofKind .kwEnd :: retold rest := by
  obtain ⟨last, isEnd, fixed, same⟩ := stmts_retold ss each spelled sourced
  rw [same, retold_fixed fixed isEnd rfl rfl]

end Blocks

section Trees

private theorem proc_retold {opener : Token} {proc : Proc} {own : List Token} (rest : List Token)
    (each : ∀ s ∈ proc.body, StmtRetold s) (spelled : proc.Spelled opener own)
    (sourced : Sourced own) : retold (own ++ rest) = proc.words ++ retold rest := by
  obtain ⟨loc, params, paramsLoc, body, bodyLoc⟩ := proc
  obtain ⟨opening, inside, closing, header, block, rfl, -, opens, closes, ends, -, listed, -, spelled⟩
    := spelled
  have inList : retold (inside ++ closing :: (header :: block ++ rest)) = _ :=
    parameters_retold closes listed (sourced.tail.sublist (by simp))
  have inBlock : retold (block ++ rest) = _ :=
    block_retold body each spelled sourced.right.tail.tail
  have opened : opening.Fixed := sourced.fixed opening (by simp)
  have headed : header.Fixed := sourced.fixed header (by simp)
  rw [List.append_assoc, List.cons_append, List.cons_append, retold_fixed opened opens rfl rfl, inList,
    List.cons_append, retold_header headed ends, inBlock, Proc.words]
  simp only [List.cons_append, List.append_assoc, List.nil_append]

theorem operator_kind {kind : TokenKind} :
    (∀ op, UnaryOp.ofKind? kind = some op → op.kind = kind ∧ isKept kind = true) ∧
      ∀ op, BinaryOp.ofKind? kind = some op → op.kind = kind ∧ isKept kind = true := by
  constructor
  · intro op found
    cases kind <;> cases found <;> exact ⟨rfl, rfl⟩
  · intro op found
    cases kind <;> cases found <;> exact ⟨rfl, rfl⟩

private theorem literal_retold (value : Value) (loc : Loc) : ExprRetold (.literal value loc) := by
  rintro own rest ⟨token, rfl, found, -⟩ sourced
  have fixed : token.Fixed := sourced.fixed token (by simp)
  exact retold_literal fixed found

private theorem identifier_retold (name : Name) : ExprRetold (.identifier name) := by
  rintro own rest ⟨token, rfl, isName, rfl⟩ -
  exact retold_name isName

private theorem group_retold {inner : Expr} (innerRetold : ExprRetold inner) (loc : Loc) :
    ExprRetold (.group inner loc) := by
  rintro own rest ⟨opening, inside, closing, rfl, opens, closes, -, spelled⟩ sourced
  have opened : opening.Fixed := sourced.fixed opening (by simp)
  have closed : closing.Fixed := sourced.fixed closing (by simp)
  rw [List.append_assoc, List.cons_append, retold_fixed opened opens rfl rfl,
    innerRetold inside _ spelled sourced.left.tail, List.singleton_append,
    retold_fixed closed closes rfl rfl, Expr.words]
  simp only [List.cons_append, List.append_assoc, List.nil_append]

private theorem unary_retold {op : UnaryOp} {mark : Mark} {operand : Expr}
    (operandRetold : ExprRetold operand) : ExprRetold (.unary op mark operand) := by
  rintro own rest ⟨token, more, rfl, found, rfl, -, spelled⟩ sourced
  obtain ⟨same, kept⟩ := operator_kind.1 op found
  rw [List.cons_append, retold_kept kept, operandRetold more rest spelled sourced.tail, Expr.words,
    same]
  rfl

private theorem binary_retold {left right : Expr} {op : BinaryOp} {mark : Mark}
    (leftRetold : ExprRetold left) (rightRetold : ExprRetold right) :
    ExprRetold (.binary left op mark right) := by
  rintro own rest ⟨before, token, after, rfl, found, rfl, -, -, leftSpelled, rightSpelled⟩ sourced
  obtain ⟨same, kept⟩ := operator_kind.2 op found
  rw [List.append_assoc, leftRetold before _ leftSpelled sourced.left, List.cons_append,
    retold_kept kept, rightRetold after rest rightSpelled sourced.right.tail, Expr.words, same]
  simp only [List.cons_append, List.append_assoc]
  rfl

private theorem call_retold {callee : Name} {args : List Expr} (argsLoc : Loc)
    (each : ∀ e ∈ args, ExprRetold e) : ExprRetold (.call callee args argsLoc) := by
  rintro own rest ⟨name, opening, inside, closing, rfl, isName, rfl, opens, -, -, closes, spelled⟩
    sourced
  have inList : retold (opening :: inside ++ closing :: rest) = _ :=
    arguments_retold each opens closes spelled sourced.tail
  rw [List.append_assoc, List.cons_append, retold_name isName, List.singleton_append, inList,
    Expr.words]
  simp only [List.cons_append, List.append_assoc, List.nil_append]

private theorem proc_expr_retold (proc : Proc) (each : ∀ s ∈ proc.body, StmtRetold s) :
    ExprRetold (.proc proc) := by
  rintro own rest ⟨opener, more, rfl, isProc, spelled⟩ sourced
  have opened : opener.Fixed := sourced.fixed opener (by simp)
  rw [List.cons_append, retold_fixed opened isProc rfl rfl,
    proc_retold rest each spelled sourced.tail, Expr.words]
  rfl

private theorem import_library_retold (target : Mark) (loc : Loc) :
    StmtRetold (.importLibrary target loc) := by
  rintro own rest ⟨opener, token, rfl, isImport, -, kinds, rfl⟩ sourced
  have opened : opener.Fixed := sourced.fixed opener (by simp)
  rw [List.cons_append, retold_fixed opened isImport rfl rfl, List.singleton_append, Stmt.words]
  rcases kinds with isName | isPath
  · have kept : isKept token.kind = true := by rw [isName]; rfl
    rw [retold_kept kept, isName]
    rfl
  · rw [retold, isPath]
    rfl

private theorem import_relative_retold (target : Mark) (loc : Loc) :
    StmtRetold (.importRelative target loc) := by
  rintro own rest ⟨opener, token, rfl, isImport, -, isString, rfl⟩ sourced
  have opened : opener.Fixed := sourced.fixed opener (by simp)
  have kept : isKept token.kind = true := by rw [isString]; rfl
  rw [List.cons_append, retold_fixed opened isImport rfl rfl, List.singleton_append,
    retold_kept kept, isString]
  rfl

private theorem namespace_retold {name : Name} {body : List Stmt} (bodyLoc loc : Loc)
    (each : ∀ s ∈ body, StmtRetold s) : StmtRetold (.inNamespace name body bodyLoc loc) := by
  rintro own rest ⟨opener, token, block, rfl, isNamespace, -, isName, rfl, -, spelled⟩ sourced
  have opened : opener.Fixed := sourced.fixed opener (by simp)
  rw [List.cons_append, List.cons_append, retold_fixed opened isNamespace rfl rfl,
    retold_name isName, block_retold body each spelled sourced.tail.tail, Stmt.words]
  simp only [List.cons_append, List.append_assoc, List.nil_append]

private theorem assignment_retold {token equals : Token} {value : Expr} {more : List Token}
    (rest : List Token) (valueRetold : ExprRetold value) (isName : token.kind = .ident)
    (isAssign : equals.kind = .assign) (spelled : value.Spelled more)
    (sourced : Sourced (token :: equals :: more)) :
    retold (token :: equals :: more ++ rest) =
      .ofName (nameOf token) :: .ofKind .assign :: value.words ++ retold rest := by
  have assigned : equals.Fixed := sourced.fixed equals (by simp)
  rw [List.cons_append, List.cons_append, retold_name isName,
    retold_fixed assigned isAssign rfl rfl, valueRetold more rest spelled sourced.tail.tail]
  rfl

private theorem declaration_retold {value : Expr} (valueRetold : ExprRetold value) (name : Name)
    (loc : Loc) : StmtRetold (.letDecl name value loc) ∧ StmtRetold (.constDecl name value loc) := by
  constructor
  all_goals
    rintro own rest ⟨opener, token, equals, more, rfl, isOpener, -, isName, rfl, isAssign, spelled⟩
      sourced
    have opened : opener.Fixed := sourced.fixed opener (by simp)
    have assigned := assignment_retold rest valueRetold isName isAssign spelled sourced.tail
    rw [List.cons_append, retold_fixed opened isOpener rfl rfl, assigned]
    rfl

private theorem set_retold {value : Expr} (valueRetold : ExprRetold value) (name : Name) :
    StmtRetold (.set name value) := by
  rintro own rest ⟨token, equals, more, rfl, isName, rfl, isAssign, spelled⟩ sourced
  exact assignment_retold rest valueRetold isName isAssign spelled sourced

private theorem guarded_retold {condition : Expr} {body : List Stmt}
    (conditionRetold : ExprRetold condition) (each : ∀ s ∈ body, StmtRetold s) (bodyLoc loc : Loc) :
    StmtRetold (.ifThen condition body bodyLoc loc) ∧
      StmtRetold (.whileTrue condition body bodyLoc loc) := by
  constructor
  all_goals
    rintro own rest ⟨opener, inside, header, block, rfl, isOpener, -, ends, spelled, -, inBlock⟩
      sourced
    have opened : opener.Fixed := sourced.fixed opener (by simp)
    have headed : header.Fixed := sourced.fixed header (by simp)
    rw [List.append_assoc, List.cons_append, retold_fixed opened isOpener rfl rfl,
      conditionRetold inside _ spelled sourced.left.tail, List.cons_append, retold_header headed ends,
      block_retold body each inBlock sourced.right.tail, Stmt.words]
    simp only [List.cons_append, List.append_assoc, List.nil_append]

private theorem for_retold {start stop : Expr} {body : List Stmt} (startRetold : ExprRetold start)
    (stopRetold : ExprRetold stop) (each : ∀ s ∈ body, StmtRetold s) (name : Name)
    (bodyLoc loc : Loc) : StmtRetold (.forRange name start stop body bodyLoc loc) := by
  rintro own rest ⟨opener, token, equals, first, middle, last, header, block, rfl, isFor, -, isName,
    rfl, isAssign, startSpelled, isTo, stopSpelled, ends, -, spelled⟩ sourced
  have opened : opener.Fixed := sourced.fixed opener (by simp)
  have divided : middle.Fixed := sourced.fixed middle (by simp)
  have headed : header.Fixed := sourced.fixed header (by simp)
  have inBlock : retold (block ++ rest) = _ := block_retold body each spelled sourced.right.tail
  have started := assignment_retold (middle :: (last ++ (header :: (block ++ rest)))) startRetold
    isName isAssign startSpelled sourced.left.left.tail
  have stopped := stopRetold last (header :: (block ++ rest)) stopSpelled sourced.left.right.tail
  simp only [List.cons_append, List.append_assoc] at started ⊢
  rw [retold_fixed opened isFor rfl rfl, started, retold_fixed divided isTo rfl rfl, stopped,
    retold_header headed ends, inBlock, Stmt.words]
  simp only [List.cons_append, List.append_assoc, List.nil_append]

private theorem returning_retold {value : Expr} (valueRetold : ExprRetold value) (loc : Loc) :
    StmtRetold (.returning value loc) := by
  rintro own rest ⟨opener, more, rfl, isReturn, rfl, bareOrSpelled⟩ sourced
  have opened : opener.Fixed := sourced.fixed opener (by simp)
  rw [List.cons_append, retold_fixed opened isReturn rfl rfl, Stmt.words]
  rcases bareOrSpelled with ⟨rfl, rfl⟩ | spelled
  · have supplied : (Expr.literal .null opener.loc).isSupplied opener.loc = true := by
      simp [Expr.isSupplied]
    rw [if_pos supplied]
    rfl
  · have given : ¬ value.isSupplied opener.loc = true := by
      cases value with
      | literal value own =>
        obtain ⟨token, rfl, -, rfl⟩ := spelled
        have differs : opener.loc ≠ token.loc := by simpa using sourced.apart
        simp [Expr.isSupplied, differs.symm]
      | identifier | group | unary | binary | call | proc => exact nofun
    rw [if_neg given, valueRetold more rest spelled sourced.tail]
    rfl

private theorem proc_decl_retold (name : Name) (proc : Proc)
    (each : ∀ s ∈ proc.body, StmtRetold s) : StmtRetold (.procDecl name proc) := by
  rintro own rest ⟨opener, token, more, rfl, isProc, isName, rfl, spelled⟩ sourced
  have opened : opener.Fixed := sourced.fixed opener (by simp)
  rw [List.cons_append, List.cons_append, retold_fixed opened isProc rfl rfl, retold_name isName,
    proc_retold rest each spelled sourced.tail.tail, Stmt.words]
  rfl

end Trees

mutual

/-- Every expression can be read back. -/
theorem expr_retold : (e : Expr) → ExprRetold e
  | .literal value loc => literal_retold value loc
  | .identifier name => identifier_retold name
  | .group inner loc => group_retold (expr_retold inner) loc
  | .unary _ _ operand => unary_retold (expr_retold operand)
  | .binary left _ _ right => binary_retold (expr_retold left) (expr_retold right)
  | .call _ args argsLoc => call_retold argsLoc (exprs_retold args)
  | .proc (.mk loc params paramsLoc body bodyLoc) =>
    proc_expr_retold (.mk loc params paramsLoc body bodyLoc) (body_retold body)

private theorem exprs_retold : (es : List Expr) → ∀ e ∈ es, ExprRetold e
  | [] => by simp
  | e :: es => by
    have first := expr_retold e
    have others := exprs_retold es
    intro other member
    rcases List.mem_cons.mp member with rfl | member
    · exact first
    · exact others other member

/-- Every statement can be read back. -/
theorem stmt_retold : (s : Stmt) → StmtRetold s
  | .expr e => expr_retold e
  | .importLibrary target loc => import_library_retold target loc
  | .importRelative target loc => import_relative_retold target loc
  | .inNamespace _ body bodyLoc loc => namespace_retold bodyLoc loc (body_retold body)
  | .letDecl name value loc => (declaration_retold (expr_retold value) name loc).1
  | .constDecl name value loc => (declaration_retold (expr_retold value) name loc).2
  | .set name value => set_retold (expr_retold value) name
  | .ifThen condition body bodyLoc loc =>
    (guarded_retold (expr_retold condition) (body_retold body) bodyLoc loc).1
  | .forRange name start stop body bodyLoc loc =>
    for_retold (expr_retold start) (expr_retold stop) (body_retold body) name bodyLoc loc
  | .whileTrue condition body bodyLoc loc =>
    (guarded_retold (expr_retold condition) (body_retold body) bodyLoc loc).2
  | .returning value loc => returning_retold (expr_retold value) loc
  | .procDecl name (.mk loc params paramsLoc body bodyLoc) =>
    proc_decl_retold name (.mk loc params paramsLoc body bodyLoc) (body_retold body)

private theorem body_retold : (ss : List Stmt) → ∀ s ∈ ss, StmtRetold s
  | [] => by simp
  | s :: ss => by
    have first := stmt_retold s
    have others := body_retold ss
    intro other member
    rcases List.mem_cons.mp member with rfl | member
    · exact first
    · exact others other member

end

section Parts
variable {own : List Token} {opening closing : Token}

end Parts

end Retelling

end BasilLang
