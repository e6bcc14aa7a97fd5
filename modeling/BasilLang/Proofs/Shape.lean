import BasilLang.Syntax.Depth
import BasilLang.Syntax.Printer
import BasilLang.Token.Lexer

/-! Trees as the grammar shapes them, and trees without their places. A tree
has the shape of the grammar when its words are spelled as the lexer reads
them and its operators nest by their levels, looser ones only inside
parentheses. Nothing here mentions the parser. -/
namespace BasilLang

/-- Digits, or digits around a point: the text of a number token. -/
def Text.isNumeral (cs : List Char) : Bool :=
  !(cs.takeWhile Text.isDigit).isEmpty &&
    match cs.dropWhile Text.isDigit with
    | [] => true
    | '.' :: part => !part.isEmpty && part.all Text.isDigit
    | _ => false

/-- A dotted name: segments of word characters, the first of which does not
begin like a number, and all together no reserved word. -/
def Path.isName (path : Path) : Bool :=
  !path.isEmpty && path.all (fun segment => !segment.toList.isEmpty &&
    segment.toList.all Lexer.isWordChar) &&
    path.text.toList.head?.all (fun c => Lexer.isWordStart c && !Text.isDigit c) &&
    (TokenKind.keyword? path.text).isNone

/-- The texts of a literal's kind; a string may be any text. -/
def Value.isSpelled (value : Value) : Bool :=
  match value.kind with
  | .string => true
  | .number => Text.isNumeral value.text.toList
  | .boolean => value.text == "true" || value.text == "false"
  | .null => value.text == "null"

/-- Above the levels of the binary operators: operators in front. -/
def unaryLevel : Nat := 6

/-- Above all operators: what needs no parentheses anywhere. -/
def primaryLevel : Nat := 7

/-- How tightly the outermost construct of an expression binds. -/
def Expr.tightness : Expr → Nat
  | .binary _ op _ _ => op.level
  | .unary .. => unaryLevel
  | _ => primaryLevel

mutual

/-- A proc with plain names for its parameters and a body in shape. -/
def Proc.isShaped : Proc → Bool
  | .mk _ params _ body _ => params.all (fun mark => Path.isName [mark.text]) && areShaped body

/-- An expression with the shape of the grammar. The left operand of a binary
operator binds at least as tightly as the operator, the right one tighter. -/
def Expr.isShaped : Expr → Bool
  | .literal value _ => value.isSpelled
  | .identifier name => name.path.isName
  | .group inner _ => inner.isShaped
  | .unary op mark operand =>
    op.kind.spelling? == some mark.text && unaryLevel ≤ operand.tightness && operand.isShaped
  | .binary left op mark right =>
    op.kind.spelling? == some mark.text && op.level ≤ left.tightness &&
      op.level < right.tightness && left.isShaped && right.isShaped
  | .call callee args _ => callee.path.isName && areExprsShaped args
  | .proc p => p.isShaped

/-- Expressions with the shape of the grammar. -/
def areExprsShaped : List Expr → Bool
  | [] => true
  | e :: es => e.isShaped && areExprsShaped es

/-- A statement with the shape of the grammar. -/
def Stmt.isShaped : Stmt → Bool
  | .expr e => e.isShaped
  | .importLibrary target _ => (Path.ofText target.text).isName
  | .importRelative _ _ => true
  | .inNamespace name body _ _ => name.path.isName && areShaped body
  | .letDecl name value _ => name.path.isName && value.isShaped
  | .constDecl name value _ => name.path.isName && value.isShaped
  | .set name value => name.path.isName && value.isShaped
  | .ifThen condition body _ _ => condition.isShaped && areShaped body
  | .forRange name start stop body _ _ =>
    name.path.isName && start.isShaped && stop.isShaped && areShaped body
  | .whileTrue condition body _ _ => condition.isShaped && areShaped body
  | .returning value _ => value.isShaped
  | .procDecl name proc => name.path.isName && proc.isShaped

/-- Statements with the shape of the grammar. -/
def areShaped : List Stmt → Bool
  | [] => true
  | s :: ss => s.isShaped && areShaped ss

end

/-- Whether the last thing in a statement is an expression, so that an operator
on the next line would go on with it. -/
def Stmt.endsInExpr : Stmt → Bool
  | .expr _ | .letDecl .. | .constDecl .. | .set .. | .returning .. => true
  | _ => false

/-- Whether no statement begins with a sign that the one before it would take
for an operator. -/
def keepApart : List Stmt → Bool
  | first :: second :: rest =>
    !(first.endsInExpr && second.render.toList.head? == some '-') && keepApart (second :: rest)
  | _ => true

/-- A program with the shape of the grammar. Its statements stand on lines of
their own, which alone do not keep them apart. -/
def Program.isShaped (program : Program) : Bool :=
  areShaped program.body && keepApart program.body

/-- The one place of trees that have lost theirs. -/
def Loc.nowhere : Loc := ⟨"", ⟨0, 0⟩⟩

/-- The token without its place. -/
def Mark.unplaced (mark : Mark) : Mark := { mark with loc := .nowhere }

/-- The name without its place. -/
def Name.unplaced (name : Name) : Name := { name with loc := .nowhere }

mutual

/-- The proc without its places. -/
def Proc.unplaced : Proc → Proc
  | .mk _ params _ body _ =>
    .mk .nowhere (params.map Mark.unplaced) .nowhere (unplacedStmts body) .nowhere

/-- The expression without its places. -/
def Expr.unplaced : Expr → Expr
  | .literal value _ => .literal value .nowhere
  | .identifier name => .identifier name.unplaced
  | .group inner _ => .group inner.unplaced .nowhere
  | .unary op mark operand => .unary op mark.unplaced operand.unplaced
  | .binary left op mark right => .binary left.unplaced op mark.unplaced right.unplaced
  | .call callee args _ => .call callee.unplaced (unplacedExprs args) .nowhere
  | .proc p => .proc p.unplaced

/-- The expressions without their places. -/
def unplacedExprs : List Expr → List Expr
  | [] => []
  | e :: es => e.unplaced :: unplacedExprs es

/-- The statement without its places. -/
def Stmt.unplaced : Stmt → Stmt
  | .expr e => .expr e.unplaced
  | .importLibrary target _ => .importLibrary target.unplaced .nowhere
  | .importRelative target _ => .importRelative target.unplaced .nowhere
  | .inNamespace name body _ _ =>
    .inNamespace name.unplaced (unplacedStmts body) .nowhere .nowhere
  | .letDecl name value _ => .letDecl name.unplaced value.unplaced .nowhere
  | .constDecl name value _ => .constDecl name.unplaced value.unplaced .nowhere
  | .set name value => .set name.unplaced value.unplaced
  | .ifThen condition body _ _ =>
    .ifThen condition.unplaced (unplacedStmts body) .nowhere .nowhere
  | .forRange name start stop body _ _ =>
    .forRange name.unplaced start.unplaced stop.unplaced (unplacedStmts body) .nowhere .nowhere
  | .whileTrue condition body _ _ =>
    .whileTrue condition.unplaced (unplacedStmts body) .nowhere .nowhere
  | .returning value _ => .returning value.unplaced .nowhere
  | .procDecl name proc => .procDecl name.unplaced proc.unplaced

/-- The statements without their places. -/
def unplacedStmts : List Stmt → List Stmt
  | [] => []
  | s :: ss => s.unplaced :: unplacedStmts ss

end

attribute [simp] Proc.unplaced Expr.unplaced unplacedExprs Stmt.unplaced unplacedStmts

theorem unplacedExprs_eq_map (es : List Expr) : unplacedExprs es = es.map Expr.unplaced := by
  induction es with
  | nil => rfl
  | cons e es ih => rw [unplacedExprs, ih, List.map_cons]

theorem unplacedStmts_eq_map (ss : List Stmt) : unplacedStmts ss = ss.map Stmt.unplaced := by
  induction ss with
  | nil => rfl
  | cons s ss ih => rw [unplacedStmts, ih, List.map_cons]

/-! The dump, the text and the depth of a tree are told without its places. The
three follow the tree in the same way, so one induction serves them. -/
mutual

private theorem Proc.told_unplaced : (p : Proc) →
    (∀ name, p.unplaced.dump name = p.dump name) ∧
      (∀ name, p.unplaced.render name = p.render name) ∧ p.unplaced.depth = p.depth
  | .mk _ params _ body _ => by
    have texts : (params.map Mark.unplaced).map Mark.text = params.map Mark.text := by
      simp [Function.comp_def, Mark.unplaced]
    simp only [Proc.unplaced, Proc.dump, Proc.render, Proc.depth, texts,
      stmts_told_unplaced body, implies_true, and_self]

theorem Expr.told_unplaced : (e : Expr) →
    e.unplaced.dump = e.dump ∧ e.unplaced.render = e.render ∧ e.unplaced.depth = e.depth
  | .literal _ _ => ⟨rfl, rfl, rfl⟩
  | .identifier _ => ⟨rfl, rfl, rfl⟩
  | .group inner _ => by
    simp only [Expr.unplaced, Expr.dump, Expr.render, Expr.depth, inner.told_unplaced, and_self]
  | .unary .not _ operand | .unary .negate _ operand => by
    simp only [Expr.unplaced, Expr.dump, Expr.render, Expr.depth, Mark.unplaced,
      operand.told_unplaced, and_self]
  | .binary left _ _ right => by
    simp only [Expr.unplaced, Expr.dump, Expr.render, Expr.depth, Mark.unplaced,
      left.told_unplaced, right.told_unplaced, and_self]
  | .call _ args _ => by
    simp only [Expr.unplaced, Expr.dump, Expr.render, Expr.depth, Name.unplaced,
      exprs_told_unplaced args, and_self]
  | .proc p => by
    simp only [Expr.unplaced, Expr.dump, Expr.render, Expr.depth, p.told_unplaced, and_self]

private theorem exprs_told_unplaced : (es : List Expr) →
    dumpExprs (unplacedExprs es) = dumpExprs es ∧
      renderExprs (unplacedExprs es) = renderExprs es ∧
        exprsDepth (unplacedExprs es) = exprsDepth es
  | [] => ⟨rfl, rfl, rfl⟩
  | e :: es => by
    simp only [unplacedExprs, dumpExprs, renderExprs, exprsDepth, e.told_unplaced,
      exprs_told_unplaced es, and_self]

private theorem Stmt.told_unplaced : (s : Stmt) →
    s.unplaced.dump = s.dump ∧ s.unplaced.render = s.render ∧ s.unplaced.depth = s.depth
  | .expr e => by
    simp only [Stmt.unplaced, Stmt.dump, Stmt.render, Stmt.depth, e.told_unplaced, and_self]
  | .importLibrary _ _ => ⟨rfl, rfl, rfl⟩
  | .importRelative _ _ => ⟨rfl, rfl, rfl⟩
  | .inNamespace _ body _ _ => by
    simp only [Stmt.unplaced, Stmt.dump, Stmt.render, Stmt.depth, Name.unplaced,
      stmts_told_unplaced body, and_self]
  | .letDecl _ value _ | .constDecl _ value _ | .set _ value => by
    simp only [Stmt.unplaced, Stmt.dump, Stmt.render, Stmt.depth, Name.unplaced,
      value.told_unplaced, and_self]
  | .ifThen condition body _ _ | .whileTrue condition body _ _ => by
    simp only [Stmt.unplaced, Stmt.dump, Stmt.render, Stmt.depth, condition.told_unplaced,
      stmts_told_unplaced body, and_self]
  | .forRange _ start stop body _ _ => by
    simp only [Stmt.unplaced, Stmt.dump, Stmt.render, Stmt.depth, Name.unplaced,
      start.told_unplaced, stop.told_unplaced, stmts_told_unplaced body, and_self]
  | .returning value _ => by
    simp only [Stmt.unplaced, Stmt.dump, Stmt.render, Stmt.depth, value.told_unplaced, and_self]
  | .procDecl _ p => by
    simp only [Stmt.unplaced, Stmt.dump, Stmt.render, Stmt.depth, Name.unplaced,
      p.told_unplaced, and_self]

theorem stmts_told_unplaced : (ss : List Stmt) →
    dumpStmts (unplacedStmts ss) = dumpStmts ss ∧
      renderStmts (unplacedStmts ss) = renderStmts ss ∧
        stmtsDepth (unplacedStmts ss) = stmtsDepth ss
  | [] => ⟨rfl, rfl, rfl⟩
  | s :: ss => by
    simp only [unplacedStmts, dumpStmts, renderStmts, stmtsDepth, s.told_unplaced,
      stmts_told_unplaced ss, and_self]

end

/-- Procs that differ in their places only. -/
def Proc.Alike (p p' : Proc) : Prop := p.unplaced = p'.unplaced

/-- Expressions that differ in their places only. -/
def Expr.Alike (e e' : Expr) : Prop := e.unplaced = e'.unplaced

/-- Statements that differ in their places only. -/
def Stmt.Alike (s s' : Stmt) : Prop := s.unplaced = s'.unplaced

/-- Bodies that differ in their places only. -/
def AlikeStmts (ss ss' : List Stmt) : Prop := unplacedStmts ss = unplacedStmts ss'

/-- The program without its places; the name of its file is one of them. -/
def Program.unplaced (program : Program) : Program :=
  ⟨"", unplacedStmts program.body⟩

end BasilLang
