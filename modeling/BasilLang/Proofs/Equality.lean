import BasilLang.Evaluation.Machine
import Mathlib.Logic.Basic

/-! Equality of trees, places included, can be decided. Two trees are compared
node by node; the test is then shown to say what equality says. -/
namespace BasilLang

mutual

/-- Whether two procs are the same, place by place. -/
def Proc.same : Proc → Proc → Bool
  | .mk loc params paramsLoc body bodyLoc, .mk loc' params' paramsLoc' body' bodyLoc' =>
    loc = loc' && params = params' && paramsLoc = paramsLoc' && sameStmts body body' &&
      bodyLoc = bodyLoc'

/-- Whether two expressions are the same, place by place. -/
def Expr.same : Expr → Expr → Bool
  | .literal value loc, .literal value' loc' => value = value' && loc = loc'
  | .identifier name, .identifier name' => name = name'
  | .group inner loc, .group inner' loc' => inner.same inner' && loc = loc'
  | .unary op mark operand, .unary op' mark' operand' =>
    op = op' && mark = mark' && operand.same operand'
  | .binary left op mark right, .binary left' op' mark' right' =>
    left.same left' && op = op' && mark = mark' && right.same right'
  | .call callee args loc, .call callee' args' loc' =>
    callee = callee' && sameExprs args args' && loc = loc'
  | .proc p, .proc p' => p.same p'
  | _, _ => false

/-- Whether two lists hold the same expressions. -/
def sameExprs : List Expr → List Expr → Bool
  | [], [] => true
  | e :: es, e' :: es' => e.same e' && sameExprs es es'
  | _, _ => false

/-- Whether two statements are the same, place by place. -/
def Stmt.same : Stmt → Stmt → Bool
  | .expr e, .expr e' => e.same e'
  | .importLibrary target loc, .importLibrary target' loc' => target = target' && loc = loc'
  | .importRelative target loc, .importRelative target' loc' => target = target' && loc = loc'
  | .inNamespace name body bodyLoc loc, .inNamespace name' body' bodyLoc' loc' =>
    name = name' && sameStmts body body' && bodyLoc = bodyLoc' && loc = loc'
  | .letDecl name value loc, .letDecl name' value' loc' =>
    name = name' && value.same value' && loc = loc'
  | .constDecl name value loc, .constDecl name' value' loc' =>
    name = name' && value.same value' && loc = loc'
  | .set name value, .set name' value' => name = name' && value.same value'
  | .ifThen condition body bodyLoc loc, .ifThen condition' body' bodyLoc' loc' =>
    condition.same condition' && sameStmts body body' && bodyLoc = bodyLoc' && loc = loc'
  | .forRange name start stop body bodyLoc loc, .forRange name' start' stop' body' bodyLoc' loc' =>
    name = name' && start.same start' && stop.same stop' && sameStmts body body' &&
      bodyLoc = bodyLoc' && loc = loc'
  | .whileTrue condition body bodyLoc loc, .whileTrue condition' body' bodyLoc' loc' =>
    condition.same condition' && sameStmts body body' && bodyLoc = bodyLoc' && loc = loc'
  | .returning value loc, .returning value' loc' => value.same value' && loc = loc'
  | .procDecl name p, .procDecl name' p' => name = name' && p.same p'
  | _, _ => false

/-- Whether two lists hold the same statements. -/
def sameStmts : List Stmt → List Stmt → Bool
  | [], [] => true
  | s :: ss, s' :: ss' => s.same s' && sameStmts ss ss'
  | _, _ => false

end

mutual

private theorem proc_same_iff : (p p' : Proc) → (p.same p' = true ↔ p = p')
  | .mk _ _ _ body _, .mk _ _ _ body' _ => by
    simp [Proc.same, stmts_same_iff body body', and_assoc]

private theorem expr_same_iff : (e e' : Expr) → (e.same e' = true ↔ e = e')
  | .literal _ _, e' => by cases e' <;> simp [Expr.same]
  | .identifier _, e' => by cases e' <;> simp [Expr.same]
  | .group inner _, e' => by cases e' <;> simp [Expr.same, expr_same_iff inner]
  | .unary _ _ operand, e' => by
    cases e' <;> simp [Expr.same, expr_same_iff operand, and_assoc]
  | .binary left _ _ right, e' => by
    cases e' <;> simp [Expr.same, expr_same_iff left, expr_same_iff right, and_assoc]
  | .call _ args _, e' => by cases e' <;> simp [Expr.same, exprs_same_iff args, and_assoc]
  | .proc p, e' => by cases e' <;> simp [Expr.same, proc_same_iff p]

private theorem exprs_same_iff : (es es' : List Expr) → (sameExprs es es' = true ↔ es = es')
  | [], es' => by cases es' <;> simp [sameExprs]
  | e :: es, es' => by cases es' <;> simp [sameExprs, expr_same_iff e, exprs_same_iff es]

private theorem stmt_same_iff : (s s' : Stmt) → (s.same s' = true ↔ s = s')
  | .expr e, s' => by cases s' <;> simp [Stmt.same, expr_same_iff e]
  | .importLibrary _ _, s' => by cases s' <;> simp [Stmt.same]
  | .importRelative _ _, s' => by cases s' <;> simp [Stmt.same]
  | .inNamespace _ body _ _, s' => by
    cases s' <;> simp [Stmt.same, stmts_same_iff body, and_assoc]
  | .letDecl _ value _, s' => by cases s' <;> simp [Stmt.same, expr_same_iff value, and_assoc]
  | .constDecl _ value _, s' => by cases s' <;> simp [Stmt.same, expr_same_iff value, and_assoc]
  | .set _ value, s' => by cases s' <;> simp [Stmt.same, expr_same_iff value]
  | .ifThen condition body _ _, s' => by
    cases s' <;> simp [Stmt.same, expr_same_iff condition, stmts_same_iff body, and_assoc]
  | .forRange _ start stop body _ _, s' => by
    cases s' <;> simp [Stmt.same, expr_same_iff start, expr_same_iff stop, stmts_same_iff body,
      and_assoc]
  | .whileTrue condition body _ _, s' => by
    cases s' <;> simp [Stmt.same, expr_same_iff condition, stmts_same_iff body, and_assoc]
  | .returning value _, s' => by cases s' <;> simp [Stmt.same, expr_same_iff value]
  | .procDecl _ p, s' => by cases s' <;> simp [Stmt.same, proc_same_iff p]

private theorem stmts_same_iff : (ss ss' : List Stmt) → (sameStmts ss ss' = true ↔ ss = ss')
  | [], ss' => by cases ss' <;> simp [sameStmts]
  | s :: ss, ss' => by cases ss' <;> simp [sameStmts, stmt_same_iff s, stmts_same_iff ss]

end

instance : DecidableEq Proc := fun p p' => decidable_of_iff _ (proc_same_iff p p')

instance : DecidableEq Expr := fun e e' => decidable_of_iff _ (expr_same_iff e e')

instance : DecidableEq Stmt := fun s s' => decidable_of_iff _ (stmt_same_iff s s')

deriving instance DecidableEq for Program, Bound, Frame, Console, Machine

end BasilLang
