import BasilLang.Syntax

/-! How deep trees are: how many nodes, and lists inside nodes, stand around
the deepest leaf, the leaf's own node included. -/
namespace BasilLang

mutual

/-- The depth of a proc, whose body is a list. -/
def Proc.depth : Proc → Nat
  | .mk _ _ _ body _ => stmtsDepth body + 2

/-- The depth of an expression. -/
def Expr.depth : Expr → Nat
  | .literal _ _ => 1
  | .identifier _ => 1
  | .group inner _ => inner.depth + 1
  | .unary _ _ operand => operand.depth + 1
  | .binary left _ _ right => max left.depth right.depth + 1
  | .call _ args _ => exprsDepth args + 2
  | .proc p => p.depth

/-- The depth of the deepest expression of a list. -/
def exprsDepth : List Expr → Nat
  | [] => 0
  | e :: es => max e.depth (exprsDepth es)

/-- The depth of a statement. -/
def Stmt.depth : Stmt → Nat
  | .expr e => e.depth
  | .importLibrary _ _ => 1
  | .importRelative _ _ => 1
  | .inNamespace _ body _ _ => stmtsDepth body + 2
  | .letDecl _ value _ => value.depth + 1
  | .constDecl _ value _ => value.depth + 1
  | .set _ value => value.depth + 1
  | .ifThen condition body _ _ => max condition.depth (stmtsDepth body + 1) + 1
  | .forRange _ start stop body _ _ =>
    max (max start.depth stop.depth) (stmtsDepth body + 1) + 1
  | .whileTrue condition body _ _ => max condition.depth (stmtsDepth body + 1) + 1
  | .returning value _ => value.depth + 1
  | .procDecl _ p => p.depth

/-- The depth of the deepest statement of a list. -/
def stmtsDepth : List Stmt → Nat
  | [] => 0
  | s :: ss => max s.depth (stmtsDepth ss)

end

end BasilLang
