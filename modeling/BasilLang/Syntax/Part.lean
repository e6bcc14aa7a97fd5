import BasilLang.Room
import BasilLang.Syntax.Depth
import BasilLang.Syntax.Printer

/-! One view for everything a tree is made of: nodes with a label and
children, and the tokens kept as leaves. It lets a tree be shown or walked
without knowing the forms of statements and expressions. -/
namespace BasilLang

/-- A node of a tree, or a token kept in it. -/
inductive Part where
  | program (program : Program)
  | stmt (stmt : Stmt)
  | expr (expr : Expr)
  | argList (exprs : List Expr) (loc : Loc)
  | paramList (marks : List Mark) (loc : Loc)
  | block (stmts : List Stmt) (loc : Loc)
  | token (kind : String) (mark : Mark)

/-- The name of a literal's kind as a token. -/
def Kind.tokenName : Kind → String
  | .string => "STRING"
  | .number => "NUMBER"
  | .boolean => "BOOLEAN"
  | .null => "NULL"

namespace Part

/-- A statement as a part; an expression alone is the expression itself. -/
def ofStmt : Stmt → Part
  | .expr e => .expr e
  | s => .stmt s

/-- The token of a name. -/
def ofName (name : Name) : Part :=
  .token "IDENT" ⟨name.path.text, name.loc⟩

/-- The label of an expression. -/
def exprLabel : Expr → String
  | .literal .. => "literal"
  | .identifier .. => "identifier"
  | .group .. => "group"
  | .unary .. => "unary"
  | .binary .. => "binary"
  | .call .. => "call"
  | .proc .. => "proc"

/-- The label of a statement. -/
def stmtLabel : Stmt → String
  | .expr e => exprLabel e
  | .importLibrary .. | .importRelative .. => "import"
  | .inNamespace .. => "namespace"
  | .letDecl .. => "let"
  | .constDecl .. => "const"
  | .set .. => "set"
  | .ifThen .. => "if"
  | .forRange .. => "for"
  | .whileTrue .. => "while"
  | .returning .. => "return"
  | .procDecl .. => "proc"

/-- The label of a node, or the kind of a token. -/
def label : Part → String
  | .program _ => "program"
  | .stmt s => stmtLabel s
  | .expr e => exprLabel e
  | .argList .. => "args"
  | .paramList .. => "params"
  | .block .. => "body"
  | .token kind _ => kind

/-- The place of the part. -/
def loc : Part → Loc
  | .program p => p.loc
  | .stmt s => s.loc
  | .expr e => e.loc
  | .argList _ loc | .paramList _ loc | .block _ loc => loc
  | .token _ mark => mark.loc

/-- The children of a proc below its name. -/
def procChildren (proc : Proc) : List Part :=
  [.paramList proc.params proc.paramsLoc, .block proc.body proc.bodyLoc]

/-- The children of an expression. -/
def exprChildren : Expr → List Part
  | .literal value loc => [.token value.kind.tokenName ⟨value.text, loc⟩]
  | .identifier name => [ofName name]
  | .group inner _ => [.expr inner]
  | .unary op mark operand => [.token op.kind.name mark, .expr operand]
  | .binary left op mark right => [.expr left, .token op.kind.name mark, .expr right]
  | .call callee args argsLoc => [ofName callee, .argList args argsLoc]
  | .proc p => .token "ANON" ⟨"", p.loc⟩ :: procChildren p

/-- The children of a statement. -/
def stmtChildren : Stmt → List Part
  | .expr e => exprChildren e
  | .importLibrary target _ => [.token "LIBRARY" target]
  | .importRelative target _ => [.token "RELATIVE" target]
  | .inNamespace name body bodyLoc _ => [ofName name, .block body bodyLoc]
  | .letDecl name value _ => [ofName name, .expr value]
  | .constDecl name value _ => [ofName name, .expr value]
  | .set name value => [ofName name, .expr value]
  | .ifThen condition body bodyLoc _ => [.expr condition, .block body bodyLoc]
  | .forRange name start stop body bodyLoc _ =>
    [ofName name, .expr start, .expr stop, .block body bodyLoc]
  | .whileTrue condition body bodyLoc _ => [.expr condition, .block body bodyLoc]
  | .returning value _ => [.expr value]
  | .procDecl name p => ofName name :: procChildren p

/-- The children of a part, in order; a token has none. -/
def children : Part → List Part
  | .program p => p.body.map ofStmt
  | .stmt s => stmtChildren s
  | .expr e => exprChildren e
  | .argList exprs _ => exprs.map .expr
  | .paramList marks _ => marks.map (.token "IDENT")
  | .block stmts _ => stmts.map ofStmt
  | .token .. => []

/-- The part reached by going down through the children with these indexes. -/
def descend (part : Part) : List Nat → Option Part
  | [] => some part
  | index :: indexes => part.children[index]? >>= (·.descend indexes)

/-- The part as source. The lists inside a node are no source of their own;
for them the label is given back. -/
def render : Part → Except String String
  | .program p => .ok p.render
  | .stmt s => .ok s.render
  | .expr e => .ok e.render
  | .token _ mark => .ok mark.text
  | .argList .. => .error "args"
  | .paramList .. => .error "params"
  | .block .. => .error "body"

/-- The complaint about a part that is no source. -/
def unrenderable (label : String) : String :=
  s!"Cannot render node {Text.shown label}"

/-- The part spelled out. -/
def dump : Part → String
  | .program p => p.dump
  | .stmt s => s.dump
  | .expr e => e.dump
  | .argList exprs _ => dumpList (dumpExprs exprs)
  | .paramList marks _ => dumpList (marks.map Mark.text)
  | .block stmts _ => dumpList (dumpStmts stmts)
  | .token kind mark => if kind = "ANON" then "<anonymous>" else mark.text

/-- How many nodes and lists stand around the deepest leaf of the part. -/
def depth : Part → Nat
  | .program p => stmtsDepth p.body + 1
  | .stmt s => s.depth
  | .expr e => e.depth
  | .argList exprs _ => exprsDepth exprs + 1
  | .paramList _ _ => 1
  | .block stmts _ => stmtsDepth stmts + 1
  | .token _ _ => 0

/-- The part spelled out, if that takes no more than the room. -/
def dumpWithin? (room : Nat) (part : Part) : Option String :=
  if Room.spelling part.depth ≤ room then some part.dump else none

/-- How a complaint names the part. -/
def shown : Part → String
  | .token kind mark => s!"Token({Text.shown kind}, {Text.shown mark.text})"
  | part => Text.shown part.label

section Depth
variable {part child : Part}

private theorem depth_ofStmt (s : Stmt) : (ofStmt s).depth = s.depth := by
  cases s <;> rfl

private theorem depth_le_stmtsDepth {stmts : List Stmt} {s : Stmt} (member : s ∈ stmts) :
    s.depth ≤ stmtsDepth stmts := by
  induction stmts with
  | nil => cases member
  | cons first rest ih =>
    rw [stmtsDepth]
    rcases List.mem_cons.mp member with rfl | later
    · exact Nat.le_max_left _ _
    · exact Nat.le_trans (ih later) (Nat.le_max_right _ _)

private theorem depth_le_exprsDepth {exprs : List Expr} {e : Expr} (member : e ∈ exprs) :
    e.depth ≤ exprsDepth exprs := by
  induction exprs with
  | nil => cases member
  | cons first rest ih =>
    rw [exprsDepth]
    rcases List.mem_cons.mp member with rfl | later
    · exact Nat.le_max_left _ _
    · exact Nat.le_trans (ih later) (Nat.le_max_right _ _)

private theorem depth_ofStmt_lt {stmts : List Stmt} (inside : child ∈ stmts.map ofStmt) :
    child.depth < stmtsDepth stmts + 1 := by
  obtain ⟨s, member, rfl⟩ := List.mem_map.mp inside
  rw [depth_ofStmt]
  exact Nat.lt_succ_of_le (depth_le_stmtsDepth member)

private theorem depth_exprChild {e : Expr} (inside : child ∈ exprChildren e) :
    child.depth < e.depth := by
  cases e with
  | proc p =>
    cases p
    simp only [exprChildren, procChildren, List.mem_cons, List.not_mem_nil, or_false] at inside
    rcases inside with rfl | rfl | rfl <;> simp only [depth, Expr.depth, Proc.depth, Proc.body] <;>
      omega
  | _ =>
    simp only [exprChildren, List.mem_cons, List.not_mem_nil, or_false] at inside
    rcases inside with rfl | rfl | rfl <;> simp only [depth, ofName, Expr.depth] <;> omega

private theorem depth_stmtChild {s : Stmt} (inside : child ∈ stmtChildren s) :
    child.depth < s.depth := by
  cases s with
  | expr e => exact depth_exprChild inside
  | procDecl name p =>
    cases p
    simp only [stmtChildren, procChildren, List.mem_cons, List.not_mem_nil, or_false] at inside
    rcases inside with rfl | rfl | rfl <;>
      simp only [depth, ofName, Stmt.depth, Proc.depth, Proc.body] <;> omega
  | _ =>
    simp only [stmtChildren, List.mem_cons, List.not_mem_nil, or_false] at inside
    rcases inside with rfl | rfl | rfl | rfl <;> simp only [depth, ofName, Stmt.depth] <;> omega

/-- A child is less deep than the part. -/
theorem depth_child (inside : child ∈ part.children) : child.depth < part.depth := by
  cases part with
  | program p => exact depth_ofStmt_lt inside
  | stmt s => exact depth_stmtChild inside
  | expr e => exact depth_exprChild inside
  | argList exprs loc =>
    obtain ⟨e, member, rfl⟩ := List.mem_map.mp inside
    exact Nat.lt_succ_of_le (depth_le_exprsDepth member)
  | paramList marks loc =>
    obtain ⟨mark, -, rfl⟩ := List.mem_map.mp inside
    exact Nat.zero_lt_one
  | block stmts loc => exact depth_ofStmt_lt inside
  | token kind mark => cases inside

end Depth

end Part

end BasilLang
