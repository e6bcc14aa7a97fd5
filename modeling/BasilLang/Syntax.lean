import BasilLang.Path
import BasilLang.Token
import BasilLang.Value

/-! Programs as trees. Every node knows the place of its first token: most
nodes store it, and a binary operation takes it from its left operand. Procs
and bound expressions move between frames and sources, so places name their
file. -/
namespace BasilLang

/-- Operators in front of one operand. -/
inductive UnaryOp where
  | negate
  | not
deriving DecidableEq, Repr

/-- Operators between two operands. -/
inductive BinaryOp where
  | or | and
  | is | isnt
  | less | lessEq | greater | greaterEq
  | add | subtract
  | multiply | divide | modulo
deriving DecidableEq, Repr

namespace UnaryOp

/-- The token of an operator. -/
def kind : UnaryOp → TokenKind
  | .negate => .minus
  | .not => .kwNot

/-- The operator of a token. -/
def ofKind? : TokenKind → Option UnaryOp
  | .minus => some .negate
  | .kwNot => some .not
  | _ => none

end UnaryOp

namespace BinaryOp

/-- The token of an operator. -/
def kind : BinaryOp → TokenKind
  | .or => .kwOr
  | .and => .kwAnd
  | .is => .kwIs
  | .isnt => .kwIsnt
  | .less => .less
  | .lessEq => .lessEq
  | .greater => .greater
  | .greaterEq => .greaterEq
  | .add => .plus
  | .subtract => .minus
  | .multiply => .star
  | .divide => .slash
  | .modulo => .percent

/-- The operator of a token. -/
def ofKind? : TokenKind → Option BinaryOp
  | .kwOr => some .or
  | .kwAnd => some .and
  | .kwIs => some .is
  | .kwIsnt => some .isnt
  | .less => some .less
  | .lessEq => some .lessEq
  | .greater => some .greater
  | .greaterEq => some .greaterEq
  | .plus => some .add
  | .minus => some .subtract
  | .star => some .multiply
  | .slash => some .divide
  | .percent => some .modulo
  | _ => none

/-- How tightly the operator binds; a greater level binds tighter. -/
def level : BinaryOp → Nat
  | .or => 0
  | .and => 1
  | .is | .isnt => 2
  | .less | .lessEq | .greater | .greaterEq => 3
  | .add | .subtract => 4
  | .multiply | .divide | .modulo => 5

end BinaryOp

/-- A token kept in a tree for its text and place. -/
structure Mark where
  text : String
  loc : Loc
deriving DecidableEq, Repr

/-- An occurrence of a dotted name. -/
structure Name where
  path : Path
  loc : Loc
deriving DecidableEq, Repr

mutual

/-- A procedure: its parameters and body. -/
inductive Proc where
  | mk (loc : Loc) (params : List Mark) (paramsLoc : Loc) (body : List Stmt) (bodyLoc : Loc)

/-- An expression. A group is a pair of parentheses in the source. -/
inductive Expr where
  | literal (value : Value) (loc : Loc)
  | identifier (name : Name)
  | group (inner : Expr) (loc : Loc)
  | unary (op : UnaryOp) (mark : Mark) (operand : Expr)
  | binary (left : Expr) (op : BinaryOp) (mark : Mark) (right : Expr)
  | call (callee : Name) (args : List Expr) (argsLoc : Loc)
  | proc (proc : Proc)

/-- A statement. An expression alone is a statement, and named procs are
declared by one. -/
inductive Stmt where
  | expr (expr : Expr)
  | importLibrary (target : Mark) (loc : Loc)
  | importRelative (target : Mark) (loc : Loc)
  | inNamespace (name : Name) (body : List Stmt) (bodyLoc : Loc) (loc : Loc)
  | letDecl (name : Name) (value : Expr) (loc : Loc)
  | constDecl (name : Name) (value : Expr) (loc : Loc)
  | set (name : Name) (value : Expr)
  | ifThen (condition : Expr) (body : List Stmt) (bodyLoc : Loc) (loc : Loc)
  | forRange (name : Name) (start stop : Expr) (body : List Stmt) (bodyLoc : Loc) (loc : Loc)
  | whileTrue (condition : Expr) (body : List Stmt) (bodyLoc : Loc) (loc : Loc)
  | returning (value : Expr) (loc : Loc)
  | procDecl (name : Name) (proc : Proc)

end

instance : Inhabited Expr := ⟨.literal .null default⟩

namespace Proc

/-- The place of the word `proc`. -/
def loc : Proc → Loc
  | .mk loc .. => loc

/-- The parameters in order. -/
def params : Proc → List Mark
  | .mk _ params .. => params

/-- The place after the opening parenthesis of the parameter list. -/
def paramsLoc : Proc → Loc
  | .mk _ _ paramsLoc .. => paramsLoc

/-- The statements of the body. -/
def body : Proc → List Stmt
  | .mk _ _ _ body _ => body

/-- The place of the first token after the header. -/
def bodyLoc : Proc → Loc
  | .mk _ _ _ _ bodyLoc => bodyLoc

end Proc

/-- The place of an expression's first token. -/
def Expr.loc : Expr → Loc
  | .literal _ loc => loc
  | .identifier name => name.loc
  | .group _ loc => loc
  | .unary _ mark _ => mark.loc
  | .binary left _ _ _ => left.loc
  | .call callee _ _ => callee.loc
  | .proc p => p.loc

/-- How many parentheses stand around an expression. -/
def Expr.groups : Expr → Nat
  | .group inner _ => inner.groups + 1
  | _ => 0

/-- The place of a statement's first token. -/
def Stmt.loc : Stmt → Loc
  | .expr e => e.loc
  | .importLibrary _ loc => loc
  | .importRelative _ loc => loc
  | .inNamespace _ _ _ loc => loc
  | .letDecl _ _ loc => loc
  | .constDecl _ _ loc => loc
  | .set name _ => name.loc
  | .ifThen _ _ _ loc => loc
  | .forRange _ _ _ _ _ loc => loc
  | .whileTrue _ _ _ loc => loc
  | .returning _ loc => loc
  | .procDecl _ proc => proc.loc

/-- A whole source. -/
structure Program where
  file : String
  body : List Stmt

/-- A program stands at the beginning of its source. -/
def Program.loc (program : Program) : Loc :=
  Loc.start program.file

end BasilLang
