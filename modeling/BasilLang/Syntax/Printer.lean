import BasilLang.Syntax
import BasilLang.Text.Quoted

/-! Two texts of a tree. `render` writes source that reads back as the same
tree: bodies stand on one line, top-level statements on lines of their own,
and parentheses appear exactly where the tree has a group. `dump` spells out
the structure for people to inspect. -/
namespace BasilLang

/-- A literal as it is written in a source; a number with a fraction ends in
`f`. -/
def Value.render (value : Value) : String :=
  match value.kind with
  | .string => Text.quote value.text
  | .number => if value.text.toList.contains '.' then value.text ++ "f" else value.text
  | _ => value.text

/-- A literal as a dump spells it. -/
def Value.dump (value : Value) : String :=
  s!"Literal({value.kind.name}, {Text.quote value.text})"

/-- The texts with commas between them. -/
def commaJoin (texts : List String) : String :=
  ", ".intercalate texts

/-- A body between its header and its `end`. -/
def bodyText (stmts : List String) : String :=
  if stmts.isEmpty then " " else " " ++ "; ".intercalate stmts ++ " "

/-- A node of a dump. -/
def dumpNode (name : String) (parts : List String) : String :=
  s!"{name}({commaJoin parts})"

/-- A list in a dump. -/
def dumpList (parts : List String) : String :=
  s!"[{commaJoin parts}]"

mutual

/-- The proc as source, with the text of its name in front of the list. -/
def Proc.render (name : String) : Proc → String
  | .mk _ params _ body _ =>
    s!"proc {name}({commaJoin (params.map Mark.text)}) then{bodyText (renderStmts body)}end"

/-- The expression as source. -/
def Expr.render : Expr → String
  | .literal value _ => value.render
  | .identifier name => name.path.text
  | .group inner _ => s!"({inner.render})"
  | .unary .not _ operand => s!"not {operand.render}"
  | .unary .negate _ operand => s!"-{operand.render}"
  | .binary left _ mark right => s!"{left.render} {mark.text} {right.render}"
  | .call callee args _ => s!"{callee.path.text}({commaJoin (renderExprs args)})"
  | .proc p => p.render ""

/-- The expressions of a list as source. -/
def renderExprs : List Expr → List String
  | [] => []
  | e :: es => e.render :: renderExprs es

/-- The statement as source. -/
def Stmt.render : Stmt → String
  | .expr e => e.render
  | .importLibrary target _ => s!"import {target.text}"
  | .importRelative target _ => s!"import {Text.quote target.text}"
  | .inNamespace name body _ _ =>
    s!"namespace {name.path.text}{bodyText (renderStmts body)}end"
  | .letDecl name value _ => s!"let {name.path.text} = {value.render}"
  | .constDecl name value _ => s!"const {name.path.text} = {value.render}"
  | .set name value => s!"{name.path.text} = {value.render}"
  | .ifThen condition body _ _ =>
    s!"if {condition.render} then{bodyText (renderStmts body)}end"
  | .forRange name start stop body _ _ =>
    s!"for {name.path.text} = {start.render} to {stop.render} then{bodyText (renderStmts body)}end"
  | .whileTrue condition body _ _ =>
    s!"while {condition.render} then{bodyText (renderStmts body)}end"
  | .returning value _ => s!"return {value.render}"
  | .procDecl name proc => proc.render name.path.text

/-- The statements of a list as source. -/
def renderStmts : List Stmt → List String
  | [] => []
  | s :: ss => s.render :: renderStmts ss

end

attribute [simp] Proc.render Expr.render renderExprs Stmt.render renderStmts

/-- The program as source. -/
def Program.render (program : Program) : String :=
  "\n".intercalate (renderStmts program.body)

mutual

/-- The proc spelled out under the given name. -/
def Proc.dump (name : String) : Proc → String
  | .mk _ params _ body _ =>
    dumpNode "Proc" [name, dumpList (params.map Mark.text), dumpList (dumpStmts body)]

/-- The expression spelled out. -/
def Expr.dump : Expr → String
  | .literal value _ => value.dump
  | .identifier name => dumpNode "Identifier" [name.path.text]
  | .group inner _ => dumpNode "Group" [inner.dump]
  | .unary _ mark operand => dumpNode "Unary" [mark.text, operand.dump]
  | .binary left _ mark right => dumpNode "Binary" [left.dump, mark.text, right.dump]
  | .call callee args _ => dumpNode "Call" [callee.path.text, dumpList (dumpExprs args)]
  | .proc p => p.dump "<anonymous>"

/-- The expressions of a list spelled out. -/
def dumpExprs : List Expr → List String
  | [] => []
  | e :: es => e.dump :: dumpExprs es

/-- The statement spelled out. -/
def Stmt.dump : Stmt → String
  | .expr e => e.dump
  | .importLibrary target _ => dumpNode "Import" [target.text]
  | .importRelative target _ => dumpNode "Import" [target.text]
  | .inNamespace name body _ _ =>
    dumpNode "Namespace" [name.path.text, dumpList (dumpStmts body)]
  | .letDecl name value _ => dumpNode "VariableDeclaration" [name.path.text, value.dump]
  | .constDecl name value _ => dumpNode "ConstantDeclaration" [name.path.text, value.dump]
  | .set name value => dumpNode "VariableSet" [name.path.text, value.dump]
  | .ifThen condition body _ _ => dumpNode "If" [condition.dump, dumpList (dumpStmts body)]
  | .forRange name start stop body _ _ =>
    dumpNode "For" [name.path.text, start.dump, stop.dump, dumpList (dumpStmts body)]
  | .whileTrue condition body _ _ =>
    dumpNode "While" [condition.dump, dumpList (dumpStmts body)]
  | .returning value _ => dumpNode "Return" [value.dump]
  | .procDecl name proc => proc.dump name.path.text

/-- The statements of a list spelled out. -/
def dumpStmts : List Stmt → List String
  | [] => []
  | s :: ss => s.dump :: dumpStmts ss

end

/-- The program spelled out. -/
def Program.dump (program : Program) : String :=
  dumpNode "Program" (dumpStmts program.body)

end BasilLang
