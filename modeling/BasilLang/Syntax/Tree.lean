import BasilLang.Syntax.Part

/-! Plain trees. Nothing but a label tells what a node is, and nothing says how
many children it has or that it stands anywhere: whoever takes a node apart has
to find out, and may find it in no form that its label stands for. -/
namespace BasilLang

/-- A node with a label, or a token with a type. -/
inductive Tree where
  | node (label : String) (children : List Tree) (loc : Option Loc)
  | token (type text : String)

/-- A part as a plain tree. -/
def Part.tree (part : Part) : Tree :=
  match part with
  | .token kind mark => .token kind mark.text
  | part => .node part.label (part.children.attach.map fun ⟨child, _⟩ => child.tree) (some part.loc)
termination_by part.depth
decreasing_by exact depth_child ‹_›

/-- The kind of literal that a type of token is for. -/
def Kind.ofTokenName? (type : String) : Option Kind :=
  [.string, .number, .boolean, .null].find? (·.tokenName = type)

/-- The operator before an operand that a type of token is for. -/
def UnaryOp.ofTokenName? (type : String) : Option UnaryOp :=
  [.negate, .not].find? (·.kind.name = type)

/-- The operator between operands that a type of token is for. -/
def BinaryOp.ofTokenName? (type : String) : Option BinaryOp :=
  [.or, .and, .is, .isnt, .less, .lessEq, .greater, .greaterEq, .add, .subtract, .multiply,
    .divide, .modulo].find? (·.kind.name = type)

namespace Tree

/-- What is wrong with a tree that is not in the form its label stands for. -/
inductive Defect where
  /-- The children of the node are too few, too many or not tokens. -/
  | shape (node : Tree)
  /-- No kind of literal has tokens of this type. -/
  | kind (type : String)

/-- The label of a node; a token has none. -/
def label? : Tree → Option String
  | .node label _ _ => some label
  | .token _ _ => none

/-- The children of a node; a token has none. -/
def children : Tree → List Tree
  | .node _ children _ => children
  | .token _ _ => []

/-- The place of a node, if it has one; a token has none. -/
def loc : Tree → Option Loc
  | .node _ _ loc => loc
  | .token _ _ => none

/-- How a complaint names the tree. -/
def shown : Tree → String
  | .node label _ _ => Text.shown label
  | .token type text => s!"Token({Text.shown type}, {Text.shown text})"

/-- The text of a token for a name. -/
def nameText? : Tree → Option String
  | .token "IDENT" text => some text
  | _ => none

/-- The path that a token spells, or the first name among the children. -/
def path : Tree → Path
  | .token _ text => .ofText text
  | .node _ children _ => (children.findSome? nameText?).elim [] .ofText

/-- Whether the tree is a proc. -/
def isProc (tree : Tree) : Bool :=
  tree.label? = some "proc"

/-- Whether there is nothing to resolve in the tree. -/
def isResolved (tree : Tree) : Bool :=
  tree.label? = some "literal" || tree.isProc

/-- The literal for a value. -/
def ofValue (value : Value) (loc : Loc) : Tree :=
  .node "literal" [.token value.kind.tokenName value.text] (some loc)

/-- The value of a literal, which is in its first child. -/
def value (tree : Tree) : Except Defect Value :=
  match tree.children with
  | .token type text :: _ =>
    match Kind.ofTokenName? type with
    | some kind => .ok ⟨kind, text⟩
    | none => .error (.kind type)
  | _ => .error (.shape tree)

/-- How many parentheses stand around a tree. -/
def groups : Tree → Nat
  | .node "group" (inner :: _) _ => inner.groups + 1
  | _ => 0

mutual

/-- How many nodes stand around the deepest leaf of the tree. -/
def depth : Tree → Nat
  | .node _ children _ => depths children + 1
  | .token _ _ => 0

/-- The depth of the deepest tree of a list. -/
def depths : List Tree → Nat
  | [] => 0
  | tree :: trees => max tree.depth (depths trees)

end

mutual

/-- The paths named in a tree, unless it holds a call or a proc. -/
def names? : Tree → Option (List Path)
  | .token _ _ => some []
  | .node label children loc =>
    if label = "call" || label = "proc" then none
    else if label = "identifier" then some [path (.node label children loc)]
    else allNames? children

/-- The paths named in the trees of a list. -/
def allNames? : List Tree → Option (List Path)
  | [] => some []
  | tree :: trees => do return (← tree.names?) ++ (← allNames? trees)

end

/-- The labels of the nodes that are lists. -/
def listLabels : List String := ["args", "params", "body"]

/-- What a dump calls the nodes with a label. -/
def dumpName (label : String) : String :=
  match label with
  | "program" => "Program"
  | "identifier" => "Identifier"
  | "group" => "Group"
  | "unary" => "Unary"
  | "binary" => "Binary"
  | "call" => "Call"
  | "import" => "Import"
  | "proc" => "Proc"
  | "if" => "If"
  | "for" => "For"
  | "while" => "While"
  | "return" => "Return"
  | "let" => "VariableDeclaration"
  | "const" => "ConstantDeclaration"
  | "set" => "VariableSet"
  | "namespace" => "Namespace"
  | label => label

mutual

/-- The tree spelled out. -/
def dump : Tree → Except Defect String
  | .token type text => .ok (if type = "ANON" then "<anonymous>" else text)
  | .node label children loc =>
    if label = "literal" then do return (← value (.node label children loc)).dump
    else do
      let parts ← dumpAll children
      return if label ∈ listLabels then dumpList parts else dumpNode (dumpName label) parts

/-- The trees of a list spelled out. -/
def dumpAll : List Tree → Except Defect (List String)
  | [] => .ok []
  | tree :: trees => do return (← tree.dump) :: (← dumpAll trees)

end

end Tree

end BasilLang
