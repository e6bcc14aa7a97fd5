import BasilLang.Session
import BasilLang.Syntax.Tree

/-! Evaluation of plain trees. A table gives the rule for each label. A rule
takes its node apart by itself, so it can meet a label without a rule, children
it does not ask for, a token that is no operator or no literal, and a node that
stands nowhere; each of these is told apart from the ways in which evaluation
ends for the program's own reasons. -/
namespace BasilLang

/-- The place that stands for having none. -/
def Loc.runtime : Loc := ⟨"<runtime>", ⟨0, 0⟩⟩

/-- Why evaluation of a tree gave no value. -/
inductive Halt where
  /-- A reason that lies in the program. -/
  | stop (reason : Stop)
  /-- A token is no operator before or between operands. -/
  | unsupported (form op : String) (loc : Option Loc)
  /-- A node is not in the form that its label stands for. -/
  | malformed (defect : Tree.Defect)
  /-- A value had to be stored for something that stands nowhere. -/
  | unplaced

/-- The complaint about a token that is no operator. -/
def Halt.unsupportedMessage (form op : String) : String :=
  s!"Unsupported {form} op {op}"

instance : Readable Tree where
  names? tree := if tree.isResolved then some [] else tree.names?

/-- Every path that resolving the tree in the frame would read. -/
def Frame.treeReads? (frame : Frame Tree) (tree : Tree) : Option (List Path) := do
  frame.follow (frame.bindings.length + 1) [] (← tree.names?).eraseDups

/-- Evaluation of trees: as that of nodes, in a frame of trees. -/
def TreeEval (α : Type) := Machine Tree → Except Halt α × Machine Tree

namespace TreeEval

/-- Goes on with the result; without one, halts. -/
@[inline] protected def bind {α β : Type} (act : TreeEval α) (next : α → TreeEval β) :
    TreeEval β := fun m =>
  match act m with
  | (.ok a, m) => next a m
  | (.error halt, m) => (.error halt, m)

instance : Monad TreeEval where
  pure a m := (.ok a, m)
  bind := TreeEval.bind

/-- Halts. -/
def halt {α : Type} (reason : Halt) : TreeEval α := fun m => (.error reason, m)

/-- An action that looks at nothing but the console. -/
def plainly {α : Type} (act : Eval α) : TreeEval α := fun m =>
  match act ⟨{}, m.console⟩ with
  | (result, after) => (result.mapError .stop, { m with console := after.console })

/-- What is read off a tree, unless it is malformed. -/
def reading {α : Type} : Except Tree.Defect α → TreeEval α
  | .ok a => pure a
  | .error defect => halt (.malformed defect)

/-- Halts at a node that has not the children its rule asks for. -/
def misshapen {α : Type} (tree : Tree) : TreeEval α := halt (.malformed (.shape tree))

/-- The current frame. -/
def frame : TreeEval (Frame Tree) := fun m => (.ok m.frame, m)

/-- Replaces the current frame. -/
def setFrame (frame : Frame Tree) : TreeEval Unit := fun m => (.ok (), { m with frame })

/-- Supplies the place of a complaint that has none yet, if there is one to
supply. -/
def located {α : Type} (loc : Option Loc) (act : TreeEval α) : TreeEval α := fun m =>
  match act m with
  | (.error (.stop (.failed failure)), m) =>
    (.error (.stop (.failed (loc.elim failure failure.locate))), m)
  | (.error (.unsupported form op at?), m) => (.error (.unsupported form op (at? <|> loc)), m)
  | result => result

/-- The value of a return inside, or nothing when there is none. -/
def catchReturn (act : TreeEval Unit) : TreeEval (Option Value) := fun m =>
  match act m with
  | (.ok (), m) => (.ok none, m)
  | (.error (.stop (.returned value)), m) => (.ok (some value), m)
  | (.error halt, m) => (.error halt, m)

/-- A failure that concerns the whole of a source when the room is used up. -/
def reportingRoom {α : Type} (loc : Option Loc) (act : TreeEval α) : TreeEval α := fun m =>
  match act m with
  | (.error (.stop .outOfRoom), m) =>
    (.error (.stop (.failed ⟨.eval .nestingTooDeep, loc⟩)), m)
  | result => result

/-- Works in another frame. However that ends, the frame from before comes
back, with what `merge` takes over from the other. -/
def inFrame {α : Type} (inner : Frame Tree) (merge : Frame Tree → Frame Tree → Frame Tree)
    (act : TreeEval α) : TreeEval α := fun m =>
  match act { m with frame := inner } with
  | (result, after) => (result, { after with frame := merge m.frame after.frame })

/-- Works in a copy of the current frame; what was bound before is copied
back. -/
def inCopy {α : Type} (act : TreeEval α) : TreeEval α := fun m =>
  inFrame m.frame Frame.mergeExisting act m

/-- Works in a frame of its own, which is given back; the current one does
not change. -/
def inOwnFrame {α : Type} (inner : Frame Tree) (act : TreeEval α) :
    TreeEval (α × Frame Tree) := fun m =>
  match act { m with frame := inner } with
  | (.ok a, after) => (.ok (a, after.frame), { after with frame := m.frame })
  | (.error halt, after) => (.error halt, { after with frame := m.frame })

/-- Runs the actions of a list in order. -/
def forEach {α β : Type} (act : α → TreeEval β) : List α → TreeEval Unit
  | [] => pure ()
  | a :: rest => do
    let _ ← act a
    forEach act rest

/-- Runs an action on the integers from the given one on, as many as asked
for. -/
def countUp (act : Int → TreeEval Unit) : Nat → Int → TreeEval Unit
  | 0, _ => pure ()
  | count + 1, i => do
    act i
    countUp act count (i + 1)

/-- Runs an action while a test holds, for a limited number of rounds. -/
def whileHolds (test : TreeEval Bool) (act : TreeEval Unit) : Nat → TreeEval Unit
  | 0 => plainly (.stop .outOfPatience)
  | rounds + 1 => do
    if ← test then
      act
      whileHolds test act rounds

end TreeEval

/-- Meanings for the trees inside a node, each to be taken after so many units
of room, how many units are left for them, and the place under which a value is
stored for something that stands nowhere, if it may be. -/
structure TreeMeaning where
  left : Nat
  fallback : Option Loc
  node : Nat → Tree → TreeEval Value

namespace TreeMeaning

/-- The meanings after some more units. -/
def after (inside : TreeMeaning) (units : Nat) : TreeMeaning :=
  { inside with left := inside.left - units, node := fun more => inside.node (more + units) }

/-- Goes on only if so many units are left. -/
def require (inside : TreeMeaning) (units : Nat) : TreeEval Unit :=
  if units ≤ inside.left then pure () else .plainly (.stop .outOfRoom)

/-- The meaning of a tree inside. -/
def eval (inside : TreeMeaning) (tree : Tree) : TreeEval Value :=
  inside.node 0 tree

/-- The meaning of a body: its children in order. -/
def body (inside : TreeMeaning) (tree : Tree) : TreeEval Unit :=
  TreeEval.forEach (inside.after Room.body).eval tree.children

/-- The truth of a condition. -/
def holds (inside : TreeMeaning) (condition : Tree) : TreeEval Bool := do
  .plainly (.lift (← inside.eval condition).truth)

/-- The literal for a value that was resolved at a place. -/
def stored (inside : TreeMeaning) (value : Value) (loc : Option Loc) : TreeEval Tree :=
  match loc <|> inside.fallback with
  | some loc => return .ofValue value loc
  | none => .halt .unplaced

end TreeMeaning

namespace Dispatch

open TreeEval (plainly reading misshapen)

/-- The proc that a tree names directly: a proc, or a name bound to one, with
any parentheses around it. -/
def procNamed (frame : Frame Tree) : Tree → Except Tree.Defect (Option Tree)
  | .node "group" (inner :: _) _ => procNamed frame inner
  | tree =>
    if tree.isProc then .ok (some tree)
    else if tree.label? = some "group" then .error (.shape tree)
    else if tree.label? = some "identifier" then .ok ((frame.lookup tree.path).filter Tree.isProc)
    else .ok none

/-- What a declaration or an assignment stores. -/
def bindable (inside : TreeMeaning) (tree : Tree) : TreeEval Tree := do
  let within := inside.after Room.binding
  within.require (Room.naming tree.groups)
  match ← reading (procNamed (← TreeEval.frame) tree) with
  | some bound => return bound
  | none => within.stored (← within.eval tree) tree.loc

/-- What a parameter is bound to. -/
def argument (inside : TreeMeaning) (params : List Path) (tree : Tree) : TreeEval Tree := do
  let within := inside.after Room.argument
  within.require (Room.naming tree.groups)
  let frame ← TreeEval.frame
  match ← reading (procNamed frame tree) with
  | some bound => return bound
  | none =>
    match frame.treeReads? tree with
    | some paths =>
      if paths.any params.contains then within.stored (← within.eval tree) tree.loc
      else return tree
    | none => within.stored (← within.eval tree) tree.loc

/-- What the parameters are bound to, in order. -/
def arguments (inside : TreeMeaning) (params : List Path) : List Tree → TreeEval (List Tree)
  | [] => return []
  | tree :: rest => do
    let bound ← argument inside params tree
    return bound :: (← arguments inside params rest)

/-- The path of one parameter, which is a token. -/
def paramPath : Tree → Except Tree.Defect Path
  | .token _ text => .ok [text]
  | tree => .error (.shape tree)

/-- Resolves a parameter that the caller has a path for too. -/
def settle (inside : TreeMeaning) (caller : Frame Tree) (path : Path) : TreeEval Unit := do
  let frame ← TreeEval.frame
  if caller.has path then
    match frame.lookup path with
    | some bound =>
      if bound.isResolved then return ()
      else
        let within := inside.after Room.settling
        let resolved ← within.stored (← within.eval bound) bound.loc
        TreeEval.setFrame ((← TreeEval.frame).bind path resolved)
    | none => plainly (.fail (.notEvaluable "None"))

/-- Runs the body of a proc and resolves the parameters that the caller will
get back. -/
def runBody (inside : TreeMeaning) (caller : Frame Tree) (params : List Path) (body : Tree) :
    TreeEval Value := do
  let result ← TreeEval.catchReturn ((inside.after Room.call).body body)
  TreeEval.forEach (settle inside caller) params
  return result.getD .null

/-- The paths of the parameters in a list. -/
def paramPaths (params : Tree) : TreeEval (List Path) :=
  reading (params.children.mapM paramPath)

/-- Calls a proc under the path it was called by. -/
def invoke (inside : TreeMeaning) (proc : Tree) (path : Path) (args : List Tree) :
    TreeEval Value :=
  match proc.children with
  | [_, params, body] => do
    let params ← paramPaths params
    if args.length ≠ params.length then
      plainly (.fail (.wrongCount path params.length args.length))
    else
      inside.require Room.entering
      let caller ← TreeEval.frame
      let copy ← plainly (.lift caller.deeper)
      TreeEval.inFrame ((copy.within path).bindAll params args) Frame.mergeExisting
        (runBody inside caller params body)
  | _ => misshapen proc

/-- Runs a built-in operation on its argument, which only `debug` leaves
unevaluated. -/
def runBuiltin (inside : TreeMeaning) (tree : Tree) : Evaluation.Builtin → TreeEval Value
  | .printval => do
    plainly (.write (← inside.eval tree).text)
    return .null
  | .debug => do
    inside.require (Room.spelling tree.depth)
    plainly (.write ((← reading tree.dump) ++ "\n"))
    return .null
  | .debugval => do
    plainly (.write ((← inside.eval tree).shown ++ "\n"))
    return .null

/-- A call of a built-in operation; each takes one argument. -/
def callBuiltin (inside : TreeMeaning) (path : Path) (args : List Tree) : TreeEval Value :=
  match Evaluation.Builtin.ofPath? path, args with
  | none, _ => plainly (.fail (.unknownBuiltin path))
  | some builtin, [tree] => runBuiltin (inside.after Room.builtin) tree builtin
  | some _, _ => plainly (.fail (.wrongBuiltinCount path 1 args.length))

/-- A call of what the path is bound to, whose parameters are its second
child. -/
def callBound (inside : TreeMeaning) (path : Path) (args : List Tree) : TreeEval Value := do
  let proc ← plainly (.lift ((← TreeEval.frame).get path))
  if proc.isProc then
    match proc.children with
    | _ :: params :: _ => do
      let params ← paramPaths params
      invoke inside proc path (← arguments inside params args)
    | _ => misshapen proc
  else plainly (.fail (.notAProc path))

/-- A call. -/
def call (inside : TreeMeaning) (tree : Tree) : TreeEval Value :=
  match tree.children with
  | [name, args] =>
    if name.path.head? = some Evaluation.builtinScope then
      callBuiltin inside name.path args.children
    else callBound inside name.path args.children
  | _ => misshapen tree

/-- A name stands for what it is bound to, resolved now. -/
def identifier (inside : TreeMeaning) (tree : Tree) : TreeEval Value := do
  let bound ← plainly (.lift ((← TreeEval.frame).get tree.path))
  if bound.isProc then plainly (.fail (.procAsValue tree.path)) else inside.eval bound

/-- Parentheses stand for what is inside them. -/
def group (inside : TreeMeaning) (tree : Tree) : TreeEval Value :=
  match tree.children with
  | inner :: _ => inside.eval inner
  | [] => misshapen tree

/-- An operation on one operand, which is looked at before the operator. -/
def unary (inside : TreeMeaning) (tree : Tree) : TreeEval Value :=
  match tree.children with
  | [op, operand] => do
    let x ← inside.eval operand
    match op with
    | .token type text =>
      match UnaryOp.ofTokenName? type with
      | some op => plainly (op.apply x)
      | none => .halt (.unsupported "unary" text none)
    | _ => misshapen tree
  | _ => misshapen tree

/-- A logical operation: it looks at its right operand only if the truth of
the left one has not settled it. -/
def logical (inside : TreeMeaning) (settled : Bool) (left right : Tree) : TreeEval Value := do
  let within := inside.after Room.logical
  if (← within.holds left) == settled then return .boolean settled
  else return .boolean (← within.holds right)

/-- An operation on two operands. A token that is no operator is found out only
when both have turned out to be numbers. -/
def binary (inside : TreeMeaning) (tree : Tree) : TreeEval Value :=
  match tree.children with
  | [left, .token type text, right] =>
    match BinaryOp.ofTokenName? type with
    | some .or => logical inside true left right
    | some .and => logical inside false left right
    | found => do
      let x ← inside.eval left
      let y ← inside.eval right
      match found with
      | some op => plainly (op.apply x y)
      | none =>
        let _ ← plainly (.lift x.number)
        let _ ← plainly (.lift y.number)
        .halt (.unsupported "binary" text none)
  | _ => misshapen tree

/-- A proc is declared under its name; a proc without one is no value. -/
def proc (tree : Tree) : TreeEval Value :=
  match tree.children with
  | .token type text :: _ =>
    if type = "ANON" then plainly (.fail .procLiteralAsValue)
    else do
      let frame ← TreeEval.frame
      let path := frame.qualify (.ofText text)
      TreeEval.setFrame (← plainly (.lift (frame.declare path tree false)))
      return .null
  | _ => misshapen tree

/-- The tree of a library, read in the room that is left. -/
def readLibrary (inside : TreeMeaning) (name source : String) : TreeEval Tree :=
  match Program.parseWithin (inside.after Room.reading).left source (Library.file name) with
  | .ok program => return (Part.program program).tree
  | .error failure =>
    plainly (.stop (if failure.fault = .parse .tooDeep then .outOfRoom else .failed failure))

/-- The frame that a library leaves when it runs on its own. -/
def libraryFrame (inside : TreeMeaning) (name source : String) : TreeEval (Frame Tree) := do
  let frame ← TreeEval.frame
  let depth := frame.depth + 1
  match frame.maxDepth.filter fun (limit : Int) => limit < depth with
  | some limit => plainly (.fail (.importTooDeep limit name))
  | none =>
    let within := inside.after Room.library
    let program ← readLibrary within name source
    plainly (.note (.runningLibrary name))
    let own : Frame Tree := { depth, maxDepth := frame.maxDepth }
    return (← TreeEval.inOwnFrame own (TreeEval.catchReturn (within.body program))).2

/-- Imports a library: all of its bindings, or none when one of their paths is
taken. -/
def importLibrary (inside : TreeMeaning) (name : String) : TreeEval Value := do
  match Library.source? name with
  | none => plainly (.fail (.unknownLibrary name))
  | some source =>
    let library ← libraryFrame inside name source
    let frame ← TreeEval.frame
    let taken := (library.bindings.map fun (path, _) => frame.qualify path).filter frame.has
    if taken.isEmpty then
      TreeEval.setFrame (Evaluation.addLibrary frame library)
      return .null
    else plainly (.fail (.importCollision name taken))

/-- An import; one with a relative target is passed over. -/
def importing (inside : TreeMeaning) (tree : Tree) : TreeEval Value :=
  match tree.children with
  | .token type text :: _ =>
    if type = "RELATIVE" then do
      inside.require Room.noting
      plainly (.note (.ignoredImport text (tree.loc.getD .runtime)))
      return .null
    else importLibrary inside text
  | _ => misshapen tree

/-- Declares a path after resolving its value. -/
def declare (inside : TreeMeaning) (path : Path) (value : Tree) (constant : Bool) :
    TreeEval Value := do
  plainly (.lift ((← TreeEval.frame).requireUnbound path))
  let bound ← bindable inside value
  TreeEval.setFrame (← plainly (.lift ((← TreeEval.frame).declare path bound constant)))
  return .null

/-- A declaration of a variable. -/
def letDecl (inside : TreeMeaning) (tree : Tree) : TreeEval Value :=
  match tree.children with
  | [name, value] => declare inside name.path value false
  | _ => misshapen tree

/-- A declaration of a constant. -/
def constDecl (inside : TreeMeaning) (tree : Tree) : TreeEval Value :=
  match tree.children with
  | [name, value] => do declare inside ((← TreeEval.frame).qualify name.path) value true
  | _ => misshapen tree

/-- An assignment. -/
def assign (inside : TreeMeaning) (tree : Tree) : TreeEval Value :=
  match tree.children with
  | [name, value] => do
    plainly (.lift ((← TreeEval.frame).requireAssignable name.path))
    let bound ← bindable inside value
    TreeEval.setFrame (← plainly (.lift ((← TreeEval.frame).assign name.path bound)))
    if bound.label? = some "literal" then reading bound.value else return .null
  | _ => misshapen tree

/-- A namespace. -/
def inNamespace (inside : TreeMeaning) (tree : Tree) : TreeEval Value :=
  match tree.children with
  | [name, body] => do
    let frame ← TreeEval.frame
    let scope := frame.qualify name.path
    TreeEval.inFrame (frame.within scope) (·.mergeUnder · scope) (inside.body body)
    return .null
  | _ => misshapen tree

/-- A condition. -/
def ifThen (inside : TreeMeaning) (tree : Tree) : TreeEval Value :=
  match tree.children with
  | [condition, body] => do
    if ← inside.holds condition then TreeEval.inCopy (inside.body body)
    return .null
  | _ => misshapen tree

/-- A loop without a bound, followed for so many rounds. -/
def whileTrue (patience : Nat) (inside : TreeMeaning) (tree : Tree) : TreeEval Value :=
  match tree.children with
  | [condition, body] => do
    TreeEval.whileHolds (inside.holds condition) (TreeEval.inCopy (inside.body body)) patience
    return .null
  | _ => misshapen tree

/-- The rounds of a counting loop. -/
def rounds (inside : TreeMeaning) (path : Path) (low high : Int) (body : Tree)
    (loc : Option Loc) : TreeEval Unit :=
  TreeEval.countUp (fun i => TreeEval.inCopy do
    let counter ← inside.stored (.ofNumber (Number.ofInt i)) loc
    TreeEval.setFrame ((← TreeEval.frame).bind path counter)
    inside.body body) (high - low).toNat low

/-- A counting loop. Without two Numbers for its bounds it is skipped. -/
def forRange (inside : TreeMeaning) (tree : Tree) : TreeEval Value :=
  match tree.children with
  | [name, start, stop, body] => do
    let first ← inside.eval start
    let last ← inside.eval stop
    if first.kind ≠ .number || last.kind ≠ .number then
      inside.require Room.noting
      plainly (.note (.skippedLoop (tree.loc.getD .runtime) first last))
      return .null
    else
      let x ← plainly (.lift first.number)
      let y ← plainly (.lift last.number)
      match Number.floor? x, Number.floor? y with
      | some low, some high =>
        rounds inside name.path low high body tree.loc
        return .null
      | _, _ => plainly (.fail (.unboundedLoop first.text last.text))
  | _ => misshapen tree

/-- The end of a body with a value. -/
def returning (inside : TreeMeaning) (tree : Tree) : TreeEval Value :=
  match tree.children with
  | value :: _ => do plainly (.stop (.returned (← inside.eval value)))
  | [] => misshapen tree

/-- The rule for a label, if there is one. -/
def rule? (patience : Nat) (inside : TreeMeaning) (label : String) :
    Option (Tree → TreeEval Value) :=
  match label with
  | "literal" => some fun tree => reading tree.value
  | "group" => some (group inside)
  | "identifier" => some (identifier inside)
  | "unary" => some (unary inside)
  | "binary" => some (binary inside)
  | "call" => some (call inside)
  | "proc" => some proc
  | "import" => some (importing inside)
  | "if" => some (ifThen inside)
  | "for" => some (forRange inside)
  | "while" => some (whileTrue patience inside)
  | "return" => some (returning inside)
  | "let" => some (letDecl inside)
  | "const" => some (constDecl inside)
  | "set" => some (assign inside)
  | "namespace" => some (inNamespace inside)
  | _ => none

/-- The meaning of a tree by its label; without a rule for it, the node is not
known. -/
def tree (patience : Nat) (inside : TreeMeaning) (tree : Tree) : TreeEval Value :=
  match tree.label?.bind (rule? patience inside) with
  | some rule => rule tree
  | none => plainly (.fail (.notEvaluable tree.shown))

end Dispatch

/-- What a node takes of the room for what stands inside it. -/
def Tree.units (tree : Tree) : Nat :=
  if tree.label? = some "group" then Room.group else Room.node

/-- The meaning of a tree in the given room, after so many units of it. -/
def interpretTree (fallback : Option Loc) (patience : Nat) : Nat → Nat → Tree → TreeEval Value
  | 0, _, _ => .plainly (.stop .outOfRoom)
  | room + 1, units + 1, tree => interpretTree fallback patience room units tree
  | room + 1, 0, tree =>
    if room < Room.work then .plainly (.stop .outOfRoom)
    else TreeEval.located tree.loc fun m =>
      Dispatch.tree patience ⟨room - tree.units, fallback, fun units =>
        interpretTree fallback patience room (units + tree.units)⟩ tree m

/-- The meanings that are left with the given room. -/
def treeInterpreter (fallback : Option Loc) (patience room : Nat) : TreeMeaning :=
  ⟨room, fallback, interpretTree fallback patience room⟩

namespace Dispatch

/-- Calls the main proc. -/
def callMain (inside : TreeMeaning) (loc : Option Loc) : TreeEval Value := do
  match (← TreeEval.frame).lookup Program.mainPath with
  | none => .plainly (.stop (.failed ⟨.eval .noMain, loc⟩))
  | some bound =>
    if bound.isProc then invoke inside bound Program.mainPath []
    else .plainly (.stop (.failed ⟨.eval .mainNotAProc, bound.loc⟩))

/-- Runs the tree of a program in the current frame. -/
def run (inside : TreeMeaning) (program : Tree) (withMain : Bool) : TreeEval (Option Value) :=
  TreeEval.reportingRoom program.loc do
    let result ← TreeEval.catchReturn (inside.body program)
    if withMain then return some (← callMain inside program.loc) else return result

end Dispatch

end BasilLang
