import BasilLang.Evaluation.Call
import BasilLang.Evaluation.Operator
import BasilLang.Library

/-! The meaning of statements and expressions. Every rule is written over the
meanings of what stands inside, so the language is one step from meanings to
meanings; the interpreter takes that step as often as its room allows. -/
namespace BasilLang

namespace Evaluation

/-- A name stands for what it is bound to, resolved now. -/
def identifier (inside : Meaning) (path : Path) : Eval Value := do
  let bound ← Eval.lift ((← Eval.frame).get path)
  match bound with
  | .declared _ _ => Eval.fail (.procAsValue path)
  | .expr (.proc _) => Eval.fail (.procAsValue path)
  | .expr e => inside.expr e

/-- The values of two operands, the left one first. -/
def operands (inside : Meaning) (left right : Expr) : Eval (Value × Value) := do
  let x ← inside.expr left
  let y ← inside.expr right
  return (x, y)

/-- The numbers that two operands stand for. -/
def numbers (inside : Meaning) (left right : Expr) : Eval (Float × Float) := do
  let (x, y) ← operands inside left right
  return (← Eval.lift x.number, ← Eval.lift y.number)

/-- A logical operation: it looks at its right operand only if the truth of
the left one has not settled it. -/
def logical (inside : Meaning) (settled : Bool) (left right : Expr) : Eval Value := do
  let within := inside.after Room.logical
  if (← within.holds left) == settled then return .boolean settled
  else return .boolean (← within.holds right)

/-- A binary operation. Equality compares kind and text. -/
def binary (inside : Meaning) (left : Expr) (op : BinaryOp) (right : Expr) : Eval Value := do
  match op with
  | .or => logical inside true left right
  | .and => logical inside false left right
  | .is =>
    let (x, y) ← operands inside left right
    return .boolean (x = y)
  | .isnt =>
    let (x, y) ← operands inside left right
    return .boolean (x ≠ y)
  | .less =>
    let (x, y) ← numbers inside left right
    return .ordering (x < y)
  | .lessEq =>
    let (x, y) ← numbers inside left right
    return .ordering (x ≤ y)
  | .greater =>
    let (x, y) ← numbers inside left right
    return .ordering (x > y)
  | .greaterEq =>
    let (x, y) ← numbers inside left right
    return .ordering (x ≥ y)
  | .add =>
    let (x, y) ← numbers inside left right
    return .ofNumber (x + y)
  | .subtract =>
    let (x, y) ← numbers inside left right
    return .ofNumber (x - y)
  | .multiply =>
    let (x, y) ← numbers inside left right
    return .ofNumber (x * y)
  | .divide =>
    let (x, y) ← numbers inside left right
    Eval.quotient x y
  | .modulo =>
    let (x, y) ← numbers inside left right
    Eval.remainder x y

/-- The meaning of an expression. -/
def expr (inside : Meaning) : Expr → Eval Value
  | .literal value _ => return value
  | .identifier name => identifier inside name.path
  | .group inner _ => inside.expr inner
  | .unary op _ operand => do op.apply (← inside.expr operand)
  | .binary left op _ right => binary inside left op right
  | .call callee args _ => call inside callee.path args
  | .proc _ => Eval.fail .procLiteralAsValue

/-- The program of a library, read in the room that is left. -/
def readLibrary (inside : Meaning) (name source : String) : Eval Program :=
  match Program.parseWithin (inside.after Room.reading).left source (Library.file name) with
  | .ok program => pure program
  | .error failure =>
    Eval.stop (if failure.fault = .parse .tooDeep then .outOfRoom else .failed failure)

/-- The frame that a library leaves when it runs on its own, one level deeper
than the frame that imports it. -/
def libraryFrame (inside : Meaning) (name source : String) : Eval Frame := do
  let frame ← Eval.frame
  let depth := frame.depth + 1
  match frame.maxDepth.filter fun (limit : Int) => limit < depth with
  | some limit => Eval.fail (.importTooDeep limit name)
  | none =>
    let within := inside.after Room.library
    let program ← readLibrary within name source
    Eval.note (.runningLibrary name)
    let own : Frame := { depth, maxDepth := frame.maxDepth }
    return (← Eval.inOwnFrame own (Eval.catchReturn (within.body program.body))).2

/-- Adds the bindings of a library under the frame's scope. -/
def addLibrary {β : Type} (frame library : Frame β) : Frame β :=
  library.bindings.foldl (fun frame (path, bound) =>
    let added := frame.bind (frame.qualify path) bound
    if library.isConstant path then added.markConstant (frame.qualify path) else added) frame

/-- Imports a library: all of its bindings, or none when one of their paths is
taken. -/
def importLibrary (inside : Meaning) (name : String) : Eval Value := do
  match Library.source? name with
  | none => Eval.fail (.unknownLibrary name)
  | some source =>
    let library ← libraryFrame inside name source
    let frame ← Eval.frame
    let taken := (library.bindings.map fun (path, _) => frame.qualify path).filter frame.has
    if taken.isEmpty then
      Eval.setFrame (addLibrary frame library)
      return .null
    else Eval.fail (.importCollision name taken)

/-- Declares a path after resolving its value; that the path is free is asked
first. -/
def declare (inside : Meaning) (path : Path) (e : Expr) (constant : Bool) : Eval Value := do
  Eval.lift ((← Eval.frame).requireUnbound path)
  let bound ← bindable inside e
  Eval.setFrame (← Eval.lift ((← Eval.frame).declare path bound constant))
  return .null

/-- Assigns to a path; its value is that of the assignment, unless it is a
proc. -/
def assign (inside : Meaning) (path : Path) (e : Expr) : Eval Value := do
  Eval.lift ((← Eval.frame).requireAssignable path)
  let bound ← bindable inside e
  Eval.setFrame (← Eval.lift ((← Eval.frame).assign path bound))
  match bound with
  | .expr (.literal value _) => return value
  | _ => return .null

/-- A namespace: its body works in a copy whose scope is extended, and what
lies under that scope is copied back. -/
def inNamespace (inside : Meaning) (path : Path) (body : List Stmt) : Eval Value := do
  let frame ← Eval.frame
  let scope := frame.qualify path
  Eval.inFrame (frame.within scope) (·.mergeUnder · scope) (inside.body body)
  return .null

/-- The rounds of a counting loop: the variable takes each integer from the
first bound rounded down up to the second rounded down, which is left out. -/
def rounds (inside : Meaning) (path : Path) (low high : Int) (body : List Stmt) (loc : Loc) :
    Eval Unit :=
  Eval.countUp (fun i => Eval.inCopy do
    let value := Value.ofNumber (Number.ofInt i)
    Eval.setFrame ((← Eval.frame).bind path (.ofValue value loc))
    inside.body body) (high - low).toNat low

/-- A counting loop. Without two Numbers for its bounds it is skipped. -/
def forRange (inside : Meaning) (path : Path) (start stop : Expr) (body : List Stmt)
    (loc : Loc) : Eval Value := do
  let first ← inside.expr start
  let last ← inside.expr stop
  if first.kind ≠ .number || last.kind ≠ .number then
    inside.require Room.noting
    Eval.note (.skippedLoop loc first last)
    return .null
  else
    let x ← Eval.lift first.number
    let y ← Eval.lift last.number
    match Number.floor? x, Number.floor? y with
    | some low, some high =>
      rounds inside path low high body loc
      return .null
    | _, _ => Eval.fail (.unboundedLoop first.text last.text)

/-- The meaning of a statement; loops without a bound are followed for so many
rounds. -/
def stmt (patience : Nat) (inside : Meaning) : Stmt → Eval Value
  | .expr e => expr inside e
  | .importLibrary target _ => importLibrary inside target.text
  | .importRelative target loc => do
    inside.require Room.noting
    Eval.note (.ignoredImport target.text loc)
    return .null
  | .inNamespace name body _ _ => inNamespace inside name.path body
  | .letDecl name value _ => declare inside name.path value false
  | .constDecl name value _ => do
    declare inside ((← Eval.frame).qualify name.path) value true
  | .set name value => assign inside name.path value
  | .ifThen condition body _ _ => do
    if ← inside.holds condition then Eval.inCopy (inside.body body)
    return .null
  | .forRange name start stop body _ loc => forRange inside name.path start stop body loc
  | .whileTrue condition body _ _ => do
    Eval.whileHolds (inside.holds condition) (Eval.inCopy (inside.body body)) patience
    return .null
  | .returning value _ => do Eval.stop (.returned (← inside.expr value))
  | .procDecl name proc => do
    let frame ← Eval.frame
    Eval.setFrame (← Eval.lift
      (frame.declare (frame.qualify name.path) (.declared name proc) false))
    return .null

end Evaluation

/-- What a node takes of the room for what stands inside it. -/
def Stmt.units : Stmt → Nat
  | .expr (.group _ _) => Room.group
  | _ => Room.node

/-- The meaning of a statement in the given room, after so many units of it.
The node takes one unit itself. A failure is reported at the innermost
node. -/
def interpret (patience : Nat) : Nat → Nat → Stmt → Eval Value
  | 0, _, _ => Eval.stop .outOfRoom
  | room + 1, units + 1, s => interpret patience room units s
  | room + 1, 0, s =>
    if room < Room.work then Eval.stop .outOfRoom
    else Eval.located s.loc fun m =>
      Evaluation.stmt patience
        ⟨room - s.units, fun units => interpret patience room (units + s.units)⟩ s m

/-- The meanings that are left with the given room. -/
def interpreter (patience room : Nat) : Meaning :=
  ⟨room, interpret patience room⟩

end BasilLang
