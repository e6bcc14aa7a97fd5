import BasilLang.Evaluation.Machine
import BasilLang.Frame.Reads
import BasilLang.Number.View
import BasilLang.Room
import BasilLang.Syntax.Depth

/-! Calls. Arguments are bound unresolved: a parameter is read by reading the
argument, unless the argument calls something or leads back to a parameter.
The body of a proc works in a copy of the caller's frame; what the caller had
bound is copied back, whichever way the body ends. -/
namespace BasilLang

/-- Meanings for the nodes inside a node, each to be taken after so many units
of room, and how many units are left for them. -/
structure Meaning where
  left : Nat
  node : Nat → Stmt → Eval Value

namespace Meaning

/-- The meanings after some more units. -/
def after (inside : Meaning) (units : Nat) : Meaning :=
  ⟨inside.left - units, fun more => inside.node (more + units)⟩

/-- Goes on only if so many units are left. -/
def require (inside : Meaning) (units : Nat) : Eval Unit :=
  if units ≤ inside.left then pure () else Eval.stop .outOfRoom

/-- The meaning of a statement inside. -/
def stmt (inside : Meaning) (s : Stmt) : Eval Value :=
  inside.node 0 s

/-- The meaning of an expression inside. -/
def expr (inside : Meaning) (e : Expr) : Eval Value :=
  inside.stmt (.expr e)

/-- The meaning of a body: its statements in order. -/
def body (inside : Meaning) (stmts : List Stmt) : Eval Unit :=
  Eval.forEach (inside.after Room.body).stmt stmts

/-- The truth of a condition. -/
def holds (inside : Meaning) (condition : Expr) : Eval Bool := do
  Eval.lift (← inside.expr condition).truth

end Meaning

/-- The proc that an expression names directly: a literal, or a name bound to
a proc, with any parentheses around it. -/
def Frame.procNamed? (frame : Frame) : Expr → Option Bound
  | .proc p => some (.expr (.proc p))
  | .group inner _ => frame.procNamed? inner
  | .identifier name =>
    match frame.lookup name.path with
    | some bound => if bound.proc?.isSome then some bound else none
    | none => none
  | _ => none

namespace Evaluation

/-- What a declaration or an assignment stores: a proc as it is, anything
else resolved now. -/
def bindable (inside : Meaning) (e : Expr) : Eval Bound := do
  let within := inside.after Room.binding
  within.require (Room.naming e.groups)
  match (← Eval.frame).procNamed? e with
  | some bound => return bound
  | none => return .ofValue (← within.expr e) e.loc

/-- What a parameter is bound to: a proc as it is, an argument whose paths
are known and apart from the parameters as it stands, anything else
resolved now. -/
def argument (inside : Meaning) (params : List Path) (e : Expr) : Eval Bound := do
  let within := inside.after Room.argument
  within.require (Room.naming e.groups)
  let frame ← Eval.frame
  match frame.procNamed? e with
  | some bound => return bound
  | none =>
    match frame.reads? e with
    | some paths =>
      if paths.any params.contains then return .ofValue (← within.expr e) e.loc
      else return .expr e
    | none => return .ofValue (← within.expr e) e.loc

/-- What the parameters are bound to, in order. -/
def arguments (inside : Meaning) (params : List Path) : List Expr → Eval (List Bound)
  | [] => return []
  | e :: rest => do
    let bound ← argument inside params e
    return bound :: (← arguments inside params rest)

/-- The paths of a proc's parameters. -/
def paramPaths (proc : Proc) : List Path :=
  proc.params.map fun mark => [mark.text]

/-- Resolves a parameter that the caller has a path for too, since it will be
copied back. -/
def settle (inside : Meaning) (caller : Frame) (path : Path) : Eval Unit := do
  let frame ← Eval.frame
  if caller.has path then
    match frame.lookup path >>= Bound.unresolved? with
    | some e =>
      let value ← (inside.after Room.settling).expr e
      Eval.setFrame ((← Eval.frame).bind path (.ofValue value e.loc))
    | none => return ()

/-- The frame that a proc's body works in: the given copy of the caller's with
the parameters bound. -/
def calleeFrame (copy : Frame) (proc : Proc) (path : Path) (args : List Bound) : Frame :=
  (copy.within path).bindAll (paramPaths proc) args

/-- Runs the body of a proc in the current frame and resolves the parameters
that the caller will get back. -/
def runBody (inside : Meaning) (caller : Frame) (proc : Proc) : Eval Value := do
  let result ← Eval.catchReturn ((inside.after Room.call).body proc.body)
  Eval.forEach (settle inside caller) (paramPaths proc)
  return result.getD .null

/-- Calls a proc under the path it was called by. The body works in a copy of
the caller's frame with the parameters bound; what the caller had is copied
back. -/
def invoke (inside : Meaning) (proc : Proc) (path : Path) (args : List Bound) : Eval Value := do
  let params := paramPaths proc
  if args.length ≠ params.length then
    Eval.fail (.wrongCount path params.length args.length)
  else
    inside.require Room.entering
    let caller ← Eval.frame
    let copy ← Eval.lift caller.deeper
    Eval.inFrame (calleeFrame copy proc path args) Frame.mergeExisting
      (runBody inside caller proc)

/-- The operations that are built in. -/
inductive Builtin where
  | printval
  | debug
  | debugval
deriving DecidableEq, Repr

/-- The first segment of every built-in operation's path. -/
def builtinScope : String := "builtin"

/-- The built-in operation with this path. -/
def Builtin.ofPath? (path : Path) : Option Builtin :=
  if path = [builtinScope, "printval"] then some .printval
  else if path = [builtinScope, "debug"] then some .debug
  else if path = [builtinScope, "debugval"] then some .debugval
  else none

/-- Runs a built-in operation on its argument, which only `debug` leaves
unevaluated. -/
def Builtin.run (inside : Meaning) (e : Expr) : Builtin → Eval Value
  | .printval => do
    Eval.write (← inside.expr e).text
    return .null
  | .debug => do
    inside.require (Room.spelling e.depth)
    Eval.write (e.dump ++ "\n")
    return .null
  | .debugval => do
    Eval.write ((← inside.expr e).shown ++ "\n")
    return .null

/-- A call of a built-in operation; each takes one argument. -/
def callBuiltin (inside : Meaning) (path : Path) (args : List Expr) : Eval Value :=
  match Builtin.ofPath? path, args with
  | none, _ => Eval.fail (.unknownBuiltin path)
  | some builtin, [e] => builtin.run (inside.after Room.builtin) e
  | some _, _ => Eval.fail (.wrongBuiltinCount path 1 args.length)

/-- A call. The arguments are bound before they are counted. -/
def call (inside : Meaning) (path : Path) (args : List Expr) : Eval Value := do
  if path.head? = some builtinScope then callBuiltin inside path args
  else
    let bound ← Eval.lift ((← Eval.frame).get path)
    match bound.proc? with
    | none => Eval.fail (.notAProc path)
    | some proc =>
      let args ← arguments inside (paramPaths proc) args
      invoke inside proc path args

end Evaluation

end BasilLang
