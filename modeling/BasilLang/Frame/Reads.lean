import BasilLang.Frame

/-! Which paths an expression reads. An unresolved binding is read through, so
the paths are those reachable from the expression's own names by going from a
name to the names of what it is bound to. There is no answer when a call or a
proc, or a name that is not bound, is among what is reached. -/
namespace BasilLang

/-- The paths named in an expression, unless it holds a call or a proc. -/
def Expr.names? : Expr → Option (List Path)
  | .literal _ _ => some []
  | .identifier name => some [name.path]
  | .group inner _ => inner.names?
  | .unary _ _ operand => operand.names?
  | .binary left _ _ right => do return (← left.names?) ++ (← right.names?)
  | .call _ _ _ => none
  | .proc _ => none

/-- The paths named in what is bound, if that is still to be resolved. -/
def Bound.names? (bound : Bound) : Option (List Path) :=
  match bound.unresolved? with
  | some e => e.names?
  | none => some []

/-- What can be bound and read through: it tells the paths that it names. -/
class Readable (β : Type) where
  names? : β → Option (List Path)

instance : Readable Bound := ⟨Bound.names?⟩

namespace Frame

variable {β : Type} [Readable β]

/-- The paths that reading a path leads to next. -/
def namesBehind? (frame : Frame β) (path : Path) : Option (List Path) :=
  match frame.lookup path with
  | none => none
  | some bound => Readable.names? bound

/-- Follows the paths of the frontier, and then those they lead to, until
nothing new is reached. Each round but the last reaches a bound path for the
first time, so there are at most as many as there are bindings. -/
def follow (frame : Frame β) : Nat → List Path → List Path → Option (List Path)
  | _, seen, [] => some seen
  | 0, _, _ :: _ => none
  | rounds + 1, seen, path :: paths => do
    let frontier := path :: paths
    let behind ← frontier.mapM frame.namesBehind?
    let reached := frontier ++ seen
    frame.follow rounds reached (behind.flatten.filter (!reached.contains ·)).eraseDups

/-- Every path that resolving the expression in the frame would read. -/
def reads? (frame : Frame) (e : Expr) : Option (List Path) := do
  frame.follow (frame.bindings.length + 1) [] (← e.names?).eraseDups

end Frame

end BasilLang
