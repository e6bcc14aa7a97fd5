import BasilLang.Frame
import BasilLang.Number.Arithmetic

/-! What evaluation works on and how it can end. The state is the current
frame together with what has been written; it survives however evaluation
ends, so a failure keeps the changes made before it. -/
namespace BasilLang

/-- Something noted in the log of a run. -/
inductive Event where
  | running (file : String)
  | runningLibrary (name : String)
  | ignoredImport (target : String) (loc : Loc)
  | skippedLoop (loc : Loc) (start stop : Value)
deriving DecidableEq, Repr

namespace Event

/-- Whether the event is a warning; all others help only in debugging. -/
def isWarning : Event → Bool
  | .ignoredImport .. => true
  | _ => false

/-- The part of the program that notes the event. -/
def origin : Event → String
  | .running .. => "basil.runner"
  | .runningLibrary .. | .ignoredImport .. => "basil.eval.imports"
  | .skippedLoop .. => "basil.eval.loops"

/-- The wording of the event. -/
def message : Event → String
  | .running file => s!"running {file}"
  | .runningLibrary name => s!"running library {name}"
  | .ignoredImport target loc =>
    s!"{loc.text}: relative import {Text.shown target} ignored, " ++
      "relative imports are not implemented"
  | .skippedLoop loc start stop =>
    s!"for loop at {loc.text} skipped: bounds {start.shown} and {stop.shown} " ++
      "are not both Numbers"

/-- The line of the log. -/
def line (event : Event) : String :=
  let level := if event.isWarning then "WARNING" else "DEBUG"
  s!"{level} {event.origin}: {event.message}"

end Event

/-- What a run has written: its output and its log. -/
structure Console where
  out : String := ""
  log : Array Event := #[]
deriving Inhabited

/-- The state of evaluation. -/
structure Machine (β : Type := Bound) where
  frame : Frame β
  console : Console := {}

instance {β : Type} : Inhabited (Machine β) := ⟨⟨{}, {}⟩⟩

/-- Why evaluation gave no value. -/
inductive Stop where
  /-- A `return` is on its way to the enclosing call. -/
  | returned (value : Value)
  /-- The program is at fault. -/
  | failed (failure : Failure)
  /-- An arithmetic operation has no result. -/
  | undefined (cause : Number.Undefined)
  /-- Nodes nest deeper than the room allows. -/
  | outOfRoom
  /-- The call depth asks for more room than there can be. -/
  | tooMuchRoom
  /-- A loop went on for longer than it was followed. -/
  | outOfPatience
deriving DecidableEq, Repr

/-- Evaluation: from a state to a result, or a reason for having none, and a
new state. -/
def Eval (α : Type) := Machine → Except Stop α × Machine

namespace Eval

/-- Gives a result and changes nothing. -/
@[inline] protected def pure {α : Type} (a : α) : Eval α := fun m => (.ok a, m)

/-- Goes on with the result; without one, stops. -/
@[inline] protected def bind {α β : Type} (act : Eval α) (next : α → Eval β) : Eval β := fun m =>
  match act m with
  | (.ok a, m) => next a m
  | (.error stop, m) => (.error stop, m)

instance : Monad Eval where
  pure := Eval.pure
  bind := Eval.bind

/-- Stops evaluation. -/
def stop {α : Type} (reason : Stop) : Eval α := fun m => (.error reason, m)

/-- Stops because the program is at fault, at a place still to be supplied. -/
def fail {α : Type} (fault : EvalFault) : Eval α := stop (.failed ⟨.eval fault, none⟩)

/-- A result that does not depend on the state, or a fault. -/
def lift {α : Type} : Except EvalFault α → Eval α
  | .ok a => pure a
  | .error fault => fail fault

/-- The current frame. -/
def frame : Eval Frame := fun m => (.ok m.frame, m)

/-- Replaces the current frame. -/
def setFrame (frame : Frame) : Eval Unit := fun m => (.ok (), { m with frame })

/-- Writes a text. -/
def write (text : String) : Eval Unit := fun m =>
  (.ok (), { m with console := { m.console with out := m.console.out ++ text } })

/-- Notes an event in the log. -/
def note (event : Event) : Eval Unit := fun m =>
  (.ok (), { m with console := { m.console with log := m.console.log.push event } })

/-- Supplies the place of a failure that has none yet. -/
def located {α : Type} (loc : Loc) (act : Eval α) : Eval α := fun m =>
  match act m with
  | (.error (.failed failure), m) => (.error (.failed (failure.locate loc)), m)
  | result => result

/-- The value of a return inside, or null when there is none. -/
def catchReturn (act : Eval Unit) : Eval (Option Value) := fun m =>
  match act m with
  | (.ok (), m) => (.ok none, m)
  | (.error (.returned value), m) => (.ok (some value), m)
  | (.error stop, m) => (.error stop, m)

/-- Works in another frame. However that ends, the frame from before comes
back, with what `merge` takes over from the other. -/
def inFrame {α : Type} (inner : Frame) (merge : Frame → Frame → Frame) (act : Eval α) :
    Eval α := fun m =>
  match act { m with frame := inner } with
  | (result, after) => (result, { after with frame := merge m.frame after.frame })

/-- Works in a copy of the current frame; what was bound before is copied
back. -/
def inCopy {α : Type} (act : Eval α) : Eval α := fun m =>
  inFrame m.frame Frame.mergeExisting act m

/-- Works in a frame of its own, which is given back; the current one does
not change. -/
def inOwnFrame {α : Type} (inner : Frame) (act : Eval α) : Eval (α × Frame) := fun m =>
  match act { m with frame := inner } with
  | (.ok a, after) => (.ok (a, after.frame), { after with frame := m.frame })
  | (.error stop, after) => (.error stop, { after with frame := m.frame })

/-- Runs the actions of a list in order. -/
def forEach {α β : Type} (act : α → Eval β) : List α → Eval Unit
  | [] => pure ()
  | a :: rest => fun m =>
    match act a m with
    | (.ok _, m) => forEach act rest m
    | (.error stop, m) => (.error stop, m)

/-- Runs an action on the integers from the given one on, as many as asked
for. -/
def countUp (act : Int → Eval Unit) : Nat → Int → Eval Unit
  | 0, _ => pure ()
  | count + 1, i => fun m =>
    match act i m with
    | (.ok _, m) => countUp act count (i + 1) m
    | (.error stop, m) => (.error stop, m)

/-- Runs an action while a test holds, for a limited number of rounds. -/
def whileHolds (test : Eval Bool) (act : Eval Unit) : Nat → Eval Unit
  | 0 => stop .outOfPatience
  | rounds + 1 => fun m =>
    match test m with
    | (.ok true, m) =>
      match act m with
      | (.ok _, m) => whileHolds test act rounds m
      | (.error stop, m) => (.error stop, m)
    | (.ok false, m) => (.ok (), m)
    | (.error stop, m) => (.error stop, m)

end Eval

end BasilLang
