import BasilLang.Number.Reading
import BasilLang.Text.Shown

/-! Settings that come from outside: the greatest call depth and whether
error reports are to be detailed. Each is read from a variable of the
environment. -/
namespace BasilLang

/-- What is wrong with a call depth. -/
inductive DepthFault where
  | notAnInteger (text : String)
  | notPositive (depth : Int)
deriving DecidableEq, Repr

/-- The call depth that a text gives. -/
def readDepth (text : String) : Except DepthFault Nat :=
  match Number.readInt? text with
  | none => .error (.notAnInteger text)
  | some depth => if depth < 1 then .error (.notPositive depth) else .ok depth.toNat

/-- The variables of the environment that matter. -/
structure Settings where
  /-- The greatest call depth. -/
  maxDepth : Option String := none
  /-- Whether error reports are to be detailed. -/
  trace : Option String := none

namespace Settings

/-- The call depth when nothing is set. -/
def defaultDepth : Nat := 200

/-- The greatest depth of calls and imports. -/
def callDepth (settings : Settings) : Except DepthFault Nat :=
  let text := Text.trim (settings.maxDepth.getD "")
  if text = "" then .ok defaultDepth else readDepth text

/-- The words that turn a setting on; their case does not matter. -/
def isOn (text : String) : Bool :=
  ["1", "true", "yes", "on"].contains text.toLower

/-- The words that turn a setting off. -/
def isOff (text : String) : Bool :=
  ["0", "false", "no", "off"].contains text.toLower

/-- Whether error reports are to be detailed. -/
def traces (settings : Settings) : Bool :=
  isOn (Text.trim (settings.trace.getD ""))

/-- The complaint about the variable for the call depth. -/
def depthMessage : DepthFault → String
  | .notAnInteger text => s!"BASIL_MAX_DEPTH must be an integer, got {Text.shown text}"
  | .notPositive depth => s!"BASIL_MAX_DEPTH must be positive, got {depth}"

end Settings

end BasilLang
