import BasilLang.Session
import BasilLang.Syntax.Part

/-! Evaluating the parts of a tree. Only statements and expressions have a
meaning of their own; the lists and tokens inside them do not. -/
namespace BasilLang.Part

/-- The place that a complaint about the part names; tokens have none. -/
def complaintLoc : Part → Option Loc
  | .token .. => none
  | part => some part.loc

/-- Evaluates a part on its own. -/
def eval (inside : Meaning) : Part → Eval Value
  | .stmt s => inside.stmt s
  | .expr e => inside.expr e
  | part => Eval.stop (.failed ⟨.eval (.notEvaluable part.shown), part.complaintLoc⟩)

/-- Runs the children of a part in order, as a program runs its statements. -/
def run (inside : Meaning) (part : Part) (withMain : Bool) : Eval (Option Value) :=
  Eval.reportingRoom part.loc do
    let result ← Eval.catchReturn (Eval.forEach (eval (inside.after Room.body)) part.children)
    if withMain then return some (← Program.callMain inside part.complaintLoc)
    else return result

end BasilLang.Part
