import BasilLang.Evaluation.Interpreter
import BasilLang.Settings

/-! Running whole programs and single submissions. A program may be asked for
its `main` proc; a session keeps its frame from one submission to the next and
tells whether the value of a submission is of interest. -/
namespace BasilLang

/-- For how many rounds a loop without a bound is followed. -/
def patience : Nat := Number.twoTo 60

/-- A failure that concerns the whole of a source when the room is used up. -/
def Eval.reportingRoom {α : Type} (loc : Loc) (act : Eval α) : Eval α := fun m =>
  match act m with
  | (.error .outOfRoom, m) => (.error (.failed ⟨.eval .nestingTooDeep, some loc⟩), m)
  | result => result

/-- A source as a program, or the failure to read it. -/
def Eval.parsing (source file : String) : Eval Program :=
  match Program.parseWithin Room.source source file with
  | .ok program => pure program
  | .error failure => Eval.stop (.failed failure)

/-- The meanings for calls nested so deep, or the refusal of such a depth. -/
def Eval.meaningFor (maxDepth : Int) : Eval Meaning :=
  match Room.forCalls? maxDepth with
  | some room => pure (interpreter patience room)
  | none => Eval.stop .tooMuchRoom

namespace Program

/-- The path of the proc that a program may be asked for. -/
def mainPath : Path := ["main"]

/-- Calls the main proc, once the program at the given place has set things
up. -/
def callMain (inside : Meaning) (loc : Option Loc) : Eval Value := do
  match (← Eval.frame).lookup mainPath with
  | none => Eval.stop (.failed ⟨.eval .noMain, loc⟩)
  | some bound =>
    match bound.proc? with
    | none => Eval.stop (.failed ⟨.eval .mainNotAProc, some bound.loc⟩)
    | some proc => Evaluation.invoke inside proc mainPath []

/-- Runs a program in the current frame. Its result is that of `main` if that
is asked for, else the value of a `return` outside of all procs, if there is
one. -/
def eval (inside : Meaning) (program : Program) (withMain : Bool) : Eval (Option Value) :=
  Eval.reportingRoom program.loc do
    let result ← Eval.catchReturn (inside.body program.body)
    if withMain then return some (← callMain inside program.loc) else return result

end Program

/-- Runs a source in the current frame, for calls nested so deep. -/
def runSource (source file : String) (withMain : Bool) (maxDepth : Int) : Eval Value := do
  let program ← Eval.parsing source file
  let inside ← Eval.meaningFor maxDepth
  return (← program.eval inside withMain).getD .null

/-- Whether a statement alone has a value of interest: expressions other than
procs, and assignments. -/
def Stmt.isEchoed : Stmt → Bool
  | .expr (.proc _) => false
  | .expr _ => true
  | .set .. => true
  | _ => false

/-- What a submission gave. -/
structure Reply where
  value : Value
  echoed : Bool
deriving DecidableEq, Repr

namespace Session

/-- The name under which places in submissions are reported. -/
def file : String := "<repl>"

/-- The frame of a new session. -/
def frame (maxDepth : Int) : Frame := { maxDepth := some maxDepth }

/-- The depth of calls that a session with the given limit makes room for. A
limit of zero counts as none; the depth is then that of settings where nothing is
set. -/
def headroom (maxDepth : Int) : Int :=
  if maxDepth = 0 then Settings.defaultDepth else maxDepth

/-- What is made of a submitted program with the given meanings. -/
def reply (program : Program) (inside : Meaning) : Eval Reply :=
  match program.body with
  | [s] =>
    if s.isEchoed then do
      return ⟨← Eval.reportingRoom program.loc (inside.stmt s), true⟩
    else do return ⟨(← program.eval inside false).getD .null, false⟩
  | _ => do return ⟨(← program.eval inside false).getD .null, false⟩

/-- Evaluates one submission in the session's frame. -/
def submit (text : String) (maxDepth : Int) : Eval Reply := do
  let program ← Eval.parsing text file
  reply program (← Eval.meaningFor (headroom maxDepth))

end Session

end BasilLang
