import BasilLang.Location
import BasilLang.Path
import BasilLang.Text.Shown
import BasilLang.Value

/-! Everything that can be wrong with a program, by cause, and the wording of
each complaint. A failure is a fault together with the place it is reported
at; a fault of evaluation has no place until an enclosing node supplies its
own. -/
namespace BasilLang

/-- What is wrong with the characters of a source. -/
inductive LexFault where
  | unterminatedString
  | unknownEscape (letter : Char)
  | unmarkedFraction (text : String)
  | emptySegment (text : String)
  | badLibraryPath (name : String)
  | badToken (text : String)
deriving DecidableEq, Repr

/-- The wording of a fault in the characters. -/
def LexFault.message : LexFault → String
  | .unterminatedString => "Unterminated string"
  | .unknownEscape letter => s!"Invalid escape character '\\{letter}'"
  | .unmarkedFraction text =>
    s!"\"{text}\" is not a valid token (floating point literals end in 'f')"
  | .emptySegment text => s!"\"{text}\" is not a valid token (empty path segment)"
  | .badLibraryPath name => s!"\"<{name}\" is not a valid library path"
  | .badToken text => s!"\"{text}\" is not a valid token"

/-- What a syntax error found instead of what it expected. -/
inductive Found where
  | endOfInput
  | token (text : String)
deriving DecidableEq, Repr

/-- How a syntax error names what it found. -/
def Found.describe : Found → String
  | .endOfInput => "end of input"
  | .token text => s!"'{text}'"

/-- What is wrong with the order of the tokens. -/
inductive ParseFault where
  | unexpectedToken (found : Found)
  | trailingInput (found : Found)
  | missingThen (opener : String) (found : Found)
  | unterminatedBlock (opener : String) (stop : Pos)
  | missingImportTarget (found : Found)
  | missingNamespaceName (found : Found)
  | missingDeclaredName (keyword : String) (found : Found)
  | missingDeclaredValue (keyword name : String) (found : Found)
  | missingLoopVariable (found : Found)
  | missingLoopStart (found : Found)
  | missingLoopStop (found : Found)
  | missingParameterList (found : Found)
  | missingParameter (found : Found)
  | dottedParameter (name : String)
  | unclosedParameterList (found : Found)
  | unclosedGroup (opened : Pos) (found : Found)
  | unclosedCall (name : String) (found : Found)
  | tooDeep
deriving DecidableEq, Repr

/-- The wording of a fault in the order of the tokens. -/
def ParseFault.message : ParseFault → String
  | .unexpectedToken found => s!"Unexpected token {found.describe}"
  | .trailingInput found => s!"Unexpected {found.describe} after expression"
  | .missingThen opener found =>
    s!"Expected 'then' after '{opener}' header, got {found.describe}"
  | .unterminatedBlock opener stop =>
    s!"Unterminated '{opener}' block: reached end of input at {stop.text} without 'end'"
  | .missingImportTarget found =>
    s!"Expected library name or path after 'import', got {found.describe}"
  | .missingNamespaceName found => s!"Expected namespace name, got {found.describe}"
  | .missingDeclaredName keyword found =>
    s!"Expected name after '{keyword}', got {found.describe}"
  | .missingDeclaredValue keyword name found =>
    s!"Expected '=' after '{keyword} {name}', got {found.describe}"
  | .missingLoopVariable found => s!"Expected loop variable after 'for', got {found.describe}"
  | .missingLoopStart found => s!"Expected '=' after loop variable, got {found.describe}"
  | .missingLoopStop found => s!"Expected 'to' in for loop, got {found.describe}"
  | .missingParameterList found =>
    s!"Expected '(' to open parameter list, got {found.describe}"
  | .missingParameter found => s!"Expected parameter name, got {found.describe}"
  | .dottedParameter name => s!"Parameter name '{name}' must not be a path"
  | .unclosedParameterList found =>
    s!"Expected ')' to close parameter list, got {found.describe}"
  | .unclosedGroup opened found =>
    s!"Expected ')' to close group opened at {opened.text}, got {found.describe}"
  | .unclosedCall name found =>
    s!"Expected ')' to close call to '{name}', got {found.describe}"
  | .tooDeep => "expression nesting is too deep to parse"

/-- What is wrong with a program as it runs. -/
inductive EvalFault where
  | undefined (path : Path)
  | alreadyDefined (path : Path)
  | assignedConstant (path : Path)
  | notAProc (path : Path)
  | unknownBuiltin (path : Path)
  | noMain
  | mainNotAProc
  | wrongCount (path : Path) (expected given : Nat)
  | wrongBuiltinCount (path : Path) (expected given : Nat)
  | procAsValue (path : Path)
  | procLiteralAsValue
  | notANumber (value : Value)
  | notNumeric (text : String)
  | divisionByZero
  | moduloByZero
  | unboundedLoop (start stop : String)
  | unknownLibrary (name : String)
  | importCollision (name : String) (paths : List Path)
  | callsTooDeep (limit : Int)
  | importTooDeep (limit : Int) (name : String)
  | nestingTooDeep
  | notEvaluable (node : String)
deriving DecidableEq, Repr

/-- The wording of a fault of a running program. -/
def EvalFault.message : EvalFault → String
  | .undefined path => s!"'{path.text}' is not defined"
  | .alreadyDefined path => s!"'{path.text}' is already defined"
  | .assignedConstant path => s!"cannot assign to constant '{path.text}'"
  | .notAProc path => s!"'{path.text}' is not a proc"
  | .unknownBuiltin path => s!"unknown builtin '{path.text}'"
  | .noMain => "no 'main' proc defined"
  | .mainNotAProc => "'main' is not a proc"
  | .wrongCount path expected given =>
    s!"'{path.text}' expects {expected} argument(s); got {given}"
  | .wrongBuiltinCount path expected given =>
    s!"'{path.text}' expects exactly {expected} argument(s); got {given}"
  | .procAsValue path => s!"'{path.text}' is a proc, not a value"
  | .procLiteralAsValue =>
    "a proc literal is not a value; bind it with let or pass it to a call"
  | .notANumber value =>
    s!"expected a Number or Boolean, got {value.kind.name} {Text.shown value.text}"
  | .notNumeric text => s!"{Text.shown text} is not numeric"
  | .divisionByZero => "division by zero"
  | .moduloByZero => "modulo by zero"
  | .unboundedLoop start stop => s!"for loop bounds must be finite, got {start} to {stop}"
  | .unknownLibrary name => s!"unknown library '{name}'"
  | .importCollision name paths =>
    let names := ", ".intercalate (paths.map fun path => s!"'{Path.text path}'")
    s!"importing '{name}' would redefine {names}"
  | .callsTooDeep limit => s!"maximum call depth of {limit} exceeded"
  | .importTooDeep limit name => s!"maximum call depth of {limit} exceeded importing '{name}'"
  | .nestingTooDeep => "maximum recursion depth exceeded"
  | .notEvaluable node => s!"Unknown node: {node}"

/-- The cause of a failure. -/
inductive Fault where
  | lex (fault : LexFault)
  | parse (fault : ParseFault)
  | eval (fault : EvalFault)
deriving DecidableEq, Repr

/-- The wording of a fault. -/
def Fault.message : Fault → String
  | .lex fault => fault.message
  | .parse fault => fault.message
  | .eval fault => fault.message

/-- A fault and the place it is reported at. -/
structure Failure where
  fault : Fault
  loc : Option Loc
deriving DecidableEq, Repr

namespace Failure

/-- The complaint, led by its place when that is known. -/
def message (failure : Failure) : String :=
  match failure.loc with
  | none => failure.fault.message
  | some loc => s!"At {loc.text}: {failure.fault.message}"

/-- The line that tells the user. -/
def report (failure : Failure) : String :=
  s!"[ERROR]: {failure.message}"

/-- Supplies a place if none is known yet, so that the innermost node wins. -/
def locate (failure : Failure) (loc : Loc) : Failure :=
  { failure with loc := some (failure.loc.getD loc) }

end Failure

end BasilLang
