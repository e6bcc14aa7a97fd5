import BasilLang.Prompt.Dialogue

/-! The command: its flags, the source it runs, and what it writes and exits
with. Reading files and streams is left to the caller, who hands in what is
there. -/
namespace BasilLang.CommandLine

/-- What the arguments ask for. -/
structure Invocation where
  source : Option String := none
  prompt : Bool := false
  verbose : Bool := false
  maxDepth : Option Nat := none
deriving DecidableEq, Repr

/-- Why there is nothing to read under a path. -/
inductive Unreadable where
  | missing
  | directory
  | notDirectory
  | nameTooLong
deriving DecidableEq, Repr

/-- The system's word for it. -/
def Unreadable.reason : Unreadable → String
  | .missing => "No such file or directory"
  | .directory => "Is a directory"
  | .notDirectory => "Not a directory"
  | .nameTooLong => "File name too long"

/-- What is wrong with the way the command was called. -/
inductive UsageFault where
  | badDepth (fault : DepthFault)
  | noDepth
  | unexpected (argument : String)
  | badSetting (fault : DepthFault)
  | unreadable (path : String) (cause : Unreadable)
deriving DecidableEq, Repr

/-- The wording of the complaint. -/
def UsageFault.message : UsageFault → String
  | .badDepth (.notAnInteger text) =>
    s!"--max-depth expects an integer, got {Text.shown text}"
  | .badDepth (.notPositive depth) => s!"--max-depth must be positive, got {depth}"
  | .noDepth => "--max-depth flag requires a value"
  | .unexpected argument => s!"Unexpected argument: {argument}"
  | .badSetting fault => Settings.depthMessage fault
  | .unreadable path cause => s!"cannot read {path}: {cause.reason}"

/-- The value of a flag that is written with an equals sign. -/
def flagValue? (flag argument : String) : Option String :=
  let beginning := flag.toList ++ ['=']
  if beginning.isPrefixOf argument.toList then
    some (String.ofList (argument.toList.drop beginning.length))
  else none

/-- The flag for the call depth. -/
def depthFlag : String := "--max-depth"

/-- A call depth given by a flag. -/
def depthArgument (text : String) : Except UsageFault Nat :=
  match readDepth text with
  | .ok depth => .ok depth
  | .error fault => .error (.badDepth fault)

/-- Reads the arguments from left to right, adding to what is known; the
first fault ends it. -/
def readArguments : Invocation → List String → Except UsageFault Invocation
  | known, [] => .ok known
  | known, argument :: rest =>
    if argument = "--repl" then readArguments { known with prompt := true } rest
    else if argument = "--verbose" then readArguments { known with verbose := true } rest
    else match flagValue? depthFlag argument with
      | some text =>
        match depthArgument text with
        | .ok depth => readArguments { known with maxDepth := some depth } rest
        | .error fault => .error fault
      | none =>
        if argument = depthFlag then
          match rest with
          | [] => .error .noDepth
          | text :: rest =>
            match depthArgument text with
            | .ok depth => readArguments { known with maxDepth := some depth } rest
            | .error fault => .error fault
        else match known.source with
          | none => readArguments { known with source := some argument } rest
          | some _ => .error (.unexpected argument)

/-- What is found under a path. -/
inductive Content where
  | bytes (bytes : ByteArray)
  | unreadable (cause : Unreadable)

/-- Line ends in their one form: a carriage return, with or without a line
feed after it, becomes a line feed. -/
def plainLines : List Char → List Char
  | [] => []
  | '\r' :: '\n' :: cs => '\n' :: plainLines cs
  | '\r' :: cs => '\n' :: plainLines cs
  | c :: cs => c :: plainLines cs

/-- The text that bytes encode, with plain line ends. -/
def decode? (bytes : ByteArray) : Option String :=
  (String.fromUTF8? bytes).map fun text => String.ofList (plainLines text.toList)

/-- How the command ends. -/
inductive Ending where
  | exit (code : Nat)
  | refused (fault : UsageFault)
  | badSetting (fault : DepthFault)
  | undecodable
  | brokeOff (stop : Stop)

/-- What the command writes, and how it ends. -/
structure Result where
  out : String := ""
  err : String := ""
  ending : Ending

/-- The lines of the log that go to the error stream: warnings, and the rest
if it is asked for. -/
def logText (verbose : Bool) (log : Array Event) : String :=
  String.join (((log.toList.filter fun event => verbose || event.isWarning)).map (·.line ++ "\n"))

/-- Runs a source and reports its failure. -/
def runText (settings : Settings) (verbose : Bool) (depth : Nat) (source file : String) :
    Result :=
  let start : Machine :=
    { frame := { maxDepth := some depth }, console := { log := #[.running file] } }
  let (result, m) := runSource source file true depth start
  let log := logText verbose m.console.log
  match result with
  | .ok _ => { out := m.console.out, err := log, ending := .exit 0 }
  | .error (.failed failure) =>
    { out := m.console.out, err := log ++ Prompt.failureReport settings failure,
      ending := .exit 1 }
  | .error stop => { out := m.console.out, err := log, ending := .brokeOff stop }

/-- Runs the bytes of a source. -/
def runBytes (settings : Settings) (verbose : Bool) (depth : Nat) (bytes : ByteArray)
    (file : String) : Result :=
  match decode? bytes with
  | some source => runText settings verbose depth source file
  | none => { ending := .undecodable }

/-- The path of the source; without one, or with a dash, it is the standard
input. -/
def Invocation.path? (invocation : Invocation) : Option String :=
  if invocation.source = some "-" then none else invocation.source

/-- The greatest call depth: that of the arguments, else that of the
settings. -/
def Invocation.depth (invocation : Invocation) (settings : Settings) : Except DepthFault Nat :=
  match invocation.maxDepth with
  | some depth => .ok depth
  | none => settings.callDepth

/-- Runs what was found where the arguments point. -/
def runContent (settings : Settings) (invocation : Invocation) (depth : Nat)
    (content : Content) : Result :=
  let path := invocation.path?
  match content with
  | .bytes bytes =>
    runBytes settings invocation.verbose depth bytes (path.getD "<stdin>")
  | .unreadable cause => { ending := .refused (.unreadable (path.getD "-") cause) }

/-- Holds a conversation with entries that are all there beforehand. -/
def converse (settings : Settings) (invocation : Invocation) (entries : List Prompt.Entry) :
    Result :=
  match Prompt.Dialogue.start settings (invocation.maxDepth.map Int.ofNat) with
  | .error fault => { ending := .badSetting fault }
  | .ok dialogue =>
    let (answers, stop) := dialogue.answers entries
    let written := answers.map (·.2)
    { out := Prompt.greeting ++ String.join (written.map (·.out)),
      err := String.join (written.map fun w => logText invocation.verbose w.log ++ w.err),
      ending := match stop with | none => .exit 0 | some stop => .brokeOff stop }

/-- The whole command, given what can be found under a path, or on the
standard input, and what will be entered at the prompt. -/
def run (settings : Settings) (arguments : List String) (find : Option String → Content)
    (entries : List Prompt.Entry) : Result :=
  match readArguments {} arguments with
  | .error fault => { ending := .refused fault }
  | .ok invocation =>
    if invocation.prompt then converse settings invocation entries
    else
      match invocation.depth settings with
      | .error fault => { ending := .refused (.badSetting fault) }
      | .ok depth => runContent settings invocation depth (find invocation.path?)

end BasilLang.CommandLine
