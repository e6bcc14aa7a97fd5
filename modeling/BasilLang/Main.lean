import BasilLang.CommandLine

/-! The command itself: it fetches arguments, environment, files and typed
lines, and leaves every decision to the library. -/
namespace BasilLang.CommandLine

/-- The settings in the environment. -/
def environment : IO Settings := do
  return { maxDepth := ← IO.getEnv "BASIL_MAX_DEPTH"
           trace := ← IO.getEnv "BASIL_DEBUG_PY_TRACE" }

/-- The system's code for a file that is used as a directory. -/
def notDirectoryCode : UInt32 := 20

/-- What is under a path, or on the standard input; the empty path is the
working directory. -/
def contentAt : Option String → IO Content
  | none => return .bytes (← (← IO.getStdin).readBinToEnd)
  | some path => do
    try
      return .bytes (← IO.FS.readBinFile (if path = "" then "." else path))
    catch
      | .noFileOrDirectory .. => return .unreadable .missing
      | .inappropriateType _ code _ =>
        return .unreadable (if code = notDirectoryCode then .notDirectory else .directory)
      | .invalidArgument .. => return .unreadable .nameTooLong
      | _ => return .unreadable .directory

/-- Says how the command ended. -/
def finish : Ending → IO UInt32
  | .exit code => return code.toUInt32
  | .refused fault => do
    IO.eprintln fault.message
    return 1
  | .badSetting fault => do
    IO.eprintln (Settings.depthMessage fault)
    return 1
  | .undecodable => do
    IO.eprintln "the source is not UTF-8"
    return 1
  | .brokeOff (.undefined cause) => do
    IO.eprintln cause.message
    return 1
  | .brokeOff .tooMuchRoom => do
    IO.eprintln Room.excessMessage
    return 1
  | .brokeOff _ => return 1

/-- Writes an answer to the two streams. -/
def put (verbose : Bool) (written : Prompt.Written) : IO Unit := do
  IO.print written.out
  IO.eprint (logText verbose written.log ++ written.err)

/-- Reads lines until no block is open, answers, and goes on. -/
partial def converseLive (verbose : Bool) (dialogue : Prompt.Dialogue) (typed : String) :
    IO UInt32 := do
  IO.print (if typed = "" then ">>> " else "... ")
  (← IO.getStdout).flush
  let line ← (← IO.getStdin).getLine
  let text := typed ++ (line.dropEndWhile (· = '\n')).copy
  if line ≠ "" && !Prompt.isCommand text && Prompt.openBlocks text ≠ 0 then
    converseLive verbose dialogue (text ++ "\n")
  else
    let entry := if line = "" then Prompt.Entry.endOfInput else .text text
    let (written, turn) := dialogue.answer entry
    put verbose written
    match turn with
    | .goesOn after => converseLive verbose after ""
    | .ends => return 0
    | .breaksOff stop => finish (.brokeOff stop)

end BasilLang.CommandLine

open BasilLang BasilLang.CommandLine in
/-- Runs the command. -/
def main (arguments : List String) : IO UInt32 := do
  let settings ← environment
  match readArguments {} arguments with
  | .error fault => finish (.refused fault)
  | .ok invocation =>
    if invocation.prompt then
      match Prompt.Dialogue.start settings (invocation.maxDepth.map Int.ofNat) with
      | .error fault => finish (.badSetting fault)
      | .ok dialogue =>
        IO.print Prompt.greeting
        converseLive invocation.verbose dialogue ""
    else
      match invocation.depth settings with
      | .error fault => finish (.refused (.badSetting fault))
      | .ok depth =>
        let content ← contentAt invocation.path?
        let result := runContent settings invocation depth content
        IO.print result.out
        IO.eprint result.err
        finish result.ending
