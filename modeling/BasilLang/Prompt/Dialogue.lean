import BasilLang.Prompt.Command
import BasilLang.Prompt.OpenBlocks
import BasilLang.Session

/-! The conversation at the prompt. Each thing entered is answered by what is
written to the two streams and the log, and by a new state; the conversation
ends with the input, or breaks off when an operation has no result. -/
namespace BasilLang.Prompt

/-- What the prompt gives back. -/
inductive Entry where
  | text (text : String)
  | interrupt
  | endOfInput
deriving DecidableEq, Repr

/-- Reads keys: a return enters the text unless blocks are open, in which case
the text goes on; delete takes back a character; an interrupt drops the text.
The characters typed so far are given latest first. -/
def entriesOfKeys : List Char → List Char → List Entry
  | _, [] => []
  | typed, key :: keys =>
    if key = '\r' then
      let text := String.ofList typed.reverse
      let depth := openBlocks text
      if isCommand text || depth = 0 then .text text :: entriesOfKeys [] keys
      else entriesOfKeys ((continuation depth).reverse ++ typed) keys
    else if key = '\x7f' then entriesOfKeys (typed.drop 1) keys
    else if key = '\x03' then .interrupt :: entriesOfKeys [] keys
    else entriesOfKeys (key :: typed) keys

/-- What is written in answer to an entry. -/
structure Written where
  out : String := ""
  err : String := ""
  log : Array Event := #[]
deriving Inhabited

/-- The state of the conversation. -/
structure Dialogue where
  settings : Settings
  maxDepth : Int
  frame : Frame

/-- How the conversation goes on. -/
inductive Turn where
  | goesOn (dialogue : Dialogue)
  | ends
  | breaksOff (stop : Stop)

/-- The first line of a conversation. -/
def greeting : String := "basil repl: Ctrl-D to exit, / for commands\n"

/-- The heading above the details of an error report. -/
def traceHeading : String := "\nPython traceback:\n"

/-- The report of a failure on the error stream. -/
def failureReport (settings : Settings) (failure : Failure) : String :=
  failure.report ++ "\n" ++ if settings.traces then traceHeading else ""

namespace Dialogue

/-- A new conversation. The call depth is taken from the settings unless one
other than zero is given. -/
def start (settings : Settings) (maxDepth : Option Int) : Except DepthFault Dialogue := do
  let depth : Int ← match maxDepth with
    | none | some 0 => Int.ofNat <$> settings.callDepth
    | some depth => .ok depth
  return ⟨settings, depth, Session.frame depth⟩

/-- Answers a command. -/
def command (dialogue : Dialogue) : Command → Written × Dialogue
  | .clear => ({}, dialogue)
  | .reset =>
    ({ out := "Environment reset.\n" },
      { dialogue with frame := Session.frame dialogue.maxDepth })
  | .trace argument =>
    match traceSettings? dialogue.settings argument with
    | none => ({ err := "Usage: /py-traceback [on|off]\n" }, dialogue)
    | some settings =>
      let word := if settings.traces then "on" else "off"
      ({ out := s!"Python traceback: {word}\n" }, { dialogue with settings })
  | .unknown word => ({ err := s!"Unknown command: {word}\n" }, dialogue)

/-- Answers a submission: its output, then its value if that is of interest
and not null, or the report of its failure. -/
def submission (dialogue : Dialogue) (text : String) : Written × Turn :=
  match Session.submit text dialogue.maxDepth { frame := dialogue.frame } with
  | (.ok reply, m) =>
    let echo := if reply.echoed && reply.value ≠ .null then reply.value.text ++ "\n" else ""
    ({ out := m.console.out ++ echo, log := m.console.log },
      .goesOn { dialogue with frame := m.frame })
  | (.error (.failed failure), m) =>
    ({ out := m.console.out, err := failureReport dialogue.settings failure,
       log := m.console.log }, .goesOn { dialogue with frame := m.frame })
  | (.error stop, m) => ({ out := m.console.out, log := m.console.log }, .breaksOff stop)

/-- Answers an entry. -/
def answer (dialogue : Dialogue) : Entry → Written × Turn
  | .endOfInput => ({ out := "\n" }, .ends)
  | .interrupt => ({ out := "KeyboardInterrupt\n" }, .goesOn dialogue)
  | .text text =>
    let text := normalize text
    if Text.trim text = "" then ({}, .goesOn dialogue)
    else if isCommand text then
      let (written, after) := dialogue.command (.ofText text)
      (written, .goesOn after)
    else dialogue.submission text

/-- The answers to the entries in order, and what broke the conversation off,
if anything did. After the last entry the input ends. -/
def answers (dialogue : Dialogue) : List Entry → List (Entry × Written) × Option Stop
  | [] => ([(.endOfInput, (dialogue.answer .endOfInput).1)], none)
  | entry :: entries =>
    match dialogue.answer entry with
    | (written, .goesOn after) =>
      let (rest, stop) := after.answers entries
      ((entry, written) :: rest, stop)
    | (written, .ends) => ([(entry, written)], none)
    | (written, .breaksOff stop) => ([(entry, written)], some stop)

end Dialogue

end BasilLang.Prompt
