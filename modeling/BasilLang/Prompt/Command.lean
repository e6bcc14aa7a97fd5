import BasilLang.Settings

/-! Commands to the prompt itself, which begin with a slash, and what typed
text is cleared of before it is looked at. -/
namespace BasilLang.Prompt

/-- The invisible characters that typed or pasted text may hold. -/
def isInvisible (c : Char) : Bool :=
  ['\u200b', '\u200c', '\u200d', '\ufeff', '\u00a0', '\r'].contains c

/-- The text without invisible characters. -/
def normalize (text : String) : String :=
  String.ofList (text.toList.filter (!isInvisible ·))

/-- Whether a text is a command: its first character that is not blank is a
slash. -/
def isCommand (text : String) : Bool :=
  (Text.trim text).toList.head? = some '/'

/-- What a command asks for. -/
inductive Command where
  | clear
  | reset
  | trace (argument : String)
  | unknown (word : String)
deriving DecidableEq, Repr

/-- The commands with the texts that completion shows. -/
def commandHelp : List (String × String) :=
  [("/clear", "Clear the terminal screen"),
   ("/py-traceback", "Toggle Python traceback on errors"),
   ("/reset", "Reset the REPL environment")]

/-- The command that a text spells: its first word, and what follows it. -/
def Command.ofText (text : String) : Command :=
  let cs := (Text.trim text).toList
  let word := String.ofList (cs.takeWhile (!Text.isBlank ·))
  let argument := (cs.dropWhile (!Text.isBlank ·)).dropWhile Text.isBlank
  if word = "/clear" then .clear
  else if word = "/py-traceback" then .trace (String.ofList argument)
  else if word = "/reset" then .reset
  else .unknown word

/-- A way to complete the text before the cursor. -/
structure Completion where
  text : String
  /-- How many characters before the cursor it replaces. -/
  replaces : Nat
  help : String
deriving DecidableEq, Repr

/-- The commands that the text before the cursor begins. -/
def completions (before : String) : List Completion :=
  if before.toList.head? = some '/' then
    commandHelp.filterMap fun (name, help) =>
      if before.toList.isPrefixOf name.toList then some ⟨name, before.length, help⟩ else none
  else []

/-- Settings after a command about detailed error reports; none if the
argument is not understood. -/
def traceSettings? (settings : Settings) (argument : String) : Option Settings :=
  if Settings.isOn argument then some { settings with trace := some "1" }
  else if Settings.isOff argument then some { settings with trace := none }
  else if argument = "" then
    some { settings with trace := if settings.traces then none else some "1" }
  else none

end BasilLang.Prompt
