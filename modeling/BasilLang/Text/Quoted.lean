/-! String literals of the language: a text between double quotes in which
eleven characters have a backslash escape. Writing uses the escape wherever
one exists, except for the single quote, which needs none; reading accepts
all eleven. -/
namespace BasilLang.Text

/-- The character that an escape letter stands for. -/
def unescape : Char → Option Char
  | 'n' => some '\n'
  | 't' => some '\t'
  | 'r' => some '\r'
  | '\\' => some '\\'
  | '"' => some '"'
  | '\'' => some '\''
  | 'a' => some '\x07'
  | 'b' => some '\x08'
  | 'e' => some '\x1b'
  | 'f' => some '\x0c'
  | 'v' => some '\x0b'
  | _ => none

/-- A character as it is written inside quotes. -/
def escape : Char → List Char
  | '\\' => ['\\', '\\']
  | '"' => ['\\', '"']
  | '\n' => ['\\', 'n']
  | '\t' => ['\\', 't']
  | '\r' => ['\\', 'r']
  | '\x07' => ['\\', 'a']
  | '\x08' => ['\\', 'b']
  | '\x1b' => ['\\', 'e']
  | '\x0c' => ['\\', 'f']
  | '\x0b' => ['\\', 'v']
  | c => [c]

/-- The literal that stands for the text. -/
def quote (text : String) : String :=
  String.ofList ('"' :: text.toList.flatMap escape ++ ['"'])

/-- What stands after an opening quote. -/
inductive Quotation where
  /-- The text up to the closing quote, its spelling with that quote, and what
  follows. -/
  | closed (text spelling rest : List Char)
  /-- The closing quote is missing. -/
  | unclosed
  /-- The first unknown escape: the spelling before its backslash, and its
  letter. -/
  | unknownEscape (before : List Char) (letter : Char)
deriving DecidableEq, Repr

/-- A quotation with one more character in front, spelled as given. -/
def Quotation.push (c : Char) (spelling : List Char) : Quotation → Quotation
  | .closed text more rest => .closed (c :: text) (spelling ++ more) rest
  | .unclosed => .unclosed
  | .unknownEscape before letter => .unknownEscape (spelling ++ before) letter

/-- Reads on after an opening quote. -/
def readQuotation : List Char → Quotation
  | [] => .unclosed
  | '"' :: rest => .closed [] ['"'] rest
  | ['\\'] => .unclosed
  | '\\' :: letter :: cs =>
    match unescape letter with
    | some c => (readQuotation cs).push c ['\\', letter]
    | none => .unknownEscape [] letter
  | c :: cs => (readQuotation cs).push c [c]

end BasilLang.Text
