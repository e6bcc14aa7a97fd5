import BasilLang.Token.Lexer

/-! Colours for typed text. Each line is coloured on its own: one fragment per
token, and between them the gaps. A token tells where it begins; how far it
reaches is found from its text and from the line, since strings, fractions and
library paths are spelled with more characters than their texts have. A line
with a fault in its characters is shown plain. -/
namespace BasilLang.Prompt

/-- What a fragment of a line is shown as. -/
inductive Style where
  | plain
  | keyword
  | constant
  | number
  | string
  | libraryPath
  | builtin
  | comment
deriving DecidableEq, Repr

/-- The style in the words of the terminal. -/
def Style.description : Style → String
  | .plain => ""
  | .keyword => "bold ansicyan"
  | .constant => "ansicyan"
  | .number => "ansimagenta"
  | .string => "ansigreen"
  | .libraryPath => "ansiyellow"
  | .builtin => "bold ansiyellow"
  | .comment => "italic ansigray"

/-- How the names of built-in operations begin. -/
def builtinBeginning : List Char := "builtin.".toList

/-- The style of a token. -/
def tokenStyle (kind : TokenKind) (text : String) : Style :=
  match kind with
  | .kwTrue | .kwFalse | .kwNull => .constant
  | .number => .number
  | .string => .string
  | .libraryPath => .libraryPath
  | .ident => if builtinBeginning.isPrefixOf text.toList then .builtin else .plain
  | _ => if TokenKind.keywords.contains kind then .keyword else .plain

/-- A stretch of a line shown in one style. -/
structure Fragment where
  style : Style
  text : String
deriving DecidableEq, Repr

/-- How far a string reaches after its opening quote: up to its closing one, or
to the end of the text. What follows a backslash does not close it. -/
def quotationLength : List Char → Nat
  | [] => 0
  | ['\\'] => 1
  | '\\' :: _ :: cs => quotationLength cs + 2
  | '"' :: _ => 1
  | _ :: cs => quotationLength cs + 1

/-- How many of the characters that follow belong to a token, which begins with
the first of them. -/
def tokenLength (token : Token) (cs : List Char) : Nat :=
  let length := token.text.length
  match token.kind with
  | .string => quotationLength cs.tail + 1
  | .number => if (cs.drop length).head? = some 'f' then length + 1 else length
  | .libraryPath => length + 2
  | _ => length

/-- The fragments of what stands between tokens: blanks, and a comment from its
first sign on. -/
def gapFragments (gap : List Char) : List Fragment :=
  let blanks := gap.takeWhile (· != '#')
  let comment := gap.dropWhile (· != '#')
  (if blanks.isEmpty then [] else [⟨.plain, String.ofList blanks⟩]) ++
    if comment.isEmpty then [] else [⟨.comment, String.ofList comment⟩]

/-- The fragments of a line from the given index on, where these tokens stand.
A token that begins before that index is passed over. -/
def fragmentsFrom (line : List Char) : Nat → List Token → List Fragment
  | done, [] => gapFragments (line.drop done)
  | done, token :: tokens =>
    let start := token.loc.pos.column - 1
    if token.kind = .eof || start < done then fragmentsFrom line done tokens
    else
      let stop := start + tokenLength token (line.drop start)
      gapFragments ((line.take start).drop done) ++
        ⟨tokenStyle token.kind token.text, String.ofList ((line.take stop).drop start)⟩ ::
          fragmentsFrom line stop tokens

/-- The fragments of one line. -/
def highlightLine (line : List Char) : List Fragment :=
  if line.isEmpty then [⟨.plain, ""⟩]
  else
    let whole : Fragment := ⟨.plain, String.ofList line⟩
    match tokenize (String.ofList line) "<input>" with
    | .error _ => [whole]
    | .ok tokens =>
      match fragmentsFrom line 0 tokens with
      | [] => [whole]
      | fragments => fragments

/-- The lines of a text, divided at line feeds. -/
def linesOf : List Char → List (List Char)
  | [] => [[]]
  | c :: cs =>
    if c = '\n' then [] :: linesOf cs
    else match linesOf cs with
      | [] => [[c]]
      | line :: lines => (c :: line) :: lines

/-- The fragments of every line of a text. -/
def highlight (text : String) : List (List Fragment) :=
  (linesOf text.toList).map highlightLine

end BasilLang.Prompt
