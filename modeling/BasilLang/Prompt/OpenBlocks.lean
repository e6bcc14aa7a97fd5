import BasilLang.Token.Lexer

/-! Whether typed text is complete. The prompt goes on to another line as long
as blocks are open, which is told from the tokens alone. -/
namespace BasilLang.Prompt

/-- How a token changes the number of open blocks. A namespace opens one by
itself, every other block is opened by `then` or its short form. -/
def blockChange : TokenKind → Int
  | .kwNamespace | .kwThen | .colon => 1
  | .kwEnd => -1
  | _ => 0

/-- How many more blocks the tokens open than they close; none if they close
more. -/
def blockBalance (tokens : List Token) : Nat :=
  (tokens.foldl (fun depth token => depth + blockChange token.kind) (0 : Int)).toNat

/-- How many blocks a text leaves open. A text with a fault in its characters
counts as complete, so that the fault gets reported. -/
def openBlocks (text : String) : Nat :=
  match tokenize text "<input>" with
  | .ok tokens => blockBalance tokens
  | .error _ => 0

/-- What each open block adds to the beginning of a line. -/
def indentation : String := "    "

/-- The break and the indentation that continue a text with open blocks. -/
def continuation (depth : Nat) : List Char :=
  '\n' :: (List.replicate depth indentation.toList).flatten

end BasilLang.Prompt
