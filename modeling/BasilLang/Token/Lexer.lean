import BasilLang.Fault
import BasilLang.Text.Digit
import BasilLang.Text.Quoted
import BasilLang.Token

/-! From characters to tokens. The text is cut from the front into gaps and
lexemes; each piece keeps its spelling, so that the pieces make up the text
and the place of each is found by counting. Blanks and comments separate
lexemes and mean nothing else, except that `<` begins a library path directly
after `import`. -/
namespace BasilLang.Lexer

/-- The blanks between tokens. -/
def isSeparator (c : Char) : Bool :=
  c == ' ' || c == '\t' || c == '\n' || c == '\r'

/-- What words are made of. -/
def isWordChar (c : Char) : Bool :=
  Text.isAlphanumeric c || c == '_'

/-- What words that are not numbers begin with. -/
def isWordStart (c : Char) : Bool :=
  Text.isLetter c || c == '_'

/-- What a comment holds: it runs up to a line feed or a null character. -/
def isCommentChar (c : Char) : Bool :=
  c != '\n' && c != '\x00'

/-- A token without its place, and its spelling in the source. -/
structure Lexeme where
  kind : TokenKind
  text : String
  spelling : List Char
deriving DecidableEq, Repr

/-- What stands at the front of a text, with the rest; or what is wrong there,
after the given part of the lexeme. -/
inductive Scan where
  | gap (spelling rest : List Char)
  | lexeme (lexeme : Lexeme) (rest : List Char)
  | fault (before : List Char) (fault : LexFault)
deriving DecidableEq, Repr

/-- A string literal, after its opening quote. -/
def scanString (cs : List Char) : Scan :=
  match Text.readQuotation cs with
  | .closed text spelling rest => .lexeme ⟨.string, String.ofList text, '"' :: spelling⟩ rest
  | .unclosed => .fault [] .unterminatedString
  | .unknownEscape before letter => .fault ('"' :: before) (.unknownEscape letter)

/-- The end of a number: it must not run into a word, a digit or a point. -/
def endNumber (text spelling rest : List Char) : Scan :=
  match rest with
  | [] => .lexeme ⟨.number, String.ofList text, spelling⟩ []
  | c :: _ =>
    if isWordChar c || c == '.' then .fault [] (.badToken (String.ofList (text ++ [c])))
    else .lexeme ⟨.number, String.ofList text, spelling⟩ rest

/-- The digits after a point, and what follows them; none unless the point is
followed by a digit. -/
def fraction? : List Char → Option (List Char × List Char)
  | '.' :: cs =>
    let digits := cs.takeWhile Text.isDigit
    if digits.isEmpty then none else some (digits, cs.dropWhile Text.isDigit)
  | _ => none

/-- A number: digits, or digits, a point, digits and the letter `f`, which is
not part of the token's text. -/
def scanNumber (cs : List Char) : Scan :=
  let whole := cs.takeWhile Text.isDigit
  let rest := cs.dropWhile Text.isDigit
  match fraction? rest with
  | none => endNumber whole whole rest
  | some (digits, rest) =>
    let text := whole ++ '.' :: digits
    match rest with
    | 'f' :: rest => endNumber text (text ++ ['f']) rest
    | _ => .fault [] (.unmarkedFraction (String.ofList text))

/-- A dotted name up to and including the first point that no segment
follows. -/
def danglingPoint? : List Char → Option (List Char)
  | [] => none
  | c :: cs =>
    if c = '.' && (cs.isEmpty || cs.head? == some '.') then some [c]
    else (danglingPoint? cs).map (c :: ·)

/-- A keyword or a dotted name. -/
def scanWord (cs : List Char) : Scan :=
  let inName := fun c => isWordChar c || c == '.'
  let name := cs.takeWhile inName
  match danglingPoint? name with
  | some text => .fault [] (.emptySegment (String.ofList text))
  | none =>
    let text := String.ofList name
    .lexeme ⟨(TokenKind.keyword? text).getD .ident, text, name⟩ (cs.dropWhile inName)

/-- A library path, after its opening bracket. -/
def scanLibraryPath (cs : List Char) : Scan :=
  let name := cs.takeWhile isWordChar
  match name, cs.dropWhile isWordChar with
  | _ :: _, '>' :: rest =>
    .lexeme ⟨.libraryPath, String.ofList name, '<' :: name ++ ['>']⟩ rest
  | _, _ => .fault [] (.badLibraryPath (String.ofList name))

/-- Whether the kind's spelling stands at the front of the text. -/
def beginsWith (cs : List Char) (kind : TokenKind) : Bool :=
  match kind.spelling? with
  | some text => text.toList.isPrefixOf cs
  | none => false

/-- An operator or a punctuation mark: the first of the table that fits. -/
def scanSymbol (c : Char) (cs : List Char) : Scan :=
  match TokenKind.symbols.find? (beginsWith (c :: cs)) with
  | some kind =>
    let text := kind.spelling?.getD ""
    .lexeme ⟨kind, text, text.toList⟩ ((c :: cs).drop text.length)
  | none => .fault [] (.badToken (String.ofList [c]))

/-- What stands at the front of a text that is not empty; `afterImport` tells
whether the last token was the word `import`. -/
def scan (afterImport : Bool) (c : Char) (cs : List Char) : Scan :=
  if isSeparator c then
    .gap (c :: cs.takeWhile isSeparator) (cs.dropWhile isSeparator)
  else if c = '#' then
    .gap (c :: cs.takeWhile isCommentChar) (cs.dropWhile isCommentChar)
  else if c = '"' then scanString cs
  else if Text.isDigit c then scanNumber (c :: cs)
  else if isWordStart c then scanWord (c :: cs)
  else if c = '<' && afterImport then scanLibraryPath cs
  else scanSymbol c cs

/-- A piece of a text: a gap, a lexeme, or a fault, with which the pieces
end. -/
inductive Piece where
  | gap (spelling : List Char)
  | lexeme (lexeme : Lexeme)
  | fault (before : List Char) (fault : LexFault)
deriving DecidableEq, Repr

/-- Cuts a text into pieces, at most as many as the first argument says. -/
def cut : Nat → Bool → List Char → List Piece
  | steps + 1, afterImport, c :: cs =>
    match scan afterImport c cs with
    | .gap spelling rest => .gap spelling :: cut steps afterImport rest
    | .lexeme lexeme rest => .lexeme lexeme :: cut steps (lexeme.kind = .kwImport) rest
    | .fault before fault => [.fault before fault]
  | _, _, _ => []

/-- The pieces of a text. Every piece has at least one character, so there are
no more pieces than characters. -/
def pieces (cs : List Char) : List Piece :=
  cut cs.length false cs

/-- The tokens of the pieces that follow a place, closed by the end-of-input
token. -/
def place (file : String) : Pos → List Piece → Except Failure (List Token)
  | pos, [] => .ok [⟨.eof, "", ⟨file, pos⟩⟩]
  | pos, .gap spelling :: rest => place file (pos.after spelling) rest
  | pos, .lexeme lexeme :: rest => do
    let tokens ← place file (pos.after lexeme.spelling) rest
    return ⟨lexeme.kind, lexeme.text, ⟨file, pos⟩⟩ :: tokens
  | pos, .fault before fault :: _ => .error ⟨.lex fault, some ⟨file, pos.after before⟩⟩

end Lexer

/-- The tokens of a source, closed by the end-of-input token. -/
def tokenize (source : String) (file : String) : Except Failure (List Token) :=
  Lexer.place file .first (Lexer.pieces source.toList)

end BasilLang
