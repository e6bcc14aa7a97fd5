import BasilLang.Location
import BasilLang.Text.Shown

/-! Tokens: the words of a program, each with the text it carries and the
place of its first character. The text is the spelling for keywords, paths and
operators, the digits for a number, the decoded text for a string and the bare
name for a library path. -/
namespace BasilLang

/-- The kinds of token. -/
inductive TokenKind where
  | number | string | ident | libraryPath
  | kwImport | kwNamespace | kwLet | kwConst | kwIf | kwThen | kwEnd | kwFor | kwTo | kwWhile
  | kwProc | kwReturn
  | kwTrue | kwFalse | kwNull
  | kwAnd | kwOr | kwNot | kwIs | kwIsnt
  | less | lessEq | greater | greaterEq
  | plus | minus | star | slash | percent
  | assign
  | leftParen | rightParen | comma | semicolon | colon
  | eof
deriving DecidableEq, Repr, Inhabited

namespace TokenKind

/-- The kind's name in token listings. -/
def name : TokenKind → String
  | .number => "NUMBER"
  | .string => "STRING"
  | .ident => "IDENT"
  | .libraryPath => "LIBRARY_PATH"
  | .kwImport => "IMPORT"
  | .kwNamespace => "NAMESPACE"
  | .kwLet => "LET"
  | .kwConst => "CONST"
  | .kwIf => "IF"
  | .kwThen => "THEN"
  | .kwEnd => "END"
  | .kwFor => "FOR"
  | .kwTo => "TO"
  | .kwWhile => "WHILE"
  | .kwProc => "PROC"
  | .kwReturn => "RETURN"
  | .kwTrue => "TRUE"
  | .kwFalse => "FALSE"
  | .kwNull => "NULL"
  | .kwAnd => "AND"
  | .kwOr => "OR"
  | .kwNot => "NOT"
  | .kwIs => "IS"
  | .kwIsnt => "ISNT"
  | .less => "LT"
  | .lessEq => "LTE"
  | .greater => "GT"
  | .greaterEq => "GTE"
  | .plus => "PLUS"
  | .minus => "MINUS"
  | .star => "STAR"
  | .slash => "SLASH"
  | .percent => "MOD"
  | .assign => "ASSIGN"
  | .leftParen => "LPAR"
  | .rightParen => "RPAR"
  | .comma => "COMMA"
  | .semicolon => "SEMI"
  | .colon => "COLON"
  | .eof => "EOF"

/-- The kinds that carry a text of their own, and the end of input, have no
fixed spelling. -/
def spelling? : TokenKind → Option String
  | .number | .string | .ident | .libraryPath | .eof => none
  | .kwImport => some "import"
  | .kwNamespace => some "namespace"
  | .kwLet => some "let"
  | .kwConst => some "const"
  | .kwIf => some "if"
  | .kwThen => some "then"
  | .kwEnd => some "end"
  | .kwFor => some "for"
  | .kwTo => some "to"
  | .kwWhile => some "while"
  | .kwProc => some "proc"
  | .kwReturn => some "return"
  | .kwTrue => some "true"
  | .kwFalse => some "false"
  | .kwNull => some "null"
  | .kwAnd => some "and"
  | .kwOr => some "or"
  | .kwNot => some "not"
  | .kwIs => some "is"
  | .kwIsnt => some "isnt"
  | .less => some "<"
  | .lessEq => some "<="
  | .greater => some ">"
  | .greaterEq => some ">="
  | .plus => some "+"
  | .minus => some "-"
  | .star => some "*"
  | .slash => some "/"
  | .percent => some "%"
  | .assign => some "="
  | .leftParen => some "("
  | .rightParen => some ")"
  | .comma => some ","
  | .semicolon => some ";"
  | .colon => some ":"

/-- The reserved words. -/
def keywords : List TokenKind :=
  [.kwImport, .kwNamespace, .kwLet, .kwConst, .kwIf, .kwThen, .kwEnd, .kwFor, .kwTo, .kwWhile,
   .kwProc, .kwReturn, .kwTrue, .kwFalse, .kwNull, .kwAnd, .kwOr, .kwNot, .kwIs, .kwIsnt]

/-- Operators and punctuation; an operator stands before those it begins
with. -/
def symbols : List TokenKind :=
  [.lessEq, .greaterEq, .plus, .minus, .star, .slash, .percent, .less, .greater, .assign,
   .leftParen, .rightParen, .comma, .semicolon, .colon]

/-- The reserved word with this spelling. -/
def keyword? (word : String) : Option TokenKind :=
  keywords.find? fun kind => kind.spelling? == some word

end TokenKind

/-- A token of a source. -/
structure Token where
  kind : TokenKind
  text : String
  loc : Loc
deriving DecidableEq, Repr, Inhabited

/-- A token as token listings show it. -/
def Token.shown (token : Token) : String :=
  let value := if token.kind = .eof then "None" else Text.shown token.text
  s!"Tok({token.kind.name}, {value}, {token.loc.pos.text})"

end BasilLang
