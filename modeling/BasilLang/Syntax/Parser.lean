import BasilLang.Fault
import BasilLang.Room
import BasilLang.Syntax
import BasilLang.Token.Lexer

/-! From tokens to trees, by recursive descent. Binary operators associate to
the left and are read one level at a time, loosest first; blocks are closed by
`end`. How deep constructs may nest is limited by the room. Every construct
around another has a token of its own, so a list of tokens never needs more
than a fixed number of units for each of them, and no loop over it takes more
rounds than it has tokens. -/
namespace BasilLang.Parser

/-- What is left of the tokens. The last token stays current once it has been
reached. -/
structure Cursor where
  current : Token
  rest : List Token
deriving DecidableEq, Repr

/-- A cursor at the first token; without tokens it stands at the end of an
input without lines. -/
def Cursor.ofTokens : List Token → Cursor
  | [] => ⟨⟨.eof, "", ⟨"<input>", ⟨0, 0⟩⟩⟩, []⟩
  | token :: rest => ⟨token, rest⟩

/-- The cursor behind the current token. -/
def Cursor.next (cursor : Cursor) : Cursor :=
  match cursor.rest with
  | [] => cursor
  | token :: rest => ⟨token, rest⟩

/-- A parser takes tokens from the cursor and gives a result or fails. -/
abbrev Parse (α : Type) := StateT Cursor (Except Failure) α

/-- The token at the cursor. -/
def current : Parse Token := return (← get).current

/-- The kind of the token after the current one. -/
def followingKind : Parse TokenKind := return (← get).next.current.kind

/-- Takes the current token. -/
def advance : Parse Token := do
  let cursor ← get
  set cursor.next
  return cursor.current

/-- Fails at a token. -/
def failAt {α : Type} (token : Token) (fault : ParseFault) : Parse α :=
  throw ⟨.parse fault, some token.loc⟩

/-- How a complaint names a token. -/
def found (token : Token) : Found :=
  if token.kind = .eof then .endOfInput else .token token.text

/-- Takes a token of the given kind, or complains about the one that is
there. -/
def expect (kind : TokenKind) (fault : Found → ParseFault) : Parse Token := do
  let token ← current
  if token.kind = kind then advance else failAt token (fault (found token))

/-- Takes the word that ends a header, `then` or its short form. -/
def expectThen (opener : Token) : Parse Unit := do
  let token ← current
  if token.kind = .kwThen || token.kind = .colon then discard advance
  else failAt token (.missingThen opener.text (found token))

/-- The name that an identifier token spells. -/
def nameOf (token : Token) : Name := ⟨Path.ofText token.text, token.loc⟩

/-- The token's text and place. -/
def markOf (token : Token) : Mark := ⟨token.text, token.loc⟩

/-- Fails because the room is used up; such a failure concerns the whole
source. -/
def outOfRoom {α : Type} : Parse α := do
  throw ⟨.parse .tooDeep, some (Loc.start (← current).loc.file)⟩

/-- The parsers that nest: an operand with its unary operators, and a
statement. -/
structure Parsers where
  unary : Parse Expr
  statement : Parse Stmt

/-- The parsers for what nests inside a construct, each to be used after so
many units of room, and how many rounds a loop may take. -/
structure Nested where
  rounds : Nat
  parsers : Nat → Parsers

/-- What nests inside after some more units. -/
def Nested.after (nested : Nested) (units : Nat) : Nested :=
  ⟨nested.rounds, fun more => nested.parsers (more + units)⟩

/-- The parser for an operand inside. -/
def Nested.unary (nested : Nested) : Parse Expr := fun cursor =>
  (nested.parsers 0).unary cursor

/-- The parser for a statement inside. -/
def Nested.statement (nested : Nested) : Parse Stmt := fun cursor =>
  (nested.parsers 0).statement cursor

/-- Operands of one level with operators between them, joined to the left; the
first operand is given. -/
def joinLevel (level : Nat) (operand : Parse Expr) : Nat → Expr → Parse Expr
  | 0, left => return left
  | steps + 1, left => do
    let token ← current
    match BinaryOp.ofKind? token.kind with
    | none => return left
    | some op =>
      if op.level = level then
        discard advance
        let right ← operand
        joinLevel level operand steps (.binary left op (markOf token) right)
      else return left

/-- An expression of one level, given a parser for the next tighter one. -/
def atLevel (rounds level : Nat) (operand : Parse Expr) : Parse Expr := do
  let left ← operand
  joinLevel level operand rounds left

/-- An expression: operands joined at every level. -/
def expression (nested : Nested) : Parse Expr :=
  [0, 1, 2, 3, 4, 5].foldr (atLevel nested.rounds) (nested.after Room.levels).unary

/-- Items with commas between them, up to a closing parenthesis; a last comma
may stand alone. -/
def commaSeparated {α : Type} (item : Parse α) : Nat → List α → Parse (List α)
  | 0, done => return done.reverse
  | steps + 1, done => do
    if (← current).kind = .rightParen then return done.reverse
    let next ← item
    if (← current).kind = .comma then
      discard advance
      commaSeparated item steps (next :: done)
    else return (next :: done).reverse

/-- Statements up to the `end` that closes the block of `opener`. An input
that ends before is reported at the opener. -/
def statementsToEnd (statement : Parse Stmt) (opener : Token) : Nat → List Stmt → Parse (List Stmt)
  | 0, _ => outOfRoom
  | steps + 1, done => do
    let token ← current
    match token.kind with
    | .kwEnd =>
      discard advance
      return done.reverse
    | .eof => failAt opener (.unterminatedBlock opener.text token.loc.pos)
    | .semicolon =>
      discard advance
      statementsToEnd statement opener steps done
    | _ =>
      let next ← statement
      statementsToEnd statement opener steps (next :: done)

/-- The body of a block and the place where it begins. -/
def block (nested : Nested) (opener : Token) : Parse (List Stmt × Loc) := do
  let start ← current
  let body ← statementsToEnd (nested.after Room.block).statement opener nested.rounds []
  return (body, start.loc)

/-- A parameter name. -/
def parameter : Parse Mark := do
  let token ← expect .ident .missingParameter
  if Path.isDotted token.text then failAt token (.dottedParameter token.text)
  return markOf token

/-- What follows the word `proc` and the name, if there is one. -/
def procRest (nested : Nested) (opener : Token) : Parse Proc := do
  discard <| expect .leftParen .missingParameterList
  let paramsStart ← current
  let params ← commaSeparated parameter nested.rounds []
  discard <| expect .rightParen .unclosedParameterList
  expectThen opener
  let (body, bodyLoc) ← block (nested.after Room.proc) opener
  return .mk opener.loc params paramsStart.loc body bodyLoc

/-- Whether the second token starts where the first one ends. -/
def adjacent (left right : Token) : Bool :=
  left.loc.pos.line = right.loc.pos.line &&
    left.loc.pos.column + left.text.length = right.loc.pos.column

/-- A call, or the plain name when no parenthesis touches it. -/
def nameOrCall (nested : Nested) (name : Token) : Parse Expr := do
  let opening ← current
  if opening.kind = .leftParen && adjacent name opening then
    discard advance
    let args ← commaSeparated (expression (nested.after Room.callList)) nested.rounds []
    discard <| expect .rightParen (.unclosedCall name.text)
    return .call (nameOf name) args opening.loc
  else return .identifier (nameOf name)

/-- A literal, a group, a proc literal, a name or a call. -/
def primary (nested : Nested) : Parse Expr := do
  let token ← current
  match token.kind with
  | .number =>
    discard advance
    return .literal ⟨.number, token.text⟩ token.loc
  | .string =>
    discard advance
    return .literal ⟨.string, token.text⟩ token.loc
  | .kwTrue | .kwFalse =>
    discard advance
    return .literal ⟨.boolean, token.text⟩ token.loc
  | .kwNull =>
    discard advance
    return .literal ⟨.null, token.text⟩ token.loc
  | .leftParen =>
    discard advance
    let inner ← expression nested
    discard <| expect .rightParen (.unclosedGroup token.loc.pos)
    return .group inner token.loc
  | .kwProc =>
    discard advance
    return .proc (← procRest nested token)
  | .ident =>
    discard advance
    nameOrCall nested token
  | _ => failAt token (.unexpectedToken (found token))

/-- A primary expression with any number of unary operators in front. -/
def unary (nested : Nested) : Parse Expr := do
  let token ← current
  match UnaryOp.ofKind? token.kind with
  | some op =>
    discard advance
    return .unary op (markOf token) (← nested.unary)
  | none => primary (nested.after Room.operand)

/-- The target of an import, after the word. -/
def importTarget (opener : Token) : Parse Stmt := do
  let token ← current
  match token.kind with
  | .ident | .libraryPath =>
    discard advance
    return .importLibrary (markOf token) opener.loc
  | .string =>
    discard advance
    return .importRelative (markOf token) opener.loc
  | _ => failAt token (.missingImportTarget (found token))

/-- The name and value of a declaration, after the keyword. -/
def declaration (nested : Nested) (keyword : Token) : Parse (Name × Expr) := do
  let name ← expect .ident (.missingDeclaredName keyword.text)
  discard <| expect .assign (.missingDeclaredValue keyword.text name.text)
  return (nameOf name, ← expression nested)

/-- A condition and the block it guards. -/
def guarded (nested : Nested) (opener : Token) : Parse (Expr × List Stmt × Loc) := do
  let condition ← expression nested
  expectThen opener
  return (condition, ← block nested opener)

/-- The value of a return; a bare one gives null. -/
def returned (nested : Nested) (opener : Token) : Parse Expr := do
  match (← current).kind with
  | .kwEnd | .semicolon | .eof => return .literal .null opener.loc
  | _ => expression nested

/-- A statement, told by its first token and, for named procs and assignments,
the one after it. -/
def statement (nested : Nested) : Parse Stmt := do
  let token ← current
  let within := nested.after Room.statement
  match token.kind, ← followingKind with
  | .kwImport, _ =>
    discard advance
    importTarget token
  | .kwNamespace, _ =>
    discard advance
    let name ← expect .ident .missingNamespaceName
    let (body, bodyLoc) ← block within token
    return .inNamespace (nameOf name) body bodyLoc token.loc
  | .kwLet, _ =>
    discard advance
    let (name, value) ← declaration within token
    return .letDecl name value token.loc
  | .kwConst, _ =>
    discard advance
    let (name, value) ← declaration within token
    return .constDecl name value token.loc
  | .kwIf, _ =>
    discard advance
    let (condition, body, bodyLoc) ← guarded within token
    return .ifThen condition body bodyLoc token.loc
  | .kwFor, _ =>
    discard advance
    let name ← expect .ident .missingLoopVariable
    discard <| expect .assign .missingLoopStart
    let start ← expression within
    discard <| expect .kwTo .missingLoopStop
    let stop ← expression within
    expectThen token
    let (body, bodyLoc) ← block within token
    return .forRange (nameOf name) start stop body bodyLoc token.loc
  | .kwWhile, _ =>
    discard advance
    let (condition, body, bodyLoc) ← guarded within token
    return .whileTrue condition body bodyLoc token.loc
  | .kwReturn, _ =>
    discard advance
    return .returning (← returned within token) token.loc
  | .kwProc, .ident =>
    discard advance
    let name ← advance
    return .procDecl (nameOf name) (← procRest nested token)
  | .ident, .assign =>
    discard advance
    discard advance
    return .set (nameOf token) (← expression within)
  | _, _ => return .expr (← expression nested)

/-- The parsers in the given room, after so many units of it. Each takes one
unit itself. -/
def within (rounds : Nat) : Nat → Nat → Parsers
  | 0, _ => ⟨outOfRoom, outOfRoom⟩
  | room + 1, units + 1 => within rounds room units
  | room + 1, 0 =>
    if room < Room.work then ⟨outOfRoom, outOfRoom⟩
    else ⟨fun cursor => unary ⟨rounds, within rounds room⟩ cursor,
      fun cursor => statement ⟨rounds, within rounds room⟩ cursor⟩

/-- The statements of a whole source. -/
def statementsToEof (next : Parse Stmt) : Nat → List Stmt → Parse (List Stmt)
  | 0, _ => outOfRoom
  | steps + 1, done => do
    match (← current).kind with
    | .eof => return done.reverse
    | .semicolon =>
      discard advance
      statementsToEof next steps done
    | _ =>
      let stmt ← next
      statementsToEof next steps (stmt :: done)

/-- A whole source. -/
def program (nested : Nested) : Parse Program := do
  let start ← current
  let body ← statementsToEof nested.statement nested.rounds []
  return ⟨start.loc.file, body⟩

/-- An expression that nothing follows. -/
def expressionOnly (nested : Nested) : Parse Expr := do
  let expr ← expression nested
  let token ← current
  if token.kind = .eof then return expr
  else failAt token (.trailingInput (found token))

/-- Runs a parser on tokens, with the given room. -/
def run {α : Type} (parser : Nested → Parse α) (room : Nat) (tokens : List Token) :
    Except Failure α :=
  (·.1) <$> parser ⟨tokens.length + 1, within (tokens.length + 1) room⟩ (.ofTokens tokens)

end Parser

/-- Room in which no list of tokens is too deep. -/
def Parser.roomFor (tokens : List Token) : Nat :=
  Room.perToken * (tokens.length + 1) + Room.work

/-- The program that the tokens spell, in limited room. -/
def Program.ofTokensWithin (room : Nat) (tokens : List Token) : Except Failure Program :=
  Parser.run Parser.program room tokens

/-- The program that the tokens spell. -/
def Program.ofTokens (tokens : List Token) : Except Failure Program :=
  Program.ofTokensWithin (Parser.roomFor tokens) tokens

/-- The program that a source spells, in limited room. -/
def Program.parseWithin (room : Nat) (source file : String) : Except Failure Program := do
  Program.ofTokensWithin room (← tokenize source file)

/-- The program that a source spells. -/
def Program.parse (source file : String) : Except Failure Program := do
  Program.ofTokens (← tokenize source file)

/-- The expression that a source spells, in limited room. -/
def Expr.parseWithin (room : Nat) (source file : String) : Except Failure Expr := do
  Parser.run Parser.expressionOnly room (← tokenize source file)

/-- The expression that a source spells. -/
def Expr.parse (source file : String) : Except Failure Expr := do
  let tokens ← tokenize source file
  Parser.run Parser.expressionOnly (Parser.roomFor tokens) tokens

end BasilLang
