import BasilLang.Proofs.Grammar
import BasilLang.Prompt.OpenBlocks
import Mathlib

/-! Blocks that are left open. How the tokens of a program may stop before the
program is complete is said as a grammar of its own, next to the grammar of
what is complete: whole statements, then the beginning of one more, down to the
body of the innermost block that has been opened. What is complete opens as
many blocks as it closes, so the number of blocks that are left open is the
balance that the prompt counts. -/
namespace BasilLang
open BasilLang.Parser Prompt

/-- By how much the tokens change the number of open blocks. -/
def blocksOpened (tokens : List Token) : Int :=
  (tokens.map fun token => blockChange token.kind).sum

namespace Balance

@[simp] private theorem opened_nil : blocksOpened [] = 0 := rfl

@[simp] private theorem opened_cons (token : Token) (tokens : List Token) :
    blocksOpened (token :: tokens) = blockChange token.kind + blocksOpened tokens :=
  rfl

@[simp] theorem opened_append (first second : List Token) :
    blocksOpened (first ++ second) = blocksOpened first + blocksOpened second := by
  simp [blocksOpened]

/-- The balance that is kept on the way is the sum of the changes, if that is
not negative. -/
theorem block_balance (tokens : List Token) :
    blockBalance tokens = (blocksOpened tokens).toNat := by
  have folded : ∀ start : Int, tokens.foldl (fun depth token => depth + blockChange token.kind)
      start = start + blocksOpened tokens := by
    induction tokens with
    | nil => simp
    | cons token tokens ih =>
      intro start
      rw [List.foldl_cons, ih, opened_cons, Int.add_assoc]
  rw [blockBalance, folded, Int.zero_add]

private theorem opened_all {kind : TokenKind} (plain : blockChange kind = 0) {tokens : List Token}
    (all : ∀ token ∈ tokens, token.kind = kind) : blocksOpened tokens = 0 := by
  induction tokens with
  | nil => rfl
  | cons token tokens ih =>
    rw [opened_cons, all token List.mem_cons_self, plain,
      ih fun other member => all other (List.mem_cons_of_mem _ member)]
    rfl

private theorem unary_plain {kind : TokenKind} {op : UnaryOp}
    (found : UnaryOp.ofKind? kind = some op) :
    blockChange kind = 0 := by
  cases kind <;> first | rfl | cases found

private theorem binary_plain {kind : TokenKind} {op : BinaryOp}
    (found : BinaryOp.ofKind? kind = some op) :
    blockChange kind = 0 := by
  cases kind <;> first | rfl | cases found

private theorem params_even {params : List Mark} {tokens : List Token}
    (listed : Listed Mark.Spelled params tokens) : blocksOpened tokens = 0 := by
  induction params generalizing tokens with
  | nil =>
    cases listed
    rfl
  | cons param params ih =>
    rcases listed with ⟨-, token, rfl, isName, -⟩ | ⟨_, comma, rest, rfl, isComma, spelled, others⟩
    · simp [isName, blockChange]
    · obtain ⟨token, rfl, isName, -⟩ := spelled
      simp [isName, isComma, blockChange, ih others]

mutual

/-- What follows the word `proc` closes the block that it opens. -/
theorem proc_even (p : Proc) {opener : Token} {tokens : List Token}
    (spelled : p.Spelled opener tokens) : blocksOpened tokens = 0 := by
  match p with
  | .mk loc params paramsLoc body bodyLoc =>
    obtain ⟨opening, inside, closing, header, block, rfl, -, opens, closes, ends, -, listed, -,
      spelled⟩ := spelled
    rcases ends with ends | ends
    all_goals simp [opens, closes, ends, params_even listed, stmts_opened body spelled, blockChange]

/-- An expression closes all blocks that it opens. -/
theorem expr_even (e : Expr) {tokens : List Token} (spelled : e.Spelled tokens) :
    blocksOpened tokens = 0 := by
  match e with
  | .literal value loc =>
    obtain ⟨token, rfl, found, -⟩ := spelled
    unfold Token.literal? at found
    split at found
    case h_6 => cases found
    all_goals
      next kind => simp [kind, blockChange]
  | .identifier name =>
    obtain ⟨token, rfl, isName, -⟩ := spelled
    simp [isName, blockChange]
  | .group inner loc =>
    obtain ⟨opening, inside, closing, rfl, opens, closes, -, spelled⟩ := spelled
    simp [opens, closes, expr_even inner spelled, blockChange]
  | .unary op mark operand =>
    obtain ⟨token, rest, rfl, found, -, -, spelled⟩ := spelled
    simp [unary_plain found, expr_even operand spelled]
  | .binary left op mark right =>
    obtain ⟨before, token, after, rfl, found, -, -, -, leftSpelled, rightSpelled⟩ := spelled
    simp [binary_plain found, expr_even left leftSpelled, expr_even right rightSpelled]
  | .call callee args argsLoc =>
    obtain ⟨name, opening, inside, closing, rfl, isName, -, opens, -, -, closes, spelled⟩ := spelled
    simp [isName, opens, closes, exprs_even args spelled, blockChange]
  | .proc p =>
    obtain ⟨opener, rest, rfl, isProc, spelled⟩ := spelled
    simp [isProc, proc_even p spelled, blockChange]

/-- Arguments close all blocks that they open. -/
theorem exprs_even (es : List Expr) {tokens : List Token} (spelled : ExprsSpelled es tokens) :
    blocksOpened tokens = 0 := by
  match es with
  | [] =>
    cases spelled
    rfl
  | e :: es =>
    rcases spelled with ⟨-, spelled⟩ | ⟨first, comma, rest, rfl, isComma, spelled, others⟩
    · exact expr_even e spelled
    · simp [isComma, expr_even e spelled, exprs_even es others, blockChange]

/-- A statement closes all blocks that it opens. -/
theorem stmt_even (s : Stmt) {tokens : List Token} (spelled : s.Spelled tokens) :
    blocksOpened tokens = 0 := by
  match s with
  | .expr e => exact expr_even e spelled
  | .importLibrary target loc =>
    obtain ⟨opener, token, rfl, isImport, -, isTarget | isTarget, -⟩ := spelled
    · simp [isImport, isTarget, blockChange]
    · simp [isImport, isTarget, blockChange]
  | .importRelative target loc =>
    obtain ⟨opener, token, rfl, isImport, -, isTarget, -⟩ := spelled
    simp [isImport, isTarget, blockChange]
  | .inNamespace name body bodyLoc loc =>
    obtain ⟨opener, token, block, rfl, isNamespace, -, isName, -, -, spelled⟩ := spelled
    simp [isNamespace, isName, stmts_opened body spelled, blockChange]
  | .letDecl name value loc =>
    obtain ⟨opener, token, equals, rest, rfl, isLet, -, isName, -, isAssign, spelled⟩ := spelled
    simp [isLet, isName, isAssign, expr_even value spelled, blockChange]
  | .constDecl name value loc =>
    obtain ⟨opener, token, equals, rest, rfl, isConst, -, isName, -, isAssign, spelled⟩ := spelled
    simp [isConst, isName, isAssign, expr_even value spelled, blockChange]
  | .set name value =>
    obtain ⟨token, equals, rest, rfl, isName, -, isAssign, spelled⟩ := spelled
    simp [isName, isAssign, expr_even value spelled, blockChange]
  | .ifThen condition body bodyLoc loc =>
    obtain ⟨opener, inside, header, block, rfl, isIf, -, ends, spelled, -, others⟩ := spelled
    rcases ends with ends | ends
    all_goals simp [isIf, ends, expr_even condition spelled, stmts_opened body others, blockChange]
  | .forRange name start stop body bodyLoc loc =>
    obtain ⟨opener, token, equals, first, middle, last, header, block, rfl, isFor, -, isName, -,
      isAssign, starts, isTo, stops, ends, -, others⟩ := spelled
    rcases ends with ends | ends
    all_goals simp [isFor, isName, isAssign, isTo, ends, expr_even start starts,
      expr_even stop stops, stmts_opened body others, blockChange]
  | .whileTrue condition body bodyLoc loc =>
    obtain ⟨opener, inside, header, block, rfl, isWhile, -, ends, spelled, -, others⟩ := spelled
    rcases ends with ends | ends
    all_goals simp [isWhile, ends, expr_even condition spelled, stmts_opened body others, blockChange]
  | .returning value loc =>
    obtain ⟨opener, rest, rfl, isReturn, -, ⟨rfl, -⟩ | spelled⟩ := spelled
    · simp [isReturn, blockChange]
    · simp [isReturn, expr_even value spelled, blockChange]
  | .procDecl name p =>
    obtain ⟨opener, token, rest, rfl, isProc, isName, -, spelled⟩ := spelled
    simp [isProc, isName, proc_even p spelled, blockChange]

/-- What is left of statements is what the token that stops them changes. -/
theorem stmts_opened {stop : TokenKind} (ss : List Stmt) {tokens : List Token}
    (spelled : StmtsSpelled stop ss tokens) : blocksOpened tokens = blockChange stop := by
  match ss with
  | [] =>
    obtain ⟨semicolons, last, rfl, all, isStop⟩ := spelled
    simp [opened_all rfl all, isStop]
  | s :: ss =>
    obtain ⟨semicolons, own, rest, rfl, all, spelled, -, others⟩ := spelled
    simp [opened_all rfl all, stmt_even s spelled, stmts_opened ss others]

end

end Balance

/-- What the tokens have begun where they stop: a body, of the program or of a
block, or a statement or an expression in it. -/
inductive Begun where
  | body | statement | expression

/-- The tokens of a block up to its body, and the word that opens it. -/
inductive Header : Begun → Token → List Token → Prop where
  | inNamespace {opener name : Token} (opens : opener.kind = .kwNamespace)
      (isName : name.kind = .ident) : Header .statement opener [opener, name]
  | guarded {opener header : Token} {condition : Expr} {inside : List Token}
      (opens : opener.kind = .kwIf ∨ opener.kind = .kwWhile)
      (spelled : condition.Spelled inside) (ends : header.EndsHeader) :
      Header .statement opener (opener :: (inside ++ [header]))
  | counted {opener name equals middle header : Token} {start stop : Expr}
      {first last : List Token} (opens : opener.kind = .kwFor) (isName : name.kind = .ident)
      (isAssign : equals.kind = .assign) (starts : start.Spelled first)
      (isTo : middle.kind = .kwTo) (stops : stop.Spelled last) (ends : header.EndsHeader) :
      Header .statement opener
        (opener :: name :: equals :: (first ++ middle :: (last ++ [header])))
  | proc {opener opening closing header : Token} {params : List Mark} {inside : List Token}
      (opens : opener.kind = .kwProc) (isOpening : opening.kind = .leftParen)
      (listed : Listed Mark.Spelled params inside) (isClosing : closing.kind = .rightParen)
      (ends : header.EndsHeader) :
      Header .expression opener (opener :: opening :: (inside ++ [closing, header]))
  | namedProc {opener name opening closing header : Token} {params : List Mark}
      {inside : List Token} (opens : opener.kind = .kwProc) (isName : name.kind = .ident)
      (isOpening : opening.kind = .leftParen) (listed : Listed Mark.Spelled params inside)
      (isClosing : closing.kind = .rightParen) (ends : header.EndsHeader) :
      Header .statement opener (opener :: name :: opening :: (inside ++ [closing, header]))

/-- Arguments, each with a comma after it. -/
inductive Items : List Token → Prop where
  | nil : Items []
  | cons {e : Expr} {own rest : List Token} {comma : Token} (spelled : e.Spelled own)
      (isComma : comma.kind = .comma) (others : Items rest) : Items (own ++ comma :: rest)

/-- The tokens of a statement or an expression in front of the expression in
which the tokens stop. -/
inductive Lead : Begun → List Token → Prop where
  | alone : Lead .statement []
  | declared {opener name equals : Token} (opens : opener.kind = .kwLet ∨ opener.kind = .kwConst)
      (isName : name.kind = .ident) (isAssign : equals.kind = .assign) :
      Lead .statement [opener, name, equals]
  | assigned {name equals : Token} (isName : name.kind = .ident)
      (isAssign : equals.kind = .assign) : Lead .statement [name, equals]
  | condition {opener : Token} (opens : opener.kind = .kwIf ∨ opener.kind = .kwWhile) :
      Lead .statement [opener]
  | start {opener name equals : Token} (opens : opener.kind = .kwFor)
      (isName : name.kind = .ident) (isAssign : equals.kind = .assign) :
      Lead .statement [opener, name, equals]
  | stop {opener name equals middle : Token} {start : Expr} {first : List Token}
      (opens : opener.kind = .kwFor) (isName : name.kind = .ident)
      (isAssign : equals.kind = .assign) (starts : start.Spelled first)
      (isTo : middle.kind = .kwTo) :
      Lead .statement (opener :: name :: equals :: (first ++ [middle]))
  | returned {opener : Token} (opens : opener.kind = .kwReturn) : Lead .statement [opener]
  | group {opening : Token} (isOpening : opening.kind = .leftParen) : Lead .expression [opening]
  | unary {token : Token} {op : UnaryOp} (isOperator : UnaryOp.ofKind? token.kind = some op) :
      Lead .expression [token]
  | binary {e : Expr} {left : List Token} {token : Token} {op : BinaryOp}
      (spelled : e.Spelled left) (isOperator : BinaryOp.ofKind? token.kind = some op) :
      Lead .expression (left ++ [token])
  | argument {name opening : Token} {items : List Token} (isName : name.kind = .ident)
      (isOpening : opening.kind = .leftParen) (before : Items items) :
      Lead .expression (name :: opening :: items)

/-- The tokens stop in what they have begun, with the blocks of these openers
left open, the outermost first. In a body, they stop after whole statements or
in one more. -/
inductive LeftOpen : Begun → List Token → List Token → Prop where
  | here {semicolons : List Token} (all : ∀ token ∈ semicolons, token.kind = .semicolon) :
      LeftOpen .body [] semicolons
  | next {s : Stmt} {openers semicolons own rest : List Token}
      (all : ∀ token ∈ semicolons, token.kind = .semicolon) (spelled : s.Spelled own)
      (others : LeftOpen .body openers rest) :
      LeftOpen .body openers (semicolons ++ (own ++ rest))
  | last {openers semicolons rest : List Token}
      (all : ∀ token ∈ semicolons, token.kind = .semicolon)
      (inner : LeftOpen .statement openers rest) : LeftOpen .body openers (semicolons ++ rest)
  | block {begun : Begun} {opener : Token} {openers header body : List Token}
      (isHeader : Header begun opener header) (inner : LeftOpen .body openers body) :
      LeftOpen begun (opener :: openers) (header ++ body)
  | inside {begun : Begun} {openers lead rest : List Token} (leads : Lead begun lead)
      (inner : LeftOpen .expression openers rest) : LeftOpen begun openers (lead ++ rest)

namespace Balance

private theorem header_opened {begun : Begun} {opener : Token} {header : List Token}
    (isHeader : Header begun opener header) : blocksOpened header = 1 := by
  cases isHeader with
  | inNamespace opens isName => simp [opens, isName, blockChange]
  | guarded opens spelled ends =>
    rcases opens with opens | opens <;> rcases ends with ends | ends
    all_goals simp [opens, ends, expr_even _ spelled, blockChange]
  | counted opens isName isAssign starts isTo stops ends =>
    rcases ends with ends | ends
    all_goals simp [opens, isName, isAssign, isTo, ends, expr_even _ starts, expr_even _ stops,
      blockChange]
  | proc opens isOpening listed isClosing ends =>
    rcases ends with ends | ends
    all_goals simp [opens, isOpening, isClosing, ends, params_even listed, blockChange]
  | namedProc opens isName isOpening listed isClosing ends =>
    rcases ends with ends | ends
    all_goals simp [opens, isName, isOpening, isClosing, ends, params_even listed, blockChange]

private theorem items_even {items : List Token} (isItems : Items items) :
    blocksOpened items = 0 := by
  induction isItems with
  | nil => rfl
  | cons spelled isComma _ ih => simp [isComma, expr_even _ spelled, ih, blockChange]

private theorem lead_even {begun : Begun} {lead : List Token} (leads : Lead begun lead) :
    blocksOpened lead = 0 := by
  cases leads with
  | alone => rfl
  | declared opens isName isAssign =>
    rcases opens with opens | opens <;> simp [opens, isName, isAssign, blockChange]
  | assigned isName isAssign => simp [isName, isAssign, blockChange]
  | condition opens => rcases opens with opens | opens <;> simp [opens, blockChange]
  | start opens isName isAssign => simp [opens, isName, isAssign, blockChange]
  | stop opens isName isAssign starts isTo =>
    simp [opens, isName, isAssign, isTo, expr_even _ starts, blockChange]
  | returned opens => simp [opens, blockChange]
  | group isOpening => simp [isOpening, blockChange]
  | unary isOperator => simp [unary_plain isOperator]
  | binary spelled isOperator => simp [binary_plain isOperator, expr_even _ spelled]
  | argument isName isOpening before => simp [isName, isOpening, items_even before, blockChange]

/-- The balance of tokens that stop too early is the number of blocks that they
leave open. -/
theorem left_open_count {begun : Begun} {openers tokens : List Token}
    (leftOpen : LeftOpen begun openers tokens) : blocksOpened tokens = openers.length := by
  induction leftOpen with
  | here all => simpa using opened_all rfl all
  | next all spelled _ ih => simp [opened_all rfl all, stmt_even _ spelled, ih]
  | last all _ ih => simp [opened_all rfl all, ih]
  | block isHeader _ ih =>
    simp [header_opened isHeader, ih]
    omega
  | inside leads _ ih => simp [lead_even leads, ih]

end Balance

end BasilLang
