import BasilLang.Proofs.Grammar

/-! The parser accepts whatever the grammar spells. Each construct is read by
its own parser from exactly its own tokens, as long as what follows does not
go on with it; the rounds of the loops and the room are bounded by the number
of tokens alone. -/
namespace BasilLang.Parsing
open BasilLang.Parser

section Cursor
variable {α β : Type} {token next : Token} {rest : List Token} {cursor after : Cursor}

/-- One parser after another. -/
theorem bind_ok {parser : Parse α} {continuation : α → Parse β} {result : α}
    (first : parser cursor = .ok (result, after)) :
    (parser >>= continuation) cursor = continuation result after := by
  simp only [bind, StateT.bind, first, Except.bind]

theorem discard_ok {parser : Parse α} {result : α}
    (first : parser cursor = .ok (result, after)) :
    (discard parser) cursor = .ok ((), after) := by
  simp only [discard, Functor.discard, Functor.mapConst, Function.comp, Function.const, StateT.map,
    first, bind, Except.bind, pure, Except.pure]

theorem current_ok : current (.ofTokens (token :: rest)) = .ok (token, .ofTokens (token :: rest)) :=
  rfl

theorem following_ok : followingKind (.ofTokens (token :: next :: rest)) =
    .ok (next.kind, .ofTokens (token :: next :: rest)) :=
  rfl

theorem advance_ok (more : rest ≠ []) :
    advance (.ofTokens (token :: rest)) = .ok (token, .ofTokens rest) := by
  cases rest with
  | nil => exact absurd rfl more
  | cons next rest => rfl

/-- A token that is expected is taken. -/
theorem expect_ok {kind : TokenKind} {fault : Found → ParseFault} (same : token.kind = kind)
    (more : rest ≠ []) :
    expect kind fault (.ofTokens (token :: rest)) = .ok (token, .ofTokens rest) := by
  rw [expect, bind_ok current_ok]
  simp only [same, ↓reduceIte]
  exact advance_ok more

/-- What ends a header is taken. -/
theorem expect_then_ok {opener : Token} (ends : token.EndsHeader) (more : rest ≠ []) :
    expectThen opener (.ofTokens (token :: rest)) = .ok ((), .ofTokens rest) := by
  rw [expectThen, bind_ok current_ok]
  rcases ends with kind | kind <;> simp only [kind] <;> exact discard_ok (advance_ok more)

end Cursor

/-- The nested parsers with so much room left. -/
def nestedIn (rounds room : Nat) : Nested := ⟨rounds, within rounds room⟩

@[simp] theorem nested_rounds (rounds room : Nat) : (nestedIn rounds room).rounds = rounds := rfl

private theorem within_shift (rounds room units more : Nat) :
    within rounds room (more + units) = within rounds (room - units) more := by
  induction units generalizing room with
  | zero => rfl
  | succ units ih =>
    cases room with
    | zero => rw [Nat.zero_sub, within, within]
    | succ room => rw [← Nat.add_assoc, within, ih, Nat.add_sub_add_right]

/-- Units that are used up are taken from the room. -/
@[simp] theorem nested_after (rounds room units : Nat) :
    (nestedIn rounds room).after units = nestedIn rounds (room - units) := by
  simp only [nestedIn, Nested.after, Nested.mk.injEq, true_and]
  funext more
  exact within_shift rounds room units more

/-- An operand inside is read with a unit less of room. -/
theorem nested_unary {rounds room : Nat} (enough : Room.work < room) (cursor : Cursor) :
    (nestedIn rounds room).unary cursor = unary (nestedIn rounds (room - 1)) cursor := by
  obtain ⟨room, rfl⟩ : ∃ less, room = less + 1 := ⟨room - 1, by omega⟩
  simp only [nestedIn, Nested.unary, within, Nat.add_sub_cancel]
  rw [if_neg (by omega)]

/-- A statement inside is read with a unit less of room. -/
theorem nested_statement {rounds room : Nat} (enough : Room.work < room) (cursor : Cursor) :
    (nestedIn rounds room).statement cursor = statement (nestedIn rounds (room - 1)) cursor := by
  obtain ⟨room, rfl⟩ : ∃ less, room = less + 1 := ⟨room - 1, by omega⟩
  simp only [nestedIn, Nested.statement, within, Nat.add_sub_cancel]
  rw [if_neg (by omega)]

/-- The parser for operands that bind at least as tightly as the level. -/
def levelParser (nested : Nested) (level : Nat) : Parse Expr :=
  ([0, 1, 2, 3, 4, 5].drop level).foldr (atLevel nested.rounds) (nested.after Room.levels).unary

/-- A level of operators is read with the next one inside. -/
theorem level_parser_step (nested : Nested) {level : Nat} (binary : level < unaryLevel) :
    levelParser nested level = atLevel nested.rounds level (levelParser nested (level + 1)) := by
  unfold unaryLevel at binary
  match level with
  | 0 | 1 | 2 | 3 | 4 | 5 => rfl
  | more + 6 => omega

/-- Below all operators there are operands. -/
theorem level_parser_unary (rounds room : Nat) :
    levelParser (nestedIn rounds room) unaryLevel =
      (nestedIn rounds (room - Room.levels)).unary := by
  rw [← nested_after]
  rfl

theorem op_level_lt (op : BinaryOp) : op.level < unaryLevel := by
  cases op <;> decide

/-- An operator of another level ends the loop over operands. -/
theorem join_stops {level steps : Nat} {operand : Parse Expr} {left : Expr} {next : Token}
    {rest : List Token}
    (other : ∀ op, BinaryOp.ofKind? next.kind = some op → op.level ≠ level) :
    joinLevel level operand steps left (.ofTokens (next :: rest)) =
      .ok (left, .ofTokens (next :: rest)) := by
  cases steps with
  | zero => rfl
  | succ steps =>
    rw [joinLevel, bind_ok current_ok]
    cases found : BinaryOp.ofKind? next.kind with
    | none => rfl
    | some op => simp only [other op found, ↓reduceIte]; rfl

/-- One round of the loop over operands. -/
theorem join_step {level steps : Nat} {operand : Parse Expr} {left right : Expr} {token : Token}
    {op : BinaryOp} {tokens rest : List Token} (found : BinaryOp.ofKind? token.kind = some op)
    (same : op.level = level) (more : tokens ++ rest ≠ [])
    (read : operand (.ofTokens (tokens ++ rest)) = .ok (right, .ofTokens rest)) :
    joinLevel level operand (steps + 1) left (.ofTokens (token :: (tokens ++ rest))) =
      joinLevel level operand steps (.binary left op (markOf token) right) (.ofTokens rest) := by
  rw [joinLevel, bind_ok current_ok]
  simp only [found, same, ↓reduceIte]
  rw [bind_ok (discard_ok (advance_ok more)), bind_ok read]

/-- Tokens of an expression followed by others are read as the expression, at
every level that it binds tightly enough for. At the level of a binary
operator the reading may also stop short of the next round of the loop, with
rounds to spare for as many tokens as are left. -/
structure Accepted (rounds room : Nat) (e : Expr) (tokens rest : List Token) : Prop where
  whole : ∀ level, level ≤ e.tightness → level ≤ unaryLevel → Leaves level tokens rest →
    levelParser (nestedIn rounds room) level (.ofTokens (tokens ++ rest)) =
      .ok (e, .ofTokens rest)
  joined : ∀ level, level ≤ e.tightness → level < unaryLevel → Leaves (level + 1) tokens rest →
    ∃ steps, rounds ≤ steps + tokens.length ∧
      levelParser (nestedIn rounds room) level (.ofTokens (tokens ++ rest)) =
        joinLevel level (levelParser (nestedIn rounds room) (level + 1)) steps e (.ofTokens rest)

section Levels
variable {rounds room : Nat} {e : Expr} {tokens rest : List Token}

private theorem leaves_weaker {level higher : Nat} (leaves : Leaves level tokens rest)
    (le : level ≤ higher) : Leaves higher tokens rest := by
  intro next member
  obtain ⟨ops, touching⟩ := leaves next member
  exact ⟨fun op found => Nat.lt_of_lt_of_le (ops op found) le, touching⟩

private theorem joined_of_next {level : Nat} (binary : level < unaryLevel)
    (read : levelParser (nestedIn rounds room) (level + 1) (.ofTokens (tokens ++ rest)) =
      .ok (e, .ofTokens rest)) :
    levelParser (nestedIn rounds room) level (.ofTokens (tokens ++ rest)) =
      joinLevel level (levelParser (nestedIn rounds room) (level + 1)) rounds e
        (.ofTokens rest) := by
  rw [level_parser_step _ binary, atLevel, bind_ok read]
  rfl

/-- What is read at one level is read at all looser ones, if no operator of
those levels follows. -/
theorem read_at_looser {level higher : Nat} (le : level ≤ higher) (bound : higher ≤ unaryLevel)
    (more : rest ≠ []) (leaves : Leaves level tokens rest)
    (read : levelParser (nestedIn rounds room) higher (.ofTokens (tokens ++ rest)) =
      .ok (e, .ofTokens rest)) :
    levelParser (nestedIn rounds room) level (.ofTokens (tokens ++ rest)) =
      .ok (e, .ofTokens rest) := by
  obtain ⟨gap, rfl⟩ := Nat.exists_eq_add_of_le le
  induction gap generalizing level with
  | zero => exact read
  | succ gap ih =>
    have nextRead := ih (leaves_weaker leaves (Nat.le_succ level))
      (Nat.le_add_right (level + 1) gap) (by omega) (by rwa [Nat.succ_add])
    rw [joined_of_next (by omega) nextRead]
    obtain ⟨next, rest, rfl⟩ := List.exists_cons_of_ne_nil more
    exact join_stops fun op found => Nat.ne_of_lt ((leaves next rfl).1 op found)

/-- An expression that the parser for operands reads is accepted. -/
theorem accepted_of_unary (more : rest ≠ [])
    (read : Leaves unaryLevel tokens rest →
      (nestedIn rounds (room - Room.levels)).unary (.ofTokens (tokens ++ rest)) =
        .ok (e, .ofTokens rest)) : Accepted rounds room e tokens rest := by
  have whole : ∀ level, level ≤ unaryLevel → Leaves level tokens rest →
      levelParser (nestedIn rounds room) level (.ofTokens (tokens ++ rest)) =
        .ok (e, .ofTokens rest) := by
    intro level le leaves
    apply read_at_looser le (Nat.le_refl _) more leaves
    rw [level_parser_unary]
    exact read (leaves_weaker leaves le)
  refine ⟨fun level _ => whole level, fun level _ binary leaves => ⟨rounds, by omega, ?_⟩⟩
  exact joined_of_next binary (whole (level + 1) binary leaves)

end Levels

/-- A binary operation is accepted when its operands are, the left one in
front of the operator and the right one in front of what follows. -/
theorem operation_accepted {rounds room : Nat} {left right : Expr} {op : BinaryOp} {token : Token}
    {before after rest : List Token} (found : BinaryOp.ofKind? token.kind = some op)
    (looser : op.level ≤ left.tightness) (tighter : op.level < right.tightness)
    (enough : (before ++ token :: after).length < rounds) (more : rest ≠ [])
    (leftAccepted : Accepted rounds room left before (token :: after ++ rest))
    (rightAccepted : Accepted rounds room right after rest)
    (nonempty : after ≠ []) :
    Accepted rounds room (.binary left op (markOf token) right) (before ++ token :: after)
      rest := by
  have last : ∀ {level}, Leaves level (before ++ token :: after) rest →
      Leaves level after rest := by
    intro level leaves next member
    obtain ⟨ops, touching⟩ := leaves next member
    refine ⟨ops, fun final isLast => touching final ?_⟩
    obtain ⟨first, others, rfl⟩ := List.exists_cons_of_ne_nil nonempty
    rw [List.getLast?_append, List.getLast?_cons_cons, isLast]
    rfl
  -- The operator ends its left operand: it is of a looser level and no parenthesis.
  have stops : Leaves (op.level + 1) before (token :: after ++ rest) := by
    intro next member
    obtain rfl : token = next := by simpa using member
    refine ⟨fun other same => ?_, fun _ _ _ paren => ?_⟩
    · obtain rfl : op = other := by simpa [found] using same
      omega
    · simp [paren, BinaryOp.ofKind?] at found
  have joined : Leaves (op.level + 1) (before ++ token :: after) rest →
      ∃ steps, rounds ≤ steps + (before ++ token :: after).length ∧
        levelParser (nestedIn rounds room) op.level
            (.ofTokens (before ++ token :: after ++ rest)) =
          joinLevel op.level (levelParser (nestedIn rounds room) (op.level + 1)) steps
            (.binary left op (markOf token) right) (.ofTokens rest) := by
    intro leaves
    obtain ⟨steps, spare, read⟩ := leftAccepted.joined op.level looser (op_level_lt op) stops
    simp only [List.length_append, List.length_cons] at enough ⊢
    obtain ⟨steps, rfl⟩ : ∃ less, steps = less + 1 := ⟨steps - 1, by omega⟩
    refine ⟨steps, by omega, ?_⟩
    rw [List.append_assoc, List.cons_append]
    rw [List.cons_append] at read
    rw [read]
    exact join_step found rfl (by simp [more])
      (rightAccepted.whole (op.level + 1) tighter (op_level_lt op) (last leaves))
  have whole : Leaves op.level (before ++ token :: after) rest →
      levelParser (nestedIn rounds room) op.level (.ofTokens (before ++ token :: after ++ rest)) =
        .ok (.binary left op (markOf token) right, .ofTokens rest) := by
    intro leaves
    obtain ⟨steps, -, read⟩ := joined (leaves_weaker leaves (Nat.le_succ _))
    rw [read]
    obtain ⟨next, rest, rfl⟩ := List.exists_cons_of_ne_nil more
    exact join_stops fun other same => Nat.ne_of_lt ((leaves next rfl).1 other same)
  refine ⟨fun level le _ leaves => ?_, fun level le binary leaves => ?_⟩
  · exact read_at_looser le (Nat.le_of_lt (op_level_lt op)) more leaves
      (whole (leaves_weaker leaves le))
  · rcases Nat.lt_or_eq_of_le le with lower | rfl
    · refine ⟨rounds, by omega, joined_of_next binary ?_⟩
      exact read_at_looser lower (Nat.le_of_lt (op_level_lt op)) more leaves
        (whole (leaves_weaker leaves lower))
    · exact joined leaves

/-- Room in which the tokens of an expression can be read. -/
def exprRoom (count : Nat) : Nat := Room.perToken * count + 4

/-- Room in which the tokens of a statement can be read. -/
def stmtRoom (count : Nat) : Nat := exprRoom count + 1

/-- The expression is accepted from its tokens, in room for them. -/
def ExprAccepted (e : Expr) : Prop :=
  ∀ tokens, e.Spelled tokens → ∀ rounds room rest, rest ≠ [] → tokens.length < rounds →
    exprRoom tokens.length ≤ room → Accepted rounds room e tokens rest

/-- The statement is read from its tokens, in room for them, when it ends
before what follows. -/
def StmtAccepted (s : Stmt) : Prop :=
  ∀ tokens, s.Spelled tokens → ∀ rounds room rest, rest ≠ [] → tokens.length < rounds →
    stmtRoom tokens.length ≤ room → s.EndsBefore tokens rest →
    (nestedIn rounds room).statement (.ofTokens (tokens ++ rest)) = .ok (s, .ofTokens rest)

section Primaries
variable {rounds room : Nat} {e : Expr} {first : Token} {more rest : List Token}

private theorem unary_is_primary {nested : Nested} (plain : UnaryOp.ofKind? first.kind = none) :
    unary nested (.ofTokens (first :: rest)) =
      primary (nested.after Room.operand) (.ofTokens (first :: rest)) := by
  rw [unary, bind_ok current_ok]
  simp only [plain]

/-- An expression that the parser for primaries reads is accepted. -/
theorem accepted_of_primary (plain : UnaryOp.ofKind? first.kind = none) (nonempty : rest ≠ [])
    (enough : exprRoom 1 ≤ room)
    (read : Leaves unaryLevel (first :: more) rest →
      primary (nestedIn rounds (room - 15)) (.ofTokens (first :: more ++ rest)) =
        .ok (e, .ofTokens rest)) : Accepted rounds room e (first :: more) rest := by
  refine accepted_of_unary nonempty fun leaves => ?_
  simp only [exprRoom, Room.perToken] at enough
  rw [nested_unary (by simp only [Room.levels, Room.work]; omega), List.cons_append,
    unary_is_primary plain, nested_after]
  exact read leaves

/-- A literal is read as itself. -/
theorem primary_literal {nested : Nested} {value : Value} (nonempty : rest ≠ [])
    (found : first.literal? = some value) :
    primary nested (.ofTokens (first :: rest)) =
      .ok (.literal value first.loc, .ofTokens rest) := by
  rw [primary, bind_ok current_ok]
  unfold Token.literal? at found
  split at found <;> cases found <;> (rename_i kind; simp only [kind])
  all_goals
    rw [bind_ok (discard_ok (advance_ok nonempty))]
    rfl

/-- Parentheses are read as a group. -/
theorem primary_group {nested : Nested} {inner : Expr} {closing : Token}
    {inside : List Token} (nonempty : rest ≠ []) (opens : first.kind = .leftParen)
    (closes : closing.kind = .rightParen)
    (read : expression nested (.ofTokens (inside ++ closing :: rest)) =
      .ok (inner, .ofTokens (closing :: rest))) :
    primary nested (.ofTokens (first :: (inside ++ closing :: rest))) =
      .ok (.group inner first.loc, .ofTokens rest) := by
  rw [primary, bind_ok current_ok]
  simp only [opens]
  rw [bind_ok (discard_ok (advance_ok (by simp))), bind_ok read,
    bind_ok (discard_ok (expect_ok closes nonempty))]
  rfl

/-- A proc without a name is read as an expression. -/
theorem primary_proc {nested : Nested} {proc : Proc} {tokens : List Token}
    (isProc : first.kind = .kwProc) (nonempty : tokens ++ rest ≠ [])
    (read : procRest nested first (.ofTokens (tokens ++ rest)) = .ok (proc, .ofTokens rest)) :
    primary nested (.ofTokens (first :: (tokens ++ rest))) =
      .ok (.proc proc, .ofTokens rest) := by
  rw [primary, bind_ok current_ok]
  simp only [isProc]
  rw [bind_ok (discard_ok (advance_ok nonempty)), bind_ok read]
  rfl

/-- A name that no parenthesis touches is read as a name. -/
theorem primary_name {nested : Nested} {next : Token} (isName : first.kind = .ident)
    (apart : next.kind = .leftParen → adjacent first next = false) :
    primary nested (.ofTokens (first :: next :: rest)) =
      .ok (.identifier (nameOf first), .ofTokens (next :: rest)) := by
  rw [primary, bind_ok current_ok]
  simp only [isName]
  rw [bind_ok (discard_ok (advance_ok (by simp))), nameOrCall, bind_ok current_ok]
  by_cases paren : next.kind = .leftParen
  · simp only [paren, apart paren, decide_true, Bool.and_false, Bool.false_eq_true, ↓reduceIte]
    rfl
  · simp only [paren, decide_false, Bool.false_and, Bool.false_eq_true, ↓reduceIte]
    rfl

/-- A name that a parenthesis touches is read as a call. -/
theorem primary_call {nested : Nested} {opening closing : Token} {inside : List Token}
    {args : List Expr} (nonempty : rest ≠ []) (isName : first.kind = .ident)
    (opens : opening.kind = .leftParen) (touches : adjacent first opening = true)
    (closes : closing.kind = .rightParen)
    (read : commaSeparated (expression (nested.after Room.callList)) nested.rounds []
      (.ofTokens (inside ++ closing :: rest)) = .ok (args, .ofTokens (closing :: rest))) :
    primary nested (.ofTokens (first :: opening :: (inside ++ closing :: rest))) =
      .ok (.call (nameOf first) args opening.loc, .ofTokens rest) := by
  rw [primary, bind_ok current_ok]
  simp only [isName]
  rw [bind_ok (discard_ok (advance_ok (by simp))), nameOrCall, bind_ok current_ok]
  simp only [opens, touches, decide_true, Bool.and_self, ↓reduceIte]
  rw [bind_ok (discard_ok (advance_ok (by simp))), bind_ok read,
    bind_ok (discard_ok (expect_ok closes nonempty))]
  rfl

end Primaries

/-- Items with commas between them are read up to the closing parenthesis. -/
theorem comma_separated_ok {α : Type} {item : α → List Token → Prop} {parser : Parse α}
    {closing : Token} {rest : List Token} (closes : closing.kind = .rightParen)
    (begins : ∀ {a tokens}, item a tokens →
      ∃ first more, tokens = first :: more ∧ first.kind ≠ .rightParen)
    (as : List α) {tokens : List Token} (listed : Listed item as tokens) (done : List α)
    {steps : Nat} (enough : tokens.length < steps)
    (reads : ∀ a ∈ as, ∀ own next more, item a own → own.length ≤ tokens.length →
      (next.kind = .comma ∨ next.kind = .rightParen) →
      parser (.ofTokens (own ++ next :: more)) = .ok (a, .ofTokens (next :: more))) :
    commaSeparated parser steps done (.ofTokens (tokens ++ closing :: rest)) =
      .ok (done.reverse ++ as, .ofTokens (closing :: rest)) := by
  obtain ⟨steps, rfl⟩ : ∃ less, steps = less + 1 := ⟨steps - 1, by omega⟩
  induction as generalizing tokens done steps with
  | nil =>
    obtain rfl : tokens = [] := listed
    rw [commaSeparated, List.nil_append, bind_ok current_ok]
    simp only [closes, ↓reduceIte, List.append_nil]
    rfl
  | cons a as ih =>
    rcases listed with ⟨rfl, single⟩ | ⟨own, comma, others, rfl, isComma, single, listed⟩
    · have read := reads a (by simp) _ _ rest single (Nat.le_refl _) (.inr closes)
      obtain ⟨first, more, rfl, differs⟩ := begins single
      rw [List.cons_append] at read ⊢
      rw [commaSeparated, bind_ok current_ok]
      simp only [differs, ↓reduceIte]
      rw [bind_ok read, bind_ok current_ok]
      simp only [closes, reduceCtorEq, ↓reduceIte, List.reverse_cons]
      rfl
    · have read := reads a (by simp) _ _ (others ++ closing :: rest) single (by simp)
        (.inl isComma)
      obtain ⟨first, more, rfl, differs⟩ := begins single
      simp only [List.cons_append, List.append_assoc, List.length_append, List.length_cons]
        at read enough reads ⊢
      rw [commaSeparated, bind_ok current_ok]
      simp only [differs, ↓reduceIte]
      rw [bind_ok read, bind_ok current_ok]
      simp only [isComma, ↓reduceIte]
      obtain ⟨steps, rfl⟩ : ∃ less, steps = less + 1 := ⟨steps - 1, by omega⟩
      rw [bind_ok (discard_ok (advance_ok (by simp)))]
      rw [ih listed (a :: done) (fun b member _ _ _ spelled bound follows =>
        reads b (by simp [member]) _ _ _ spelled (by omega) follows) steps (by omega)]
      simp

private theorem leaves_of_plain {level : Nat} {own rest : List Token} {next : Token}
    (noOperator : BinaryOp.ofKind? next.kind = none) (noParen : next.kind ≠ .leftParen) :
    Leaves level own (next :: rest) := by
  intro token member
  obtain rfl : next = token := by simpa using member
  refine ⟨fun op found => ?_, fun _ _ _ paren => absurd paren noParen⟩
  simp [noOperator] at found

/-- An accepted expression is read whole in front of a token that is neither
an operator nor a parenthesis that opens. -/
theorem expression_ok {e : Expr} {tokens rest : List Token} {next : Token} {rounds room : Nat}
    (accepted : ExprAccepted e) (spelled : e.Spelled tokens) (bound : tokens.length < rounds)
    (enough : exprRoom tokens.length ≤ room) (noOperator : BinaryOp.ofKind? next.kind = none)
    (noParen : next.kind ≠ .leftParen) :
    expression (nestedIn rounds room) (.ofTokens (tokens ++ next :: rest)) =
      .ok (e, .ofTokens (next :: rest)) :=
  (accepted _ spelled _ _ _ (by simp) bound enough).whole 0 (Nat.zero_le _) (Nat.zero_le _)
    (leaves_of_plain noOperator noParen)

/-- There is a token that ends the statements. -/
theorem stmts_nonempty {stop : TokenKind} (ss : List Stmt) {tokens : List Token}
    (spelled : StmtsSpelled stop ss tokens) : tokens ≠ [] := by
  cases ss with
  | nil =>
    obtain ⟨semicolons, last, rfl, -⟩ := spelled
    simp
  | cons s ss =>
    obtain ⟨semicolons, own, rest, rfl, -, single, -⟩ := spelled
    obtain ⟨first, more, rfl, -⟩ := stmt_begins s single
    simp

private theorem ends_before_append {s : Stmt} {own rest more : List Token} (nonempty : rest ≠ [])
    (ends : s.EndsBefore own rest) : s.EndsBefore own (rest ++ more) := by
  obtain ⟨next, rest, rfl⟩ := List.exists_cons_of_ne_nil nonempty
  exact ends

/-- A loop over statements takes one semicolon or one statement a round. -/
structure StmtLoop (next : Parse Stmt) (loop : Nat → List Stmt → Parse (List Stmt)) : Prop where
  skips : ∀ {steps done token rest}, token.kind = .semicolon → rest ≠ [] →
    loop (steps + 1) done (.ofTokens (token :: rest)) = loop steps done (.ofTokens rest)
  reads : ∀ {steps done token rest s after}, token.kind ≠ .kwEnd → token.kind ≠ .eof →
    token.kind ≠ .semicolon → next (.ofTokens (token :: rest)) = .ok (s, after) →
    loop (steps + 1) done (.ofTokens (token :: rest)) = loop steps (s :: done) after

/-- The statements of a body are read up to its end. -/
theorem to_end_loop (next : Parse Stmt) (opener : Token) :
    StmtLoop next (statementsToEnd next opener) where
  skips := by
    intro steps done token rest kind more
    rw [statementsToEnd, bind_ok current_ok]
    simp only [kind]
    rw [bind_ok (discard_ok (advance_ok more))]
  reads := by
    intro steps done token rest s after notEnd notEof notSemicolon read
    rw [statementsToEnd, bind_ok current_ok]
    cases kind : token.kind <;> first | contradiction | exact bind_ok read

/-- The statements of a program are read up to the end of the text. -/
theorem to_eof_loop (next : Parse Stmt) : StmtLoop next (statementsToEof next) where
  skips := by
    intro steps done token rest kind more
    rw [statementsToEof, bind_ok current_ok]
    simp only [kind]
    rw [bind_ok (discard_ok (advance_ok more))]
  reads := by
    intro steps done token rest s after notEnd notEof notSemicolon read
    rw [statementsToEof, bind_ok current_ok]
    cases kind : token.kind <;> first | contradiction | exact bind_ok read

section Loops
variable {next : Parse Stmt} {loop : Nat → List Stmt → Parse (List Stmt)}

private theorem loop_skips (isLoop : StmtLoop next loop) (semicolons : List Token)
    (all : ∀ token ∈ semicolons, token.kind = .semicolon) (rest : List Token) (more : rest ≠ [])
    (steps : Nat) (done : List Stmt) :
    loop (steps + semicolons.length) done (.ofTokens (semicolons ++ rest)) =
      loop steps done (.ofTokens rest) := by
  induction semicolons with
  | nil => rfl
  | cons token semicolons ih =>
    rw [List.length_cons, ← Nat.add_assoc, List.cons_append,
      isLoop.skips (all token (by simp)) (by simp [more])]
    exact ih fun other member => all other (by simp [member])

/-- A loop over statements reads all of them and is left with a round for the
token that stops it. -/
theorem loop_reads {rounds room : Nat} {stop : TokenKind} {rest : List Token}
    (isLoop : StmtLoop (nestedIn rounds room).statement loop) (body : List Stmt)
    {block : List Token} (spelled : StmtsSpelled stop body block)
    (accepted : ∀ s ∈ body, StmtAccepted s) (bound : block.length ≤ rounds)
    (enough : stmtRoom block.length ≤ room) (steps : Nat) (enoughSteps : block.length ≤ steps)
    (done : List Stmt) :
    ∃ left last, last.kind = stop ∧ loop steps done (.ofTokens (block ++ rest)) =
      loop (left + 1) (body.reverse ++ done) (.ofTokens (last :: rest)) := by
  induction body generalizing block steps done with
  | nil =>
    obtain ⟨semicolons, last, rfl, all, isStop⟩ := spelled
    simp only [List.length_append, List.length_singleton] at enoughSteps
    refine ⟨steps - semicolons.length - 1, last, isStop, ?_⟩
    rw [List.append_assoc, List.singleton_append]
    have skipped := loop_skips isLoop semicolons all (last :: rest) (by simp)
      (steps - semicolons.length - 1 + 1) done
    rw [show steps - semicolons.length - 1 + 1 + semicolons.length = steps by omega] at skipped
    exact skipped
  | cons s body ih =>
    obtain ⟨semicolons, own, others, rfl, all, single, ends, spelled⟩ := spelled
    have othersNonempty := stmts_nonempty body spelled
    obtain ⟨first, more, rfl, begins⟩ := stmt_begins s single
    obtain ⟨notEnd, notEof, notSemicolon, -⟩ := begins_stmt_plain begins
    simp only [List.length_append, List.length_cons, stmtRoom, exprRoom, Room.perToken]
      at bound enough enoughSteps
    have positive : 0 < others.length := List.length_pos_iff.mpr othersNonempty
    have read := accepted s (by simp) _ single rounds room (others ++ rest)
      (by simp [othersNonempty]) (by simp only [List.length_cons]; omega)
      (by simp only [List.length_cons, stmtRoom, exprRoom, Room.perToken]; omega)
      (ends_before_append othersNonempty ends)
    obtain ⟨left, last, isStop, remaining⟩ := ih spelled
      (fun other member => accepted other (by simp [member])) (by omega)
      (by simp only [stmtRoom, exprRoom, Room.perToken]; omega)
      (steps - semicolons.length - 1) (by omega) (s :: done)
    refine ⟨left, last, isStop, ?_⟩
    rw [List.cons_append] at read
    have skipped := loop_skips isLoop semicolons all (first :: (more ++ (others ++ rest)))
      (by simp) (steps - semicolons.length - 1 + 1) done
    rw [show steps - semicolons.length - 1 + 1 + semicolons.length = steps by omega] at skipped
    rw [List.append_assoc, List.append_assoc, List.cons_append, skipped,
      isLoop.reads notEnd notEof notSemicolon read, remaining, List.reverse_cons,
      List.append_assoc, List.singleton_append]

end Loops

end BasilLang.Parsing
