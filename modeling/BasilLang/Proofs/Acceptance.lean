import BasilLang.Proofs.Parsing

/-! Every construct of the grammar is accepted by its parser. Each lemma takes
the acceptance of the parts and gives that of the whole, so that the theorem at
the end is nothing but the recursion over trees. -/
namespace BasilLang.Acceptance
open BasilLang.Parser Parsing

section Procs
variable {rounds room : Nat} {opener : Token} {rest : List Token}

/-- A block is read up to and including its `end`. -/
theorem block_ok {body : List Stmt} {tokens : List Token} {loc : Loc}
    (spelled : StmtsSpelled .kwEnd body tokens) (begins : BeginsAt tokens loc)
    (accepted : ∀ s ∈ body, StmtAccepted s) (bound : tokens.length ≤ rounds)
    (enough : stmtRoom tokens.length + Room.block ≤ room) (nonempty : rest ≠ []) :
    block (nestedIn rounds room) opener (.ofTokens (tokens ++ rest)) =
      .ok ((body, loc), .ofTokens rest) := by
  obtain ⟨left, last, isEnd, read⟩ := loop_reads (to_end_loop _ opener) body spelled
    accepted bound (Nat.le_sub_of_add_le enough) rounds bound []
  have whole : statementsToEnd (nestedIn rounds (room - Room.block)).statement opener rounds []
      (.ofTokens (tokens ++ rest)) = .ok (body, .ofTokens rest) := by
    rw [read, statementsToEnd, bind_ok current_ok]
    simp only [isEnd]
    rw [bind_ok (discard_ok (advance_ok nonempty)), List.append_nil, List.reverse_reverse]
    rfl
  obtain ⟨first, more, rfl, rfl⟩ := begins
  rw [block, List.cons_append, bind_ok current_ok, nested_after]
  rw [List.cons_append] at whole
  exact bind_ok whole

private theorem parameter_ok {mark : Mark} {tokens : List Token} (spelled : mark.Spelled tokens)
    (nonempty : rest ≠ []) :
    parameter (.ofTokens (tokens ++ rest)) = .ok (mark, .ofTokens rest) := by
  obtain ⟨token, rfl, kind, plain, rfl⟩ := spelled
  rw [parameter, List.singleton_append, bind_ok (expect_ok kind nonempty)]
  simp only [plain, Bool.false_eq_true, ↓reduceIte]
  rfl

private theorem parameter_begins {mark : Mark} {tokens : List Token}
    (spelled : mark.Spelled tokens) :
    ∃ first more, tokens = first :: more ∧ first.kind ≠ .rightParen := by
  obtain ⟨token, rfl, kind, -⟩ := spelled
  exact ⟨token, [], rfl, by simp [kind]⟩

/-- The parameters and the body of a proc are read after its name. -/
theorem proc_rest_ok {proc : Proc} {tokens : List Token} (spelled : proc.Spelled opener tokens)
    (accepted : ∀ s ∈ proc.body, StmtAccepted s) (bound : tokens.length ≤ rounds)
    (enough : Room.perToken * tokens.length ≤ room) (nonempty : rest ≠ []) :
    procRest (nestedIn rounds room) opener (.ofTokens (tokens ++ rest)) =
      .ok (proc, .ofTokens rest) := by
  obtain ⟨loc, params, paramsLoc, body, bodyLoc⟩ := proc
  obtain ⟨opening, inside, closing, header, block, rfl, rfl, opens, closes, ends, paramsBegin,
    listed, bodyBegins, spelled⟩ := spelled
  simp only [List.length_append, List.length_cons, Room.perToken] at bound enough
  have blockNonempty := stmts_nonempty body spelled
  have paramsRead : commaSeparated parameter rounds []
      (.ofTokens (inside ++ closing :: header :: (block ++ rest))) =
        .ok (params, .ofTokens (closing :: header :: (block ++ rest))) :=
    comma_separated_ok closes parameter_begins params listed [] (by omega)
      (fun mark _ _ _ _ single _ _ => parameter_ok single (by simp))
  have bodyRead : Parser.block (nestedIn rounds (room - Room.proc)) opener
      (.ofTokens (block ++ rest)) = .ok ((body, bodyLoc), .ofTokens rest) :=
    block_ok spelled bodyBegins accepted (by omega)
      (by simp only [stmtRoom, exprRoom, Room.perToken, Room.block, Room.proc]; omega) nonempty
  obtain ⟨start, others, startEq, rfl⟩ := paramsBegin
  have shifted : inside ++ closing :: header :: (block ++ rest) =
      start :: (others ++ header :: (block ++ rest)) := by
    simpa using congrArg (· ++ header :: (block ++ rest)) startEq
  simp only [List.append_assoc, List.cons_append]
  rw [procRest, bind_ok (discard_ok (expect_ok opens (by simp))), shifted, bind_ok current_ok, 
    ← shifted, nested_rounds, bind_ok paramsRead, bind_ok (discard_ok (expect_ok closes (by simp))),
    bind_ok (expect_then_ok ends (by simp [nonempty])), nested_after, bind_ok bodyRead]
  rfl

end Procs

section Exprs

private theorem literal_accepted (value : Value) (loc : Loc) :
    ExprAccepted (.literal value loc) := by
  intro tokens spelled rounds room rest nonempty bound enough
  obtain ⟨token, rfl, found, rfl⟩ := spelled
  refine accepted_of_primary ?_ nonempty enough fun _ => primary_literal nonempty found
  unfold Token.literal? at found
  split at found <;> cases found <;> (rename_i kind; rw [kind]; rfl)

private theorem identifier_accepted (name : Name) : ExprAccepted (.identifier name) := by
  intro tokens spelled rounds room rest nonempty bound enough
  obtain ⟨token, rfl, kind, rfl⟩ := spelled
  refine accepted_of_primary (by rw [kind]; rfl) nonempty enough fun leaves => ?_
  obtain ⟨next, rest, rfl⟩ := List.exists_cons_of_ne_nil nonempty
  exact primary_name kind ((leaves next rfl).2 token rfl kind)

private theorem group_accepted {inner : Expr} (loc : Loc) (accepted : ExprAccepted inner) :
    ExprAccepted (.group inner loc) := by
  intro tokens spelled rounds room rest nonempty bound enough
  obtain ⟨opening, inside, closing, rfl, opens, closes, rfl, inSpelled⟩ := spelled
  simp only [List.length_append, List.length_cons, List.length_nil, exprRoom, Room.perToken]
    at bound enough
  rw [List.cons_append]
  refine accepted_of_primary (by rw [opens]; rfl) nonempty
    (by simp only [exprRoom, Room.perToken]; omega) fun _ => ?_
  rw [List.cons_append, List.append_assoc, List.singleton_append]
  apply primary_group nonempty opens closes
  exact expression_ok accepted inSpelled (by omega)
    (by simp only [exprRoom, Room.perToken]; omega) (by rw [closes]; rfl) (by simp [closes])

private theorem unary_accepted {operand : Expr} (op : UnaryOp) (mark : Mark)
    (accepted : ExprAccepted operand) : ExprAccepted (.unary op mark operand) := by
  intro tokens spelled rounds room rest nonempty bound enough
  obtain ⟨token, others, rfl, found, rfl, tight, inSpelled⟩ := spelled
  simp only [List.length_cons, exprRoom, Room.perToken] at bound enough
  refine accepted_of_unary nonempty fun leaves => ?_
  have shorter : Leaves unaryLevel others rest := by
    intro next member
    obtain ⟨ops, touching⟩ := leaves next member
    refine ⟨ops, fun final isLast => touching final ?_⟩
    obtain ⟨first, more, rfl, -⟩ := expr_begins operand others inSpelled
    rwa [List.getLast?_cons_cons]
  have read := (accepted _ inSpelled rounds (room - 1) rest nonempty (by omega)
    (by simp only [exprRoom, Room.perToken]; omega)).whole unaryLevel tight (Nat.le_refl _) shorter
  rw [level_parser_unary] at read
  rw [nested_unary (by simp only [Room.levels, Room.work]; omega), unary, List.cons_append,
    bind_ok current_ok]
  simp only [found]
  rw [bind_ok (discard_ok (advance_ok (by simp [nonempty]))), Nat.sub_right_comm]
  exact bind_ok read

private theorem binary_accepted {left right : Expr} (op : BinaryOp) (mark : Mark)
    (leftAccepted : ExprAccepted left) (rightAccepted : ExprAccepted right) :
    ExprAccepted (.binary left op mark right) := by
  intro tokens spelled rounds room rest nonempty bound enough
  obtain ⟨before, token, after, rfl, found, rfl, looser, tighter, leftSpelled, rightSpelled⟩ :=
    spelled
  obtain ⟨first, more, afterEq, -⟩ := expr_begins right after rightSpelled
  have lengths : (before ++ token :: after).length = before.length + (after.length + 1) := by simp
  simp only [exprRoom, Room.perToken] at enough
  refine operation_accepted found looser tighter bound nonempty
    (leftAccepted _ leftSpelled _ _ _ (by simp) (by omega)
      (by simp only [exprRoom, Room.perToken]; omega))
    (rightAccepted _ rightSpelled _ _ _ nonempty (by omega)
      (by simp only [exprRoom, Room.perToken]; omega)) (by simp [afterEq])

private theorem call_accepted {args : List Expr} (callee : Name) (argsLoc : Loc)
    (accepted : ∀ e ∈ args, ExprAccepted e) : ExprAccepted (.call callee args argsLoc) := by
  intro tokens spelled rounds room rest nonempty bound enough
  obtain ⟨name, opening, inside, closing, rfl, isName, rfl, opens, touches, rfl, closes, listed⟩ :=
    spelled
  simp only [List.length_append, List.length_cons, List.length_nil, exprRoom, Room.perToken]
    at bound enough
  rw [List.cons_append, List.cons_append]
  refine accepted_of_primary (by rw [isName]; rfl) nonempty
    (by simp only [exprRoom, Room.perToken]; omega) fun _ => ?_
  simp only [List.cons_append, List.append_assoc, List.nil_append]
  apply primary_call nonempty isName opens touches closes
  have begins : ∀ {e : Expr} {tokens : List Token}, e.Spelled tokens →
      ∃ first more, tokens = first :: more ∧ first.kind ≠ .rightParen := by
    intro e tokens spelled
    obtain ⟨first, more, rfl, kind, -⟩ := expr_begins e tokens spelled
    refine ⟨first, more, rfl, fun same => ?_⟩
    simp [same, TokenKind.beginsExpr] at kind
  rw [nested_after]
  refine comma_separated_ok closes begins args ((exprs_spelled_iff_listed args inside).mp listed)
    [] (by simp only [nested_rounds]; omega) ?_
  intro e member own next more inSpelled shorter follows
  refine expression_ok (accepted e member) inSpelled (by omega) ?_ ?_ ?_
  · simp only [exprRoom, Room.perToken, Room.callList]
    omega
  · rcases follows with kind | kind <;> rw [kind] <;> rfl
  · rcases follows with kind | kind <;> simp [kind]

private theorem proc_accepted {proc : Proc} (accepted : ∀ s ∈ proc.body, StmtAccepted s) :
    ExprAccepted (.proc proc) := by
  intro tokens spelled rounds room rest nonempty bound enough
  obtain ⟨opener, others, rfl, isProc, inSpelled⟩ := spelled
  simp only [List.length_cons, exprRoom, Room.perToken] at bound enough
  refine accepted_of_primary (by rw [isProc]; rfl) nonempty
    (by simp only [exprRoom, Room.perToken]; omega) fun _ => ?_
  rw [List.cons_append]
  apply primary_proc isProc (by simp [nonempty])
  exact proc_rest_ok inSpelled accepted (by omega)
    (by simp only [Room.perToken]; omega) nonempty

end Exprs

section Stmts

private theorem following_some (cursor : Cursor) :
    followingKind cursor = .ok (cursor.next.current.kind, cursor) := rfl

private theorem work_lt {count room : Nat} (enough : stmtRoom (count + 1) ≤ room) :
    Room.work < room := by
  simp only [stmtRoom, exprRoom, Room.perToken] at enough
  simp only [Room.work]
  omega

private theorem statement_is_expression {nested : Nested} {first second : Token}
    {rest : List Token} (begins : first.kind.beginsExpr = true)
    (notSet : first.kind = .ident → second.kind ≠ .assign)
    (notNamed : first.kind = .kwProc → second.kind ≠ .ident) :
    statement nested (.ofTokens (first :: second :: rest)) =
      (do return Stmt.expr (← expression nested)) (.ofTokens (first :: second :: rest)) := by
  rw [statement, bind_ok current_ok, bind_ok following_ok]
  cases opening : first.kind <;> rw [opening] at begins <;> try contradiction
  case kwProc =>
    cases follows : second.kind <;> first | rfl | exact absurd follows (notNamed opening)
  case ident =>
    cases follows : second.kind <;> first | rfl | exact absurd follows (notSet opening)

private theorem expr_stmt_accepted {e : Expr} (accepted : ExprAccepted e) :
    StmtAccepted (.expr e) := by
  intro tokens spelled rounds room rest nonempty bound enough ends
  obtain ⟨leaves, next⟩ := ends rfl
  have read := (accepted _ spelled rounds (room - 1) rest nonempty bound
    (Nat.le_sub_of_add_le enough)).whole 0 (Nat.zero_le _) (Nat.zero_le _) leaves
  obtain ⟨first, more, rfl, kind, notAssign, isProc⟩ := expr_begins e tokens spelled
  obtain ⟨second, others, split⟩ := List.exists_cons_of_ne_nil
    (show more ++ rest ≠ [] by simp [nonempty])
  rw [List.cons_append, split] at read ⊢
  have notSet : first.kind = .ident → second.kind ≠ .assign := by
    intro isName
    cases more with
    | nil => exact (next second (by simp_all)).1
    | cons token more =>
      refine notAssign isName second ?_
      simp only [List.cons_append, List.cons.injEq] at split
      rw [split.1]
      rfl
  have notNamed : first.kind = .kwProc → second.kind ≠ .ident := by
    intro opens
    obtain ⟨token, others, rfl, paren⟩ := isProc opens
    simp only [List.cons_append, List.cons.injEq] at split
    rw [← split.1, paren]
    simp
  rw [nested_statement (work_lt enough), statement_is_expression kind notSet notNamed]
  exact bind_ok read

private theorem import_library_accepted (target : Mark) (loc : Loc) :
    StmtAccepted (.importLibrary target loc) := by
  intro tokens spelled rounds room rest nonempty bound enough _
  obtain ⟨opener, token, rfl, kind, rfl, targetKind, rfl⟩ := spelled
  simp only [List.cons_append, List.nil_append]
  rw [nested_statement (work_lt enough), statement, bind_ok current_ok, bind_ok following_ok]
  simp only [kind]
  rw [bind_ok (discard_ok (advance_ok (by simp))), importTarget, bind_ok current_ok]
  rcases targetKind with isName | isPath
  · simp only [isName]
    exact bind_ok (discard_ok (advance_ok nonempty))
  · simp only [isPath]
    exact bind_ok (discard_ok (advance_ok nonempty))

private theorem import_relative_accepted (target : Mark) (loc : Loc) :
    StmtAccepted (.importRelative target loc) := by
  intro tokens spelled rounds room rest nonempty bound enough _
  obtain ⟨opener, token, rfl, kind, rfl, isString, rfl⟩ := spelled
  simp only [List.cons_append, List.nil_append]
  rw [nested_statement (work_lt enough), statement, bind_ok current_ok, bind_ok following_ok]
  simp only [kind]
  rw [bind_ok (discard_ok (advance_ok (by simp))), importTarget, bind_ok current_ok]
  simp only [isString]
  exact bind_ok (discard_ok (advance_ok nonempty))

private theorem namespace_accepted {body : List Stmt} (name : Name) (bodyLoc loc : Loc)
    (accepted : ∀ s ∈ body, StmtAccepted s) :
    StmtAccepted (.inNamespace name body bodyLoc loc) := by
  intro tokens spelled rounds room rest nonempty bound enough _
  obtain ⟨opener, token, block, rfl, kind, rfl, isName, rfl, begins, spelled⟩ := spelled
  simp only [List.cons_append]
  rw [nested_statement (work_lt enough), statement, bind_ok current_ok, bind_ok following_ok]
  simp only [kind, nested_after]
  simp only [List.length_cons, stmtRoom, exprRoom, Room.perToken] at bound enough
  rw [bind_ok (discard_ok (advance_ok (by simp))), bind_ok (expect_ok isName (by simp [nonempty]))]
  refine bind_ok (block_ok spelled begins accepted (by omega) ?_ nonempty)
  simp only [stmtRoom, exprRoom, Room.perToken, Room.block, Room.statement]
  omega

private theorem value_ok {value : Expr} {own rest : List Token} {rounds room : Nat}
    (before : List Token) (accepted : ExprAccepted value) (spelled : value.Spelled own)
    (leaves : Leaves 0 (before ++ own) rest) (nonempty : rest ≠ [])
    (bound : own.length < rounds) (enough : exprRoom own.length ≤ room) :
    expression (nestedIn rounds room) (.ofTokens (own ++ rest)) = .ok (value, .ofTokens rest) := by
  refine (accepted _ spelled rounds room rest nonempty bound enough).whole 0 (Nat.zero_le _)
    (Nat.zero_le _) ?_
  intro next member
  obtain ⟨ops, touching⟩ := leaves next member
  refine ⟨ops, fun final isLast => touching final ?_⟩
  obtain ⟨start, others, rfl, -⟩ := expr_begins value own spelled
  rw [List.getLast?_append, isLast]
  rfl

private theorem declaration_ok {value : Expr} {keyword token equals : Token}
    {others rest : List Token} {rounds room : Nat} (accepted : ExprAccepted value)
    (spelled : value.Spelled others) (isName : token.kind = .ident)
    (isEquals : equals.kind = .assign)
    (leaves : Leaves 0 (keyword :: token :: equals :: others) rest) (nonempty : rest ≠ [])
    (bound : (keyword :: token :: equals :: others).length < rounds)
    (enough : stmtRoom (keyword :: token :: equals :: others).length ≤ room) :
    declaration (nestedIn rounds (room - 1 - Room.statement)) keyword
        (.ofTokens (token :: equals :: (others ++ rest))) =
      .ok ((nameOf token, value), .ofTokens rest) := by
  simp only [List.length_cons, stmtRoom, exprRoom, Room.perToken] at bound enough
  rw [declaration, bind_ok (expect_ok isName (by simp)),
    bind_ok (discard_ok (expect_ok isEquals (by simp [nonempty])))]
  refine bind_ok (value_ok [keyword, token, equals] accepted spelled leaves nonempty (by omega) ?_)
  simp only [exprRoom, Room.perToken, Room.statement]
  omega

private theorem let_accepted {value : Expr} (name : Name) (loc : Loc)
    (accepted : ExprAccepted value) :
    StmtAccepted (.letDecl name value loc) := by
  intro tokens spelled rounds room rest nonempty bound enough ends
  obtain ⟨opener, token, equals, others, rfl, kind, rfl, isName, rfl, isEquals, spelled⟩ := spelled
  simp only [List.cons_append]
  rw [nested_statement (work_lt enough), statement, bind_ok current_ok, bind_ok following_ok]
  simp only [kind, nested_after]
  rw [bind_ok (discard_ok (advance_ok (by simp)))]
  exact bind_ok (declaration_ok accepted spelled isName isEquals (ends rfl).1 nonempty bound
    enough)

private theorem const_accepted {value : Expr} (name : Name) (loc : Loc)
    (accepted : ExprAccepted value) :
    StmtAccepted (.constDecl name value loc) := by
  intro tokens spelled rounds room rest nonempty bound enough ends
  obtain ⟨opener, token, equals, others, rfl, kind, rfl, isName, rfl, isEquals, spelled⟩ := spelled
  simp only [List.cons_append]
  rw [nested_statement (work_lt enough), statement, bind_ok current_ok, bind_ok following_ok]
  simp only [kind, nested_after]
  rw [bind_ok (discard_ok (advance_ok (by simp)))]
  exact bind_ok (declaration_ok accepted spelled isName isEquals (ends rfl).1 nonempty bound
    enough)

private theorem set_accepted {value : Expr} (name : Name) (accepted : ExprAccepted value) :
    StmtAccepted (.set name value) := by
  intro tokens spelled rounds room rest nonempty bound enough ends
  obtain ⟨token, equals, others, rfl, isName, rfl, isEquals, spelled⟩ := spelled
  simp only [List.cons_append]
  rw [nested_statement (work_lt enough), statement, bind_ok current_ok, bind_ok following_ok]
  simp only [isName, isEquals, nested_after]
  simp only [List.length_cons, stmtRoom, exprRoom, Room.perToken] at bound enough
  rw [bind_ok (discard_ok (advance_ok (by simp))),
    bind_ok (discard_ok (advance_ok (by simp [nonempty])))]
  refine bind_ok (value_ok [token, equals] accepted spelled (ends rfl).1 nonempty (by omega) ?_)
  simp only [exprRoom, Room.perToken, Room.statement]
  omega

private theorem guarded_ok {condition : Expr} {body : List Stmt} {opener header : Token}
    {inside block rest : List Token} {bodyLoc : Loc} {rounds room : Nat}
    (conditionAccepted : ExprAccepted condition) (accepted : ∀ s ∈ body, StmtAccepted s)
    (ends : header.EndsHeader) (conditionSpelled : condition.Spelled inside)
    (begins : BeginsAt block bodyLoc) (spelled : StmtsSpelled .kwEnd body block)
    (nonempty : rest ≠ []) (bound : (opener :: inside ++ header :: block).length < rounds)
    (enough : stmtRoom (opener :: inside ++ header :: block).length ≤ room) :
    guarded (nestedIn rounds (room - 1 - Room.statement)) opener
        (.ofTokens (inside ++ header :: (block ++ rest))) =
      .ok ((condition, body, bodyLoc), .ofTokens rest) := by
  simp only [List.length_append, List.length_cons, stmtRoom, exprRoom, Room.perToken]
    at bound enough
  rw [guarded, bind_ok (expression_ok conditionAccepted conditionSpelled (by omega)
      (by simp only [exprRoom, Room.perToken, Room.statement]; omega)
      (by rcases ends with kind | kind <;> rw [kind] <;> rfl)
      (by rcases ends with kind | kind <;> simp [kind])),
    bind_ok (expect_then_ok ends (by simp [nonempty]))]
  refine bind_ok (block_ok spelled begins accepted (by omega) ?_ nonempty)
  simp only [stmtRoom, exprRoom, Room.perToken, Room.block, Room.statement]
  omega

private theorem if_accepted {condition : Expr} {body : List Stmt} (bodyLoc loc : Loc)
    (conditionAccepted : ExprAccepted condition) (accepted : ∀ s ∈ body, StmtAccepted s) :
    StmtAccepted (.ifThen condition body bodyLoc loc) := by
  intro tokens spelled rounds room rest nonempty bound enough _
  obtain ⟨opener, inside, header, block, rfl, kind, rfl, ends, conditionSpelled, begins, spelled⟩ :=
    spelled
  simp only [List.cons_append, List.append_assoc]
  rw [nested_statement (work_lt enough), statement, bind_ok current_ok, bind_ok (following_some _)]
  simp only [kind, nested_after]
  rw [bind_ok (discard_ok (advance_ok (by simp)))]
  exact bind_ok (guarded_ok conditionAccepted accepted ends conditionSpelled begins spelled
    nonempty bound enough)

private theorem while_accepted {condition : Expr} {body : List Stmt} (bodyLoc loc : Loc)
    (conditionAccepted : ExprAccepted condition) (accepted : ∀ s ∈ body, StmtAccepted s) :
    StmtAccepted (.whileTrue condition body bodyLoc loc) := by
  intro tokens spelled rounds room rest nonempty bound enough _
  obtain ⟨opener, inside, header, block, rfl, kind, rfl, ends, conditionSpelled, begins, spelled⟩ :=
    spelled
  simp only [List.cons_append, List.append_assoc]
  rw [nested_statement (work_lt enough), statement, bind_ok current_ok, bind_ok (following_some _)]
  simp only [kind, nested_after]
  rw [bind_ok (discard_ok (advance_ok (by simp)))]
  exact bind_ok (guarded_ok conditionAccepted accepted ends conditionSpelled begins spelled
    nonempty bound enough)

private theorem for_accepted {start stop : Expr} {body : List Stmt} (name : Name)
    (bodyLoc loc : Loc)
    (startAccepted : ExprAccepted start) (stopAccepted : ExprAccepted stop)
    (accepted : ∀ s ∈ body, StmtAccepted s) :
    StmtAccepted (.forRange name start stop body bodyLoc loc) := by
  intro tokens spelled rounds room rest nonempty bound enough _
  obtain ⟨opener, token, equals, first, middle, last, header, block, rfl, kind, rfl, isName, rfl,
    isEquals, startSpelled, isTo, stopSpelled, ends, begins, spelled⟩ := spelled
  simp only [List.cons_append, List.append_assoc]
  rw [nested_statement (work_lt enough), statement, bind_ok current_ok, bind_ok following_ok]
  simp only [kind, nested_after]
  simp only [List.length_append, List.length_cons, stmtRoom, exprRoom, Room.perToken]
    at bound enough
  rw [bind_ok (discard_ok (advance_ok (by simp))), bind_ok (expect_ok isName (by simp)),
    bind_ok (discard_ok (expect_ok isEquals (by simp))),
    bind_ok (expression_ok startAccepted startSpelled (by omega)
      (by simp only [exprRoom, Room.perToken, Room.statement]; omega) (by rw [isTo]; rfl)
      (by simp [isTo])),
    bind_ok (discard_ok (expect_ok isTo (by simp))),
    bind_ok (expression_ok stopAccepted stopSpelled (by omega)
      (by simp only [exprRoom, Room.perToken, Room.statement]; omega)
      (by rcases ends with kind | kind <;> rw [kind] <;> rfl)
      (by rcases ends with kind | kind <;> simp [kind])),
    bind_ok (expect_then_ok ends (by simp [nonempty]))]
  refine bind_ok (block_ok spelled begins accepted (by omega) ?_ nonempty)
  simp only [stmtRoom, exprRoom, Room.perToken, Room.block, Room.statement]
  omega

private theorem return_accepted {value : Expr} (loc : Loc) (accepted : ExprAccepted value) :
    StmtAccepted (.returning value loc) := by
  intro tokens spelled rounds room rest nonempty bound enough ends
  obtain ⟨leaves, follows⟩ := ends rfl
  obtain ⟨opener, others, rfl, kind, rfl, bare | spelled⟩ := spelled
  · obtain ⟨rfl, rfl⟩ := bare
    obtain ⟨next, rest, rfl⟩ := List.exists_cons_of_ne_nil nonempty
    simp only [List.cons_append, List.nil_append]
    rw [nested_statement (work_lt enough), statement, bind_ok current_ok, bind_ok following_ok]
    simp only [kind]
    rw [bind_ok (discard_ok (advance_ok (by simp))), returned]
    rcases (follows next rfl).2 rfl ⟨opener, by simp, kind⟩ with stop | stop | stop
    all_goals
      refine bind_ok ?_
      rw [bind_ok current_ok]
      simp only [stop]
      rfl
  · obtain ⟨first, more, rfl, begins, -⟩ := expr_begins value others spelled
    simp only [List.length_cons, stmtRoom, exprRoom, Room.perToken] at bound enough
    have read := value_ok [opener] accepted spelled leaves nonempty
      (show (first :: more).length < rounds by simp only [List.length_cons]; omega)
      (show exprRoom (first :: more).length ≤ room - 1 - Room.statement by
        simp only [List.length_cons, exprRoom, Room.perToken, Room.statement]; omega)
    simp only [List.cons_append] at read ⊢
    rw [nested_statement (by simp only [Room.work]; omega), statement, bind_ok current_ok,
      bind_ok following_ok]
    simp only [kind, nested_after]
    rw [bind_ok (discard_ok (advance_ok (by simp))), returned]
    refine bind_ok ?_
    rw [bind_ok current_ok]
    cases start : first.kind <;> rw [start] at begins <;> first | contradiction | exact read

private theorem proc_decl_accepted {proc : Proc} (name : Name)
    (accepted : ∀ s ∈ proc.body, StmtAccepted s) : StmtAccepted (.procDecl name proc) := by
  intro tokens spelled rounds room rest nonempty bound enough _
  obtain ⟨opener, token, others, rfl, kind, isName, rfl, spelled⟩ := spelled
  simp only [List.cons_append]
  rw [nested_statement (work_lt enough), statement, bind_ok current_ok, bind_ok following_ok]
  simp only [kind, isName]
  simp only [List.length_cons, stmtRoom, exprRoom, Room.perToken] at bound enough
  rw [bind_ok (discard_ok (advance_ok (by simp))), bind_ok (advance_ok (by simp [nonempty]))]
  refine bind_ok (proc_rest_ok spelled accepted (by omega) ?_ nonempty)
  simp only [Room.perToken]
  omega

end Stmts

mutual

/-- Every expression is accepted. -/
theorem expr_accepted : (e : Expr) → ExprAccepted e
  | .literal value loc => literal_accepted value loc
  | .identifier name => identifier_accepted name
  | .group inner loc => group_accepted loc (expr_accepted inner)
  | .unary op mark operand => unary_accepted op mark (expr_accepted operand)
  | .binary left op mark right =>
    binary_accepted op mark (expr_accepted left) (expr_accepted right)
  | .call callee args argsLoc => call_accepted callee argsLoc (exprs_accepted args)
  | .proc (.mk _ _ _ body _) => proc_accepted (stmts_accepted body)

private theorem exprs_accepted : (es : List Expr) → ∀ e ∈ es, ExprAccepted e
  | [] => by simp
  | e :: es => List.forall_mem_cons.mpr ⟨expr_accepted e, exprs_accepted es⟩

/-- Every statement is accepted. -/
theorem stmt_accepted : (s : Stmt) → StmtAccepted s
  | .expr e => expr_stmt_accepted (expr_accepted e)
  | .importLibrary target loc => import_library_accepted target loc
  | .importRelative target loc => import_relative_accepted target loc
  | .inNamespace name body bodyLoc loc => namespace_accepted name bodyLoc loc (stmts_accepted body)
  | .letDecl name value loc => let_accepted name loc (expr_accepted value)
  | .constDecl name value loc => const_accepted name loc (expr_accepted value)
  | .set name value => set_accepted name (expr_accepted value)
  | .ifThen condition body bodyLoc loc =>
    if_accepted bodyLoc loc (expr_accepted condition) (stmts_accepted body)
  | .forRange name start stop body bodyLoc loc =>
    for_accepted name bodyLoc loc (expr_accepted start) (expr_accepted stop) (stmts_accepted body)
  | .whileTrue condition body bodyLoc loc =>
    while_accepted bodyLoc loc (expr_accepted condition) (stmts_accepted body)
  | .returning value loc => return_accepted loc (expr_accepted value)
  | .procDecl name (.mk _ _ _ body _) => proc_decl_accepted name (stmts_accepted body)

private theorem stmts_accepted : (ss : List Stmt) → ∀ s ∈ ss, StmtAccepted s
  | [] => by simp
  | s :: ss => List.forall_mem_cons.mpr ⟨stmt_accepted s, stmts_accepted ss⟩

end

theorem run_ok {α : Type} {parser : Nested → Parse α} {room : Nat} {tokens : List Token}
    {result : α} {after : Cursor}
    (read : parser (nestedIn (tokens.length + 1) room) (.ofTokens tokens) = .ok (result, after)) :
    run parser room tokens = .ok result := by
  rw [nestedIn] at read
  rw [run, read]
  rfl

/-- The tokens of statements up to the end of input are the program of those
statements, in any room that is in proportion to the tokens. -/
theorem program_of_tokens_within {body : List Stmt} {tokens : List Token}
    (spelled : StmtsSpelled .eof body tokens) :
    ∃ file, ∀ room, stmtRoom tokens.length ≤ room →
      Program.ofTokensWithin room tokens = .ok ⟨file, body⟩ := by
  obtain ⟨first, more, rfl⟩ := List.exists_cons_of_ne_nil (stmts_nonempty body spelled)
  refine ⟨first.loc.file, fun room enough => ?_⟩
  generalize same : first :: more = tokens at spelled enough ⊢
  have whole : ∃ last, statementsToEof (nestedIn (tokens.length + 1) room).statement
      (tokens.length + 1) [] (.ofTokens (tokens ++ [])) = .ok (body, .ofTokens [last]) := by
    obtain ⟨left, last, isEof, read⟩ := loop_reads (to_eof_loop _) body spelled
      (stmts_accepted body) (Nat.le_succ _) enough (tokens.length + 1) (Nat.le_succ _) []
    refine ⟨last, ?_⟩
    rw [read, statementsToEof, bind_ok current_ok]
    simp only [isEof]
    rw [List.append_nil, List.reverse_reverse]
    rfl
  rw [List.append_nil] at whole
  obtain ⟨last, whole⟩ := whole
  subst same
  apply run_ok
  rw [program, bind_ok current_ok]
  exact bind_ok whole

/-- The tokens of statements up to the end of input are the program of those
statements. -/
theorem program_of_tokens {body : List Stmt} {tokens : List Token}
    (spelled : StmtsSpelled .eof body tokens) :
    ∃ file, Program.ofTokens tokens = .ok ⟨file, body⟩ := by
  obtain ⟨file, read⟩ := program_of_tokens_within spelled
  refine ⟨file, read _ ?_⟩
  simp only [stmtRoom, exprRoom, roomFor, Room.perToken, Room.work]
  omega

/-- The tokens of an expression, closed by the end of input, are read as the
expression. -/
theorem expression_of_tokens {e : Expr} {own : List Token} {last : Token}
    (spelled : e.Spelled own) (isEof : last.kind = .eof) :
    run expressionOnly (roomFor (own ++ [last])) (own ++ [last]) = .ok e := by
  have enough : exprRoom own.length ≤ roomFor (own ++ [last]) := by
    simp only [exprRoom, roomFor, Room.perToken, Room.work, List.length_append]
    omega
  apply run_ok
  rw [expressionOnly, bind_ok (expression_ok (expr_accepted e) spelled
    (by simp only [List.length_append]; omega) enough (by rw [isEof]; rfl) (by simp [isEof])),
    bind_ok current_ok]
  simp only [isEof, ↓reduceIte]
  rfl

end BasilLang.Acceptance
