import BasilLang.Proofs.Derivation

/-! The parser looks at the kinds and the texts of the tokens, and at whether an
opening parenthesis touches the name before it, and at nothing else. On two
lists of tokens that agree in these it goes in lockstep: it takes the same
number of tokens from both, and in the end gives back trees that differ in
their places only, or complains about tokens at the same index. -/
namespace BasilLang.Lockstep
open BasilLang.Parser Parsing BasilLang.Derivation

/-- Two lists of tokens side by side: the tokens of a pair are of one kind and
have one text, and where a parenthesis follows a name, it touches the name in
both lists or in none. -/
structure Matched (pairs : List (Token × Token)) : Prop where
  kind : ∀ pair ∈ pairs, pair.2.kind = pair.1.kind
  text : ∀ pair ∈ pairs, pair.2.text = pair.1.text
  touching : ∀ name opening more, name :: opening :: more <:+ pairs → name.1.kind = .ident →
    opening.1.kind = .leftParen → adjacent name.2 opening.2 = adjacent name.1 opening.1

/-- Both complaints are about the tokens of one pair, or both are about the
room. -/
def Rejects (pairs : List (Token × Token)) (failure failure' : Failure) : Prop :=
  (failure.fault = .parse .tooDeep ∧ failure'.fault = .parse .tooDeep) ∨
    ∃ pair ∈ pairs, failure.loc = some pair.1.loc ∧ failure'.loc = some pair.2.loc

/-- The tokens that are left, which are never none. -/
def Stands (pairs here : List (Token × Token)) : Prop :=
  here ≠ [] ∧ here <:+ pairs

/-- From the given pair on, two parsers go in lockstep, and what they give back
is related as given. -/
def WalksFrom {α : Type} (pairs here : List (Token × Token)) (same : α → α → Prop)
    (parser parser' : Parse α) : Prop :=
  match parser (.ofTokens (here.map Prod.fst)), parser' (.ofTokens (here.map Prod.snd)) with
  | .ok (a, after), .ok (a', after') => same a a' ∧ ∃ left, Stands pairs left ∧
      after = .ofTokens (left.map Prod.fst) ∧ after' = .ofTokens (left.map Prod.snd)
  | .error failure, .error failure' => Rejects pairs failure failure'
  | .ok _, .error _ | .error _, .ok _ => False

/-- From every pair on, two parsers go in lockstep. -/
def Walks {α : Type} (pairs : List (Token × Token)) (same : α → α → Prop)
    (parser parser' : Parse α) : Prop :=
  ∀ here, Stands pairs here → WalksFrom pairs here same parser parser'

/-- The tokens stand side by side. -/
def Twins (pairs : List (Token × Token)) (token token' : Token) : Prop :=
  (token, token') ∈ pairs

/-- Nothing is said about what is given back. -/
def anything {α : Type} : α → α → Prop := fun _ _ => True

section Rules
variable {α β : Type} {pairs here : List (Token × Token)} {same : α → α → Prop}
  {same' : β → β → Prop} {parser parser' : Parse α} {next next' : α → Parse β}

private theorem walks_pure {a a' : α} (holds : same a a') : Walks pairs same (pure a) (pure a') :=
  fun here stands => ⟨holds, here, stands, rfl, rfl⟩

private theorem WalksFrom.bind (first : WalksFrom pairs here same parser parser')
    (rest : ∀ a a', same a a' → Walks pairs same' (next a) (next' a')) :
    WalksFrom pairs here same' (parser >>= next) (parser' >>= next') := by
  unfold WalksFrom at first
  unfold WalksFrom
  split at first
  · next read read' =>
    obtain ⟨holds, left, stands, rfl, rfl⟩ := first
    rw [bind_ok read, bind_ok read']
    exact rest _ _ holds left stands
  · next failed failed' =>
    simp only [Bind.bind, StateT.bind, failed, failed', Except.bind]
    exact first
  · exact first.elim
  · exact first.elim

private theorem Walks.bind (first : Walks pairs same parser parser')
    (rest : ∀ a a', same a a' → Walks pairs same' (next a) (next' a')) :
    Walks pairs same' (parser >>= next) (parser' >>= next') :=
  fun here stands => (first here stands).bind rest

/-- A result that is thrown away. -/
theorem Walks.discard_bind {next next' : Unit → Parse β} (first : Walks pairs same parser parser')
    (rest : Walks pairs same' (next ()) (next' ())) :
    Walks pairs same' (discard parser >>= next) (discard parser' >>= next') := by
  rw [Derivation.discard_bind, Derivation.discard_bind]
  exact first.bind fun _ _ _ => rest

private theorem walks_from_current {pair : Token × Token} {more : List (Token × Token)}
    {next next' : Token → Parse β}
    (rest : WalksFrom pairs (pair :: more) same' (next pair.1) (next' pair.2)) :
    WalksFrom pairs (pair :: more) same' (current >>= next) (current >>= next') :=
  rest

private theorem walks_current {next next' : Token → Parse β}
    (rest : ∀ token token', Twins pairs token token' →
      Walks pairs same' (next token) (next' token')) :
    Walks pairs same' (current >>= next) (current >>= next') := by
  intro here stands
  obtain ⟨pair, more, rfl⟩ := List.exists_cons_of_ne_nil stands.1
  apply walks_from_current
  exact rest pair.1 pair.2 (stands.2.subset List.mem_cons_self) _ stands

private theorem stands_tail {pair second : Token × Token} {more : List (Token × Token)}
    (stands : Stands pairs (pair :: second :: more)) : Stands pairs (second :: more) :=
  ⟨nofun, (List.suffix_cons pair _).trans stands.2⟩

private theorem walks_advance : Walks pairs (Twins pairs) advance advance := by
  intro here stands
  obtain ⟨pair, more, rfl⟩ := List.exists_cons_of_ne_nil stands.1
  have twins : Twins pairs pair.1 pair.2 := stands.2.subset List.mem_cons_self
  cases more with
  | nil => exact ⟨twins, [pair], stands, rfl, rfl⟩
  | cons second more => exact ⟨twins, second :: more, stands_tail stands, rfl, rfl⟩

private theorem walks_following (matched : Matched pairs) {next next' : TokenKind → Parse β}
    (rest : ∀ kind, Walks pairs same' (next kind) (next' kind)) :
    Walks pairs same' (followingKind >>= next) (followingKind >>= next') := by
  intro here stands
  obtain ⟨pair, more, rfl⟩ := List.exists_cons_of_ne_nil stands.1
  cases more with
  | nil =>
    have kinds := matched.kind pair (stands.2.subset (by simp))
    change WalksFrom pairs [pair] same' (next pair.1.kind) (next' pair.2.kind)
    rw [kinds]
    exact rest pair.1.kind _ stands
  | cons second more =>
    have kinds := matched.kind second (stands.2.subset (by simp))
    change WalksFrom pairs (pair :: second :: more) same' (next second.1.kind)
      (next' second.2.kind)
    rw [kinds]
    exact rest second.1.kind _ stands

private theorem walks_fail {token token' : Token} (twins : Twins pairs token token')
    (fault fault' : ParseFault) : Walks pairs same (failAt token fault) (failAt token' fault') :=
  fun _ _ => .inr ⟨(token, token'), twins, rfl, rfl⟩

private theorem walks_out_of_room : Walks pairs same outOfRoom outOfRoom :=
  fun _ _ => .inl ⟨rfl, rfl⟩

private theorem walks_expect (matched : Matched pairs) (kind : TokenKind)
    (fault fault' : Found → ParseFault) :
    Walks pairs (Twins pairs) (expect kind fault) (expect kind fault') := by
  apply walks_current
  intro token token' twins
  rw [matched.kind _ twins]
  by_cases expected : token.kind = kind
  · rw [if_pos expected, if_pos expected]
    exact walks_advance
  · rw [if_neg expected, if_neg expected]
    exact walks_fail twins _ _

private theorem walks_expect_then (matched : Matched pairs) (opener opener' : Token) :
    Walks pairs anything (expectThen opener) (expectThen opener') := by
  apply walks_current
  intro token token' twins
  rw [matched.kind _ twins]
  by_cases ends : (token.kind = .kwThen || token.kind = .colon) = true
  · rw [if_pos ends, if_pos ends, ← bind_pure (discard advance)]
    exact walks_advance.discard_bind (walks_pure trivial)
  · rw [if_neg ends, if_neg ends]
    exact walks_fail twins _ _

end Rules

/-- The nested parsers go in lockstep with themselves, whatever the room. -/
structure InStep (pairs : List (Token × Token)) (nested : Nested) : Prop where
  unary : ∀ units, Walks pairs Expr.Alike (nested.parsers units).unary
    (nested.parsers units).unary
  statement : ∀ units, Walks pairs Stmt.Alike (nested.parsers units).statement
    (nested.parsers units).statement

section Expressions
variable {pairs : List (Token × Token)} {nested : Nested} {token token' : Token}

private theorem InStep.after (inStep : InStep pairs nested) (units : Nat) :
    InStep pairs (nested.after units) :=
  ⟨fun more => inStep.unary (more + units), fun more => inStep.statement (more + units)⟩

private theorem mark_unplaced (matched : Matched pairs) (twins : Twins pairs token token') :
    (markOf token).unplaced = (markOf token').unplaced := by
  have text : token'.text = token.text := matched.text _ twins
  rw [markOf, markOf, text]
  rfl

private theorem name_unplaced (matched : Matched pairs) (twins : Twins pairs token token') :
    (nameOf token).unplaced = (nameOf token').unplaced := by
  have text : token'.text = token.text := matched.text _ twins
  rw [nameOf, nameOf, text]
  rfl

private theorem join_walks (matched : Matched pairs) {level : Nat} {operand : Parse Expr}
    (operands : Walks pairs Expr.Alike operand operand) (steps : Nat) (left left' : Expr)
    (sameLeft : left.Alike left') :
    Walks pairs Expr.Alike (joinLevel level operand steps left)
      (joinLevel level operand steps left') := by
  induction steps generalizing left left' with
  | zero => exact walks_pure sameLeft
  | succ steps ih =>
    apply walks_current
    intro token token' twins
    rw [matched.kind _ twins]
    cases BinaryOp.ofKind? token.kind with
    | none => exact walks_pure sameLeft
    | some op =>
      dsimp only
      split
      · apply walks_advance.discard_bind
        apply operands.bind
        intro right right' sameRight
        apply ih
        simp only [Expr.Alike, Expr.unplaced] at sameLeft sameRight ⊢
        rw [sameLeft, sameRight, mark_unplaced matched twins]
      · exact walks_pure sameLeft

private theorem expression_walks (matched : Matched pairs) (inStep : InStep pairs nested) :
    Walks pairs Expr.Alike (expression nested) (expression nested) := by
  have levels : ∀ levels : List Nat, Walks pairs Expr.Alike
      (levels.foldr (atLevel nested.rounds) (nested.after Room.levels).unary)
      (levels.foldr (atLevel nested.rounds) (nested.after Room.levels).unary) := by
    intro levels
    induction levels with
    | nil => exact (inStep.after Room.levels).unary 0
    | cons level levels ih =>
      apply ih.bind
      intro left left' same
      exact join_walks matched ih nested.rounds left left' same
  exact levels [0, 1, 2, 3, 4, 5]

private theorem comma_separated_walks {α γ : Type} (matched : Matched pairs) {view : α → γ}
    {item : Parse α} (items : Walks pairs (fun a a' => view a = view a') item item) (steps : Nat)
    (done done' : List α) (same : done.map view = done'.map view) :
    Walks pairs (fun as as' => as.map view = as'.map view) (commaSeparated item steps done)
      (commaSeparated item steps done') := by
  have reversed : ∀ {done done' : List α}, done.map view = done'.map view →
      done.reverse.map view = done'.reverse.map view := by
    intro done done' same
    rw [List.map_reverse, List.map_reverse, same]
  induction steps generalizing done done' with
  | zero => exact walks_pure (reversed same)
  | succ steps ih =>
    apply walks_current
    intro token token' twins
    rw [matched.kind _ twins]
    split
    · exact walks_pure (reversed same)
    · apply items.bind
      intro next next' sameNext
      have longer : (next :: done).map view = (next' :: done').map view := by
        rw [List.map_cons, List.map_cons, sameNext, same]
      apply walks_current
      intro token token' twins
      rw [matched.kind _ twins]
      split
      · apply walks_advance.discard_bind
        exact ih (next :: done) (next' :: done') longer
      · exact walks_pure (reversed longer)

end Expressions

section Blocks
variable {pairs : List (Token × Token)} {nested : Nested} {opener opener' : Token}

private theorem reversed {done done' : List Stmt} (same : AlikeStmts done done') :
    AlikeStmts done.reverse done'.reverse := by
  simp only [AlikeStmts, unplacedStmts_eq_map, List.map_reverse] at same ⊢
  rw [same]

private theorem longer {s s' : Stmt} {done done' : List Stmt} (sameStmt : s.Alike s')
    (same : AlikeStmts done done') : AlikeStmts (s :: done) (s' :: done') := by
  simp only [Stmt.Alike, AlikeStmts, unplacedStmts] at sameStmt same ⊢
  rw [sameStmt, same]

private theorem to_end_walks (matched : Matched pairs) {next : Parse Stmt}
    (statements : Walks pairs Stmt.Alike next next) (opened : Twins pairs opener opener')
    (steps : Nat) (done done' : List Stmt) (same : AlikeStmts done done') :
    Walks pairs AlikeStmts (statementsToEnd next opener steps done)
      (statementsToEnd next opener' steps done') := by
  induction steps generalizing done done' with
  | zero => exact walks_out_of_room
  | succ steps ih =>
    have reads : Walks pairs AlikeStmts
        (next >>= fun s => statementsToEnd next opener steps (s :: done))
        (next >>= fun s => statementsToEnd next opener' steps (s :: done')) :=
      statements.bind fun s s' sameStmt => ih (s :: done) (s' :: done') (longer sameStmt same)
    apply walks_current
    intro token token' twins
    rw [matched.kind _ twins]
    cases token.kind
    case kwEnd => exact walks_advance.discard_bind (walks_pure (reversed same))
    case eof => exact walks_fail opened _ _
    case semicolon => exact walks_advance.discard_bind (ih done done' same)
    all_goals exact reads

private theorem to_eof_walks (matched : Matched pairs) {next : Parse Stmt}
    (statements : Walks pairs Stmt.Alike next next) (steps : Nat) (done done' : List Stmt)
    (same : AlikeStmts done done') :
    Walks pairs AlikeStmts (statementsToEof next steps done) (statementsToEof next steps done') := by
  induction steps generalizing done done' with
  | zero => exact walks_out_of_room
  | succ steps ih =>
    have reads : Walks pairs AlikeStmts
        (next >>= fun s => statementsToEof next steps (s :: done))
        (next >>= fun s => statementsToEof next steps (s :: done')) :=
      statements.bind fun s s' sameStmt => ih (s :: done) (s' :: done') (longer sameStmt same)
    apply walks_current
    intro token token' twins
    rw [matched.kind _ twins]
    cases token.kind
    case eof => exact walks_pure (reversed same)
    case semicolon => exact walks_advance.discard_bind (ih done done' same)
    all_goals exact reads

private theorem block_walks (matched : Matched pairs) (inStep : InStep pairs nested)
    (opened : Twins pairs opener opener') :
    Walks pairs (fun result result' => AlikeStmts result.1 result'.1) (block nested opener)
      (block nested opener') := by
  apply walks_current
  intro start start' _
  have statements := (inStep.after Room.block).statement 0
  apply (to_end_walks matched statements opened nested.rounds [] [] rfl).bind
  intro body body' same
  exact walks_pure same

private theorem parameter_walks (matched : Matched pairs) :
    Walks pairs (fun mark mark' => mark.unplaced = mark'.unplaced) parameter parameter := by
  apply (walks_expect matched .ident .missingParameter .missingParameter).bind
  intro token token' twins
  rw [matched.text _ twins]
  by_cases dotted : Path.isDotted token.text = true
  · simp only [dotted, ↓reduceIte]
    exact walks_fail twins _ _
  · simp only [dotted, Bool.false_eq_true, ↓reduceIte]
    exact walks_pure (mark_unplaced matched twins)

private theorem proc_rest_walks (matched : Matched pairs) (inStep : InStep pairs nested)
    (opened : Twins pairs opener opener') :
    Walks pairs Proc.Alike (procRest nested opener) (procRest nested opener') := by
  apply (walks_expect matched _ _ _).discard_bind
  apply walks_current
  intro start start' _
  apply (comma_separated_walks matched (parameter_walks matched) nested.rounds [] [] rfl).bind
  intro params params' sameParams
  apply (walks_expect matched _ _ _).discard_bind
  apply (walks_expect_then matched opener opener').bind
  intro _ _ _
  apply (block_walks matched (inStep.after Room.proc) opened).bind
  intro result result' sameBody
  apply walks_pure
  simp only [AlikeStmts] at sameBody
  simp only [Proc.Alike, Proc.unplaced, sameParams, sameBody]

end Blocks

section Primaries
variable {pairs : List (Token × Token)} {nested : Nested} {token token' : Token}

private theorem literal_walks (matched : Matched pairs) (twins : Twins pairs token token')
    (kind : Kind) :
    Walks pairs Expr.Alike (discard advance >>= fun _ => pure (.literal ⟨kind, token.text⟩ token.loc))
      (discard advance >>= fun _ => pure (.literal ⟨kind, token'.text⟩ token'.loc)) := by
  rw [matched.text _ twins]
  exact walks_advance.discard_bind (walks_pure rfl)

private theorem name_or_call_walks (matched : Matched pairs) (inStep : InStep pairs nested)
    (twins : Twins pairs token token') {here : List (Token × Token)} (stands : Stands pairs here)
    (touching : ∀ opening ∈ here.head?, opening.1.kind = .leftParen →
      adjacent token' opening.2 = adjacent token opening.1) :
    WalksFrom pairs here Expr.Alike (nameOrCall nested token) (nameOrCall nested token') := by
  obtain ⟨opening, more, rfl⟩ := List.exists_cons_of_ne_nil stands.1
  have sameName : (nameOf token).unplaced = (nameOf token').unplaced := name_unplaced matched twins
  have plain : Walks pairs Expr.Alike (pure (.identifier (nameOf token)))
      (pure (.identifier (nameOf token'))) := by
    apply walks_pure
    rw [Expr.Alike, Expr.unplaced, Expr.unplaced, sameName]
  apply walks_from_current
  rw [matched.kind opening (stands.2.subset List.mem_cons_self)]
  by_cases opens : opening.1.kind = .leftParen
  · rw [touching opening rfl opens]
    by_cases touches : adjacent token opening.1 = true
    · simp only [opens, touches, decide_true, Bool.and_self, ↓reduceIte]
      have arguments := comma_separated_walks matched
        (expression_walks matched (inStep.after Room.callList)) nested.rounds [] [] rfl
      refine walks_advance.discard_bind (arguments.bind fun args args' sameArgs => ?_) _ stands
      apply (walks_expect matched _ _ _).discard_bind
      apply walks_pure
      rw [Expr.Alike, Expr.unplaced, Expr.unplaced, unplacedExprs_eq_map, unplacedExprs_eq_map,
        sameArgs, sameName]
    · simp only [touches, Bool.and_false, Bool.false_eq_true, ↓reduceIte]
      exact plain _ stands
  · simp only [opens, decide_false, Bool.false_and, Bool.false_eq_true, ↓reduceIte]
    exact plain _ stands

private theorem name_walks (matched : Matched pairs) (inStep : InStep pairs nested)
    {pair : Token × Token} {more : List (Token × Token)} (stands : Stands pairs (pair :: more))
    (isName : pair.1.kind = .ident) :
    WalksFrom pairs (pair :: more) Expr.Alike
      (discard advance >>= fun _ => nameOrCall nested pair.1)
      (discard advance >>= fun _ => nameOrCall nested pair.2) := by
  have twins : Twins pairs pair.1 pair.2 := stands.2.subset List.mem_cons_self
  rw [Derivation.discard_bind, Derivation.discard_bind]
  -- The last token stays where it is, so a name at the very end is its own follower.
  cases more with
  | nil =>
    have inside := name_or_call_walks matched inStep twins stands (by
      intro opening member opens
      obtain rfl : pair = opening := by simpa using member
      simp [isName] at opens)
    exact inside
  | cons second more =>
    have inside := name_or_call_walks matched inStep twins (stands_tail stands) (by
      intro opening member opens
      obtain rfl : second = opening := by simpa using member
      exact matched.touching pair second more stands.2 isName opens)
    exact inside

private theorem primary_walks (matched : Matched pairs) (inStep : InStep pairs nested) :
    Walks pairs Expr.Alike (primary nested) (primary nested) := by
  intro here stands
  obtain ⟨pair, more, rfl⟩ := List.exists_cons_of_ne_nil stands.1
  have twins : Twins pairs pair.1 pair.2 := stands.2.subset List.mem_cons_self
  apply walks_from_current
  rw [matched.kind _ twins]
  cases kind : pair.1.kind
  case number => exact literal_walks matched twins _ _ stands
  case string => exact literal_walks matched twins _ _ stands
  case kwTrue => exact literal_walks matched twins _ _ stands
  case kwFalse => exact literal_walks matched twins _ _ stands
  case kwNull => exact literal_walks matched twins _ _ stands
  case leftParen =>
    refine walks_advance.discard_bind ((expression_walks matched inStep).bind
      fun inner inner' sameInner => ?_) _ stands
    apply (walks_expect matched _ _ _).discard_bind
    apply walks_pure
    simp only [Expr.Alike, Expr.unplaced] at sameInner ⊢
    rw [sameInner]
  case kwProc =>
    refine walks_advance.discard_bind ((proc_rest_walks matched inStep twins).bind
      fun proc proc' sameProc => ?_) _ stands
    apply walks_pure
    rw [Proc.Alike] at sameProc
    rw [Expr.Alike, Expr.unplaced, Expr.unplaced, sameProc]
  case ident => exact name_walks matched inStep stands kind
  all_goals exact walks_fail twins _ _ _ stands

private theorem unary_walks (matched : Matched pairs) (inStep : InStep pairs nested) :
    Walks pairs Expr.Alike (unary nested) (unary nested) := by
  apply walks_current
  intro token token' twins
  rw [matched.kind _ twins]
  cases UnaryOp.ofKind? token.kind with
  | some op =>
    apply walks_advance.discard_bind
    apply Walks.bind (inStep.unary 0)
    intro operand operand' sameOperand
    apply walks_pure
    simp only [Expr.Alike, Expr.unplaced] at sameOperand ⊢
    rw [sameOperand, mark_unplaced matched twins]
  | none => exact primary_walks matched (inStep.after Room.operand)

end Primaries

section Statements
variable {pairs : List (Token × Token)} {nested : Nested} {token token' : Token}

private theorem import_walks (matched : Matched pairs) (opener opener' : Token) :
    Walks pairs Stmt.Alike (importTarget opener) (importTarget opener') := by
  apply walks_current
  intro token token' twins
  have target := mark_unplaced matched twins
  have library : Walks pairs Stmt.Alike
      (discard advance >>= fun _ => pure (.importLibrary (markOf token) opener.loc))
      (discard advance >>= fun _ => pure (.importLibrary (markOf token') opener'.loc)) := by
    apply walks_advance.discard_bind
    apply walks_pure
    rw [Stmt.Alike, Stmt.unplaced, Stmt.unplaced, target]
  rw [matched.kind _ twins]
  cases token.kind
  case ident => exact library
  case libraryPath => exact library
  case string =>
    apply walks_advance.discard_bind
    apply walks_pure
    rw [Stmt.Alike, Stmt.unplaced, Stmt.unplaced, target]
  all_goals exact walks_fail twins _ _

private theorem declaration_walks (matched : Matched pairs) (inStep : InStep pairs nested)
    (keyword keyword' : Token) :
    Walks pairs (fun result result' => result.1.unplaced = result'.1.unplaced ∧
      Expr.Alike result.2 result'.2) (declaration nested keyword) (declaration nested keyword') := by
  apply (walks_expect matched _ _ _).bind
  intro name name' twins
  apply (walks_expect matched _ _ _).discard_bind
  apply (expression_walks matched inStep).bind
  intro value value' sameValue
  exact walks_pure ⟨name_unplaced matched twins, sameValue⟩

private theorem guarded_walks (matched : Matched pairs) (inStep : InStep pairs nested)
    (opened : Twins pairs token token') :
    Walks pairs (fun result result' => Expr.Alike result.1 result'.1 ∧
      AlikeStmts result.2.1 result'.2.1) (guarded nested token) (guarded nested token') := by
  apply (expression_walks matched inStep).bind
  intro condition condition' sameCondition
  apply (walks_expect_then matched token token').bind
  intro _ _ _
  apply (block_walks matched inStep opened).bind
  intro result result' sameBody
  exact walks_pure ⟨sameCondition, sameBody⟩

private theorem returned_walks (matched : Matched pairs) (inStep : InStep pairs nested)
    (opener opener' : Token) :
    Walks pairs Expr.Alike (returned nested opener) (returned nested opener') := by
  apply walks_current
  intro token token' twins
  rw [matched.kind _ twins]
  cases token.kind
  case kwEnd => exact walks_pure rfl
  case semicolon => exact walks_pure rfl
  case eof => exact walks_pure rfl
  all_goals exact expression_walks matched inStep

private theorem namespace_walks (matched : Matched pairs) (inStep : InStep pairs nested)
    (opened : Twins pairs token token') :
    Walks pairs Stmt.Alike
      (do
        let name ← expect .ident .missingNamespaceName
        let (body, bodyLoc) ← block nested token
        return .inNamespace (nameOf name) body bodyLoc token.loc)
      (do
        let name ← expect .ident .missingNamespaceName
        let (body, bodyLoc) ← block nested token'
        return .inNamespace (nameOf name) body bodyLoc token'.loc) := by
  apply (walks_expect matched _ _ _).bind
  intro name name' twins
  apply (block_walks matched inStep opened).bind
  intro result result' sameBody
  apply walks_pure
  simp only [AlikeStmts] at sameBody
  simp only [Stmt.Alike, Stmt.unplaced, name_unplaced matched twins, sameBody]

private theorem for_walks (matched : Matched pairs) (inStep : InStep pairs nested)
    (opened : Twins pairs token token') :
    Walks pairs Stmt.Alike
      (do
        let name ← expect .ident .missingLoopVariable
        discard <| expect .assign .missingLoopStart
        let start ← expression nested
        discard <| expect .kwTo .missingLoopStop
        let stop ← expression nested
        expectThen token
        let (body, bodyLoc) ← block nested token
        return .forRange (nameOf name) start stop body bodyLoc token.loc)
      (do
        let name ← expect .ident .missingLoopVariable
        discard <| expect .assign .missingLoopStart
        let start ← expression nested
        discard <| expect .kwTo .missingLoopStop
        let stop ← expression nested
        expectThen token'
        let (body, bodyLoc) ← block nested token'
        return .forRange (nameOf name) start stop body bodyLoc token'.loc) := by
  apply (walks_expect matched _ _ _).bind
  intro name name' twins
  apply (walks_expect matched _ _ _).discard_bind
  apply (expression_walks matched inStep).bind
  intro start start' sameStart
  apply (walks_expect matched _ _ _).discard_bind
  apply (expression_walks matched inStep).bind
  intro stop stop' sameStop
  apply (walks_expect_then matched token token').bind
  intro _ _ _
  apply (block_walks matched inStep opened).bind
  intro result result' sameBody
  apply walks_pure
  simp only [AlikeStmts, Expr.Alike] at sameBody sameStart sameStop
  simp only [Stmt.Alike, Stmt.unplaced, name_unplaced matched twins, sameStart, sameStop, sameBody]

private theorem statement_walks (matched : Matched pairs) (inStep : InStep pairs nested) :
    Walks pairs Stmt.Alike (statement nested) (statement nested) := by
  have inside := inStep.after Room.statement
  apply walks_current
  intro token token' twins
  apply walks_following matched
  intro following
  have plain : Walks pairs Stmt.Alike (do return .expr (← expression nested))
      (do return .expr (← expression nested)) := by
    apply (expression_walks matched inStep).bind
    intro e e' same
    apply walks_pure
    simp only [Expr.Alike] at same
    rw [Stmt.Alike, Stmt.unplaced, Stmt.unplaced, same]
  rw [matched.kind _ twins]
  cases token.kind
  case kwImport => exact walks_advance.discard_bind (import_walks matched token token')
  case kwNamespace => exact walks_advance.discard_bind (namespace_walks matched inside twins)
  case kwLet =>
    apply walks_advance.discard_bind
    apply (declaration_walks matched inside token token').bind
    intro result result' same
    apply walks_pure
    simp only [Expr.Alike] at same
    simp only [Stmt.Alike, Stmt.unplaced, same.1, same.2]
  case kwConst =>
    apply walks_advance.discard_bind
    apply (declaration_walks matched inside token token').bind
    intro result result' same
    apply walks_pure
    simp only [Expr.Alike] at same
    simp only [Stmt.Alike, Stmt.unplaced, same.1, same.2]
  case kwIf =>
    apply walks_advance.discard_bind
    apply (guarded_walks matched inside twins).bind
    intro result result' same
    apply walks_pure
    simp only [Expr.Alike, AlikeStmts] at same
    simp only [Stmt.Alike, Stmt.unplaced, same.1, same.2]
  case kwFor => exact walks_advance.discard_bind (for_walks matched inside twins)
  case kwWhile =>
    apply walks_advance.discard_bind
    apply (guarded_walks matched inside twins).bind
    intro result result' same
    apply walks_pure
    simp only [Expr.Alike, AlikeStmts] at same
    simp only [Stmt.Alike, Stmt.unplaced, same.1, same.2]
  case kwReturn =>
    apply walks_advance.discard_bind
    apply (returned_walks matched inside token token').bind
    intro value value' same
    apply walks_pure
    simp only [Expr.Alike] at same
    simp only [Stmt.Alike, Stmt.unplaced, same]
  case kwProc =>
    by_cases named : following = .ident
    · subst named
      apply walks_advance.discard_bind
      apply walks_advance.bind
      intro name name' twinNames
      apply (proc_rest_walks matched inStep twins).bind
      intro proc proc' same
      apply walks_pure
      simp only [Proc.Alike] at same
      simp only [Stmt.Alike, Stmt.unplaced, name_unplaced matched twinNames, same]
    · cases following
      case ident => exact absurd rfl named
      all_goals exact plain
  case ident =>
    by_cases assigned : following = .assign
    · subst assigned
      apply walks_advance.discard_bind
      apply walks_advance.discard_bind
      apply (expression_walks matched inside).bind
      intro value value' same
      apply walks_pure
      simp only [Expr.Alike] at same
      simp only [Stmt.Alike, Stmt.unplaced, name_unplaced matched twins, same]
    · cases following
      case assign => exact absurd rfl assigned
      all_goals exact plain
  all_goals exact plain

end Statements

section Programs
variable {pairs : List (Token × Token)}

/-- One level of nesting after another, the parsers go in lockstep. -/
theorem nested_in_step (matched : Matched pairs) (rounds room : Nat) :
    InStep pairs (nestedIn rounds room) := by
  -- A level of nesting uses the parsers of all smaller rooms, hence both kinds at once.
  have both : ∀ units, Walks pairs Expr.Alike (within rounds room units).unary
      (within rounds room units).unary ∧ Walks pairs Stmt.Alike (within rounds room units).statement
      (within rounds room units).statement := by
    induction room with
    | zero => exact fun _ => ⟨walks_out_of_room, walks_out_of_room⟩
    | succ room ih =>
      intro units
      cases units with
      | succ units => exact ih units
      | zero =>
        have inStep : InStep pairs ⟨rounds, within rounds room⟩ :=
          ⟨fun units => (ih units).1, fun units => (ih units).2⟩
        by_cases tight : room < Room.work
        · simp only [within, if_pos tight]
          exact ⟨walks_out_of_room, walks_out_of_room⟩
        · simp only [within, if_neg tight]
          exact ⟨unary_walks matched inStep, statement_walks matched inStep⟩
  exact ⟨fun units => (both units).1, fun units => (both units).2⟩

/-- Whole programs: the trees differ in their places only, or the complaints are
about the tokens of one pair. -/
theorem programs_in_step (matched : Matched pairs) (nonempty : pairs ≠ []) (room : Nat) :
    match Program.ofTokensWithin room (pairs.map Prod.fst),
      Program.ofTokensWithin room (pairs.map Prod.snd) with
    | .ok program, .ok program' => AlikeStmts program.body program'.body
    | .error failure, .error failure' => Rejects pairs failure failure'
    | .ok _, .error _ | .error _, .ok _ => False := by
  let nested := nestedIn (pairs.length + 1) room
  have inStep : InStep pairs nested := nested_in_step matched _ room
  have whole : Walks pairs (fun program program' => AlikeStmts program.body program'.body)
      (program nested) (program nested) := by
    apply walks_current
    intro start start' _
    apply (to_eof_walks matched (inStep.statement 0) nested.rounds [] [] rfl).bind
    intro body body' same
    exact walks_pure same
  have here := whole pairs ⟨nonempty, List.suffix_rfl⟩
  simp only [Program.ofTokensWithin, run, List.length_map]
  unfold WalksFrom at here
  change match (·.1) <$> program nested _, (·.1) <$> program nested _ with
    | .ok program, .ok program' => AlikeStmts program.body program'.body
    | .error failure, .error failure' => Rejects pairs failure failure'
    | .ok _, .error _ | .error _, .ok _ => False
  split at here
  · next read read' =>
    rw [read, read']
    exact here.1
  · next failed failed' =>
    rw [failed, failed']
    exact here
  · exact here.elim
  · exact here.elim

end Programs

end BasilLang.Lockstep
