import BasilLang.Proofs.Narrowing

/-! The parser always gets on. Every operand and every statement that is read
takes a token, and none is taken from the first end of input on. So no loop has
more rounds than there are tokens up to that end, nothing nests deeper than
they allow, and what stands behind the end is never looked at. All of this is
shown at once, by setting two readings of the same tokens side by side: they
may differ in what follows the end of input and in how many rounds the loops
may take. -/
namespace BasilLang.Progress
open BasilLang.Parser Parsing

/-- The tokens up to the first end of input, with that end. -/
def upToEof : List Token → List Token
  | [] => []
  | token :: rest => if token.kind = .eof then [token] else token :: upToEof rest

section Cutting
variable {tokens before beyond : List Token} {last : Token}

private theorem upToEof_eq_self (inner : ∀ token ∈ tokens, token.kind ≠ .eof) :
    upToEof tokens = tokens := by
  induction tokens with
  | nil => rfl
  | cons token rest ih =>
    obtain ⟨notEof, inner⟩ := List.forall_mem_cons.mp inner
    rw [upToEof, if_neg notEof, ih inner]

private theorem upToEof_append (inner : ∀ token ∈ before, token.kind ≠ .eof)
    (isEof : last.kind = .eof) :
    upToEof (before ++ last :: beyond) = before ++ [last] := by
  induction before with
  | nil => rw [List.nil_append, upToEof, if_pos isEof, List.nil_append]
  | cons token rest ih =>
    obtain ⟨notEof, inner⟩ := List.forall_mem_cons.mp inner
    rw [List.cons_append, upToEof, if_neg notEof, ih inner, List.cons_append]

private theorem closed_append (inner : ∀ token ∈ before, token.kind ≠ .eof)
    (isEof : last.kind = .eof) :
    Closed (before ++ [last]) := by
  induction before with
  | nil => exact isEof
  | cons token rest ih =>
    obtain ⟨notEof, inner⟩ := List.forall_mem_cons.mp inner
    exact Placement.closed_cons notEof (ih inner)

/-- Where there is an end of input, there is a first one. -/
theorem exists_first_eof (ends : ∃ token ∈ tokens, token.kind = .eof) :
    ∃ before last beyond, tokens = before ++ last :: beyond ∧
      (∀ token ∈ before, token.kind ≠ .eof) ∧ last.kind = .eof := by
  obtain ⟨last, found⟩ := Option.isSome_iff_exists.mp
    ((List.find?_isSome (p := fun token : Token => decide (token.kind = .eof))).mpr
      (by simpa using ends))
  obtain ⟨isEof, before, beyond, split, inner⟩ := List.find?_eq_some_iff_append.mp found
  exact ⟨before, last, beyond, split, by simpa using inner, by simpa using isEof⟩

end Cutting

/-- An end of input, and what may follow it in two readings. -/
structure Ending where
  last : Token
  beyond : List Token
  beyond' : List Token
  isEof : last.kind = .eof

namespace Ending

/-- The tokens before the end, in the first reading. -/
def first (ending : Ending) (tokens : List Token) : Cursor :=
  .ofTokens (tokens ++ ending.last :: ending.beyond)

/-- The tokens before the end, in the second reading. -/
def second (ending : Ending) (tokens : List Token) : Cursor :=
  .ofTokens (tokens ++ ending.last :: ending.beyond')

end Ending

/-- Two parsers come to the same in the two readings: they succeed with the same
result, having taken at least so many of the tokens before the end, and nothing
else; or they fail alike. -/
def Accords {α : Type} (ending : Ending) (least : Nat) (tokens : List Token)
    (parser parser' : Parse α) : Prop :=
  (∃ a left, left <:+ tokens ∧ left.length + least ≤ tokens.length ∧
    parser (ending.first tokens) = .ok (a, ending.first left) ∧
    parser' (ending.second tokens) = .ok (a, ending.second left)) ∨
  ∃ failure, parser (ending.first tokens) = .error failure ∧
    parser' (ending.second tokens) = .error failure

section Rules
variable {α β : Type} {ending : Ending} {least : Nat} {token : Token} {tokens : List Token}
  {parser parser' : Parse α} {next next' : α → Parse β}

namespace Accords

private theorem forget (accords : Accords ending least tokens parser parser') :
    Accords ending 0 tokens parser parser' := by
  rcases accords with ⟨a, left, suffix, shorter, reads⟩ | fails
  · exact .inl ⟨a, left, suffix, by omega, reads⟩
  · exact .inr fails

private theorem pure (a : α) : Accords ending 0 tokens (pure a) (pure a) :=
  .inl ⟨a, tokens, List.suffix_rfl, Nat.le_refl _, rfl, rfl⟩

private theorem fail (token : Token) (fault : ParseFault) :
    Accords ending least tokens (failAt token fault : Parse α) (failAt token fault) :=
  .inr ⟨_, rfl, rfl⟩

private theorem bind (accords : Accords ending least tokens parser parser')
    (rest : ∀ a left, left.length + least ≤ tokens.length →
      Accords ending 0 left (next a) (next' a)) :
    Accords ending least tokens (parser >>= next) (parser' >>= next') := by
  rcases accords with ⟨a, left, suffix, shorter, read, read'⟩ | ⟨failure, failed, failed'⟩
  · rcases rest a left shorter with ⟨b, left', suffix', shorter', ran, ran'⟩ | ⟨failure, ran, ran'⟩
    · refine .inl ⟨b, left', suffix'.trans suffix, by omega, ?_, ?_⟩
      · rw [bind_ok read, ran]
      · rw [bind_ok read', ran']
    · refine .inr ⟨failure, ?_, ?_⟩
      · rw [bind_ok read, ran]
      · rw [bind_ok read', ran']
  · refine .inr ⟨failure, ?_, ?_⟩
    · simp only [Bind.bind, StateT.bind, failed, Except.bind]
    · simp only [Bind.bind, StateT.bind, failed', Except.bind]

private theorem discard (accords : Accords ending least tokens parser parser') :
    Accords ending least tokens (discard parser) (discard parser') := by
  have ignored : Accords ending least tokens (parser >>= fun _ => Pure.pure ())
      (parser' >>= fun _ => Pure.pure ()) := accords.bind fun _ _ _ => .pure ()
  rwa [← Derivation.discard_bind parser Pure.pure, ← Derivation.discard_bind parser' Pure.pure,
    bind_pure, bind_pure] at ignored

/-- What comes after a look at the current token, which is the end of input if
nothing is left before that. -/
theorem current {next next' : Token → Parse β}
    (rest : ∀ token, (tokens = [] → token.kind = .eof) →
      Accords ending least tokens (next token) (next' token)) :
    Accords ending least tokens (current >>= next) (current >>= next') := by
  cases tokens with
  | nil => exact rest ending.last fun _ => ending.isEof
  | cons token more => exact rest token nofun

/-- What comes after a look at the token after the current one. At the end of
input this must not matter, for there it lies beyond. -/
theorem following {next next' : TokenKind → Parse β}
    (rest : ∀ kind, (kind ≠ .eof → 2 ≤ tokens.length) →
      Accords ending least tokens (next kind) (next' kind))
    (blind : tokens = [] → ∀ kind, next kind = next .eof ∧ next' kind = next' .eof) :
    Accords ending least tokens (followingKind >>= next) (followingKind >>= next') := by
  match tokens with
  | [] =>
    have unseen := rest .eof (absurd rfl)
    rw [← (blind rfl (ending.first []).next.current.kind).1,
      ← (blind rfl (ending.second []).next.current.kind).2] at unseen
    exact unseen
  | [token] => exact rest ending.last.kind fun notEof => absurd ending.isEof notEof
  | token :: other :: more => exact rest other.kind fun _ => by simp

private theorem advance (nonempty : tokens ≠ []) : Accords ending 1 tokens advance advance := by
  obtain ⟨token, rest, rfl⟩ := List.exists_cons_of_ne_nil nonempty
  refine .inl ⟨token, rest, List.suffix_cons .., Nat.le_refl _, ?_, ?_⟩
  · exact advance_ok (by simp)
  · exact advance_ok (by simp)

/-- What comes after taking the current token, which is not the end of input. -/
theorem take {next next' : Unit → Parse β} (ends : tokens = [] → token.kind = .eof)
    (notEof : token.kind ≠ .eof)
    (rest : ∀ left, left.length + 1 = tokens.length → Accords ending 0 left (next ()) (next' ())) :
    Accords ending 1 tokens (Functor.discard Parser.advance >>= next)
      (Functor.discard Parser.advance >>= next') := by
  obtain ⟨first, left, rfl⟩ := List.exists_cons_of_ne_nil (mt ends notEof)
  have taken : (Functor.discard Parser.advance >>= next) (ending.first (first :: left)) =
      next () (ending.first left) := bind_ok (discard_ok (advance_ok (by simp)))
  have taken' : (Functor.discard Parser.advance >>= next') (ending.second (first :: left)) =
      next' () (ending.second left) := bind_ok (discard_ok (advance_ok (by simp)))
  rcases rest left rfl with ⟨b, last, suffix, shorter, ran, ran'⟩ | ⟨failure, ran, ran'⟩
  · exact .inl ⟨b, last, suffix.trans (List.suffix_cons ..), by simpa using shorter,
      taken.trans ran, taken'.trans ran'⟩
  · exact .inr ⟨failure, taken.trans ran, taken'.trans ran'⟩

private theorem expect (kind : TokenKind) (notEof : kind ≠ .eof) (fault : Found → ParseFault) :
    Accords ending 1 tokens (expect kind fault) (expect kind fault) := by
  refine .current fun token ends => ?_
  by_cases same : token.kind = kind
  · rw [if_pos same]
    exact advance fun empty => notEof (same.symm.trans (ends empty))
  · rw [if_neg same]
    exact .fail _ _

private theorem expectThen (opener : Token) :
    Accords ending 1 tokens (expectThen opener) (expectThen opener) := by
  refine .current fun token ends => ?_
  by_cases header : (token.kind = .kwThen || token.kind = .colon) = true
  · rw [if_pos header]
    refine (advance fun empty => ?_).discard
    rw [ends empty] at header
    cases header
  · rw [if_neg header]
    exact .fail _ _

private theorem outOfRoom : Accords ending least tokens (outOfRoom : Parse α) outOfRoom :=
  current fun token _ => .inr ⟨⟨.parse .tooDeep, some (Loc.start token.loc.file)⟩, rfl, rfl⟩

end Accords

end Rules

/-- The nested parsers come to the same from so many tokens on. Their loops may
take the same number of rounds, or on both sides more than there are tokens. -/
structure NestedAccords (ending : Ending) (bound : Nat) (nested nested' : Nested) : Prop where
  rounds : nested.rounds = nested'.rounds ∨ bound < nested.rounds ∧ bound < nested'.rounds
  unary : ∀ units tokens, tokens.length ≤ bound →
    Accords ending 1 tokens (nested.parsers units).unary (nested'.parsers units).unary
  statement : ∀ units tokens, tokens.length ≤ bound →
    Accords ending 1 tokens (nested.parsers units).statement (nested'.parsers units).statement

section Constructs
variable {ending : Ending} {bound : Nat} {nested nested' : Nested} {tokens : List Token}

private theorem NestedAccords.after (accords : NestedAccords ending bound nested nested')
    (units : Nat) :
    NestedAccords ending bound (nested.after units) (nested'.after units) :=
  ⟨accords.rounds, fun more => accords.unary (more + units),
    fun more => accords.statement (more + units)⟩

/-- The loop over operands: each of its rounds takes an operator and an operand. -/
theorem join_accords {operand operand' : Parse Expr}
    (operands : ∀ tokens, tokens.length ≤ bound → Accords ending 1 tokens operand operand')
    (level : Nat) (left : Expr) {steps steps' : Nat}
    (enough : steps = steps' ∨ tokens.length < steps ∧ tokens.length < steps')
    (fits : tokens.length ≤ bound) :
    Accords ending 0 tokens (joinLevel level operand steps left)
      (joinLevel level operand' steps' left) := by
  induction steps generalizing steps' tokens left with
  | zero =>
    obtain rfl : steps' = 0 := by omega
    exact .pure left
  | succ steps ih =>
    obtain ⟨steps', rfl⟩ : ∃ fewer, steps' = fewer + 1 := ⟨steps' - 1, by omega⟩
    refine .current fun token ends => ?_
    cases found : BinaryOp.ofKind? token.kind with
    | none => exact .pure left
    | some op =>
      have notEof : token.kind ≠ .eof := by
        intro isEof
        simp [isEof, BinaryOp.ofKind?] at found
      by_cases here : op.level = level
      · simp only [if_pos here]
        refine (Accords.take ends notEof fun rest shorter => ?_).forget
        refine ((operands rest (by omega)).bind fun right rest' shorter' => ?_).forget
        exact ih _ (by omega) (by omega)
      · simp only [if_neg here]
        exact .pure left

/-- Operands of any levels come to the same. -/
theorem NestedAccords.levels (accords : NestedAccords ending bound nested nested')
    (levels : List Nat) (fits : tokens.length ≤ bound) :
    Accords ending 1 tokens
      (levels.foldr (atLevel nested.rounds) (nested.after Room.levels).unary)
      (levels.foldr (atLevel nested'.rounds) (nested'.after Room.levels).unary) := by
  induction levels generalizing tokens with
  | nil => exact (accords.after Room.levels).unary 0 tokens fits
  | cons level levels ih =>
    have rounds := accords.rounds
    refine (ih fits).bind fun left rest shorter => ?_
    exact join_accords (fun _ fits => ih fits) level left (by omega) (by omega)

private theorem NestedAccords.expression (accords : NestedAccords ending bound nested nested')
    (fits : tokens.length ≤ bound) :
    Accords ending 1 tokens (expression nested) (expression nested') :=
  accords.levels [0, 1, 2, 3, 4, 5] fits

/-- The loop over items: each round takes an item and a comma. -/
theorem comma_separated_accords {α : Type} {item item' : Parse α}
    (items : ∀ tokens, tokens.length ≤ bound → Accords ending 1 tokens item item')
    (done : List α) {steps steps' : Nat}
    (enough : steps = steps' ∨ tokens.length < steps ∧ tokens.length < steps')
    (fits : tokens.length ≤ bound) :
    Accords ending 0 tokens (commaSeparated item steps done) (commaSeparated item' steps' done) := by
  induction steps generalizing steps' tokens done with
  | zero =>
    obtain rfl : steps' = 0 := by omega
    exact .pure _
  | succ steps ih =>
    obtain ⟨steps', rfl⟩ : ∃ fewer, steps' = fewer + 1 := ⟨steps' - 1, by omega⟩
    refine .current fun token _ => ?_
    by_cases closes : token.kind = .rightParen
    · rw [if_pos closes, if_pos closes]
      exact .pure _
    · rw [if_neg closes, if_neg closes]
      refine ((items _ fits).bind fun next rest shorter => .current fun token ends => ?_).forget
      by_cases comma : token.kind = .comma
      · rw [if_pos comma, if_pos comma]
        refine (Accords.take ends (by simp [comma]) fun rest shorter => ?_).forget
        exact ih _ (by omega) (by omega)
      · rw [if_neg comma, if_neg comma]
        exact .pure _

/-- The loop over the statements of a block: each round takes a semicolon or a
statement, and the last one the `end`. -/
theorem to_end_accords {statement statement' : Parse Stmt}
    (statements : ∀ tokens, tokens.length ≤ bound → Accords ending 1 tokens statement statement')
    (opener : Token) (done : List Stmt) {steps steps' : Nat}
    (enough : steps = steps' ∨ tokens.length < steps ∧ tokens.length < steps')
    (fits : tokens.length ≤ bound) :
    Accords ending 1 tokens (statementsToEnd statement opener steps done)
      (statementsToEnd statement' opener steps' done) := by
  induction steps generalizing steps' tokens done with
  | zero =>
    obtain rfl : steps' = 0 := by omega
    exact .outOfRoom
  | succ steps ih =>
    obtain ⟨steps', rfl⟩ : ∃ fewer, steps' = fewer + 1 := ⟨steps' - 1, by omega⟩
    refine .current fun token ends => ?_
    split
    · next isEnd => exact .take ends (by simp [isEnd]) fun _ _ => .pure _
    · exact .fail _ _
    · next isSemicolon =>
      refine .take ends (by simp [isSemicolon]) fun rest shorter => ?_
      exact (ih _ (by omega) (by omega)).forget
    · refine (statements _ fits).bind fun next rest shorter => ?_
      exact (ih _ (by omega) (by omega)).forget

private theorem NestedAccords.block (accords : NestedAccords ending bound nested nested')
    (opener : Token) (fits : tokens.length ≤ bound) :
    Accords ending 1 tokens (block nested opener) (block nested' opener) := by
  have rounds := accords.rounds
  have statements := (accords.after Room.block).statement 0
  refine .current fun start _ => ?_
  exact (to_end_accords statements opener [] (by omega) fits).bind fun _ _ _ => .pure _

private theorem parameter_accords : Accords ending 1 tokens parameter parameter := by
  refine (Accords.expect .ident nofun _).bind fun token _ _ => ?_
  split
  · exact (Accords.fail _ _).bind fun _ _ _ => .pure _
  · exact .pure _

private theorem NestedAccords.procRest (accords : NestedAccords ending bound nested nested')
    (opener : Token) (fits : tokens.length ≤ bound) :
    Accords ending 1 tokens (procRest nested opener) (procRest nested' opener) := by
  have rounds := accords.rounds
  refine (Accords.expect .leftParen nofun _).discard.bind fun _ rest shorter => ?_
  refine .current fun start _ => ?_
  refine (comma_separated_accords (fun _ _ => parameter_accords) [] (by omega) (Nat.le_refl _)).bind
    fun params rest shorter => ?_
  refine ((Accords.expect .rightParen nofun _).discard.bind fun _ rest shorter => ?_).forget
  refine ((Accords.expectThen opener).bind fun _ rest shorter => ?_).forget
  exact (((accords.after Room.proc).block opener (by omega)).bind fun _ _ _ => .pure _).forget

private theorem NestedAccords.nameOrCall (accords : NestedAccords ending bound nested nested')
    (name : Token) (fits : tokens.length ≤ bound) :
    Accords ending 0 tokens (nameOrCall nested name) (nameOrCall nested' name) := by
  have rounds := accords.rounds
  refine .current fun opening ends => ?_
  by_cases opens : (opening.kind = .leftParen && adjacent name opening) = true
  · have isParen : opening.kind = .leftParen := of_decide_eq_true (Bool.and_eq_true_iff.mp opens).1
    rw [if_pos opens, if_pos opens]
    refine (Accords.take ends (by simp [isParen]) fun rest shorter => ?_).forget
    refine (comma_separated_accords (fun _ fits => (accords.after Room.callList).expression fits) []
      (by omega) (by omega)).bind fun args rest shorter => ?_
    exact ((Accords.expect .rightParen nofun _).discard.bind fun _ _ _ => .pure _).forget
  · rw [if_neg opens, if_neg opens]
    exact .pure _

private theorem NestedAccords.primary (accords : NestedAccords ending bound nested nested')
    (fits : tokens.length ≤ bound) :
    Accords ending 1 tokens (primary nested) (primary nested') := by
  refine .current fun token ends => ?_
  split
  case h_6 opens =>
    refine .take ends (by simp [opens]) fun rest shorter => ?_
    refine ((accords.expression (by omega)).bind fun inner rest shorter => ?_).forget
    exact ((Accords.expect .rightParen nofun _).discard.bind fun _ _ _ => .pure _).forget
  case h_7 isProc =>
    refine .take ends (by simp [isProc]) fun rest shorter => ?_
    exact ((accords.procRest token (by omega)).bind fun _ _ _ => .pure _).forget
  case h_8 isName =>
    exact .take ends (by simp [isName]) fun rest shorter => accords.nameOrCall token (by omega)
  case h_9 => exact .fail _ _
  all_goals
    next isLiteral => exact .take ends (by simp [isLiteral]) fun _ _ => .pure _

private theorem NestedAccords.operand (accords : NestedAccords ending bound nested nested')
    (fits : tokens.length ≤ bound) :
    Accords ending 1 tokens (Parser.unary nested) (Parser.unary nested') := by
  refine .current fun token ends => ?_
  cases found : UnaryOp.ofKind? token.kind with
  | some op =>
    have notEof : token.kind ≠ .eof := by
      intro isEof
      simp [isEof, UnaryOp.ofKind?] at found
    refine .take ends notEof fun rest shorter => ?_
    exact ((accords.unary 0 rest (by omega)).bind fun _ _ _ => .pure _).forget
  | none => exact (accords.after Room.operand).primary fits

private theorem import_accords (opener : Token) :
    Accords ending 1 tokens (importTarget opener) (importTarget opener) := by
  refine .current fun token ends => ?_
  split
  case h_4 => exact .fail _ _
  all_goals
    next isTarget => exact .take ends (by simp [isTarget]) fun _ _ => .pure _

private theorem NestedAccords.declaration (accords : NestedAccords ending bound nested nested')
    (keyword : Token) (fits : tokens.length ≤ bound) :
    Accords ending 1 tokens (declaration nested keyword) (declaration nested' keyword) := by
  refine (Accords.expect .ident nofun _).bind fun name rest shorter => ?_
  refine ((Accords.expect .assign nofun _).discard.bind fun _ rest shorter => ?_).forget
  exact ((accords.expression (by omega)).bind fun _ _ _ => .pure _).forget

private theorem NestedAccords.guarded (accords : NestedAccords ending bound nested nested')
    (opener : Token) (fits : tokens.length ≤ bound) :
    Accords ending 1 tokens (guarded nested opener) (guarded nested' opener) := by
  refine (accords.expression fits).bind fun condition rest shorter => ?_
  refine ((Accords.expectThen opener).bind fun _ rest shorter => ?_).forget
  exact ((accords.block opener (by omega)).bind fun _ _ _ => .pure _).forget

/-- A bare return takes no further token. -/
theorem NestedAccords.returned (accords : NestedAccords ending bound nested nested')
    (opener : Token) (fits : tokens.length ≤ bound) :
    Accords ending 0 tokens (returned nested opener) (returned nested' opener) := by
  refine .current fun token _ => ?_
  split
  case h_4 => exact (accords.expression fits).forget
  all_goals exact .pure _

private theorem NestedAccords.stmt (accords : NestedAccords ending bound nested nested')
    (fits : tokens.length ≤ bound) :
    Accords ending 1 tokens (Parser.statement nested) (Parser.statement nested') := by
  have within := accords.after Room.statement
  refine .current fun token ends => .following (fun kind more => ?_) fun empty kind => ?_
  · dsimp only
    split
    case h_1 isImport =>
      exact .take ends (by simp [isImport]) fun _ _ => (import_accords token).forget
    case h_2 isNamespace =>
      refine .take ends (by simp [isNamespace]) fun rest shorter => ?_
      refine ((Accords.expect .ident nofun _).bind fun name rest shorter => ?_).forget
      exact ((within.block token (by omega)).bind fun _ _ _ => .pure _).forget
    case h_3 isDeclaration | h_4 isDeclaration =>
      refine .take ends (by simp [isDeclaration]) fun rest shorter => ?_
      exact ((within.declaration token (by omega)).bind fun _ _ _ => .pure _).forget
    case h_5 guards | h_7 guards =>
      refine .take ends (by simp [guards]) fun rest shorter => ?_
      exact ((within.guarded token (by omega)).bind fun _ _ _ => .pure _).forget
    case h_6 isFor =>
      refine .take ends (by simp [isFor]) fun rest shorter => ?_
      refine ((Accords.expect .ident nofun _).bind fun name rest shorter => ?_).forget
      refine ((Accords.expect .assign nofun _).discard.bind fun _ rest shorter => ?_).forget
      refine ((within.expression (by omega)).bind fun start rest shorter => ?_).forget
      refine ((Accords.expect .kwTo nofun _).discard.bind fun _ rest shorter => ?_).forget
      refine ((within.expression (by omega)).bind fun stop rest shorter => ?_).forget
      refine ((Accords.expectThen token).bind fun _ rest shorter => ?_).forget
      exact ((within.block token (by omega)).bind fun _ _ _ => .pure _).forget
    case h_8 isReturn =>
      refine .take ends (by simp [isReturn]) fun rest shorter => ?_
      exact (within.returned token (by omega)).bind fun _ _ _ => .pure _
    case h_9 isProc =>
      -- The name has been seen behind the word, so it stands before the end.
      have two := more nofun
      refine .take ends (by simp [isProc]) fun rest shorter => ?_
      have nonempty : rest ≠ [] := List.ne_nil_of_length_pos (by omega)
      refine ((Accords.advance nonempty).bind fun name rest shorter => ?_).forget
      exact ((accords.procRest token (by omega)).bind fun _ _ _ => .pure _).forget
    case h_10 isName =>
      have two := more nofun
      refine .take ends (by simp [isName]) fun rest shorter => ?_
      have nonempty : rest ≠ [] := List.ne_nil_of_length_pos (by omega)
      refine ((Accords.advance nonempty).discard.bind fun _ rest shorter => ?_).forget
      exact ((within.expression (by omega)).bind fun _ _ _ => .pure _).forget
    case h_11 => exact (accords.expression fits).bind fun _ _ _ => .pure _
  · simp only [ends empty, and_self]

/-- The parsers in the same room. -/
theorem within_accords (ending : Ending) {bound rounds rounds' : Nat}
    (enough : rounds = rounds' ∨ bound < rounds ∧ bound < rounds') (room : Nat) :
    NestedAccords ending bound (nestedIn rounds room) (nestedIn rounds' room) := by
  induction room with
  | zero => exact ⟨enough, fun _ _ _ => .outOfRoom, fun _ _ _ => .outOfRoom⟩
  | succ room ih =>
    refine ⟨enough, fun units tokens fits => ?_, fun units tokens fits => ?_⟩
    · cases units with
      | succ units => exact ih.unary units tokens fits
      | zero =>
        by_cases short : room < Room.work
        · simp only [nestedIn, within, if_pos short]
          exact .outOfRoom
        · simp only [nestedIn, within, if_neg short]
          exact ih.operand fits
    · cases units with
      | succ units => exact ih.statement units tokens fits
      | zero =>
        by_cases short : room < Room.work
        · simp only [nestedIn, within, if_pos short]
          exact .outOfRoom
        · simp only [nestedIn, within, if_neg short]
          exact ih.stmt fits

/-- The loop over the statements of a source. It stops at the end of input, which
it does not take. -/
theorem to_eof_accords {next next' : Parse Stmt}
    (statements : ∀ tokens, tokens.length ≤ bound → Accords ending 1 tokens next next')
    (done : List Stmt) {steps steps' : Nat}
    (enough : steps = steps' ∨ tokens.length < steps ∧ tokens.length < steps')
    (fits : tokens.length ≤ bound) :
    Accords ending 0 tokens (statementsToEof next steps done)
      (statementsToEof next' steps' done) := by
  induction steps generalizing steps' tokens done with
  | zero =>
    obtain rfl : steps' = 0 := by omega
    exact .outOfRoom
  | succ steps ih =>
    obtain ⟨steps', rfl⟩ : ∃ fewer, steps' = fewer + 1 := ⟨steps' - 1, by omega⟩
    refine .current fun token ends => ?_
    split
    · exact .pure _
    · next isSemicolon =>
      refine (Accords.take ends (by simp [isSemicolon]) fun rest shorter => ?_).forget
      exact ih _ (by omega) (by omega)
    · refine ((statements _ fits).bind fun next rest shorter => ?_).forget
      exact ih _ (by omega) (by omega)

private theorem NestedAccords.program (accords : NestedAccords ending bound nested nested')
    (fits : tokens.length ≤ bound) :
    Accords ending 0 tokens (program nested) (program nested') := by
  have rounds := accords.rounds
  refine .current fun start _ => ?_
  exact (to_eof_accords (accords.statement 0) [] (by omega) fits).bind fun _ _ _ => .pure _

end Constructs

/-- If the parser succeeds on the tokens, it has taken some off the front, at
least one, and no end of input is among them. -/
def Advances {α : Type} (tokens : List Token) (parser : Parse α) : Prop :=
  ∀ a after, parser (.ofTokens tokens) = .ok (a, after) →
    ∃ own rest, tokens = own ++ rest ∧ own ≠ [] ∧ (∀ token ∈ own, token.kind ≠ .eof) ∧
      after = .ofTokens rest

/-- The loop is never broken off for lack of rounds, if it may take one for every
token up to the end of input: with more of them it does the same. -/
def EndsItself {α : Type} (tokens : List Token) (loop : Nat → Parse α) : Prop :=
  ∀ steps, (upToEof tokens).length ≤ steps →
    loop steps (.ofTokens tokens) = loop (upToEof tokens).length (.ofTokens tokens)

/-- How the parsers in the given limits go on from the tokens: operands and
statements take some of them, and every loop comes to its own end. -/
structure Proceeds (rounds room : Nat) (tokens : List Token) : Prop where
  statement : Advances tokens (Parser.statement (nestedIn rounds room))
  operand : ∀ level, Advances tokens (levelParser (nestedIn rounds room) level)
  unary : Advances tokens (Parser.unary (nestedIn rounds room))
  primary : Advances tokens (Parser.primary (nestedIn rounds room))
  joined : ∀ level left, EndsItself tokens fun steps =>
    joinLevel level (levelParser (nestedIn rounds room) (level + 1)) steps left
  parameters : ∀ done, EndsItself tokens fun steps => commaSeparated parameter steps done
  arguments : ∀ done, EndsItself tokens fun steps =>
    commaSeparated (expression (nestedIn rounds room)) steps done
  block : ∀ opener done, EndsItself tokens fun steps =>
    statementsToEnd (nestedIn rounds room).statement opener steps done
  source : ∀ done, EndsItself tokens fun steps =>
    statementsToEof (nestedIn rounds room).statement steps done

section Results
variable {α : Type} {least : Nat} {tokens before beyond beyond' : List Token} {last : Token}
  {parser parser' : Parse α} {isEof : last.kind = .eof}

private theorem Accords.advances
    (accords : Accords ⟨last, beyond, beyond', isEof⟩ 1 before parser parser')
    (inner : ∀ token ∈ before, token.kind ≠ .eof) : Advances (before ++ last :: beyond) parser := by
  intro a after read
  rcases accords with ⟨b, left, ⟨own, rfl⟩, shorter, ran, -⟩ | ⟨failure, failed, -⟩
  · cases read.symm.trans ran
    rw [List.length_append] at shorter
    refine ⟨own, left ++ last :: beyond, List.append_assoc .., ?_, fun token member => ?_, rfl⟩
    · exact List.ne_nil_of_length_pos (by omega)
    · exact inner token (List.mem_append_left left member)
  · cases read.symm.trans failed

private theorem Accords.result_eq {ending : Ending}
    (accords : Accords ending least tokens parser parser') :
    (·.1) <$> parser (ending.first tokens) = (·.1) <$> parser' (ending.second tokens) := by
  rcases accords with ⟨a, left, -, -, ran, ran'⟩ | ⟨failure, ran, ran'⟩
  · exact (congrArg ((·.1) <$> ·) ran).trans (congrArg ((·.1) <$> ·) ran').symm
  · exact (congrArg ((·.1) <$> ·) ran).trans (congrArg ((·.1) <$> ·) ran').symm

private theorem ends_itself {loop : Nat → Parse α} (inner : ∀ token ∈ before, token.kind ≠ .eof)
    (isEof : last.kind = .eof)
    (accords : ∀ steps steps', before.length < steps → before.length < steps' →
      Accords ⟨last, beyond, beyond, isEof⟩ least before (loop steps) (loop steps')) :
    EndsItself (before ++ last :: beyond) loop := by
  intro steps enough
  rw [upToEof_append inner isEof, List.length_append, List.length_singleton] at enough ⊢
  rcases accords steps (before.length + 1) enough (Nat.lt_succ_self _) with
    ⟨a, left, -, -, ran, ran'⟩ | ⟨failure, ran, ran'⟩
  · exact ran.trans ran'.symm
  · exact ran.trans ran'.symm

/-- Where an end of input is still to come, the parsers get on. -/
theorem proceeds_to_eof (ends : ∃ token ∈ tokens, token.kind = .eof) (rounds room : Nat) :
    Proceeds rounds room tokens := by
  obtain ⟨before, last, beyond, rfl, inner, isEof⟩ := exists_first_eof ends
  have accords : NestedAccords ⟨last, beyond, beyond, isEof⟩ before.length
      (nestedIn rounds room) (nestedIn rounds room) := within_accords _ (.inl rfl) room
  have fits := Nat.le_refl before.length
  have statements := accords.statement 0
  exact {
    statement := (accords.stmt fits).advances inner
    operand := fun level => (accords.levels ([0, 1, 2, 3, 4, 5].drop level) fits).advances inner
    unary := (accords.operand fits).advances inner
    primary := (accords.primary fits).advances inner
    joined := fun level left => ends_itself inner isEof fun _ _ enough enough' =>
      join_accords (fun _ fits => accords.levels ([0, 1, 2, 3, 4, 5].drop (level + 1)) fits) level
        left (.inr ⟨enough, enough'⟩) fits
    parameters := fun done => ends_itself inner isEof fun _ _ enough enough' =>
      comma_separated_accords (fun _ _ => parameter_accords) done (.inr ⟨enough, enough'⟩) fits
    arguments := fun done => ends_itself inner isEof fun _ _ enough enough' =>
      comma_separated_accords (fun _ => accords.expression) done (.inr ⟨enough, enough'⟩) fits
    block := fun opener done => ends_itself inner isEof fun _ _ enough enough' =>
      to_end_accords statements opener done (.inr ⟨enough, enough'⟩) fits
    source := fun done => ends_itself inner isEof fun _ _ enough enough' =>
      to_eof_accords statements done (.inr ⟨enough, enough'⟩) fits }

/-- With rounds for the tokens up to the end of input, these alone decide what is
read. -/
theorem result_upToEof (ends : ∃ token ∈ tokens, token.kind = .eof) {rounds : Nat}
    (enough : (upToEof tokens).length ≤ rounds) (room : Nat) :
    (·.1) <$> program (nestedIn rounds room) (.ofTokens tokens) =
      Program.ofTokensWithin room (upToEof tokens) := by
  obtain ⟨before, last, beyond, rfl, inner, isEof⟩ := exists_first_eof ends
  rw [upToEof_append inner isEof] at enough ⊢
  simp only [List.length_append, List.length_singleton] at enough
  have accords : NestedAccords ⟨last, beyond, [], isEof⟩ before.length (nestedIn rounds room)
      (nestedIn ((before ++ [last]).length + 1) room) :=
    within_accords _ (.inr ⟨enough, by simp only [List.length_append]; omega⟩) room
  exact (accords.program (Nat.le_refl _)).result_eq

private theorem length_upToEof_le (tokens : List Token) :
    (upToEof tokens).length ≤ tokens.length := by
  induction tokens with
  | nil => exact Nat.le_refl _
  | cons token rest ih =>
    rw [upToEof]
    split
    · simp
    · simpa using ih

/-- In the same room, tokens behind the first end of input make no difference. -/
theorem within_upToEof (room : Nat) (tokens : List Token) :
    Program.ofTokensWithin room tokens = Program.ofTokensWithin room (upToEof tokens) := by
  by_cases ends : ∃ token ∈ tokens, token.kind = .eof
  · exact result_upToEof ends (Nat.le_succ_of_le (length_upToEof_le tokens)) room
  · rw [upToEof_eq_self (by simpa using ends)]

/-- Room for the tokens up to the end of input is as good as any more. -/
theorem enough_room (ends : ∃ token ∈ tokens, token.kind = .eof) {room : Nat}
    (enough : roomFor (upToEof tokens) ≤ room) :
    Program.ofTokensWithin room (upToEof tokens) = Program.ofTokens (upToEof tokens) := by
  obtain ⟨before, last, beyond, rfl, inner, isEof⟩ := exists_first_eof ends
  rw [upToEof_append inner isEof] at enough ⊢
  rcases Narrowing.tokens_in_less_room enough (before ++ [last]) with same | ⟨loc, lacking⟩
  · exact same.symm
  · exact absurd rfl (Derivation.deep_enough (closed_append inner isEof) lacking)

private theorem ofTokens_upToEof (tokens : List Token) :
    Program.ofTokens tokens = Program.ofTokens (upToEof tokens) := by
  by_cases ends : ∃ token ∈ tokens, token.kind = .eof
  · have enough : roomFor (upToEof tokens) ≤ roomFor tokens := by
      have shorter := length_upToEof_le tokens
      simp only [roomFor, Room.perToken]
      omega
    exact (within_upToEof (roomFor tokens) tokens).trans (enough_room ends enough)
  · rw [upToEof_eq_self (by simpa using ends)]

/-- The tokens are a program, or there is something to say about their order. -/
theorem program_or_complaint (ends : ∃ token ∈ tokens, token.kind = .eof) :
    (∃ program, Program.ofTokens tokens = .ok program) ∨
      ∃ failure fault, Program.ofTokens tokens = .error failure ∧ failure.fault = .parse fault ∧
        fault ≠ .tooDeep := by
  rw [ofTokens_upToEof]
  obtain ⟨before, last, beyond, rfl, inner, isEof⟩ := exists_first_eof ends
  rw [upToEof_append inner isEof]
  cases read : Program.ofTokens (before ++ [last]) with
  | ok program => exact .inl ⟨program, rfl⟩
  | error failure =>
    have closed := closed_append inner isEof
    obtain ⟨fault, reported, -⟩ := Derivation.rejected_for_syntax closed read
    refine .inr ⟨failure, fault, rfl, reported, ?_⟩
    rintro rfl
    exact Derivation.deep_enough closed read reported

end Results

/-- The parser always makes progress. For all tokens with an end of input among
them, wherever that stands: they are a program, or there is a complaint about
their order, and no limit has a part in this, for with as many rounds and as much
room as the tokens up to the first end of input ask for, and with any more, the
outcome is the same. From wherever the parser has come to by then, an operand or
a statement that is read takes at least one token and stops short of that end,
and every loop comes to its own end. And the outcome is decided by the tokens up
to that end alone, in limited room too. -/
theorem parser_makes_progress {tokens : List Token}
    (ends : ∃ token ∈ tokens, token.kind = .eof) :
    ((∃ program, Program.ofTokens tokens = .ok program) ∨
      ∃ failure fault, Program.ofTokens tokens = .error failure ∧ failure.fault = .parse fault ∧
        fault ≠ .tooDeep) ∧
    (∀ rounds room, (upToEof tokens).length ≤ rounds → roomFor (upToEof tokens) ≤ room →
      (·.1) <$> program (nestedIn rounds room) (.ofTokens tokens) = Program.ofTokens tokens) ∧
    (∀ passed here, tokens = passed ++ here → (∀ token ∈ passed, token.kind ≠ .eof) →
      ∀ rounds room, Proceeds rounds room here) ∧
    ∀ others, upToEof others = upToEof tokens →
      Program.ofTokens others = Program.ofTokens tokens ∧
      ∀ room, Program.ofTokensWithin room others = Program.ofTokensWithin room tokens := by
  refine ⟨program_or_complaint ends, fun rounds room enough enough' => ?_,
    fun passed here split inner => ?_, fun others same => ⟨?_, fun room => ?_⟩⟩
  · rw [result_upToEof ends enough, enough_room ends enough', ofTokens_upToEof tokens]
  · apply proceeds_to_eof
    obtain ⟨token, member, isEof⟩ := ends
    rcases List.mem_append.mp (split ▸ member) with passedBy | ahead
    · exact absurd isEof (inner token passedBy)
    · exact ⟨token, ahead, isEof⟩
  · rw [ofTokens_upToEof others, same, ← ofTokens_upToEof]
  · rw [within_upToEof room others, same, ← within_upToEof]

/-- A call that breaks off behind an operator, `f(1, -`. -/
def brokenOff : List Token :=
  [⟨.ident, "f", ⟨"<input>", ⟨1, 1⟩⟩⟩, ⟨.leftParen, "(", ⟨"<input>", ⟨1, 2⟩⟩⟩,
    ⟨.number, "1", ⟨"<input>", ⟨1, 3⟩⟩⟩, ⟨.comma, ",", ⟨"<input>", ⟨1, 4⟩⟩⟩,
    ⟨.minus, "-", ⟨"<input>", ⟨1, 6⟩⟩⟩, ⟨.eof, "", ⟨"<input>", ⟨1, 7⟩⟩⟩]

/-- What would complete it, `2)`, and another end of input. -/
def completion : List Token :=
  [⟨.number, "2", ⟨"<input>", ⟨1, 7⟩⟩⟩, ⟨.rightParen, ")", ⟨"<input>", ⟨1, 8⟩⟩⟩,
    ⟨.eof, "", ⟨"<input>", ⟨1, 9⟩⟩⟩]

theorem broken_off_is_not_completed :
    (∃ token ∈ brokenOff ++ completion, token.kind = .eof) ∧
    Program.ofTokens (brokenOff ++ completion) = Program.ofTokens brokenOff ∧
    Program.ofTokens brokenOff =
      .error ⟨.parse (.unexpectedToken .endOfInput), some ⟨"<input>", ⟨1, 7⟩⟩⟩ ∧
    ∀ rounds room, Proceeds rounds room (brokenOff.drop 2 ++ completion) := by
  have ends : ∃ token ∈ brokenOff ++ completion, token.kind = .eof := by decide
  obtain ⟨-, -, goesOn, upTo⟩ := parser_makes_progress ends
  refine ⟨ends, ((upTo brokenOff (by decide)).1).symm, rfl, ?_⟩
  exact goesOn (brokenOff.take 2) _ (by decide) (by decide)

end BasilLang.Progress
