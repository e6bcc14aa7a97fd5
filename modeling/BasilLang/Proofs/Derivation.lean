import BasilLang.Proofs.Parsing
import BasilLang.Proofs.Placement

/-! The parser accepts nothing that the grammar does not spell. A parser that
succeeds has taken some tokens off the front, and the tree it gives back is
spelled by exactly those; a parser that fails has not failed for lack of room,
if the room was in proportion to the tokens. -/
namespace BasilLang.Derivation
open BasilLang.Parser Parsing Placement

/-- What a parser makes of the tokens: if it succeeds, it has taken some off
the front, and what it gives back, what it has taken and what is left are
related as given; if it fails, it has something to say about the syntax, and in
fair conditions it is not for lack of room. -/
def Parses {α : Type} (tokens : List Token) (parser : Parse α) (fair : Prop)
    (taken : α → List Token → List Token → Prop) : Prop :=
  match parser (.ofTokens tokens) with
  | .ok (a, after) => ∃ own rest, tokens = own ++ rest ∧ Closed rest ∧ after = .ofTokens rest ∧
      taken a own rest
  | .error failure => ∃ fault, failure.fault = .parse fault ∧ (fair → fault ≠ .tooDeep)

section Rules
variable {α β : Type} {tokens rest : List Token} {token : Token} {fair fair' : Prop} {a : α}
  {parser : Parse α} {continuation : α → Parse β} {taken : α → List Token → List Token → Prop}
  {taken' : β → List Token → List Token → Prop}

/-- Less is said of what is taken, and more is asked of the room. -/
theorem Parses.imp (parses : Parses tokens parser fair taken) (fairer : fair' → fair)
    {weaker : α → List Token → List Token → Prop}
    (weakens : ∀ a own rest, tokens = own ++ rest → Closed rest → taken a own rest →
      weaker a own rest) : Parses tokens parser fair' weaker := by
  unfold Parses at parses ⊢
  split at parses
  · next a after same =>
    obtain ⟨own, rest, split, closed, left, holds⟩ := parses
    exact ⟨own, rest, split, closed, left, weakens a own rest split closed holds⟩
  · obtain ⟨fault, reported, roomy⟩ := parses
    exact ⟨fault, reported, fun holds => roomy (fairer holds)⟩

theorem Parses.fairer (parses : Parses tokens parser fair taken) (fairer : fair' → fair) :
    Parses tokens parser fair' taken :=
  parses.imp fairer fun _ _ _ _ _ holds => holds

private theorem parses_pure (closed : Closed tokens) (holds : taken a [] tokens) :
    Parses tokens (pure a) fair taken :=
  ⟨[], tokens, rfl, closed, rfl, holds⟩

private theorem Parses.bind (first : Parses tokens parser fair taken)
    (next : ∀ a own rest, tokens = own ++ rest → Closed rest → taken a own rest →
      Parses rest (continuation a) fair fun b more left => taken' b (own ++ more) left) :
    Parses tokens (parser >>= continuation) fair taken' := by
  unfold Parses at first
  unfold Parses
  cases read : parser (.ofTokens tokens) with
  | error failure =>
    rw [read] at first
    simp only [Bind.bind, StateT.bind, read, Except.bind]
    exact first
  | ok result =>
    obtain ⟨a, after⟩ := result
    rw [read] at first
    obtain ⟨own, rest, rfl, closed, rfl, holds⟩ := first
    have second := next a own rest rfl closed holds
    unfold Parses at second
    rw [bind_ok read]
    split at second
    · obtain ⟨more, left, rfl, closed, rfl, holds⟩ := second
      exact ⟨own ++ more, left, (List.append_assoc ..).symm, closed, rfl, holds⟩
    · exact second

/-- A result that is thrown away is not looked at. -/
theorem discard_bind (parser : Parse α) (continuation : Unit → Parse β) :
    (discard parser >>= continuation) = (parser >>= fun _ => continuation ()) := by
  funext cursor
  simp only [bind, StateT.bind, discard, Functor.discard, Functor.mapConst, Function.comp,
    Function.const, StateT.map]
  cases parser cursor <;> rfl

private theorem parses_current {continuation : Token → Parse β}
    (next : Parses (token :: rest) (continuation token) fair taken') :
    Parses (token :: rest) (current >>= continuation) fair taken' :=
  next

private theorem parses_following {continuation : TokenKind → Parse β}
    (next : Parses tokens (continuation (Cursor.ofTokens tokens).next.current.kind) fair taken') :
    Parses tokens (followingKind >>= continuation) fair taken' :=
  next

private theorem parses_current_head {continuation : Token → Parse β}
    (first : tokens.head? = some token)
    (next : Parses tokens (continuation token) fair taken') :
    Parses tokens (current >>= continuation) fair taken' := by
  obtain ⟨rest, rfl⟩ := List.head?_eq_some_iff.mp first
  exact next

private theorem parses_advance {continuation : Token → Parse β} (closed : Closed (token :: rest))
    (notEof : token.kind ≠ .eof)
    (next : Closed rest →
      Parses rest (continuation token) fair fun b own left => taken' b (token :: own) left) :
    Parses (token :: rest) (advance >>= continuation) fair taken' := by
  cases rest with
  | nil => exact absurd closed notEof
  | cons second rest =>
    have taken : Parses (token :: second :: rest) advance fair fun a own _ =>
        a = token ∧ own = [token] :=
      ⟨[token], second :: rest, rfl, closed.2, rfl, rfl, rfl⟩
    refine taken.bind fun a own left split closed holds => ?_
    obtain ⟨rfl, rfl⟩ := holds
    obtain ⟨-, rfl⟩ := List.cons.inj split
    exact next closed

/-- A token that is only gone past. -/
theorem parses_skip {continuation : Unit → Parse β} (closed : Closed (token :: rest))
    (notEof : token.kind ≠ .eof)
    (next : Closed rest →
      Parses rest (continuation ()) fair fun b own left => taken' b (token :: own) left) :
    Parses (token :: rest) (discard advance >>= continuation) fair taken' := by
  rw [discard_bind]
  exact parses_advance closed notEof next

private theorem parses_fail {fault : ParseFault} (plain : fault ≠ .tooDeep) :
    Parses tokens (failAt token fault) fair taken :=
  ⟨fault, rfl, fun _ => plain⟩

/-- A token of the kind that is expected. -/
theorem parses_expect {kind : TokenKind} {fault : Found → ParseFault} (closed : Closed tokens)
    (notEof : kind ≠ .eof) (plain : ∀ found, fault found ≠ .tooDeep) :
    Parses tokens (expect kind fault) fair fun token own _ => own = [token] ∧ token.kind = kind := by
  obtain ⟨token, rest, rfl⟩ := List.exists_cons_of_ne_nil (closed_ne_nil closed)
  refine parses_current ?_
  split
  · next same =>
    rw [← bind_pure advance]
    refine parses_advance closed (by rw [same]; exact notEof) fun closed => ?_
    exact parses_pure closed ⟨rfl, same⟩
  · exact parses_fail (plain _)

/-- What ends a header. -/
theorem parses_expect_then {opener : Token} (closed : Closed tokens) :
    Parses tokens (expectThen opener) fair fun _ own _ =>
      ∃ token, own = [token] ∧ token.EndsHeader := by
  obtain ⟨token, rest, rfl⟩ := List.exists_cons_of_ne_nil (closed_ne_nil closed)
  refine parses_current ?_
  split
  · next ends =>
    have ends : token.EndsHeader := by simpa [Token.EndsHeader] using ends
    rw [← bind_pure (discard advance), discard_bind]
    refine parses_advance closed (by rcases ends with kind | kind <;> simp [kind]) fun closed => ?_
    exact parses_pure closed ⟨token, rfl, ends⟩
  · exact parses_fail (by simp)

end Rules

/-- The expression is spelled by what was taken, it binds tightly enough for
the level, and what is left does not go on with it. -/
def ExprTaken (level : Nat) (e : Expr) (own rest : List Token) : Prop :=
  e.Spelled own ∧ level ≤ e.tightness ∧ Leaves level own rest

/-- The statement is spelled by what was taken. If it ends in an expression,
what is left does not go on with that; a bare return is followed by the end of
what it stands in. -/
def StmtTaken (s : Stmt) (own rest : List Token) : Prop :=
  s.Spelled own ∧ (s.endsInExpr = true → Leaves 0 own rest ∧ ∀ next ∈ rest.head?,
    own.length = 1 → (∃ opener ∈ own, opener.kind = .kwReturn) →
      next.kind = .kwEnd ∨ next.kind = .semicolon ∨ next.kind = .eof)

/-- The nested parsers with so much room keep to the grammar, and have room
enough for tokens in proportion. -/
structure Sound (rounds room : Nat) : Prop where
  unary : ∀ tokens, Closed tokens → tokens.length ≤ rounds →
    Parses tokens (nestedIn rounds room).unary (Room.perToken * tokens.length ≤ room + 9)
      (ExprTaken unaryLevel)
  statement : ∀ tokens, Closed tokens → tokens.length ≤ rounds →
    Parses tokens (nestedIn rounds room).statement (stmtRoom tokens.length ≤ room) StmtTaken

private theorem sound_below {rounds room : Nat} (sound : ∀ less ≤ room, Sound rounds less)
    (units : Nat) :
    ∀ less ≤ room - units, Sound rounds less :=
  fun less le => sound less (Nat.le_trans le (Nat.sub_le room units))

section Leaving
variable {level higher : Nat} {own more rest : List Token} {next : Token}

/-- What ends in no name can only be gone on with by an operator. -/
theorem leaves_unary (last : ∀ token ∈ own.getLast?, token.kind ≠ .ident) :
    Leaves unaryLevel own rest := by
  intro next _
  exact ⟨fun op _ => op_level_lt op, fun token member isName => absurd isName (last token member)⟩

private theorem leaves_append (own : List Token) (nonempty : more ≠ []) :
    Leaves level (own ++ more) rest ↔ Leaves level more rest := by
  obtain ⟨first, others, rfl⟩ := List.exists_cons_of_ne_nil nonempty
  simp only [Leaves, List.getLast?_append, List.getLast?_cons, Option.some_or]

/-- Without an operator of the next looser level in front, what leaves one
level leaves that level too. -/
theorem leaves_looser (leaves : Leaves (level + 1) own rest)
    (other : ∀ next ∈ rest.head?, ∀ op, BinaryOp.ofKind? next.kind = some op → op.level ≠ level) :
    Leaves level own rest := by
  intro next member
  obtain ⟨ops, touching⟩ := leaves next member
  refine ⟨fun op found => ?_, touching⟩
  have below := ops op found
  have different := other next member op found
  omega

end Leaving

section Levels
variable {rounds room : Nat} {tokens : List Token}

/-- No expression is spelled with nothing. -/
theorem spelled_nonempty {e : Expr} {own : List Token} (spelled : e.Spelled own) :
    own ≠ [] := by
  obtain ⟨first, rest, rfl, -⟩ := expr_begins e own spelled
  exact List.cons_ne_nil first rest

private theorem join_parses {level : Nat} {operand : Parse Expr} {fair : Prop}
    (operands : ∀ more, Closed more → more.length ≤ tokens.length →
      Parses more operand fair (ExprTaken (level + 1)))
    (steps : Nat) (enough : tokens.length ≤ steps) (closed : Closed tokens) (left : Expr)
    (before : List Token) (leftTaken : left.Spelled before) (binds : level ≤ left.tightness)
    (leaves : Leaves (level + 1) before tokens) :
    Parses tokens (joinLevel level operand steps left) fair fun e own rest =>
      ExprTaken level e (before ++ own) rest := by
  induction steps generalizing tokens left before with
  | zero => exact absurd (List.length_eq_zero_iff.mp (Nat.le_zero.mp enough)) (closed_ne_nil closed)
  | succ steps ih =>
    obtain ⟨token, rest, rfl⟩ := List.exists_cons_of_ne_nil (closed_ne_nil closed)
    have stops : (∀ op, BinaryOp.ofKind? token.kind = some op → op.level ≠ level) →
        ExprTaken level left (before ++ []) (token :: rest) := by
      intro other
      rw [List.append_nil]
      refine ⟨leftTaken, binds, leaves_looser leaves fun next member => ?_⟩
      obtain rfl : token = next := by simpa using member
      exact other
    refine parses_current ?_
    cases found : BinaryOp.ofKind? token.kind with
    | none => exact parses_pure closed (stops fun op same => by simp [found] at same)
    | some op =>
      dsimp only
      split
      · next same =>
        subst same
        have notEof : token.kind ≠ .eof := by
          intro isEof
          simp [isEof, BinaryOp.ofKind?] at found
        refine parses_skip closed notEof fun closed => ?_
        have shorter : rest.length ≤ (token :: rest).length := by simp
        refine (operands rest closed shorter).bind fun right own left' split closed holds => ?_
        obtain ⟨rightSpelled, tighter, leaves⟩ := holds
        have nonempty := spelled_nonempty rightSpelled
        have lengths := congrArg List.length split
        simp only [List.length_append, List.length_cons] at lengths enough
        have goesOn : Leaves (op.level + 1) (before ++ token :: own) left' := by
          rw [List.append_cons, leaves_append _ nonempty]
          exact leaves
        have joined := ih
          (fun more closed le => operands more closed (by simp only [List.length_cons]; omega))
          (by omega) closed (.binary left op (markOf token) right) (before ++ token :: own)
          ⟨before, token, own, rfl, found, rfl, binds, tighter, leftTaken, rightSpelled⟩
          (Nat.le_refl _) goesOn
        refine joined.imp id fun e more left _ _ taken => ?_
        simpa using taken
      · next differs =>
        refine parses_pure closed (stops fun other same => ?_)
        obtain rfl : op = other := by simpa [found] using same
        exact differs

/-- Expressions of every level are read as the grammar has them. -/
theorem level_parses (sound : ∀ less ≤ room, Sound rounds less) (closed : Closed tokens)
    (bound : tokens.length ≤ rounds) (gap : Nat) (le : gap ≤ unaryLevel) :
    Parses tokens (levelParser (nestedIn rounds room) (unaryLevel - gap))
      (exprRoom tokens.length ≤ room) (ExprTaken (unaryLevel - gap)) := by
  induction gap generalizing tokens with
  | zero =>
    rw [Nat.sub_zero, level_parser_unary]
    refine ((sound _ (Nat.sub_le room Room.levels)).unary tokens closed bound).fairer ?_
    simp only [exprRoom, Room.perToken, Room.levels]
    omega
  | succ gap ih =>
    have step : unaryLevel - gap = unaryLevel - (gap + 1) + 1 := by omega
    rw [level_parser_step _ (show unaryLevel - (gap + 1) < unaryLevel by omega), ← step, atLevel]
    refine (ih closed bound (by omega)).bind fun left own rest split closed holds => ?_
    obtain ⟨spelled, binds, leaves⟩ := holds
    have lengths := congrArg List.length split
    simp only [List.length_append] at lengths
    refine join_parses (fun more closed le => ?_) rounds (by omega) closed left own spelled
      (by omega) (by rwa [← step])
    rw [← step]
    refine (ih closed (by omega) (by omega)).fairer ?_
    simp only [exprRoom, Room.perToken]
    omega

/-- An expression is read as the grammar has it. -/
theorem expression_parses (sound : ∀ less ≤ room, Sound rounds less) (closed : Closed tokens)
    (bound : tokens.length ≤ rounds) :
    Parses tokens (expression (nestedIn rounds room)) (exprRoom tokens.length ≤ room)
      (ExprTaken 0) :=
  level_parses sound closed bound unaryLevel (Nat.le_refl _)

end Levels

section Lists
variable {tokens : List Token} {fair : Prop}

/-- Items with commas between them are read up to the first that none follows. -/
theorem comma_separated_parses {α : Type} {item : α → List Token → Prop} {parser : Parse α}
    (items : ∀ more, Closed more → more.length ≤ tokens.length →
      Parses more parser fair fun a own _ => item a own)
    (steps : Nat) (enough : tokens.length ≤ steps) (closed : Closed tokens) (done : List α) :
    Parses tokens (commaSeparated parser steps done) fair fun as own _ =>
      ∃ new, as = done.reverse ++ new ∧ Listed item new own := by
  induction steps generalizing tokens done with
  | zero => exact absurd (List.length_eq_zero_iff.mp (Nat.le_zero.mp enough)) (closed_ne_nil closed)
  | succ steps ih =>
    obtain ⟨token, rest, rfl⟩ := List.exists_cons_of_ne_nil (closed_ne_nil closed)
    refine parses_current ?_
    split
    · exact parses_pure closed ⟨[], by simp, rfl⟩
    · refine (items _ closed (Nat.le_refl _)).bind fun a own left split closed holds => ?_
      obtain ⟨next, left, rfl⟩ := List.exists_cons_of_ne_nil (closed_ne_nil closed)
      refine parses_current ?_
      have lengths := congrArg List.length split
      simp only [List.length_append, List.length_cons] at lengths enough
      split
      · next isComma =>
        refine parses_skip closed (by simp [isComma]) fun closed => ?_
        have others := ih (fun more closed le => items more closed (by
          simp only [List.length_cons]; omega)) (by omega) closed (a :: done)
        refine others.imp id fun as more _ _ _ taken => ?_
        obtain ⟨new, rfl, listed⟩ := taken
        exact ⟨a :: new, by simp, .inr ⟨own, next, more, rfl, isComma, holds, listed⟩⟩
      · refine parses_pure closed ⟨[a], by simp, .inl ⟨rfl, ?_⟩⟩
        rwa [List.append_nil]

/-- A parameter is a name. -/
theorem parameter_parses (closed : Closed tokens) :
    Parses tokens parameter fair fun mark own _ => mark.Spelled own := by
  unfold parameter
  refine (parses_expect closed (by decide) (by simp)).bind fun token own rest _ closed holds => ?_
  obtain ⟨rfl, isName⟩ := holds
  dsimp only
  split
  · exact parses_fail (by simp)
  · next plain =>
    exact parses_pure closed ⟨token, rfl, isName, by simpa using plain, rfl⟩

end Lists

section Blocks
variable {rounds room : Nat} {tokens : List Token} {stop : TokenKind}

private theorem stmts_follow (ss : List Stmt) (spelled : StmtsSpelled stop ss tokens)
    (notAssign : stop ≠ .assign) : ∀ next ∈ tokens.head?, next.kind ≠ .assign := by
  have first : ∀ semicolons more : List Token, (∀ token ∈ semicolons, token.kind = .semicolon) →
      (∀ next ∈ more.head?, next.kind ≠ .assign) →
      ∀ next ∈ (semicolons ++ more).head?, next.kind ≠ .assign := by
    intro semicolons more all follows next member
    cases semicolons with
    | nil => exact follows next member
    | cons token semicolons =>
      obtain rfl : token = next := by simpa using member
      simp [all token (by simp)]
  cases ss with
  | nil =>
    obtain ⟨semicolons, last, rfl, all, isStop⟩ := spelled
    refine first semicolons [last] all fun next member => ?_
    obtain rfl : last = next := by simpa using member
    rw [isStop]
    exact notAssign
  | cons s ss =>
    obtain ⟨semicolons, own, rest, rfl, all, single, -, -⟩ := spelled
    obtain ⟨token, more, rfl, begins⟩ := stmt_begins s single
    refine first semicolons _ all fun next member => ?_
    obtain rfl : token = next := by simpa using member
    exact (begins_stmt_plain begins).2.2.2.1

private theorem stmts_semicolon {token : Token} (isSemicolon : token.kind = .semicolon)
    (ss : List Stmt) (spelled : StmtsSpelled stop ss tokens) :
    StmtsSpelled stop ss (token :: tokens) := by
  cases ss with
  | nil =>
    obtain ⟨semicolons, last, rfl, all, isStop⟩ := spelled
    exact ⟨token :: semicolons, last, rfl, by simpa [isSemicolon] using all, isStop⟩
  | cons s ss =>
    obtain ⟨semicolons, own, rest, rfl, all, others⟩ := spelled
    exact ⟨token :: semicolons, own, rest, rfl, by simpa [isSemicolon] using all, others⟩

private theorem stmts_statement {s : Stmt} {ss : List Stmt} {own more : List Token}
    (taken : StmtTaken s own (tokens ++ more)) (spelled : StmtsSpelled stop ss tokens)
    (notAssign : stop ≠ .assign) : StmtsSpelled stop (s :: ss) (own ++ tokens) := by
  have follows := stmts_follow ss spelled notAssign
  refine ⟨[], own, tokens, rfl, nofun, taken.1, fun ends => ?_, spelled⟩
  obtain ⟨next, rest, rfl⟩ := List.exists_cons_of_ne_nil (stmts_nonempty ss spelled)
  obtain ⟨leaves, bare⟩ := taken.2 ends
  exact ⟨leaves, fun token member => ⟨follows token member, bare token member⟩⟩

/-- The rounds of a loop over statements: it leaves out a semicolon, or reads a
statement, unless the token stops it. -/
structure StmtRounds (next : Parse Stmt) (loop : Nat → List Stmt → Parse (List Stmt))
    (stops : TokenKind → Prop) : Prop where
  skips : ∀ {steps done token rest}, token.kind = .semicolon →
    loop (steps + 1) done (.ofTokens (token :: rest)) =
      (advance >>= fun _ => loop steps done) (.ofTokens (token :: rest))
  reads : ∀ {steps done token rest}, token.kind ≠ .semicolon → ¬ stops token.kind →
    loop (steps + 1) done (.ofTokens (token :: rest)) =
      (next >>= fun s => loop steps (s :: done)) (.ofTokens (token :: rest))

/-- The statements of a body, up to the end of the body or of the text. -/
theorem to_end_rounds (next : Parse Stmt) (opener : Token) :
    StmtRounds next (statementsToEnd next opener) fun kind => kind = .kwEnd ∨ kind = .eof where
  skips := by
    intro steps done token rest kind
    rw [← discard_bind advance fun _ => statementsToEnd next opener steps done]
    rw [statementsToEnd, bind_ok current_ok]
    simp only [kind]
  reads := by
    intro steps done token rest notSemicolon goesOn
    rw [statementsToEnd, bind_ok current_ok]
    cases kind : token.kind <;> first | rfl | simp [kind] at notSemicolon goesOn

/-- The statements of a program, up to the end of the text. -/
theorem to_eof_rounds (next : Parse Stmt) :
    StmtRounds next (statementsToEof next) fun kind => kind = .eof where
  skips := by
    intro steps done token rest kind
    rw [← discard_bind advance fun _ => statementsToEof next steps done]
    rw [statementsToEof, bind_ok current_ok]
    simp only [kind]
  reads := by
    intro steps done token rest notSemicolon goesOn
    rw [statementsToEof, bind_ok current_ok]
    cases kind : token.kind <;> first | rfl | simp [kind] at notSemicolon goesOn

private theorem loop_parses {next : Parse Stmt} {loop : Nat → List Stmt → Parse (List Stmt)}
    {stops : TokenKind → Prop} {fair : Prop} (shown : List Token → List Token)
    (rounds : StmtRounds next loop stops) (notAssign : stop ≠ .assign)
    (begins : ∀ rest, ∃ more, rest = shown rest ++ more)
    (finishes : ∀ steps done token rest, stops token.kind → Closed (token :: rest) →
      Parses (token :: rest) (loop (steps + 1) done) fair fun body own left =>
        body = done.reverse ∧ StmtsSpelled stop [] (own ++ shown left))
    (statements : ∀ more, Closed more → more.length ≤ tokens.length →
      Parses more next fair StmtTaken)
    (steps : Nat) (enough : tokens.length ≤ steps) (closed : Closed tokens) (done : List Stmt) :
    Parses tokens (loop steps done) fair fun body own left =>
      ∃ ss, body = done.reverse ++ ss ∧ StmtsSpelled stop ss (own ++ shown left) := by
  induction steps generalizing tokens done with
  | zero => exact absurd (List.length_eq_zero_iff.mp (Nat.le_zero.mp enough)) (closed_ne_nil closed)
  | succ steps ih =>
    obtain ⟨token, rest, rfl⟩ := List.exists_cons_of_ne_nil (closed_ne_nil closed)
    have shorter : ∀ left : List Token, left.length < (token :: rest).length → Closed left →
        ∀ done, Parses left (loop steps done) fair fun body own left =>
          ∃ ss, body = done.reverse ++ ss ∧ StmtsSpelled stop ss (own ++ shown left) := by
      intro left less closed done
      exact ih (fun more closed le => statements more closed (by omega)) (by omega) closed done
    by_cases isSemicolon : token.kind = .semicolon
    · rw [Parses, rounds.skips isSemicolon]
      refine parses_advance closed (by simp [isSemicolon]) fun closed => ?_
      refine (shorter rest (by simp) closed done).imp id fun body own left _ _ taken => ?_
      obtain ⟨ss, rfl, spelled⟩ := taken
      exact ⟨ss, rfl, stmts_semicolon isSemicolon ss spelled⟩
    by_cases stopped : stops token.kind
    · refine (finishes steps done token rest stopped closed).imp id fun body own left _ _ taken => ?_
      exact ⟨[], by rw [taken.1, List.append_nil], taken.2⟩
    · rw [Parses, rounds.reads isSemicolon stopped]
      refine (statements _ closed (Nat.le_refl _)).bind fun s own left split closed taken => ?_
      obtain ⟨first, others, rfl, -⟩ := stmt_begins s taken.1
      have less : left.length < (token :: rest).length := by
        rw [split, List.length_append, List.length_cons]
        omega
      refine (shorter left less closed (s :: done)).imp id fun body more left split _ holds => ?_
      obtain ⟨ss, rfl, spelled⟩ := holds
      obtain ⟨further, same⟩ := begins left
      rw [split, same, ← List.append_assoc] at taken
      refine ⟨s :: ss, by simp, ?_⟩
      rw [List.append_assoc]
      exact stmts_statement taken spelled notAssign

private theorem to_end_parses {next : Parse Stmt} {opener : Token} {fair : Prop}
    (statements : ∀ more, Closed more → more.length ≤ tokens.length →
      Parses more next fair StmtTaken)
    (steps : Nat) (enough : tokens.length ≤ steps) (closed : Closed tokens) :
    Parses tokens (statementsToEnd next opener steps []) fair fun body own _ =>
      StmtsSpelled .kwEnd body own := by
  have finishes : ∀ steps done token rest, (token.kind = .kwEnd ∨ token.kind = .eof) →
      Closed (token :: rest) →
      Parses (token :: rest) (statementsToEnd next opener (steps + 1) done) fair
        fun body own _ => body = done.reverse ∧ StmtsSpelled .kwEnd [] (own ++ []) := by
    intro steps done token rest stopped closed
    refine parses_current ?_
    rcases stopped with isEnd | isEof
    · simp only [isEnd]
      refine parses_skip closed (by simp [isEnd]) fun closed => ?_
      exact parses_pure closed ⟨rfl, [], token, rfl, nofun, isEnd⟩
    · simp only [isEof]
      exact parses_fail (by simp)
  have loops := loop_parses (fun _ => []) (to_end_rounds next opener) (by nofun)
    (fun rest => ⟨rest, rfl⟩) finishes statements steps enough closed []
  refine loops.imp id fun body own _ _ _ taken => ?_
  obtain ⟨ss, rfl, spelled⟩ := taken
  rwa [List.append_nil] at spelled

private theorem to_eof_parses {next : Parse Stmt} {fair : Prop}
    (statements : ∀ more, Closed more → more.length ≤ tokens.length →
      Parses more next fair StmtTaken)
    (steps : Nat) (enough : tokens.length ≤ steps) (closed : Closed tokens) :
    Parses tokens (statementsToEof next steps []) fair fun body own rest =>
      StmtsSpelled .eof body (own ++ rest) := by
  have finishes : ∀ steps done token rest, token.kind = .eof → Closed (token :: rest) →
      Parses (token :: rest) (statementsToEof next (steps + 1) done) fair
        fun body own left => body = done.reverse ∧ StmtsSpelled .eof [] (own ++ left) := by
    intro steps done token rest isEof closed
    refine parses_current ?_
    simp only [isEof]
    obtain rfl : rest = [] := by
      cases rest with
      | nil => rfl
      | cons second rest => exact absurd isEof closed.1
    exact parses_pure closed ⟨rfl, [], token, rfl, nofun, isEof⟩
  have loops := loop_parses id (to_eof_rounds next) (by nofun) (fun rest => ⟨[], by simp⟩) finishes
    statements steps enough closed []
  refine loops.imp id fun body own _ _ _ taken => ?_
  obtain ⟨ss, rfl, spelled⟩ := taken
  exact spelled

/-- A block is read as the grammar has it. -/
theorem block_parses (sound : ∀ less ≤ room, Sound rounds less) (closed : Closed tokens)
    (bound : tokens.length ≤ rounds) (opener : Token) :
    Parses tokens (block (nestedIn rounds room) opener)
      (stmtRoom tokens.length + Room.block ≤ room) fun result own _ =>
        StmtsSpelled .kwEnd result.1 own ∧ BeginsAt own result.2 := by
  obtain ⟨token, rest, rfl⟩ := List.exists_cons_of_ne_nil (closed_ne_nil closed)
  refine parses_current ?_
  have statements : ∀ more, Closed more → more.length ≤ (token :: rest).length →
      Parses more ((nestedIn rounds room).after Room.block).statement
        (stmtRoom (token :: rest).length + Room.block ≤ room) StmtTaken := by
    intro more closed le
    rw [nested_after]
    refine ((sound _ (Nat.sub_le room Room.block)).statement more closed (by omega)).fairer ?_
    simp only [stmtRoom, exprRoom, Room.perToken, Room.block]
    omega
  refine (to_end_parses statements rounds bound closed).bind
    fun body own left split closed spelled => ?_
  refine parses_pure closed ?_
  rw [List.append_nil]
  refine ⟨spelled, ?_⟩
  obtain ⟨first, more, rfl⟩ := List.exists_cons_of_ne_nil (stmts_nonempty body spelled)
  exact ⟨first, more, rfl, congrArg Token.loc (List.cons.inj split).1.symm⟩

end Blocks

section Primaries
variable {rounds room : Nat} {tokens : List Token}

private theorem stmts_last {stop : TokenKind} (ss : List Stmt)
    (spelled : StmtsSpelled stop ss tokens) : ∀ last ∈ tokens.getLast?, last.kind = stop := by
  induction ss generalizing tokens with
  | nil =>
    obtain ⟨semicolons, final, rfl, -, isStop⟩ := spelled
    simpa using isStop
  | cons s ss ih =>
    obtain ⟨semicolons, own, rest, rfl, -, -, -, others⟩ := spelled
    obtain ⟨first, more, rfl⟩ := List.exists_cons_of_ne_nil (stmts_nonempty ss others)
    intro last member
    refine ih others last ?_
    simpa [List.getLast?_append, List.getLast?_cons] using member

private theorem proc_last {opener : Token} {proc : Proc} (spelled : proc.Spelled opener tokens) :
    ∀ last ∈ tokens.getLast?, last.kind = .kwEnd := by
  obtain ⟨loc, params, paramsLoc, body, bodyLoc⟩ := proc
  obtain ⟨opening, inside, closing, header, block, rfl, -, -, -, -, -, -, -, spelled⟩ := spelled
  obtain ⟨first, more, rfl⟩ := List.exists_cons_of_ne_nil (stmts_nonempty body spelled)
  intro last member
  refine stmts_last body spelled last ?_
  simpa [List.getLast?_append, List.getLast?_cons] using member

/-- What follows the word `proc` and the name is read as the grammar has it. -/
theorem proc_rest_parses (sound : ∀ less ≤ room, Sound rounds less) (closed : Closed tokens)
    (bound : tokens.length ≤ rounds) (opener : Token) :
    Parses tokens (procRest (nestedIn rounds room) opener) (stmtRoom tokens.length ≤ room)
      fun proc own _ => proc.Spelled opener own := by
  unfold procRest
  rw [discard_bind]
  refine (parses_expect closed (by decide) (by simp)).bind
    fun opening _ rest split opened holds => ?_
  obtain ⟨rfl, opens⟩ := holds
  subst split
  obtain ⟨start, same⟩ : ∃ start, rest.head? = some start :=
    Option.isSome_iff_exists.mp (List.isSome_head?.mpr (closed_ne_nil opened))
  refine parses_current_head same ?_
  simp only [List.length_append, List.length_cons, List.length_nil] at bound
  refine (comma_separated_parses (fun more closed _ => parameter_parses closed) rounds (by omega)
    opened []).bind fun params inside rest split listedUp holds => ?_
  obtain ⟨params, rfl, listed⟩ := holds
  subst split
  rw [discard_bind]
  refine (parses_expect listedUp (by decide) (by simp)).bind
    fun closing _ rest split closedUp holds => ?_
  obtain ⟨rfl, closes⟩ := holds
  subst split
  refine (parses_expect_then closedUp).bind fun _ _ rest split headed holds => ?_
  obtain ⟨header, rfl, ends⟩ := holds
  subst split
  simp only [List.length_append, List.length_cons, List.length_nil] at bound ⊢
  rw [nested_after]
  have blocks := block_parses (sound_below sound Room.proc) headed (by omega) opener
  refine Parses.bind (blocks.fairer ?_) fun result block left split closed holds => ?_
  · simp only [stmtRoom, exprRoom, Room.perToken, Room.block, Room.proc]
    omega
  · obtain ⟨spelled, begins⟩ := holds
    refine parses_pure closed ?_
    rw [List.append_nil]
    refine ⟨opening, inside, closing, header, block, by simp, rfl, opens, closes, ends, ?_, listed,
      begins, spelled⟩
    cases inside with
    | nil => exact ⟨closing, [], rfl, by simpa using congrArg (Option.map Token.loc) same⟩
    | cons first inside =>
      exact ⟨first, inside ++ [closing], rfl, by simpa using congrArg (Option.map Token.loc) same⟩

private theorem unary_le_primary : unaryLevel ≤ primaryLevel := by
  decide

private theorem operand_taken {e : Expr} {own rest : List Token} (spelled : e.Spelled own)
    (primary : unaryLevel ≤ e.tightness) (last : ∀ token ∈ own.getLast?, token.kind ≠ .ident) :
    ExprTaken unaryLevel e own rest :=
  ⟨spelled, primary, leaves_unary last⟩

private theorem literal_parses {token : Token} {rest : List Token} {value : Value} {fair : Prop}
    (closed : Closed (token :: rest)) (found : token.literal? = some value) :
    Parses (token :: rest) (discard advance >>= fun _ => pure (.literal value token.loc)) fair
      (ExprTaken unaryLevel) := by
  have plain : token.kind ≠ .eof ∧ token.kind ≠ .ident := by
    constructor <;> intro kind <;> simp [Token.literal?, kind] at found
  refine parses_skip closed plain.1 fun closed => parses_pure closed ?_
  exact operand_taken ⟨token, rfl, found, rfl⟩ unary_le_primary (by simpa using plain.2)

private theorem name_parses (sound : ∀ less ≤ room, Sound rounds less) (closed : Closed tokens)
    (bound : tokens.length ≤ rounds) {name : Token} (isName : name.kind = .ident) :
    Parses tokens (nameOrCall (nestedIn rounds room) name)
      (Room.perToken * (tokens.length + 1) ≤ room + 11) fun e own rest =>
        ExprTaken unaryLevel e (name :: own) rest := by
  obtain ⟨opening, rest, rfl⟩ := List.exists_cons_of_ne_nil (closed_ne_nil closed)
  refine parses_current ?_
  by_cases touches : opening.kind = .leftParen ∧ adjacent name opening = true
  · obtain ⟨opens, touches⟩ := touches
    simp only [opens, touches, decide_true, Bool.and_self, ↓reduceIte]
    rw [discard_bind, nested_after]
    refine parses_advance closed (by simp [opens]) fun opened => ?_
    simp only [List.length_cons] at bound ⊢
    have items : ∀ more, Closed more → more.length ≤ rest.length →
        Parses more (expression (nestedIn rounds (room - Room.callList)))
          (Room.perToken * (rest.length + 1 + 1) ≤ room + 11) fun e own _ => e.Spelled own := by
      intro more closed le
      refine (expression_parses (sound_below sound Room.callList) closed (by omega)).imp ?_
        fun _ _ _ _ _ taken => taken.1
      simp only [exprRoom, Room.perToken, Room.callList]
      omega
    refine (comma_separated_parses items rounds (by omega) opened []).bind
      fun args inside rest split listedUp holds => ?_
    obtain ⟨args, rfl, listed⟩ := holds
    rw [discard_bind]
    refine (parses_expect listedUp (by decide) (by simp)).bind
      fun closing _ rest split closed holds => ?_
    obtain ⟨rfl, closes⟩ := holds
    refine parses_pure closed (operand_taken ?_ unary_le_primary
      (by simp [List.getLast?_cons, closes]))
    exact ⟨name, opening, inside, closing, by simp, isName, rfl, opens, touches, rfl, closes,
      (exprs_spelled_iff_listed args inside).mpr listed⟩
  · have apart : ¬ (decide (opening.kind = .leftParen) && adjacent name opening) = true := by
      simpa using touches
    simp only [apart, Bool.false_eq_true, ↓reduceIte]
    refine parses_pure closed ⟨⟨name, rfl, isName, rfl⟩, unary_le_primary, fun next member => ?_⟩
    obtain rfl : opening = next := by simpa using member
    refine ⟨fun op _ => op_level_lt op, fun last isLast _ opens => ?_⟩
    obtain rfl : name = last := by simpa using isLast
    simpa [opens] using touches

private theorem primary_parses (sound : ∀ less ≤ room, Sound rounds less) (closed : Closed tokens)
    (bound : tokens.length ≤ rounds) :
    Parses tokens (primary (nestedIn rounds room)) (Room.perToken * tokens.length ≤ room + 11)
      (ExprTaken unaryLevel) := by
  obtain ⟨token, rest, rfl⟩ := List.exists_cons_of_ne_nil (closed_ne_nil closed)
  refine parses_current ?_
  have shorter : rest.length ≤ rounds := by
    simp only [List.length_cons] at bound
    omega
  split
  · next kind => exact literal_parses closed (by simp [Token.literal?, kind])
  · next kind => exact literal_parses closed (by simp [Token.literal?, kind])
  · next kind => exact literal_parses closed (by simp [Token.literal?, kind])
  · next kind => exact literal_parses closed (by simp [Token.literal?, kind])
  · next kind => exact literal_parses closed (by simp [Token.literal?, kind])
  · next opens =>
    refine parses_skip closed (by simp [opens]) fun opened => ?_
    refine Parses.bind ((expression_parses sound opened shorter).fairer ?_)
      fun inner inside left split read taken => ?_
    · simp only [List.length_cons, exprRoom, Room.perToken]
      omega
    rw [discard_bind]
    refine (parses_expect read (by decide) (by simp)).bind fun closing _ left _ closed holds => ?_
    obtain ⟨rfl, closes⟩ := holds
    refine parses_pure closed (operand_taken ?_ unary_le_primary
      (by simp [List.getLast?_cons, closes]))
    exact ⟨token, inside, closing, by simp, opens, closes, rfl, taken.1⟩
  · next isProc =>
    refine parses_skip closed (by simp [isProc]) fun opened => ?_
    refine Parses.bind ((proc_rest_parses sound opened shorter token).fairer ?_)
      fun proc own left split closed spelled => ?_
    · simp only [List.length_cons, stmtRoom, exprRoom, Room.perToken]
      omega
    refine parses_pure closed (operand_taken ?_ unary_le_primary fun last member => ?_)
    · exact ⟨token, own, by simp, isProc, spelled⟩
    · have nonempty : own ≠ [] := by
        obtain ⟨loc, params, paramsLoc, body, bodyLoc⟩ := proc
        obtain ⟨opening, inside, closing, header, block, rfl, -⟩ := spelled
        simp
      rw [List.append_nil, List.getLast?_cons_of_ne_nil nonempty] at member
      simp [proc_last spelled last member]
  · next isName =>
    refine parses_skip closed (by simp [isName]) fun opened => ?_
    exact name_parses sound opened shorter isName
  · exact parses_fail (by simp)

private theorem unary_parses (sound : ∀ less ≤ room, Sound rounds less) (closed : Closed tokens)
    (bound : tokens.length ≤ rounds) :
    Parses tokens (unary (nestedIn rounds room)) (Room.perToken * tokens.length ≤ room + 10)
      (ExprTaken unaryLevel) := by
  obtain ⟨token, rest, rfl⟩ := List.exists_cons_of_ne_nil (closed_ne_nil closed)
  refine parses_current ?_
  split
  · next op found =>
    rw [discard_bind]
    have notEof : token.kind ≠ .eof := by
      intro kind
      simp [kind, UnaryOp.ofKind?] at found
    refine parses_advance closed notEof fun opened => ?_
    simp only [List.length_cons] at bound ⊢
    refine Parses.bind (((sound room (Nat.le_refl _)).unary rest opened (by omega)).fairer ?_)
      fun operand own left _ closed taken => ?_
    · simp only [Room.perToken]
      omega
    obtain ⟨spelled, binds, leaves⟩ := taken
    refine parses_pure closed ?_
    rw [List.append_nil]
    refine ⟨⟨token, own, rfl, found, rfl, binds, spelled⟩, Nat.le_refl _, ?_⟩
    exact (leaves_append [token] (spelled_nonempty spelled)).mpr leaves
  · rw [nested_after]
    refine (primary_parses (sound_below sound Room.operand) closed bound).fairer ?_
    simp only [Room.perToken, Room.operand]
    omega

end Primaries

section Statements
variable {rounds room : Nat} {tokens : List Token}

private theorem stmt_taken {s : Stmt} {e : Expr} {more rest : List Token} (front : List Token)
    (spelled : s.Spelled (front ++ more)) (taken : ExprTaken 0 e more rest) (before : front ≠ []) :
    StmtTaken s (front ++ more) rest := by
  have nonempty := spelled_nonempty taken.1
  refine ⟨spelled, fun _ => ⟨(leaves_append front nonempty).mpr taken.2.2, ?_⟩⟩
  intro next _ single
  have frontLength := List.length_pos_iff.mpr before
  have moreLength := List.length_pos_iff.mpr nonempty
  rw [List.length_append] at single
  omega

private theorem closed_stmt_taken {s : Stmt} {own rest : List Token} (spelled : s.Spelled own)
    (ends : s.endsInExpr = false) : StmtTaken s own rest := by
  refine ⟨spelled, fun isExpr => ?_⟩
  rw [ends] at isExpr
  cases isExpr

private theorem expr_stmt_taken {e : Expr} {own rest : List Token}
    (taken : ExprTaken 0 e own rest) :
    StmtTaken (.expr e) own rest := by
  refine ⟨taken.1, fun _ => ⟨taken.2.2, fun next _ single returns => ?_⟩⟩
  obtain ⟨first, more, rfl, begins, -⟩ := expr_begins e own taken.1
  obtain rfl : more = [] := List.length_eq_zero_iff.mp (by simpa using single)
  obtain ⟨opener, member, kind⟩ := returns
  obtain rfl := List.mem_singleton.mp member
  simp [kind, TokenKind.beginsExpr] at begins

private theorem import_parses (closed : Closed tokens) {fair : Prop} {opener : Token}
    (isImport : opener.kind = .kwImport) :
    Parses tokens (importTarget opener) fair fun s own rest => StmtTaken s (opener :: own) rest := by
  obtain ⟨token, rest, rfl⟩ := List.exists_cons_of_ne_nil (closed_ne_nil closed)
  refine parses_current ?_
  split
  · next kind =>
    refine parses_skip closed (by simp [kind]) fun closed => parses_pure closed ?_
    refine closed_stmt_taken ?_ rfl
    exact ⟨opener, token, rfl, isImport, rfl, .inl kind, rfl⟩
  · next kind =>
    refine parses_skip closed (by simp [kind]) fun closed => parses_pure closed ?_
    refine closed_stmt_taken ?_ rfl
    exact ⟨opener, token, rfl, isImport, rfl, .inr kind, rfl⟩
  · next kind =>
    refine parses_skip closed (by simp [kind]) fun closed => parses_pure closed ?_
    refine closed_stmt_taken ?_ rfl
    exact ⟨opener, token, rfl, isImport, rfl, kind, rfl⟩
  · exact parses_fail (by simp)

private theorem declaration_parses (sound : ∀ less ≤ room, Sound rounds less)
    (closed : Closed tokens) (bound : tokens.length ≤ rounds) (keyword : Token) :
    Parses tokens (declaration (nestedIn rounds room) keyword) (exprRoom tokens.length ≤ room)
      fun result own rest => ∃ token equals more, own = token :: equals :: more ∧
        token.kind = .ident ∧ nameOf token = result.1 ∧ equals.kind = .assign ∧
        ExprTaken 0 result.2 more rest := by
  unfold declaration
  refine (parses_expect closed (by decide) (by simp)).bind fun token _ rest split named holds => ?_
  obtain ⟨rfl, isName⟩ := holds
  subst split
  rw [discard_bind]
  refine (parses_expect named (by decide) (by simp)).bind
    fun equals _ rest split assigned holds => ?_
  obtain ⟨rfl, isAssign⟩ := holds
  subst split
  simp only [List.length_append, List.length_cons, List.length_nil] at bound ⊢
  refine Parses.bind ((expression_parses sound assigned (by omega)).fairer ?_)
    fun value own left _ closed taken => ?_
  · simp only [exprRoom, Room.perToken]
    omega
  · refine parses_pure closed ⟨token, equals, own, by simp, isName, rfl, isAssign, taken⟩

private theorem guarded_parses (sound : ∀ less ≤ room, Sound rounds less)
    (closed : Closed tokens) (bound : tokens.length ≤ rounds) (opener : Token) :
    Parses tokens (guarded (nestedIn rounds room) opener) (exprRoom tokens.length ≤ room)
      fun result own _ => ∃ inside header block, own = inside ++ header :: block ∧
        header.EndsHeader ∧ result.1.Spelled inside ∧ BeginsAt block result.2.2 ∧
        StmtsSpelled .kwEnd result.2.1 block := by
  unfold guarded
  refine (expression_parses sound closed bound).bind fun condition inside rest split read taken => ?_
  subst split
  refine (parses_expect_then read).bind fun _ _ rest split headed holds => ?_
  obtain ⟨header, rfl, ends⟩ := holds
  subst split
  simp only [List.length_append, List.length_cons, List.length_nil] at bound ⊢
  refine Parses.bind ((block_parses sound headed (by omega) opener).fairer ?_)
    fun result block left _ closed holds => ?_
  · simp only [stmtRoom, exprRoom, Room.perToken, Room.block]
    omega
  · obtain ⟨spelled, begins⟩ := holds
    exact parses_pure closed ⟨inside, header, block, by simp, ends, taken.1, begins, spelled⟩

private theorem returned_parses (sound : ∀ less ≤ room, Sound rounds less)
    (closed : Closed tokens) (bound : tokens.length ≤ rounds) {opener : Token}
    (isReturn : opener.kind = .kwReturn) :
    Parses tokens (returned (nestedIn rounds room) opener) (exprRoom tokens.length ≤ room)
      fun value own rest => StmtTaken (.returning value opener.loc) (opener :: own) rest := by
  obtain ⟨token, rest, rfl⟩ := List.exists_cons_of_ne_nil (closed_ne_nil closed)
  have bare : (token.kind = .kwEnd ∨ token.kind = .semicolon ∨ token.kind = .eof) →
      StmtTaken (.returning (.literal .null opener.loc) opener.loc) [opener] (token :: rest) := by
    intro ends
    refine ⟨⟨opener, [], rfl, isReturn, rfl, .inl ⟨rfl, rfl⟩⟩, fun _ => ⟨fun next member => ?_,
      fun next member _ _ => ?_⟩⟩
    all_goals obtain rfl : token = next := by simpa using member
    · refine ⟨fun op found => ?_, fun _ _ _ opens => ?_⟩
      · rcases ends with kind | kind | kind <;> simp [kind, BinaryOp.ofKind?] at found
      · rcases ends with kind | kind | kind <;> simp [kind] at opens
    · exact ends
  refine parses_current ?_
  split
  · next kind => exact parses_pure closed (bare (.inl kind))
  · next kind => exact parses_pure closed (bare (.inr (.inl kind)))
  · next kind => exact parses_pure closed (bare (.inr (.inr kind)))
  · refine (expression_parses sound closed bound).imp id fun value own left _ _ taken => ?_
    exact stmt_taken [opener] ⟨opener, own, rfl, isReturn, rfl, .inr taken.1⟩ taken
      (List.cons_ne_nil _ _)

private theorem for_parses (sound : ∀ less ≤ room, Sound rounds less) (closed : Closed tokens)
    (bound : tokens.length ≤ rounds) {opener : Token} (isFor : opener.kind = .kwFor) :
    Parses tokens (do
      let name ← expect .ident .missingLoopVariable
      discard <| expect .assign .missingLoopStart
      let start ← expression (nestedIn rounds room)
      discard <| expect .kwTo .missingLoopStop
      let stop ← expression (nestedIn rounds room)
      expectThen opener
      let (body, bodyLoc) ← block (nestedIn rounds room) opener
      return .forRange (nameOf name) start stop body bodyLoc opener.loc)
      (exprRoom tokens.length ≤ room) fun s own rest => StmtTaken s (opener :: own) rest := by
  refine (parses_expect closed (by decide) (by simp)).bind fun token _ rest split named holds => ?_
  obtain ⟨rfl, isName⟩ := holds
  subst split
  rw [discard_bind]
  refine (parses_expect named (by decide) (by simp)).bind
    fun equals _ rest split assigned holds => ?_
  obtain ⟨rfl, isAssign⟩ := holds
  subst split
  simp only [List.length_append, List.length_cons, List.length_nil] at bound ⊢
  refine Parses.bind ((expression_parses sound assigned (by omega)).fairer ?_)
    fun start first rest split started startTaken => ?_
  · simp only [exprRoom, Room.perToken]
    omega
  subst split
  rw [discard_bind]
  refine (parses_expect started (by decide) (by simp)).bind
    fun middle _ rest split divided holds => ?_
  obtain ⟨rfl, isTo⟩ := holds
  subst split
  simp only [List.length_append, List.length_cons, List.length_nil] at bound ⊢
  refine Parses.bind ((expression_parses sound divided (by omega)).fairer ?_)
    fun stop last rest split stopped stopTaken => ?_
  · simp only [exprRoom, Room.perToken]
    omega
  subst split
  refine (parses_expect_then stopped).bind fun _ _ rest split headed holds => ?_
  obtain ⟨header, rfl, ends⟩ := holds
  subst split
  simp only [List.length_append, List.length_cons, List.length_nil] at bound ⊢
  refine Parses.bind ((block_parses sound headed (by omega) opener).fairer ?_)
    fun result block left _ closed holds => ?_
  · simp only [stmtRoom, exprRoom, Room.perToken, Room.block]
    omega
  obtain ⟨spelled, begins⟩ := holds
  refine parses_pure closed (closed_stmt_taken ?_ rfl)
  exact ⟨opener, token, equals, first, middle, last, header, block, by simp, isFor, rfl, isName, rfl,
    isAssign, startTaken.1, isTo, stopTaken.1, ends, begins, spelled⟩

private theorem namespace_parses (sound : ∀ less ≤ room, Sound rounds less)
    (closed : Closed tokens) (bound : tokens.length ≤ rounds) {opener : Token}
    (isNamespace : opener.kind = .kwNamespace) :
    Parses tokens (do
      let name ← expect .ident .missingNamespaceName
      let (body, bodyLoc) ← block (nestedIn rounds room) opener
      return .inNamespace (nameOf name) body bodyLoc opener.loc)
      (exprRoom tokens.length ≤ room) fun s own rest => StmtTaken s (opener :: own) rest := by
  refine (parses_expect closed (by decide) (by simp)).bind fun token _ rest split named holds => ?_
  obtain ⟨rfl, isName⟩ := holds
  subst split
  simp only [List.length_append, List.length_cons, List.length_nil] at bound ⊢
  refine Parses.bind ((block_parses sound named (by omega) opener).fairer ?_)
    fun result block left _ closed holds => ?_
  · simp only [stmtRoom, exprRoom, Room.perToken, Room.block]
    omega
  · obtain ⟨spelled, begins⟩ := holds
    refine parses_pure closed (closed_stmt_taken ?_ rfl)
    exact ⟨opener, token, block, by simp, isNamespace, rfl, isName, rfl, begins, spelled⟩

private theorem statement_parses (sound : ∀ less ≤ room, Sound rounds less)
    (closed : Closed tokens) (bound : tokens.length ≤ rounds) :
    Parses tokens (statement (nestedIn rounds room)) (exprRoom tokens.length ≤ room) StmtTaken := by
  obtain ⟨token, rest, rfl⟩ := List.exists_cons_of_ne_nil (closed_ne_nil closed)
  have shorter : rest.length ≤ rounds := by
    simp only [List.length_cons] at bound
    omega
  have within := sound_below sound Room.statement
  have fair : exprRoom (token :: rest).length ≤ room →
      exprRoom rest.length ≤ room - Room.statement := by
    simp only [List.length_cons, exprRoom, Room.perToken, Room.statement]
    omega
  refine parses_current (parses_following ?_)
  rw [nested_after]
  split
  · next isImport =>
    refine parses_skip closed (by simp [isImport]) fun opened => ?_
    exact import_parses opened isImport
  · next isNamespace =>
    refine parses_skip closed (by simp [isNamespace]) fun opened => ?_
    exact (namespace_parses within opened shorter isNamespace).fairer fair
  · next isLet =>
    refine parses_skip closed (by simp [isLet]) fun opened => ?_
    refine ((declaration_parses within opened shorter token).fairer fair).bind
      fun result _ left _ closed holds => ?_
    obtain ⟨name, equals, own, rfl, isName, named, isAssign, taken⟩ := holds
    refine parses_pure closed ?_
    rw [List.append_nil]
    exact stmt_taken [token, name, equals]
      ⟨token, name, equals, own, rfl, isLet, rfl, isName, named, isAssign, taken.1⟩ taken
      (List.cons_ne_nil _ _)
  · next isConst =>
    refine parses_skip closed (by simp [isConst]) fun opened => ?_
    refine ((declaration_parses within opened shorter token).fairer fair).bind
      fun result _ left _ closed holds => ?_
    obtain ⟨name, equals, own, rfl, isName, named, isAssign, taken⟩ := holds
    refine parses_pure closed ?_
    rw [List.append_nil]
    exact stmt_taken [token, name, equals]
      ⟨token, name, equals, own, rfl, isConst, rfl, isName, named, isAssign, taken.1⟩ taken
      (List.cons_ne_nil _ _)
  · next isIf =>
    refine parses_skip closed (by simp [isIf]) fun opened => ?_
    refine ((guarded_parses within opened shorter token).fairer fair).bind
      fun result _ left _ closed holds => ?_
    obtain ⟨inside, header, block, rfl, ends, condition, begins, spelled⟩ := holds
    refine parses_pure closed (closed_stmt_taken ?_ rfl)
    exact ⟨token, inside, header, block, by simp, isIf, rfl, ends, condition, begins, spelled⟩
  · next isFor =>
    refine parses_skip closed (by simp [isFor]) fun opened => ?_
    exact (for_parses within opened shorter isFor).fairer fair
  · next isWhile =>
    refine parses_skip closed (by simp [isWhile]) fun opened => ?_
    refine ((guarded_parses within opened shorter token).fairer fair).bind
      fun result _ left _ closed holds => ?_
    obtain ⟨inside, header, block, rfl, ends, condition, begins, spelled⟩ := holds
    refine parses_pure closed (closed_stmt_taken ?_ rfl)
    exact ⟨token, inside, header, block, by simp, isWhile, rfl, ends, condition, begins, spelled⟩
  · next isReturn =>
    refine parses_skip closed (by simp [isReturn]) fun opened => ?_
    refine ((returned_parses within opened shorter isReturn).fairer fair).bind
      fun value own left _ closed taken => ?_
    refine parses_pure closed ?_
    rwa [List.append_nil]
  · next isProc isName =>
    refine parses_skip closed (by simp [isProc]) fun opened => ?_
    obtain ⟨name, rest, rfl⟩ := List.exists_cons_of_ne_nil (closed_ne_nil opened)
    change name.kind = .ident at isName
    refine parses_advance opened (by simp [isName]) fun named => ?_
    simp only [List.length_cons] at shorter ⊢
    refine Parses.bind ((proc_rest_parses sound named (by omega) token).fairer ?_)
      fun proc own left _ closed spelled => ?_
    · simp only [stmtRoom, exprRoom, Room.perToken]
      omega
    · refine parses_pure closed (closed_stmt_taken ?_ rfl)
      exact ⟨token, name, own, by simp, isProc, isName, rfl, spelled⟩
  · next isName isAssign =>
    refine parses_skip closed (by simp [isName]) fun named => ?_
    obtain ⟨equals, rest, rfl⟩ := List.exists_cons_of_ne_nil (closed_ne_nil named)
    change equals.kind = .assign at isAssign
    refine parses_skip named (by simp [isAssign]) fun assigned => ?_
    simp only [List.length_cons] at shorter ⊢
    refine Parses.bind ((expression_parses within assigned (by omega)).fairer ?_)
      fun value own left _ closed taken => ?_
    · simp only [exprRoom, Room.perToken, Room.statement]
      omega
    · refine parses_pure closed ?_
      rw [List.append_nil]
      exact stmt_taken [token, equals] ⟨token, equals, own, rfl, isName, rfl, isAssign, taken.1⟩
        taken (List.cons_ne_nil _ _)
  · refine (expression_parses sound closed bound).bind fun e own left _ closed taken => ?_
    refine parses_pure closed ?_
    rw [List.append_nil]
    exact expr_stmt_taken taken

end Statements

private theorem parses_out_of_room {α : Type} {tokens : List Token} {fair : Prop}
    {taken : α → List Token → List Token → Prop} (unfair : ¬ fair) :
    Parses tokens (outOfRoom : Parse α) fair taken :=
  ⟨.tooDeep, rfl, fun holds => absurd holds unfair⟩

/-- With too little room nothing inside is read. -/
theorem nested_tight (rounds : Nat) {room : Nat} (tight : room ≤ Room.work) :
    (nestedIn rounds room).unary = outOfRoom ∧ (nestedIn rounds room).statement = outOfRoom := by
  unfold nestedIn Nested.unary Nested.statement
  cases room with
  | zero => exact ⟨rfl, rfl⟩
  | succ room =>
    have less : room < Room.work := by omega
    simp only [within, if_pos less, and_true]

/-- The nested parsers keep to the grammar, whatever their room. -/
theorem nested_sound (rounds room : Nat) : Sound rounds room := by
  induction room using Nat.strongRecOn with
  | ind room ih =>
    by_cases enough : Room.work < room
    · have inner : ∀ less ≤ room - 1, Sound rounds less := fun less le => ih less (by omega)
      refine ⟨fun tokens closed bound => ?_, fun tokens closed bound => ?_⟩
      · rw [funext (nested_unary enough)]
        refine (unary_parses inner closed bound).fairer ?_
        omega
      · rw [funext (nested_statement enough)]
        refine (statement_parses inner closed bound).fairer ?_
        simp only [stmtRoom]
        omega
    · obtain ⟨unary, statement⟩ := nested_tight rounds (Nat.le_of_not_lt enough)
      simp only [Room.work] at enough
      refine ⟨fun tokens closed _ => ?_, fun tokens closed _ => ?_⟩
      all_goals have positive := List.length_pos_iff.mpr (closed_ne_nil closed)
      · rw [unary]
        refine parses_out_of_room ?_
        simp only [Room.perToken]
        omega
      · rw [statement]
        refine parses_out_of_room ?_
        simp only [stmtRoom, exprRoom, Room.perToken]
        omega

private theorem program_parses {tokens : List Token} (closed : Closed tokens) (room : Nat) :
    Parses tokens (program (nestedIn (tokens.length + 1) room)) (stmtRoom tokens.length ≤ room)
      fun result own rest => StmtsSpelled .eof result.body (own ++ rest) ∧
        ∀ first ∈ tokens.head?, result.file = first.loc.file := by
  obtain ⟨token, rest, rfl⟩ := List.exists_cons_of_ne_nil (closed_ne_nil closed)
  refine parses_current ?_
  have sound := nested_sound ((token :: rest).length + 1) room
  have statements : ∀ more, Closed more → more.length ≤ (token :: rest).length →
      Parses more (nestedIn ((token :: rest).length + 1) room).statement
        (stmtRoom (token :: rest).length ≤ room) StmtTaken := by
    intro more closed le
    refine (sound.statement more closed (by omega)).fairer ?_
    simp only [stmtRoom, exprRoom, Room.perToken]
    omega
  refine (to_eof_parses statements _ (Nat.le_succ _) closed).bind
    fun body own left _ closed spelled => ?_
  refine parses_pure closed ?_
  rw [List.append_nil]
  exact ⟨spelled, by simp⟩

section Results
variable {room : Nat} {tokens : List Token}

/-- What the parser accepts is spelled by the tokens, whatever the room. -/
theorem spelled_of_tokens {result : Program} (closed : Closed tokens)
    (parsed : Program.ofTokensWithin room tokens = .ok result) :
    StmtsSpelled .eof result.body tokens ∧ ∀ first ∈ tokens.head?, result.file = first.loc.file := by
  have parses := program_parses closed room
  cases read : program (nestedIn (tokens.length + 1) room) (.ofTokens tokens) with
  | error failure =>
    have failed : Program.ofTokensWithin room tokens = .error failure := congrArg _ read
    rw [failed] at parsed
    cases parsed
  | ok outcome =>
    have accepted : Program.ofTokensWithin room tokens = .ok outcome.1 := congrArg _ read
    rw [accepted] at parsed
    cases parsed
    rw [Parses, read] at parses
    obtain ⟨own, rest, rfl, -, -, holds⟩ := parses
    exact holds

/-- What is rejected is rejected for its syntax, and not for lack of room if
there is room in proportion to the tokens. -/
theorem rejected_for_syntax {failure : Failure} (closed : Closed tokens)
    (rejected : Program.ofTokensWithin room tokens = .error failure) :
    ∃ fault, failure.fault = .parse fault ∧ (stmtRoom tokens.length ≤ room → fault ≠ .tooDeep) := by
  have parses := program_parses closed room
  cases read : program (nestedIn (tokens.length + 1) room) (.ofTokens tokens) with
  | ok outcome =>
    have accepted : Program.ofTokensWithin room tokens = .ok outcome.1 := congrArg _ read
    rw [accepted] at rejected
    cases rejected
  | error other =>
    have failed : Program.ofTokensWithin room tokens = .error other := congrArg _ read
    rw [failed] at rejected
    cases rejected
    rwa [Parses, read] at parses

/-- Tokens are never too deep for the room that they are given. -/
theorem deep_enough {failure : Failure} (closed : Closed tokens)
    (rejected : Program.ofTokens tokens = .error failure) :
    failure.fault ≠ .parse .tooDeep := by
  obtain ⟨fault, reported, roomy⟩ := rejected_for_syntax closed rejected
  have enough : stmtRoom tokens.length ≤ roomFor tokens := by
    simp only [stmtRoom, exprRoom, roomFor, Room.perToken, Room.work]
    omega
  rw [reported]
  intro same
  exact roomy enough (Fault.parse.inj same)

end Results

end BasilLang.Derivation
