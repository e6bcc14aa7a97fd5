import BasilLang.Proofs.Balance
import BasilLang.Proofs.Derivation

/-! The parser's complaint about a block that is not closed. It comes only at
the end of the input, from the innermost of the blocks that the tokens leave
open, which are as many as the prompt counts. The argument follows the parser:
of each part of it, what it has gone past when it makes that complaint is the
beginning that the grammar of unfinished programs gives for it. -/
namespace BasilLang.Unfinished
open BasilLang.Parser Parsing Placement BasilLang.Derivation Prompt

/-- If the failure is that a block is not closed, then the tokens stop within
what was begun, and the failure is blamed on the innermost of the openers that
they leave open. -/
def Reports (unfinished : List Token → List Token → Prop) (tokens : List Token)
    (failure : Failure) : Prop :=
  ∀ text stop, failure.fault = .parse (.unterminatedBlock text stop) →
    ∃ own last openers innermost, tokens = own ++ [last] ∧ last.kind = .eof ∧
      unfinished openers own ∧ openers.getLast? = some innermost ∧
      failure.loc = some innermost.loc ∧ text = innermost.text ∧ stop = last.loc.pos

/-- Every failure of the parser on the tokens is such a report. -/
def Fails {α : Type} (tokens : List Token) (parser : Parse α)
    (unfinished : List Token → List Token → Prop) : Prop :=
  ∀ failure, parser (.ofTokens tokens) = .error failure → Reports unfinished tokens failure

section Rules
variable {α β : Type} {tokens rest : List Token} {token : Token} {a : α} {fair : Prop}
  {parser : Parse α} {continuation : α → Parse β} {taken : α → List Token → List Token → Prop}
  {unfinished wider : List Token → List Token → Prop}

private theorem Fails.imp (fails : Fails tokens parser unfinished)
    (widens : ∀ openers own, unfinished openers own → wider openers own) :
    Fails tokens parser wider := by
  intro failure failed text stop reported
  obtain ⟨own, last, openers, innermost, split, isEof, inner, others⟩ :=
    fails failure failed text stop reported
  exact ⟨own, last, openers, innermost, split, isEof, widens openers own inner, others⟩

private theorem fails_pure : Fails tokens (pure a) unfinished := nofun

private theorem Fails.bind (first : Fails tokens parser unfinished)
    (parses : Parses tokens parser fair taken)
    (next : ∀ a own rest, tokens = own ++ rest → Closed rest → taken a own rest →
      Fails rest (continuation a) fun openers more => unfinished openers (own ++ more)) :
    Fails tokens (parser >>= continuation) unfinished := by
  intro failure failed
  unfold Parses at parses
  cases read : parser (.ofTokens tokens) with
  | error reason =>
    simp only [Bind.bind, StateT.bind, read, Except.bind] at failed
    cases failed
    exact first _ read
  | ok result =>
    obtain ⟨a, after⟩ := result
    rw [read] at parses
    obtain ⟨own, rest, rfl, closed, rfl, holds⟩ := parses
    rw [bind_ok read] at failed
    intro text stop reported
    obtain ⟨more, last, openers, innermost, rfl, isEof, inner, others⟩ :=
      next a own rest rfl closed holds failure failed text stop reported
    exact ⟨own ++ more, last, openers, innermost, by simp, isEof, inner, others⟩

/-- What is made of the result does not fail. -/
theorem Fails.map (fails : Fails tokens parser unfinished) (f : α → β) :
    Fails tokens (parser >>= fun a => pure (f a)) unfinished := by
  intro failure failed
  cases read : parser (.ofTokens tokens) with
  | error reason =>
    simp only [Bind.bind, StateT.bind, read, Except.bind] at failed
    cases failed
    exact fails _ read
  | ok result =>
    rw [bind_ok read] at failed
    cases failed

private theorem fails_current {continuation : Token → Parse β}
    (next : Fails (token :: rest) (continuation token) unfinished) :
    Fails (token :: rest) (current >>= continuation) unfinished :=
  next

private theorem fails_current_head {continuation : Token → Parse β}
    (first : tokens.head? = some token)
    (next : Fails tokens (continuation token) unfinished) :
    Fails tokens (current >>= continuation) unfinished := by
  obtain ⟨rest, rfl⟩ := List.head?_eq_some_iff.mp first
  exact next

private theorem fails_following {continuation : TokenKind → Parse β}
    (next : Fails tokens (continuation (Cursor.ofTokens tokens).next.current.kind) unfinished) :
    Fails tokens (followingKind >>= continuation) unfinished :=
  next

/-- A parser that has other complaints only. -/
def Plain (parser : Parse α) : Prop :=
  ∀ cursor failure, parser cursor = .error failure →
    ∀ text stop, failure.fault ≠ .parse (.unterminatedBlock text stop)

private theorem Plain.fails (plain : Plain parser) : Fails tokens parser unfinished := by
  intro failure failed text stop reported
  exact absurd reported (plain _ failure failed text stop)

private theorem plain_fail {fault : ParseFault}
    (other : ∀ text stop, fault ≠ .unterminatedBlock text stop) :
    Plain (failAt token fault : Parse α) := by
  intro cursor failure failed text stop reported
  cases failed
  cases reported
  exact other _ _ rfl

private theorem plain_of_ok (succeeds : ∀ cursor, ∃ result, parser cursor = .ok result) :
    Plain parser := by
  intro cursor failure failed
  obtain ⟨result, ok⟩ := succeeds cursor
  rw [ok] at failed
  cases failed

private theorem plain_pure : Plain (pure a : Parse α) := plain_of_ok fun _ => ⟨_, rfl⟩

private theorem plain_current : Plain current := plain_of_ok fun _ => ⟨_, rfl⟩

private theorem plain_advance : Plain advance := plain_of_ok fun _ => ⟨_, rfl⟩

private theorem plain_out_of_room : Plain (outOfRoom : Parse α) := by
  intro cursor failure failed text stop reported
  cases failed
  cases reported

private theorem Plain.bind (first : Plain parser) (next : ∀ a, Plain (continuation a)) :
    Plain (parser >>= continuation) := by
  intro cursor failure failed
  cases read : parser cursor with
  | error reason =>
    simp only [Bind.bind, StateT.bind, read, Except.bind] at failed
    cases failed
    exact first cursor _ read
  | ok result =>
    obtain ⟨a, after⟩ := result
    rw [bind_ok read] at failed
    exact next a after failure failed

private theorem plain_expect {kind : TokenKind} {fault : Found → ParseFault}
    (other : ∀ found text stop, fault found ≠ .unterminatedBlock text stop) :
    Plain (expect kind fault) := by
  refine plain_current.bind fun token => ?_
  split
  · exact plain_advance
  · exact plain_fail (other _)

private theorem plain_expect_then {opener : Token} : Plain (expectThen opener) := by
  refine plain_current.bind fun token => ?_
  split
  · rw [← bind_pure (discard advance), discard_bind]
    exact plain_advance.bind fun _ => plain_pure
  · exact plain_fail nofun

private theorem fails_advance {continuation : Token → Parse β} (closed : Closed (token :: rest))
    (notEof : token.kind ≠ .eof)
    (next : Closed rest → Fails rest (continuation token)
      fun openers more => unfinished openers (token :: more)) :
    Fails (token :: rest) (advance >>= continuation) unfinished := by
  cases rest with
  | nil => exact absurd closed notEof
  | cons second rest =>
    have parses : Parses (token :: second :: rest) advance True fun a own _ =>
        a = token ∧ own = [token] :=
      ⟨[token], second :: rest, rfl, closed.2, rfl, rfl, rfl⟩
    refine plain_advance.fails.bind parses fun a own left split closed holds => ?_
    obtain ⟨rfl, rfl⟩ := holds
    obtain ⟨-, rfl⟩ := List.cons.inj split
    exact next closed

private theorem fails_skip {continuation : Unit → Parse β} (closed : Closed (token :: rest))
    (notEof : token.kind ≠ .eof)
    (next : Closed rest → Fails rest (continuation ())
      fun openers more => unfinished openers (token :: more)) :
    Fails (token :: rest) (discard advance >>= continuation) unfinished := by
  rw [discard_bind]
  exact fails_advance closed notEof next

/-- A token that has to be there. -/
theorem fails_expect {kind : TokenKind} {fault : Found → ParseFault}
    {continuation : Token → Parse β}
    (closed : Closed tokens) (notEof : kind ≠ .eof)
    (other : ∀ found text stop, fault found ≠ .unterminatedBlock text stop)
    (notDeep : ∀ found, fault found ≠ .tooDeep)
    (next : ∀ token rest, tokens = token :: rest → Closed rest → token.kind = kind →
      Fails rest (continuation token) fun openers more => unfinished openers (token :: more)) :
    Fails tokens (expect kind fault >>= continuation) unfinished := by
  have parses := @parses_expect tokens True kind fault closed notEof notDeep
  refine (plain_expect other).fails.bind parses fun token own rest split closed holds => ?_
  obtain ⟨rfl, isKind⟩ := holds
  exact next token rest split closed isKind

/-- The word that ends a header has to be there. -/
theorem fails_expect_then {opener : Token} {continuation : Unit → Parse β}
    (closed : Closed tokens)
    (next : ∀ header rest, tokens = header :: rest → Closed rest → header.EndsHeader →
      Fails rest (continuation ()) fun openers more => unfinished openers (header :: more)) :
    Fails tokens (expectThen opener >>= continuation) unfinished := by
  have parses := @parses_expect_then tokens True opener closed
  refine plain_expect_then.fails.bind parses fun _ own rest split closed holds => ?_
  obtain ⟨header, rfl, ends⟩ := holds
  exact next header rest split closed ends

end Rules

/-- The nested parsers with so much room report unclosed blocks. -/
structure Reporting (rounds room : Nat) : Prop where
  unary : ∀ tokens, Closed tokens → tokens.length ≤ rounds →
    Fails tokens (nestedIn rounds room).unary (LeftOpen .expression)
  statement : ∀ tokens, Closed tokens → tokens.length ≤ rounds →
    Fails tokens (nestedIn rounds room).statement (LeftOpen .statement)

private theorem reporting_below {rounds room : Nat}
    (reporting : ∀ less ≤ room, Reporting rounds less)
    (units : Nat) : ∀ less ≤ room - units, Reporting rounds less :=
  fun less le => reporting less (Nat.le_trans le (Nat.sub_le room units))

private theorem nested_parsers_sound (rounds room : Nat) : ∀ less ≤ room, Sound rounds less :=
  fun less _ => nested_sound rounds less

section Levels
variable {rounds room : Nat} {tokens : List Token}

private theorem join_fails {level : Nat} {operand : Parse Expr} {fair : Prop}
    (operands : ∀ more, Closed more → more.length ≤ tokens.length →
      Parses more operand fair (ExprTaken (level + 1)) ∧ Fails more operand (LeftOpen .expression))
    (steps : Nat) (closed : Closed tokens) (left : Expr) :
    Fails tokens (joinLevel level operand steps left) fun openers more =>
      ∀ e before, Expr.Spelled e before → LeftOpen .expression openers (before ++ more) := by
  induction steps generalizing tokens left with
  | zero => exact fails_pure
  | succ steps ih =>
    obtain ⟨token, rest, rfl⟩ := List.exists_cons_of_ne_nil (closed_ne_nil closed)
    refine fails_current ?_
    cases found : BinaryOp.ofKind? token.kind with
    | none => exact fails_pure
    | some op =>
      dsimp only
      split
      · have notEof : token.kind ≠ .eof := by
          intro isEof
          simp [isEof, BinaryOp.ofKind?] at found
        have goesOn : ∀ {openers more : List Token}, LeftOpen .expression openers more →
            ∀ e before, Expr.Spelled e before →
              LeftOpen .expression openers (before ++ token :: more) := by
          intro openers more inner e before spelled
          simpa using LeftOpen.inside (.binary spelled found) inner
        refine fails_skip closed notEof fun closed => ?_
        have shorter : rest.length ≤ (token :: rest).length := by simp
        obtain ⟨parses, fails⟩ := operands rest closed shorter
        refine (fails.imp fun openers more inner => goesOn inner).bind parses
          fun right own left split closed taken => ?_
        have lengths := congrArg List.length split
        simp only [List.length_append] at lengths
        refine (ih (fun more closed le => operands more closed (by
          simp only [List.length_cons]; omega)) closed _).imp fun openers more inner => ?_
        exact goesOn (inner right own taken.1)
      · exact fails_pure

private theorem level_fails (reporting : ∀ less ≤ room, Reporting rounds less)
    (closed : Closed tokens) (bound : tokens.length ≤ rounds) (gap : Nat) (le : gap ≤ unaryLevel) :
    Fails tokens (levelParser (nestedIn rounds room) (unaryLevel - gap)) (LeftOpen .expression) := by
  induction gap generalizing tokens with
  | zero =>
    rw [Nat.sub_zero, level_parser_unary]
    exact (reporting _ (Nat.sub_le room Room.levels)).unary tokens closed bound
  | succ gap ih =>
    have step : unaryLevel - gap = unaryLevel - (gap + 1) + 1 := by omega
    have operands : ∀ more, Closed more → more.length ≤ tokens.length →
        Parses more (levelParser (nestedIn rounds room) (unaryLevel - gap))
          (exprRoom tokens.length ≤ room) (ExprTaken (unaryLevel - (gap + 1) + 1)) ∧
        Fails more (levelParser (nestedIn rounds room) (unaryLevel - gap))
          (LeftOpen .expression) := by
      intro more closed shorter
      have parses := level_parses (nested_parsers_sound rounds room) closed (by omega) gap (by omega)
      rw [← step]
      refine ⟨parses.fairer ?_, ih closed (by omega) (by omega)⟩
      simp only [exprRoom, Room.perToken]
      omega
    rw [level_parser_step _ (show unaryLevel - (gap + 1) < unaryLevel by omega), ← step, atLevel]
    obtain ⟨parses, fails⟩ := operands tokens closed (Nat.le_refl _)
    refine fails.bind parses fun left own rest split closed taken => ?_
    have lengths := congrArg List.length split
    simp only [List.length_append] at lengths
    refine (join_fails (fun more closed le => operands more closed (by omega)) _ closed left).imp
      fun openers more inner => inner left own taken.1

private theorem expression_fails (reporting : ∀ less ≤ room, Reporting rounds less)
    (closed : Closed tokens) (bound : tokens.length ≤ rounds) :
    Fails tokens (expression (nestedIn rounds room)) (LeftOpen .expression) :=
  level_fails reporting closed bound unaryLevel (Nat.le_refl _)

end Levels

section Lists
variable {rounds room : Nat} {tokens : List Token}

private theorem plain_parameters (steps : Nat) (done : List Mark) :
    Plain (commaSeparated parameter steps done) := by
  induction steps generalizing done with
  | zero => exact plain_pure
  | succ steps ih =>
    refine plain_current.bind fun token => ?_
    split
    · exact plain_pure
    · refine Plain.bind ?_ fun mark => plain_current.bind fun token => ?_
      · refine (plain_expect (by nofun)).bind fun token => ?_
        dsimp only
        split
        · exact plain_fail nofun
        · exact plain_pure
      · split
        · rw [discard_bind]
          exact plain_advance.bind fun _ => ih _
        · exact plain_pure

/-- The arguments that have been read are followed by one that is not
finished. -/
private def InArguments (openers own : List Token) : Prop :=
  ∃ items rest, own = items ++ rest ∧ Items items ∧ LeftOpen .expression openers rest

private theorem arguments_fail (reporting : ∀ less ≤ room, Reporting rounds less) (steps : Nat)
    (closed : Closed tokens) (bound : tokens.length ≤ rounds) (done : List Expr) :
    Fails tokens (commaSeparated (expression (nestedIn rounds room)) steps done) InArguments := by
  induction steps generalizing tokens done with
  | zero => exact fails_pure
  | succ steps ih =>
    obtain ⟨token, rest, rfl⟩ := List.exists_cons_of_ne_nil (closed_ne_nil closed)
    refine fails_current ?_
    split
    · exact fails_pure
    · have parses := expression_parses (nested_parsers_sound rounds room) closed bound
      have fails := (expression_fails reporting closed bound).imp fun openers own inner =>
        show InArguments openers own from ⟨[], own, rfl, .nil, inner⟩
      refine fails.bind parses fun e own left split closed taken => ?_
      obtain ⟨next, left, rfl⟩ := List.exists_cons_of_ne_nil (closed_ne_nil closed)
      have lengths := congrArg List.length split
      simp only [List.length_append, List.length_cons] at lengths bound
      refine fails_current ?_
      split
      · next isComma =>
        refine fails_skip closed (by simp [isComma]) fun closed => ?_
        refine (ih closed (by omega) (e :: done)).imp fun openers more inner => ?_
        obtain ⟨items, rest, rfl, before, inner⟩ := inner
        exact ⟨own ++ next :: items, rest, by simp, .cons taken.1 isComma before, inner⟩
      · exact fails_pure

end Lists

section Blocks
variable {rounds room : Nat} {tokens : List Token} {opener : Token}

/-- The body of the opener's block has been begun. -/
private def InBlock (opener : Token) (openers own : List Token) : Prop :=
  ∃ inner, openers = opener :: inner ∧ LeftOpen .body inner own

private theorem fails_within {α : Type} {parser : Parse α}
    {unfinished : List Token → List Token → Prop} (fails : Fails tokens parser unfinished)
    (goesOn : ∀ openers own, unfinished openers own → LeftOpen .body openers own) :
    Fails tokens parser (InBlock opener) := by
  intro failure failed text stop reported
  obtain ⟨own, last, openers, innermost, split, isEof, inner, isLast, others⟩ :=
    fails failure failed text stop reported
  refine ⟨own, last, opener :: openers, innermost, split, isEof, ⟨openers, rfl, goesOn _ _ inner⟩,
    ?_, others⟩
  rw [List.getLast?_cons, isLast, Option.getD_some]

private theorem left_open_semicolon {token : Token} (isSemicolon : token.kind = .semicolon)
    {openers own : List Token} (inner : LeftOpen .body openers own) :
    LeftOpen .body openers (token :: own) := by
  have more : ∀ {semicolons : List Token}, (∀ token ∈ semicolons, token.kind = .semicolon) →
      ∀ other ∈ token :: semicolons, other.kind = .semicolon := by
    intro semicolons all
    simpa [isSemicolon] using all
  cases inner with
  | here all => exact .here (more all)
  | next all spelled others => exact .next (more all) spelled others
  | last all inner => exact .last (more all) inner
  | block isHeader => cases isHeader
  | inside leads => cases leads

private theorem closed_eof {token : Token} {rest : List Token} (closed : Closed (token :: rest))
    (isEof : token.kind = .eof) : rest = [] := by
  cases rest with
  | nil => rfl
  | cons second rest => exact absurd isEof closed.1

private theorem loop_fails {next : Parse Stmt} {loop : Nat → List Stmt → Parse (List Stmt)}
    {stops : TokenKind → Prop} {fair : Prop} {unfinished : List Token → List Token → Prop}
    (rounds : StmtRounds next loop stops) (exhausted : ∀ done, Plain (loop 0 done))
    (finishes : ∀ steps done token rest, stops token.kind → Closed (token :: rest) →
      Fails (token :: rest) (loop (steps + 1) done) unfinished)
    (semicolon : ∀ token openers own, token.kind = .semicolon → unfinished openers own →
      unfinished openers (token :: own))
    (statement : ∀ s front openers own, Stmt.Spelled s front → unfinished openers own →
      unfinished openers (front ++ own))
    (statements : ∀ more, Closed more → more.length ≤ tokens.length →
      Parses more next fair StmtTaken ∧ Fails more next unfinished)
    (steps : Nat) (closed : Closed tokens) (done : List Stmt) :
    Fails tokens (loop steps done) unfinished := by
  induction steps generalizing tokens done with
  | zero => exact (exhausted done).fails
  | succ steps ih =>
    obtain ⟨token, rest, rfl⟩ := List.exists_cons_of_ne_nil (closed_ne_nil closed)
    have shorter : ∀ left : List Token, left.length ≤ (token :: rest).length → Closed left →
        ∀ done, Fails left (loop steps done) unfinished := by
      intro left less closed done
      exact ih (fun more closed le => statements more closed (by omega)) closed done
    by_cases isSemicolon : token.kind = .semicolon
    · rw [Fails, rounds.skips isSemicolon]
      refine fails_advance closed (by simp [isSemicolon]) fun closed => ?_
      exact (shorter rest (by simp) closed done).imp fun openers own inner =>
        semicolon token openers own isSemicolon inner
    by_cases stopped : stops token.kind
    · exact finishes steps done token rest stopped closed
    · rw [Fails, rounds.reads isSemicolon stopped]
      obtain ⟨parses, fails⟩ := statements _ closed (Nat.le_refl _)
      refine fails.bind parses fun s own left split closed taken => ?_
      have lengths := congrArg List.length split
      simp only [List.length_append] at lengths
      exact (shorter left (by omega) closed (s :: done)).imp fun openers more inner =>
        statement s own openers more taken.1 inner

private theorem block_fails (reporting : ∀ less ≤ room, Reporting rounds less)
    (closed : Closed tokens)
    (bound : tokens.length ≤ rounds) (opener : Token) :
    Fails tokens (block (nestedIn rounds room) opener) (InBlock opener) := by
  obtain ⟨token, rest, rfl⟩ := List.exists_cons_of_ne_nil (closed_ne_nil closed)
  have statements : ∀ more, Closed more → more.length ≤ (token :: rest).length →
      Parses more ((nestedIn rounds room).after Room.block).statement
        (stmtRoom (token :: rest).length ≤ room - Room.block) StmtTaken ∧
      Fails more ((nestedIn rounds room).after Room.block).statement (InBlock opener) := by
    intro more closed le
    rw [nested_after]
    have less := Nat.sub_le room Room.block
    constructor
    · refine ((nested_sound rounds _).statement more closed (by omega)).fairer ?_
      simp only [stmtRoom, exprRoom, Room.perToken]
      omega
    · exact fails_within ((reporting _ less).statement more closed (by omega))
        fun openers own inner => @LeftOpen.last openers [] own (by simp) inner
  have finishes : ∀ steps done token rest, (token.kind = .kwEnd ∨ token.kind = .eof) →
      Closed (token :: rest) → Fails (token :: rest)
        (statementsToEnd ((nestedIn rounds room).after Room.block).statement opener (steps + 1)
          done) (InBlock opener) := by
    intro steps done token rest stopped closed
    refine fails_current ?_
    rcases stopped with isEnd | isEof
    · simp only [isEnd]
      exact fails_skip closed (by simp [isEnd]) fun closed => fails_pure
    · simp only [isEof]
      obtain rfl := closed_eof closed isEof
      intro failure failed text stop reported
      cases failed
      cases reported
      exact ⟨[], token, [opener], opener, rfl, isEof, ⟨[], rfl, .here (by simp)⟩, rfl, rfl, rfl,
        rfl⟩
  have loops := loop_fails (to_end_rounds _ opener) (fun _ => plain_out_of_room) finishes
    (fun token openers own isSemicolon inner => by
      obtain ⟨inner, rfl, inside⟩ := inner
      exact ⟨inner, rfl, left_open_semicolon isSemicolon inside⟩)
    (fun s front openers own spelled inner => by
      obtain ⟨inner, rfl, inside⟩ := inner
      exact ⟨inner, rfl, @LeftOpen.next s inner [] front own (by simp) spelled inside⟩)
    statements (nestedIn rounds room).rounds closed []
  exact fails_current (loops.map _)

end Blocks

section Primaries
variable {rounds room : Nat} {tokens : List Token} {opener : Token}

/-- The parameters and the end of the header have been read, and the body of
the opener's proc has been begun. -/
private def InProc (opener : Token) (openers own : List Token) : Prop :=
  ∃ opening params inside closing header body,
    own = opening :: (inside ++ [closing, header]) ++ body ∧ opening.kind = .leftParen ∧
    Listed Mark.Spelled params inside ∧ closing.kind = .rightParen ∧ header.EndsHeader ∧
    InBlock opener openers body

private theorem proc_rest_fails (reporting : ∀ less ≤ room, Reporting rounds less)
    (closed : Closed tokens) (bound : tokens.length ≤ rounds) (opener : Token) :
    Fails tokens (procRest (nestedIn rounds room) opener) (InProc opener) := by
  unfold procRest
  rw [discard_bind]
  refine fails_expect closed (by nofun) (by nofun) (by nofun) fun opening rest split opened opens => ?_
  subst split
  obtain ⟨start, same⟩ : ∃ start, rest.head? = some start :=
    Option.isSome_iff_exists.mp (List.isSome_head?.mpr (closed_ne_nil opened))
  refine fails_current_head same ?_
  simp only [List.length_cons] at bound
  have parses := @comma_separated_parses rest True _ _ _ (fun more closed _ =>
    parameter_parses closed) rounds (by omega) opened []
  refine (plain_parameters _ _).fails.bind parses fun params inside rest split listedUp holds => ?_
  obtain ⟨params, rfl, listed⟩ := holds
  subst split
  rw [discard_bind]
  refine fails_expect listedUp (by nofun) (by nofun) (by nofun)
    fun closing rest split closedUp closes => ?_
  subst split
  refine fails_expect_then closedUp fun header rest split headed ends => ?_
  subst split
  simp only [List.length_append, List.length_cons] at bound
  rw [nested_after]
  have blocks := block_fails (reporting_below reporting Room.proc) headed (by omega) opener
  refine Fails.map (blocks.imp fun openers body inner => ?_) _
  exact ⟨opening, params, inside, closing, header, body, by simp, opens, listed, closes, ends,
    inner⟩

private theorem name_fails (reporting : ∀ less ≤ room, Reporting rounds less)
    (closed : Closed tokens) (bound : tokens.length ≤ rounds) {name : Token}
    (isName : name.kind = .ident) :
    Fails tokens (nameOrCall (nestedIn rounds room) name) fun openers own =>
      LeftOpen .expression openers (name :: own) := by
  obtain ⟨opening, rest, rfl⟩ := List.exists_cons_of_ne_nil (closed_ne_nil closed)
  refine fails_current ?_
  split
  · next touches =>
    have opens : opening.kind = .leftParen := by
      simp only [Bool.and_eq_true, decide_eq_true_eq] at touches
      exact touches.1
    rw [nested_after]
    refine fails_skip closed (by simp [opens]) fun opened => ?_
    simp only [List.length_cons] at bound
    have items : ∀ more, Closed more → more.length ≤ rest.length →
        Parses more (expression (nestedIn rounds (room - Room.callList)))
          (exprRoom rest.length ≤ room - Room.callList) fun e own _ => e.Spelled own := by
      intro more closed le
      refine (expression_parses (nested_parsers_sound rounds _) closed (by omega)).imp ?_
        fun _ _ _ _ _ taken => taken.1
      simp only [exprRoom, Room.perToken]
      omega
    have parses := comma_separated_parses items rounds (by omega) opened []
    have fails := arguments_fail (reporting_below reporting Room.callList) rounds opened
      (by omega) []
    refine (fails.imp fun openers own inner => ?_).bind parses
      fun args inside left split listedUp holds => ?_
    · obtain ⟨items, rest, rfl, before, inner⟩ := inner
      exact .inside (.argument isName opens before) inner
    · rw [discard_bind]
      exact fails_expect listedUp (by decide) (by simp) (by simp) fun _ _ _ _ _ => fails_pure
  · exact fails_pure

private theorem primary_fails (reporting : ∀ less ≤ room, Reporting rounds less)
    (closed : Closed tokens) (bound : tokens.length ≤ rounds) :
    Fails tokens (primary (nestedIn rounds room)) (LeftOpen .expression) := by
  obtain ⟨token, rest, rfl⟩ := List.exists_cons_of_ne_nil (closed_ne_nil closed)
  have shorter : rest.length ≤ rounds := by
    simp only [List.length_cons] at bound
    omega
  have literal : ∀ e : Expr, Plain (discard advance >>= fun _ => (pure e : Parse Expr)) := by
    intro e
    rw [discard_bind]
    exact plain_advance.bind fun _ => plain_pure
  refine fails_current ?_
  split
  · exact (literal _).fails
  · exact (literal _).fails
  · exact (literal _).fails
  · exact (literal _).fails
  · exact (literal _).fails
  · next opens =>
    refine fails_skip closed (by simp [opens]) fun opened => ?_
    have parses := expression_parses (nested_parsers_sound rounds room) opened shorter
    refine ((expression_fails reporting opened shorter).imp fun openers own inner => ?_).bind
      parses fun inner inside left split read taken => ?_
    · exact .inside (.group opens) inner
    · rw [discard_bind]
      exact fails_expect read (by nofun) (by nofun) (by nofun) fun _ _ _ _ _ => fails_pure
  · next isProc =>
    refine fails_skip closed (by simp [isProc]) fun opened => ?_
    refine Fails.map ((proc_rest_fails reporting opened shorter token).imp
      fun openers own inner => ?_) _
    obtain ⟨opening, params, inside, closing, header, body, rfl, opens, listed, closes, ends,
      inner, rfl, within⟩ := inner
    exact .block (.proc isProc opens listed closes ends) within
  · next isName =>
    refine fails_skip closed (by simp [isName]) fun opened => ?_
    exact name_fails reporting opened shorter isName
  · exact (plain_fail (by nofun)).fails

private theorem unary_fails (reporting : ∀ less ≤ room, Reporting rounds less)
    (closed : Closed tokens) (bound : tokens.length ≤ rounds) :
    Fails tokens (unary (nestedIn rounds room)) (LeftOpen .expression) := by
  obtain ⟨token, rest, rfl⟩ := List.exists_cons_of_ne_nil (closed_ne_nil closed)
  refine fails_current ?_
  split
  · next op found =>
    have notEof : token.kind ≠ .eof := by
      intro kind
      simp [kind, UnaryOp.ofKind?] at found
    simp only [List.length_cons] at bound
    refine fails_skip closed notEof fun opened => ?_
    refine Fails.map (((reporting room (Nat.le_refl _)).unary rest opened (by omega)).imp
      fun openers own inner => ?_) _
    exact .inside (.unary found) inner
  · rw [nested_after]
    exact primary_fails (reporting_below reporting Room.operand) closed bound

end Primaries

section Statements
variable {rounds room : Nat} {tokens : List Token} {opener : Token}

private theorem import_fails (closed : Closed tokens)
    {unfinished : List Token → List Token → Prop} :
    Fails tokens (importTarget opener) unfinished := by
  obtain ⟨token, rest, rfl⟩ := List.exists_cons_of_ne_nil (closed_ne_nil closed)
  refine fails_current ?_
  split
  · next kind => exact fails_skip closed (by simp [kind]) fun _ => fails_pure
  · next kind => exact fails_skip closed (by simp [kind]) fun _ => fails_pure
  · next kind => exact fails_skip closed (by simp [kind]) fun _ => fails_pure
  · exact (plain_fail (by nofun)).fails

private theorem namespace_fails (reporting : ∀ less ≤ room, Reporting rounds less)
    (closed : Closed tokens) (bound : tokens.length ≤ rounds)
    (opens : opener.kind = .kwNamespace) :
    Fails tokens (do
      let name ← expect .ident .missingNamespaceName
      let (body, bodyLoc) ← block (nestedIn rounds room) opener
      return Stmt.inNamespace (nameOf name) body bodyLoc opener.loc) fun openers own =>
        LeftOpen .statement openers (opener :: own) := by
  refine fails_expect closed (by nofun) (by nofun) (by nofun) fun name rest split named isName => ?_
  subst split
  simp only [List.length_cons] at bound
  refine Fails.map ((block_fails reporting named (by omega) opener).imp
    fun openers own inner => ?_) _
  obtain ⟨inner, rfl, within⟩ := inner
  exact .block (.inNamespace opens isName) within

private theorem declaration_fails (reporting : ∀ less ≤ room, Reporting rounds less)
    (closed : Closed tokens) (bound : tokens.length ≤ rounds)
    (opens : opener.kind = .kwLet ∨ opener.kind = .kwConst) :
    Fails tokens (declaration (nestedIn rounds room) opener) fun openers own =>
      LeftOpen .statement openers (opener :: own) := by
  unfold declaration
  refine fails_expect closed (by nofun) (by nofun) (by nofun) fun name rest split named isName => ?_
  subst split
  rw [discard_bind]
  refine fails_expect named (by nofun) (by nofun) (by nofun)
    fun equals rest split assigned isAssign => ?_
  subst split
  simp only [List.length_cons] at bound
  refine Fails.map ((expression_fails reporting assigned (by omega)).imp
    fun openers own inner => ?_) _
  exact .inside (.declared opens isName isAssign) inner

private theorem guarded_fails (reporting : ∀ less ≤ room, Reporting rounds less)
    (closed : Closed tokens) (bound : tokens.length ≤ rounds)
    (opens : opener.kind = .kwIf ∨ opener.kind = .kwWhile) :
    Fails tokens (guarded (nestedIn rounds room) opener) fun openers own =>
      LeftOpen .statement openers (opener :: own) := by
  unfold guarded
  have parses := expression_parses (nested_parsers_sound rounds room) closed bound
  refine ((expression_fails reporting closed bound).imp fun openers own inner => ?_).bind parses
    fun condition inside rest split read taken => ?_
  · exact .inside (.condition opens) inner
  subst split
  refine fails_expect_then read fun header rest split headed ends => ?_
  subst split
  simp only [List.length_append, List.length_cons] at bound
  refine Fails.map ((block_fails reporting headed (by omega) opener).imp
    fun openers own inner => ?_) _
  obtain ⟨inner, rfl, within⟩ := inner
  simpa using LeftOpen.block (.guarded opens taken.1 ends) within

private theorem returned_fails (reporting : ∀ less ≤ room, Reporting rounds less)
    (closed : Closed tokens) (bound : tokens.length ≤ rounds) (opens : opener.kind = .kwReturn) :
    Fails tokens (returned (nestedIn rounds room) opener) fun openers own =>
      LeftOpen .statement openers (opener :: own) := by
  obtain ⟨token, rest, rfl⟩ := List.exists_cons_of_ne_nil (closed_ne_nil closed)
  refine fails_current ?_
  split
  · exact fails_pure
  · exact fails_pure
  · exact fails_pure
  · exact (expression_fails reporting closed bound).imp fun openers own inner =>
      .inside (.returned opens) inner

private theorem for_fails (reporting : ∀ less ≤ room, Reporting rounds less)
    (closed : Closed tokens) (bound : tokens.length ≤ rounds) (opens : opener.kind = .kwFor) :
    Fails tokens (do
      let name ← expect .ident .missingLoopVariable
      discard <| expect .assign .missingLoopStart
      let start ← expression (nestedIn rounds room)
      discard <| expect .kwTo .missingLoopStop
      let stop ← expression (nestedIn rounds room)
      expectThen opener
      let (body, bodyLoc) ← block (nestedIn rounds room) opener
      return Stmt.forRange (nameOf name) start stop body bodyLoc opener.loc) fun openers own =>
        LeftOpen .statement openers (opener :: own) := by
  refine fails_expect closed (by nofun) (by nofun) (by nofun) fun name rest split named isName => ?_
  subst split
  rw [discard_bind]
  refine fails_expect named (by nofun) (by nofun) (by nofun)
    fun equals rest split assigned isAssign => ?_
  subst split
  simp only [List.length_cons] at bound
  have expressions : ∀ more, Closed more → more.length ≤ rest.length →
      Parses more (expression (nestedIn rounds room)) (exprRoom more.length ≤ room)
        (ExprTaken 0) ∧ Fails more (expression (nestedIn rounds room)) (LeftOpen .expression) := by
    intro more closed le
    exact ⟨expression_parses (nested_parsers_sound rounds room) closed (by omega),
      expression_fails reporting closed (by omega)⟩
  obtain ⟨parses, fails⟩ := expressions rest assigned (Nat.le_refl _)
  refine (fails.imp fun openers own inner => ?_).bind parses
    fun start first rest split started startTaken => ?_
  · exact .inside (.start opens isName isAssign) inner
  subst split
  rw [discard_bind]
  refine fails_expect started (by nofun) (by nofun) (by nofun)
    fun middle rest split divided isTo => ?_
  subst split
  simp only [List.length_append, List.length_cons] at bound expressions
  obtain ⟨parses, fails⟩ := expressions rest divided (by omega)
  refine (fails.imp fun openers own inner => ?_).bind parses
    fun stop last rest split stopped stopTaken => ?_
  · simpa using LeftOpen.inside (.stop opens isName isAssign startTaken.1 isTo) inner
  subst split
  refine fails_expect_then stopped fun header rest split headed ends => ?_
  subst split
  simp only [List.length_append, List.length_cons] at bound
  refine Fails.map ((block_fails reporting headed (by omega) opener).imp
    fun openers own inner => ?_) _
  obtain ⟨inner, rfl, within⟩ := inner
  simpa using LeftOpen.block
    (.counted opens isName isAssign startTaken.1 isTo stopTaken.1 ends) within

private theorem statement_fails (reporting : ∀ less ≤ room, Reporting rounds less)
    (closed : Closed tokens) (bound : tokens.length ≤ rounds) :
    Fails tokens (statement (nestedIn rounds room)) (LeftOpen .statement) := by
  obtain ⟨token, rest, rfl⟩ := List.exists_cons_of_ne_nil (closed_ne_nil closed)
  have shorter : rest.length ≤ rounds := by
    simp only [List.length_cons] at bound
    omega
  have within := reporting_below reporting Room.statement
  refine fails_current (fails_following ?_)
  rw [nested_after]
  split
  · next isImport =>
    exact fails_skip closed (by simp [isImport]) fun opened => import_fails opened
  · next isNamespace =>
    refine fails_skip closed (by simp [isNamespace]) fun opened => ?_
    exact namespace_fails within opened shorter isNamespace
  · next isLet =>
    refine fails_skip closed (by simp [isLet]) fun opened => ?_
    exact (declaration_fails within opened shorter (.inl isLet)).map _
  · next isConst =>
    refine fails_skip closed (by simp [isConst]) fun opened => ?_
    exact (declaration_fails within opened shorter (.inr isConst)).map _
  · next isIf =>
    refine fails_skip closed (by simp [isIf]) fun opened => ?_
    exact (guarded_fails within opened shorter (.inl isIf)).map _
  · next isFor =>
    refine fails_skip closed (by simp [isFor]) fun opened => ?_
    exact for_fails within opened shorter isFor
  · next isWhile =>
    refine fails_skip closed (by simp [isWhile]) fun opened => ?_
    exact (guarded_fails within opened shorter (.inr isWhile)).map _
  · next isReturn =>
    refine fails_skip closed (by simp [isReturn]) fun opened => ?_
    exact (returned_fails within opened shorter isReturn).map _
  · next isProc isName =>
    refine fails_skip closed (by simp [isProc]) fun opened => ?_
    obtain ⟨name, rest, rfl⟩ := List.exists_cons_of_ne_nil (closed_ne_nil opened)
    change name.kind = .ident at isName
    refine fails_advance opened (by simp [isName]) fun named => ?_
    simp only [List.length_cons] at shorter
    refine Fails.map ((proc_rest_fails reporting named (by omega) token).imp
      fun openers own inner => ?_) _
    obtain ⟨opening, params, inside, closing, header, body, rfl, opens, listed, closes, ends,
      inner, rfl, within⟩ := inner
    exact .block (.namedProc isProc isName opens listed closes ends) within
  · next isName isAssign =>
    refine fails_skip closed (by simp [isName]) fun named => ?_
    obtain ⟨equals, rest, rfl⟩ := List.exists_cons_of_ne_nil (closed_ne_nil named)
    change equals.kind = .assign at isAssign
    refine fails_skip named (by simp [isAssign]) fun assigned => ?_
    simp only [List.length_cons] at shorter
    refine Fails.map ((expression_fails within assigned (by omega)).imp
      fun openers own inner => ?_) _
    exact .inside (.assigned isName isAssign) inner
  · refine Fails.map ((expression_fails reporting closed bound).imp fun openers own inner => ?_) _
    exact .inside .alone inner

end Statements

/-- The nested parsers report unclosed blocks, whatever their room. -/
theorem nested_reporting (rounds room : Nat) : Reporting rounds room := by
  induction room using Nat.strongRecOn with
  | ind room ih =>
    by_cases enough : Room.work < room
    · have inner : ∀ less ≤ room - 1, Reporting rounds less := fun less le => ih less (by omega)
      constructor
      · intro tokens closed bound
        rw [funext (nested_unary enough)]
        exact unary_fails inner closed bound
      · intro tokens closed bound
        rw [funext (nested_statement enough)]
        exact statement_fails inner closed bound
    · obtain ⟨unary, statement⟩ := nested_tight rounds (Nat.le_of_not_lt enough)
      constructor
      · intro tokens _ _
        rw [unary]
        exact plain_out_of_room.fails
      · intro tokens _ _
        rw [statement]
        exact plain_out_of_room.fails

private theorem program_fails {rounds room : Nat} {tokens : List Token} (closed : Closed tokens)
    (bound : tokens.length ≤ rounds) :
    Fails tokens (program (nestedIn rounds room)) (LeftOpen .body) := by
  obtain ⟨token, rest, rfl⟩ := List.exists_cons_of_ne_nil (closed_ne_nil closed)
  have statements : ∀ more, Closed more → more.length ≤ (token :: rest).length →
      Parses more (nestedIn rounds room).statement (stmtRoom (token :: rest).length ≤ room)
        StmtTaken ∧ Fails more (nestedIn rounds room).statement (LeftOpen .body) := by
    intro more closed le
    constructor
    · refine ((nested_sound rounds room).statement more closed (by omega)).fairer ?_
      simp only [stmtRoom, exprRoom, Room.perToken]
      omega
    · exact ((nested_reporting rounds room).statement more closed (by omega)).imp
        fun openers own inner => @LeftOpen.last openers [] own (by simp) inner
  have finishes : ∀ steps done token rest, token.kind = .eof → Closed (token :: rest) →
      Fails (token :: rest)
        (statementsToEof (nestedIn rounds room).statement (steps + 1) done) (LeftOpen .body) := by
    intro steps done token rest isEof closed
    refine fails_current ?_
    simp only [isEof]
    exact fails_pure
  have loops := loop_fails (to_eof_rounds _) (fun _ => plain_out_of_room) finishes
    (fun token openers own isSemicolon inner => left_open_semicolon isSemicolon inner)
    (fun s front openers own spelled inner =>
      @LeftOpen.next s openers [] front own (by simp) spelled inner)
    statements (nestedIn rounds room).rounds closed []
  exact fails_current (loops.map _)

section Counting
variable {text file : String} {tokens : List Token}

private theorem place_kinds (other : String) {pieces : List Lexer.Piece} {pos : Pos}
    (placed : Lexer.place file pos pieces = .ok tokens) :
    ∃ tokens', Lexer.place other pos pieces = .ok tokens' ∧
      tokens'.map Token.kind = tokens.map Token.kind := by
  induction pieces generalizing pos tokens with
  | nil =>
    cases placed
    exact ⟨_, rfl, rfl⟩
  | cons piece pieces ih =>
    cases piece with
    | gap spelling => exact ih placed
    | fault before fault => cases placed
    | lexeme lexeme =>
      rw [Lexer.place] at placed ⊢
      cases others : Lexer.place file (pos.after lexeme.spelling) pieces with
      | error failure =>
        rw [others] at placed
        cases placed
      | ok rest =>
        rw [others] at placed
        cases placed
        obtain ⟨rest', placed', same⟩ := ih others
        rw [placed']
        exact ⟨_, rfl, by simp [same]⟩

private theorem open_blocks_of_tokens (read : tokenize text file = .ok tokens) :
    openBlocks text = (blocksOpened tokens).toNat := by
  obtain ⟨tokens', read', same⟩ := place_kinds "<input>" read
  have sums : blocksOpened tokens' = blocksOpened tokens := by
    have mapped := congrArg (List.map blockChange) same
    simp only [List.map_map] at mapped
    exact congrArg List.sum mapped
  change tokenize text "<input>" = .ok tokens' at read'
  rw [openBlocks, read', ← sums]
  exact Balance.block_balance tokens'

/-- A text that is rejected because a block is not closed stops within as many
blocks as the prompt counts, and the complaint is about the innermost. -/
theorem unterminated_left_open {failure : Failure} {word : String} {stop : Pos}
    (read : tokenize text file = .ok tokens) (rejected : Program.parse text file = .error failure)
    (reported : failure.fault = .parse (.unterminatedBlock word stop)) :
    ∃ own last openers innermost, tokens = own ++ [last] ∧ last.kind = .eof ∧
      LeftOpen .body openers own ∧ openBlocks text = openers.length ∧ 0 < openBlocks text ∧
      openers.getLast? = some innermost ∧ failure.loc = some innermost.loc ∧
      word = innermost.text ∧ stop = last.loc.pos := by
  have closed := laid_closed (tokenize_laid read)
  rw [Program.parse, read] at rejected
  rw [open_blocks_of_tokens read]
  have fails := @program_fails _ (roomFor tokens) tokens closed (Nat.le_succ _)
  have failed : program (nestedIn (tokens.length + 1) (roomFor tokens)) (.ofTokens tokens) =
      .error failure := by
    change (·.1) <$> program (nestedIn (tokens.length + 1) (roomFor tokens)) _ = _ at rejected
    cases outcome : program (nestedIn (tokens.length + 1) (roomFor tokens))
      (.ofTokens tokens) with
    | ok result =>
      rw [outcome] at rejected
      cases rejected
    | error reason =>
      rw [outcome] at rejected
      cases rejected
      rfl
  obtain ⟨own, last, openers, innermost, rfl, isEof, leftOpen, isLast, place, named, stopped⟩ :=
    fails failure failed word stop reported
  have count : blocksOpened (own ++ [last]) = openers.length := by
    simp [Balance.left_open_count leftOpen, isEof, blockChange]
  have some : 0 < openers.length := by
    cases openers with
    | nil => cases isLast
    | cons opener openers => simp
  refine ⟨own, last, openers, innermost, rfl, isEof, leftOpen, ?_, ?_, isLast, place, named,
    stopped⟩
  · rw [count]
    rfl
  · rw [count]
    exact some

end Counting

/-- The prompt's count of blocks agrees with the parser. A text that the parser
accepts leaves no block open. If the parser complains about a block that is not
closed, then the tokens stop within as many blocks as the prompt counts, at
least one, and the complaint is about the word that opens the innermost. -/
theorem block_count_agrees {text file : String} {tokens : List Token}
    (read : tokenize text file = .ok tokens) :
    (∀ program, Program.parse text file = .ok program → openBlocks text = 0) ∧
    ∀ failure word stop, Program.parse text file = .error failure →
      failure.fault = .parse (.unterminatedBlock word stop) →
      ∃ own last openers innermost, tokens = own ++ [last] ∧ last.kind = .eof ∧
        LeftOpen .body openers own ∧ openBlocks text = openers.length ∧ 0 < openBlocks text ∧
        openers.getLast? = some innermost ∧ failure.loc = some innermost.loc ∧
        word = innermost.text ∧ stop = last.loc.pos := by
  constructor
  · intro program accepted
    have closed := laid_closed (tokenize_laid read)
    rw [Program.parse, read] at accepted
    obtain ⟨spelled, -⟩ := spelled_of_tokens closed accepted
    rw [open_blocks_of_tokens read, Balance.stmts_opened _ spelled]
    rfl
  · intro failure word stop
    exact unterminated_left_open read

/-- A loop with a proc in it, neither of them closed, and a block that is. -/
def halfTyped : String :=
  "while true then\n  let f = proc (x):\n    if x then y end"

/-- What the parser has to say about a text that it rejects. -/
def complaint? (text : String) : Option (Fault × Option Loc) :=
  match Program.parse text "<input>" with
  | .ok _ => none
  | .error failure => some (failure.fault, failure.loc)

theorem half_typed_blocks : openBlocks halfTyped = 2 ∧
    complaint? halfTyped =
      some (.parse (.unterminatedBlock "proc" ⟨3, 20⟩), some ⟨"<input>", ⟨2, 11⟩⟩) ∧
    ∃ tokens own last openers innermost, tokenize halfTyped "<input>" = .ok tokens ∧
      tokens = own ++ [last] ∧ LeftOpen .body openers own ∧
      openBlocks halfTyped = openers.length ∧ openers.getLast? = some innermost ∧
      innermost.loc = ⟨"<input>", ⟨2, 11⟩⟩ := by
  have counted : openBlocks halfTyped = 2 := by decide +kernel
  have complains : complaint? halfTyped =
      some (.parse (.unterminatedBlock "proc" ⟨3, 20⟩), some ⟨"<input>", ⟨2, 11⟩⟩) := by
    decide +kernel
  refine ⟨counted, complains, ?_⟩
  unfold complaint? at complains
  cases read : tokenize halfTyped "<input>" with
  | error failure => simp [openBlocks, read] at counted
  | ok tokens =>
    cases rejected : Program.parse halfTyped "<input>" with
    | ok program =>
      rw [rejected] at complains
      cases complains
    | error failure =>
      rw [rejected] at complains
      obtain ⟨reported, placed⟩ := Prod.mk.inj (Option.some.inj complains)
      obtain ⟨own, last, openers, innermost, split, -, leftOpen, count, -, isLast, place, -⟩ :=
        (block_count_agrees read).2 failure _ _ rejected reported
      rw [place] at placed
      exact ⟨tokens, own, last, openers, innermost, rfl, split, leftOpen, count, isLast,
        Option.some.inj placed⟩

end BasilLang.Unfinished
