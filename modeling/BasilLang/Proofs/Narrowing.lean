import BasilLang.Proofs.Derivation

/-! Less room changes nothing but that there may be too little of it. What is
read in less room is read as the same, unless the reading complains about the
depth. This is shown by setting the reading in less room beside that in more. -/
namespace BasilLang

open BasilLang.Parser Parsing

namespace Narrowing

/-- The first parser does the same as the second, or it complains about the
depth. -/
def Narrows {α : Type} (small large : Parse α) : Prop :=
  ∀ cursor, small cursor = large cursor ∨
    ∃ loc, small cursor = .error ⟨.parse .tooDeep, loc⟩

section Reading
variable {α β : Type} {small large : Parse α} {next next' : α → Parse β}

private theorem Narrows.refl (parser : Parse α) : Narrows parser parser :=
  fun _ => .inl rfl

private theorem Narrows.out_of_room : Narrows outOfRoom large :=
  fun _ => .inr ⟨_, rfl⟩

private theorem Narrows.bind (first : Narrows small large)
    (rest : ∀ a, Narrows (next a) (next' a)) :
    Narrows (small >>= next) (large >>= next') := by
  intro cursor
  rcases first cursor with same | ⟨loc, lacking⟩
  · cases read : large cursor with
    | ok result =>
      obtain ⟨a, after⟩ := result
      rw [bind_ok (same.trans read), bind_ok read]
      exact rest a after
    | error failure =>
      left
      simp only [Bind.bind, StateT.bind, same, read, Except.bind]
  · right
    refine ⟨loc, ?_⟩
    simp only [Bind.bind, StateT.bind, lacking, Except.bind]

/-- What comes after an action that needs no room. -/
theorem Narrows.after (parser : Parse α) (rest : ∀ a, Narrows (next a) (next' a)) :
    Narrows (parser >>= next) (parser >>= next') :=
  (Narrows.refl parser).bind rest

/-- The same rounds in less room. -/
structure NestedNarrows (small large : Nested) : Prop where
  rounds : small.rounds = large.rounds
  unary : ∀ units, Narrows (small.parsers units).unary (large.parsers units).unary
  statement : ∀ units, Narrows (small.parsers units).statement (large.parsers units).statement

end Reading

section Constructs
variable {small large : Nested}

private theorem NestedNarrows.after (narrows : NestedNarrows small large) (units : Nat) :
    NestedNarrows (small.after units) (large.after units) :=
  ⟨narrows.rounds, fun more => narrows.unary (more + units),
    fun more => narrows.statement (more + units)⟩

private theorem join_narrows {operand operand' : Parse Expr} (operands : Narrows operand operand')
    (level steps : Nat) (left : Expr) :
    Narrows (joinLevel level operand steps left) (joinLevel level operand' steps left) := by
  induction steps generalizing left with
  | zero => exact .refl _
  | succ steps ih =>
    refine .after current fun token => ?_
    cases BinaryOp.ofKind? token.kind with
    | none => exact .refl _
    | some op =>
      by_cases here : op.level = level
      · simp only [if_pos here]
        exact .after _ fun _ => operands.bind fun right => ih _
      · simp only [if_neg here]
        exact .refl _

private theorem NestedNarrows.expression (narrows : NestedNarrows small large) :
    Narrows (expression small) (expression large) := by
  have level : ∀ {operand operand' : Parse Expr} (level : Nat), Narrows operand operand' →
      Narrows (atLevel small.rounds level operand) (atLevel large.rounds level operand') := by
    intro operand operand' level operands
    rw [narrows.rounds]
    exact operands.bind fun left => join_narrows operands level _ left
  have operands := (narrows.after Room.levels).unary 0
  exact level 0 (level 1 (level 2 (level 3 (level 4 (level 5 operands)))))

private theorem comma_separated_narrows {α : Type} {item item' : Parse α}
    (items : Narrows item item') (steps : Nat) (done : List α) :
    Narrows (commaSeparated item steps done) (commaSeparated item' steps done) := by
  induction steps generalizing done with
  | zero => exact .refl _
  | succ steps ih =>
    refine .after current fun token => ?_
    by_cases closes : token.kind = .rightParen
    · rw [if_pos closes, if_pos closes]
      exact .refl _
    · rw [if_neg closes, if_neg closes]
      refine items.bind fun next => .after current fun token => ?_
      by_cases comma : token.kind = .comma
      · rw [if_pos comma, if_pos comma]
        exact .after _ fun _ => ih _
      · rw [if_neg comma, if_neg comma]
        exact .refl _

private theorem to_end_narrows {statement statement' : Parse Stmt}
    (statements : Narrows statement statement') (opener : Token) (steps : Nat) (done : List Stmt) :
    Narrows (statementsToEnd statement opener steps done)
      (statementsToEnd statement' opener steps done) := by
  induction steps generalizing done with
  | zero => exact .refl _
  | succ steps ih =>
    refine .after current fun token => ?_
    split
    · exact .refl _
    · exact .refl _
    · exact .after _ fun _ => ih _
    · exact statements.bind fun next => ih _

private theorem NestedNarrows.block (narrows : NestedNarrows small large) (opener : Token) :
    Narrows (block small opener) (block large opener) := by
  refine .after current fun start => ?_
  rw [narrows.rounds]
  exact (to_end_narrows ((narrows.after Room.block).statement 0) opener _ []).bind fun _ => .refl _

private theorem NestedNarrows.procRest (narrows : NestedNarrows small large) (opener : Token) :
    Narrows (procRest small opener) (procRest large opener) := by
  unfold Parser.procRest
  rw [narrows.rounds]
  refine .after _ fun _ => .after current fun start => .after _ fun params => ?_
  exact .after _ fun _ => .after _ fun _ =>
    ((narrows.after Room.proc).block opener).bind fun _ => .refl _

private theorem NestedNarrows.nameOrCall (narrows : NestedNarrows small large) (name : Token) :
    Narrows (nameOrCall small name) (nameOrCall large name) := by
  refine .after current fun opening => ?_
  rw [narrows.rounds]
  by_cases opens : (opening.kind = .leftParen && adjacent name opening) = true
  · rw [if_pos opens, if_pos opens]
    refine .after _ fun _ => ?_
    exact (comma_separated_narrows (narrows.after Room.callList).expression _ []).bind
      fun _ => .refl _
  · rw [if_neg opens, if_neg opens]
    exact .refl _

private theorem NestedNarrows.primary (narrows : NestedNarrows small large) :
    Narrows (primary small) (primary large) := by
  refine .after current fun token => ?_
  split
  case h_6 => exact .after _ fun _ => narrows.expression.bind fun _ => .refl _
  case h_7 => exact .after _ fun _ => (narrows.procRest token).bind fun _ => .refl _
  case h_8 => exact .after _ fun _ => narrows.nameOrCall token
  all_goals exact .refl _

private theorem NestedNarrows.operand (narrows : NestedNarrows small large) :
    Narrows (Parser.unary small) (Parser.unary large) := by
  refine .after current fun token => ?_
  cases UnaryOp.ofKind? token.kind with
  | some op => exact .after _ fun _ => (narrows.unary 0).bind fun _ => .refl _
  | none => exact (narrows.after Room.operand).primary

private theorem NestedNarrows.declaration (narrows : NestedNarrows small large) (keyword : Token) :
    Narrows (declaration small keyword) (declaration large keyword) :=
  .after _ fun _ => .after _ fun _ => narrows.expression.bind fun _ => .refl _

private theorem NestedNarrows.guarded (narrows : NestedNarrows small large) (opener : Token) :
    Narrows (guarded small opener) (guarded large opener) :=
  narrows.expression.bind fun _ => .after _ fun _ => (narrows.block opener).bind fun _ => .refl _

private theorem NestedNarrows.returned (narrows : NestedNarrows small large) (opener : Token) :
    Narrows (returned small opener) (returned large opener) := by
  refine .after current fun token => ?_
  split
  case h_4 => exact narrows.expression
  all_goals exact .refl _

private theorem NestedNarrows.stmt (narrows : NestedNarrows small large) :
    Narrows (Parser.statement small) (Parser.statement large) := by
  have within := narrows.after Room.statement
  refine .after current fun token => .after followingKind fun following => ?_
  dsimp only
  split
  case h_1 => exact .refl _
  case h_2 => exact .after _ fun _ => .after _ fun _ => (within.block token).bind fun _ => .refl _
  case h_3 | h_4 => exact .after _ fun _ => (within.declaration token).bind fun _ => .refl _
  case h_5 | h_7 => exact .after _ fun _ => (within.guarded token).bind fun _ => .refl _
  case h_6 =>
    exact .after _ fun _ => .after _ fun _ => .after _ fun _ => within.expression.bind fun _ =>
      .after _ fun _ => within.expression.bind fun _ => .after _ fun _ =>
        (within.block token).bind fun _ => .refl _
  case h_8 => exact .after _ fun _ => (within.returned token).bind fun _ => .refl _
  case h_9 =>
    exact .after _ fun _ => .after _ fun _ => (narrows.procRest token).bind fun _ => .refl _
  case h_10 =>
    exact .after _ fun _ => .after _ fun _ => within.expression.bind fun _ => .refl _
  case h_11 => exact narrows.expression.bind fun _ => .refl _

/-- The parsers in less room. -/
theorem within_narrows (rounds : Nat) {room room' : Nat} (less : room ≤ room') :
    NestedNarrows ⟨rounds, within rounds room⟩ ⟨rounds, within rounds room'⟩ := by
  induction room generalizing room' with
  | zero => exact ⟨rfl, fun _ => .out_of_room, fun _ => .out_of_room⟩
  | succ room ih =>
    obtain ⟨room', rfl⟩ : ∃ more, room' = more + 1 := ⟨room' - 1, by omega⟩
    have inner := ih (show room ≤ room' by omega)
    refine ⟨rfl, fun units => ?_, fun units => ?_⟩
    · cases units with
      | succ units => exact inner.unary units
      | zero =>
        by_cases short : room < Room.work
        · simp only [within, if_pos short]
          exact .out_of_room
        · simp only [within, if_neg short, if_neg (show ¬ room' < Room.work by omega)]
          exact inner.operand
    · cases units with
      | succ units => exact inner.statement units
      | zero =>
        by_cases short : room < Room.work
        · simp only [within, if_pos short]
          exact .out_of_room
        · simp only [within, if_neg short, if_neg (show ¬ room' < Room.work by omega)]
          exact inner.stmt

private theorem to_eof_narrows {statement statement' : Parse Stmt}
    (statements : Narrows statement statement') (steps : Nat) (done : List Stmt) :
    Narrows (statementsToEof statement steps done) (statementsToEof statement' steps done) := by
  induction steps generalizing done with
  | zero => exact .refl _
  | succ steps ih =>
    refine .after current fun token => ?_
    split
    · exact .refl _
    · exact .after _ fun _ => ih _
    · exact statements.bind fun next => ih _

private theorem NestedNarrows.program (narrows : NestedNarrows small large) :
    Narrows (Parser.program small) (Parser.program large) := by
  refine .after current fun start => ?_
  rw [narrows.rounds]
  exact (to_eof_narrows (narrows.statement 0) _ []).bind fun _ => .refl _

end Constructs

/-- Tokens spell the same in less room, unless that is not enough. -/
theorem tokens_in_less_room {room room' : Nat} (less : room ≤ room') (tokens : List Token) :
    Program.ofTokensWithin room tokens = Program.ofTokensWithin room' tokens ∨
      ∃ loc, Program.ofTokensWithin room tokens = .error ⟨.parse .tooDeep, loc⟩ := by
  unfold Program.ofTokensWithin run
  rcases (within_narrows (tokens.length + 1) less).program (.ofTokens tokens) with
    same | ⟨loc, lacking⟩
  · exact .inl (by rw [same])
  · exact .inr ⟨loc, by rw [lacking]; rfl⟩

/-- A source is read the same in less room, unless that is not enough. -/
theorem source_in_less_room {room room' : Nat} (less : room ≤ room') (source file : String) :
    Program.parseWithin room source file = Program.parseWithin room' source file ∨
      ∃ loc, Program.parseWithin room source file = .error ⟨.parse .tooDeep, loc⟩ := by
  unfold Program.parseWithin
  cases tokenize source file with
  | error failure => exact .inl rfl
  | ok tokens => exact tokens_in_less_room less tokens

/-- A source is read in limited room as it is without a limit, unless the limit
is too low for it. -/
theorem parse_in_limited_room (room : Nat) (source file : String) :
    Program.parseWithin room source file = Program.parse source file ∨
      ∃ loc, Program.parseWithin room source file = .error ⟨.parse .tooDeep, loc⟩ := by
  unfold Program.parseWithin Program.parse
  cases read : tokenize source file with
  | error failure => exact .inl rfl
  | ok tokens =>
    by_cases less : room ≤ roomFor tokens
    · exact tokens_in_less_room less tokens
    · rcases tokens_in_less_room (show roomFor tokens ≤ room by omega) tokens with
        same | ⟨loc, lacking⟩
      · exact .inl same.symm
      · have closed := Placement.laid_closed (Placement.tokenize_laid read)
        exact absurd rfl (Derivation.deep_enough closed lacking)

/-- A source that is accepted can be read in every room that is large enough. -/
theorem read_in_enough_room {source file : String} {program : Program}
    (parsed : Program.parse source file = .ok program) :
    ∃ enough, ∀ room, enough ≤ room → Program.parseWithin room source file = .ok program := by
  unfold Program.parse at parsed
  cases read : tokenize source file with
  | error failure =>
    rw [read] at parsed
    cases parsed
  | ok tokens =>
    rw [read] at parsed
    have parsed : Program.ofTokensWithin (roomFor tokens) tokens = .ok program := parsed
    refine ⟨roomFor tokens, fun room enough => ?_⟩
    rw [Program.parseWithin, read]
    rcases tokens_in_less_room enough tokens with same | ⟨loc, lacking⟩
    · exact same.symm.trans parsed
    · rw [lacking] at parsed
      cases parsed

end Narrowing

end BasilLang
