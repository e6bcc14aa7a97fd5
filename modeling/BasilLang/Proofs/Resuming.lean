import BasilLang.Proofs.Parsing

/-! Reading goes on where a source ends. The parsers look no further than the
token behind what they take, and there the end of input means the same to them
as a semicolon: a statement ends. So tokens that are read as statements up to
the end of input are read as the same statements, in the same room, when a
semicolon and further tokens take the place of the end. -/
namespace BasilLang.Resuming
open BasilLang.Parser Parsing

/-- What can follow the same tokens: the end of input, or something else that a
statement ends before. -/
structure Joint where
  last : Token
  next : Token
  more : List Token
  isEof : last.kind = .eof
  ends : next.kind = .semicolon ∨ next.kind = .eof

namespace Joint

/-- The tokens with the end of input behind them. -/
def ended (joint : Joint) (tokens : List Token) : Cursor :=
  .ofTokens (tokens ++ [joint.last])

/-- The tokens with more of them behind. -/
def resumed (joint : Joint) (tokens : List Token) : Cursor :=
  .ofTokens (tokens ++ joint.next :: joint.more)

/-- What follows is of no other kind than those that statements end before. -/
theorem apart (joint : Joint) (kind : TokenKind) (notSemicolon : kind ≠ .semicolon)
    (notEof : kind ≠ .eof) : joint.last.kind ≠ kind ∧ joint.next.kind ≠ kind := by
  constructor
  · rw [joint.isEof]
    exact notEof.symm
  · rcases joint.ends with found | found
    · rw [found]
      exact notSemicolon.symm
    · rw [found]
      exact notEof.symm

end Joint

/-- If the first parser takes tokens before the end of input, and leaves some,
then the second takes the same if there are more. At least as many are taken as
the number says. -/
def Carries {α : Type} (joint : Joint) (least : Nat) (tokens : List Token)
    (parser parser' : Parse α) : Prop :=
  ∀ a after, parser (joint.ended tokens) = .ok (a, after) →
    ∃ left, left <:+ tokens ∧ left.length + least ≤ tokens.length ∧ after = joint.ended left ∧
      parser' (joint.resumed tokens) = .ok (a, joint.resumed left)

section Rules
variable {α β : Type} {joint : Joint} {least : Nat} {token : Token} {tokens : List Token}
  {parser parser' : Parse α} {next next' : α → Parse β}

namespace Carries

private theorem forget (carries : Carries joint least tokens parser parser') :
    Carries joint 0 tokens parser parser' := by
  intro a after ran
  obtain ⟨left, suffix, shorter, rest⟩ := carries a after ran
  exact ⟨left, suffix, by omega, rest⟩

private theorem pure (a : α) : Carries joint 0 tokens (pure a) (pure a) := by
  intro a after ran
  cases ran
  exact ⟨tokens, List.suffix_rfl, Nat.le_refl _, rfl, rfl⟩

private theorem fail (token : Token) (fault : ParseFault) :
    Carries joint least tokens (failAt token fault) parser' := by
  intro a after ran
  cases ran

private theorem outOfRoom : Carries joint least tokens outOfRoom parser' := by
  intro a after ran
  cases ran

private theorem bind (first : Carries joint least tokens parser parser')
    (rest : ∀ a left, left.length + least ≤ tokens.length →
      Carries joint 0 left (next a) (next' a)) :
    Carries joint least tokens (parser >>= next) (parser' >>= next') := by
  intro b last ran
  cases read : parser (joint.ended tokens) with
  | error failure => simp [Bind.bind, StateT.bind, read, Except.bind] at ran
  | ok result =>
    obtain ⟨a, after⟩ := result
    obtain ⟨left, suffix, shorter, rfl, read'⟩ := first a after read
    rw [bind_ok read] at ran
    obtain ⟨left', suffix', shorter', rfl, ran'⟩ := rest a left shorter b last ran
    refine ⟨left', suffix'.trans suffix, by omega, rfl, ?_⟩
    rw [bind_ok read', ran']

/-- Nothing comes after what takes a token where there is none. -/
theorem never {other : Parse β} (blocked : Carries joint 1 [] parser parser') :
    Carries joint least [] (parser >>= next) other := by
  intro b last ran
  cases read : parser (joint.ended []) with
  | error failure => simp [Bind.bind, StateT.bind, read, Except.bind] at ran
  | ok result =>
    obtain ⟨left, -, shorter, -⟩ := blocked _ _ read
    exact absurd shorter (by simp)

/-- What comes after a look at the current token. -/
theorem current {next next' : Token → Parse β}
    (here : ∀ token rest, tokens = token :: rest →
      Carries joint least tokens (next token) (next' token))
    (atEnd : tokens = [] → Carries joint least [] (next joint.last) (next' joint.next)) :
    Carries joint least tokens (Parser.current >>= next) (Parser.current >>= next') := by
  intro b last ran
  cases tokens with
  | nil => exact atEnd rfl b last ran
  | cons token rest => exact here token rest rfl b last ran

/-- What comes after a look at the token after the current one. -/
theorem following {next next' : TokenKind → Parse β}
    (here : ∀ kind, (kind ≠ .eof → tokens ≠ []) →
      Carries joint least (token :: tokens) (next kind) (next' kind))
    (blind : next' .semicolon = next' .eof) :
    Carries joint least (token :: tokens) (followingKind >>= next) (followingKind >>= next') := by
  intro b last ran
  cases tokens with
  | nil =>
    have blindly : next' joint.next.kind = next' .eof := by
      rcases joint.ends with kind | kind
      · rw [kind, blind]
      · rw [kind]
    have ran : next joint.last.kind (joint.ended [token]) = .ok (b, last) := ran
    rw [joint.isEof] at ran
    obtain ⟨left, suffix, shorter, same, ran'⟩ := here .eof (absurd rfl) b last ran
    rw [← blindly] at ran'
    exact ⟨left, suffix, shorter, same, ran'⟩
  | cons second rest => exact here second.kind (fun _ => by simp) b last ran

private theorem advance : Carries joint 1 (token :: tokens) advance advance := by
  intro a after ran
  have more : tokens ++ [joint.last] ≠ [] := by simp
  have more' : tokens ++ joint.next :: joint.more ≠ [] := by simp
  rw [Joint.ended, List.cons_append, advance_ok more] at ran
  cases ran
  refine ⟨tokens, List.suffix_cons .., by simp, rfl, ?_⟩
  rw [Joint.resumed, List.cons_append, advance_ok more']
  rfl

/-- What comes after taking the current token. -/
theorem take {next next' : Unit → Parse β} (rest : Carries joint 0 tokens (next ()) (next' ())) :
    Carries joint 1 (token :: tokens) (discard Parser.advance >>= next)
      (discard Parser.advance >>= next') := by
  intro b last ran
  have more : tokens ++ [joint.last] ≠ [] := by simp
  have more' : tokens ++ joint.next :: joint.more ≠ [] := by simp
  rw [Joint.ended, List.cons_append, bind_ok (discard_ok (advance_ok more))] at ran
  obtain ⟨left, suffix, shorter, rfl, ran'⟩ := rest b last ran
  refine ⟨left, suffix.trans (List.suffix_cons ..), by simpa using shorter, rfl, ?_⟩
  rw [Joint.resumed, List.cons_append, bind_ok (discard_ok (advance_ok more'))]
  exact ran'

private theorem discard (carries : Carries joint least tokens parser parser') :
    Carries joint least tokens (discard parser) (discard parser') := by
  intro a after ran
  cases read : parser (joint.ended tokens) with
  | error failure =>
    simp [Functor.discard, Functor.mapConst, StateT.map, read, Bind.bind, Except.bind] at ran
  | ok result =>
    obtain ⟨b, last⟩ := result
    rw [discard_ok read] at ran
    cases ran
    obtain ⟨left, suffix, shorter, same, read'⟩ := carries b after read
    exact ⟨left, suffix, shorter, same, discard_ok read'⟩

private theorem expect (kind : TokenKind) (notEof : kind ≠ .eof) (fault : Found → ParseFault) :
    Carries joint 1 tokens (expect kind fault) (expect kind fault) := by
  apply Carries.current
  · rintro token rest rfl
    by_cases same : token.kind = kind
    · rw [if_pos same]
      exact advance
    · rw [if_neg same]
      exact .fail _ _
  · intro _
    rw [if_neg (by rw [joint.isEof]; exact notEof.symm)]
    exact .fail _ _

private theorem expectThen (opener : Token) :
    Carries joint 1 tokens (expectThen opener) (expectThen opener) := by
  apply Carries.current
  · rintro token rest rfl
    by_cases ends : (token.kind = .kwThen || token.kind = .colon) = true
    · rw [if_pos ends]
      exact advance.discard
    · rw [if_neg ends]
      exact .fail _ _
  · intro _
    rw [if_neg (by simp [joint.isEof])]
    exact .fail _ _

end Carries

end Rules

/-- The nested parsers carry on, and their loops have rounds enough for so many
tokens. -/
structure NestedCarries (joint : Joint) (bound : Nat) (nested nested' : Nested) : Prop where
  rounds : bound < nested.rounds
  rounds' : bound < nested'.rounds
  unary : ∀ units tokens, tokens.length ≤ bound →
    Carries joint 1 tokens (nested.parsers units).unary (nested'.parsers units).unary
  statement : ∀ units tokens, tokens.length ≤ bound →
    Carries joint 1 tokens (nested.parsers units).statement (nested'.parsers units).statement

section Constructs
variable {joint : Joint} {bound : Nat} {nested nested' : Nested} {tokens : List Token}

private theorem NestedCarries.after (carries : NestedCarries joint bound nested nested')
    (units : Nat) :
    NestedCarries joint bound (nested.after units) (nested'.after units) :=
  ⟨carries.rounds, carries.rounds', fun more => carries.unary (more + units),
    fun more => carries.statement (more + units)⟩

private theorem join_carries {operand operand' : Parse Expr}
    (operands : ∀ tokens, tokens.length ≤ bound → Carries joint 1 tokens operand operand')
    (level : Nat) (left : Expr) {steps steps' : Nat} (enough : tokens.length < steps)
    (enough' : tokens.length < steps') (fits : tokens.length ≤ bound) :
    Carries joint 0 tokens (joinLevel level operand steps left)
      (joinLevel level operand' steps' left) := by
  induction steps generalizing steps' tokens left with
  | zero => omega
  | succ steps ih =>
    obtain ⟨steps', rfl⟩ : ∃ fewer, steps' = fewer + 1 := ⟨steps' - 1, by omega⟩
    apply Carries.current
    · rintro token rest rfl
      cases BinaryOp.ofKind? token.kind with
      | none => exact .pure left
      | some op =>
        by_cases here : op.level = level
        · simp only [if_pos here]
          simp only [List.length_cons] at enough enough' fits
          refine Carries.forget (Carries.advance.discard.bind fun _ more shorter => ?_)
          simp only [List.length_cons] at shorter
          refine ((operands more (by omega)).bind fun right more' shorter' => ?_).forget
          exact ih _ (by omega) (by omega) (by omega)
        · simp only [if_neg here]
          exact .pure left
    · intro _
      rw [joint.isEof]
      rcases joint.ends with kind | kind
      · rw [kind]
        exact .pure left
      · rw [kind]
        exact .pure left

private theorem NestedCarries.expression (carries : NestedCarries joint bound nested nested')
    (fits : tokens.length ≤ bound) :
    Carries joint 1 tokens (expression nested) (expression nested') := by
  have level : ∀ {operand operand' : Parse Expr} (level : Nat),
      (∀ tokens, tokens.length ≤ bound → Carries joint 1 tokens operand operand') →
      ∀ tokens, tokens.length ≤ bound → Carries joint 1 tokens
        (atLevel nested.rounds level operand) (atLevel nested'.rounds level operand') := by
    intro operand operand' level operands tokens fits
    have rounds := carries.rounds
    have rounds' := carries.rounds'
    refine (operands tokens fits).bind fun left more shorter => ?_
    exact join_carries operands level left (by omega) (by omega) (by omega)
  have operands := (carries.after Room.levels).unary 0
  exact level 0 (level 1 (level 2 (level 3 (level 4 (level 5 operands))))) tokens fits

private theorem comma_separated_carries {α : Type} {item item' : Parse α}
    (items : ∀ tokens, tokens.length ≤ bound → Carries joint 1 tokens item item')
    (done : List α) {steps steps' : Nat} (enough : tokens.length < steps)
    (enough' : tokens.length < steps') (fits : tokens.length ≤ bound) :
    Carries joint 0 tokens (commaSeparated item steps done) (commaSeparated item' steps' done) := by
  induction steps generalizing steps' tokens done with
  | zero => omega
  | succ steps ih =>
    obtain ⟨steps', rfl⟩ : ∃ fewer, steps' = fewer + 1 := ⟨steps' - 1, by omega⟩
    have afterItem : ∀ next left, left.length + 1 ≤ tokens.length → Carries joint 0 left
        (Parser.current >>= fun token => if token.kind = .comma then do
          discard advance
          commaSeparated item steps (next :: done)
        else pure (next :: done).reverse)
        (Parser.current >>= fun token => if token.kind = .comma then do
          discard advance
          commaSeparated item' steps' (next :: done)
        else pure (next :: done).reverse) := by
      intro next left shorter
      apply Carries.current
      · rintro token rest rfl
        by_cases comma : token.kind = .comma
        · rw [if_pos comma, if_pos comma]
          simp only [List.length_cons] at shorter
          refine Carries.forget (Carries.advance.discard.bind fun _ more shorter' => ?_)
          simp only [List.length_cons] at shorter'
          exact ih _ (by omega) (by omega) (by omega)
        · rw [if_neg comma, if_neg comma]
          exact .pure _
      · intro _
        obtain ⟨notComma, notComma'⟩ := joint.apart .comma nofun nofun
        rw [if_neg notComma, if_neg notComma']
        exact .pure _
    apply Carries.current
    · rintro token rest rfl
      by_cases closes : token.kind = .rightParen
      · rw [if_pos closes, if_pos closes]
        exact .pure _
      · rw [if_neg closes, if_neg closes]
        exact ((items _ fits).bind afterItem).forget
    · rintro rfl
      obtain ⟨notClosed, notClosed'⟩ := joint.apart .rightParen nofun nofun
      rw [if_neg notClosed, if_neg notClosed']
      exact ((items [] fits).bind afterItem).forget

private theorem comma_separated_never {α : Type} {item item' : Parse α}
    (items : Carries joint 1 [] item item') (done : List α) {steps steps' : Nat}
    (some : 0 < steps) (some' : 0 < steps') :
    Carries joint 1 [] (commaSeparated item steps done) (commaSeparated item' steps' done) := by
  obtain ⟨steps, rfl⟩ : ∃ fewer, steps = fewer + 1 := ⟨steps - 1, by omega⟩
  obtain ⟨steps', rfl⟩ : ∃ fewer, steps' = fewer + 1 := ⟨steps' - 1, by omega⟩
  apply Carries.current
  · intro token rest impossible
    cases impossible
  · intro _
    rw [if_neg (joint.apart .rightParen nofun nofun).1]
    exact items.never

private theorem to_end_carries {statement statement' : Parse Stmt}
    (statements : ∀ tokens, tokens.length ≤ bound → Carries joint 1 tokens statement statement')
    (opener : Token) (done : List Stmt) {steps steps' : Nat} (enough : tokens.length < steps)
    (enough' : tokens.length < steps') (fits : tokens.length ≤ bound) :
    Carries joint 1 tokens (statementsToEnd statement opener steps done)
      (statementsToEnd statement' opener steps' done) := by
  induction steps generalizing steps' tokens done with
  | zero => omega
  | succ steps ih =>
    obtain ⟨steps', rfl⟩ : ∃ fewer, steps' = fewer + 1 := ⟨steps' - 1, by omega⟩
    apply Carries.current
    · rintro token rest rfl
      simp only [List.length_cons] at enough enough' fits
      split
      · exact Carries.advance.discard.bind fun _ more _ => .pure _
      · exact .fail _ _
      · refine Carries.advance.discard.bind fun _ more shorter => ?_
        simp only [List.length_cons] at shorter
        exact (ih _ (by omega) (by omega) (by omega)).forget
      · refine (statements _ (by simpa using fits)).bind fun next more shorter => ?_
        simp only [List.length_cons] at shorter
        exact (ih _ (by omega) (by omega) (by omega)).forget
    · intro _
      simp only [joint.isEof]
      exact .fail _ _

private theorem NestedCarries.block (carries : NestedCarries joint bound nested nested')
    (opener : Token) (fits : tokens.length ≤ bound) :
    Carries joint 1 tokens (block nested opener) (block nested' opener) := by
  have statements := (carries.after Room.block).statement 0
  apply Carries.current
  · rintro token rest rfl
    refine (to_end_carries statements opener [] ?_ ?_ fits).bind fun body more _ => .pure _
    · exact Nat.lt_of_le_of_lt fits carries.rounds
    · exact Nat.lt_of_le_of_lt fits carries.rounds'
  · intro _
    exact (to_end_carries statements opener [] (Nat.zero_lt_of_lt carries.rounds)
      (Nat.zero_lt_of_lt carries.rounds') (Nat.zero_le _)).never

private theorem parameter_carries : Carries joint 1 tokens parameter parameter := by
  refine (Carries.expect .ident nofun _).bind fun token more _ => ?_
  split
  · exact (Carries.fail _ _).bind fun _ _ _ => .pure _
  · exact .pure _

private theorem NestedCarries.procRest (carries : NestedCarries joint bound nested nested')
    (opener : Token) (fits : tokens.length ≤ bound) :
    Carries joint 1 tokens (procRest nested opener) (procRest nested' opener) := by
  have rounds := carries.rounds
  have rounds' := carries.rounds'
  have parameters : ∀ tokens, tokens.length ≤ bound → Carries joint 1 tokens parameter parameter :=
    fun _ _ => parameter_carries
  refine (Carries.expect .leftParen nofun _).discard.bind fun _ more shorter => ?_
  apply Carries.current
  · rintro start rest rfl
    refine (comma_separated_carries parameters [] ?_ ?_ ?_).bind
      fun params more shorter => ?_
    · omega
    · omega
    · omega
    refine ((Carries.expect .rightParen nofun _).discard.bind fun _ more shorter => ?_).forget
    refine ((Carries.expectThen opener).bind fun _ more shorter => ?_).forget
    exact (((carries.after Room.proc).block opener (by omega)).bind fun _ _ _ => .pure _).forget
  · intro _
    exact (comma_separated_never parameter_carries [] (Nat.zero_lt_of_lt rounds)
      (Nat.zero_lt_of_lt rounds')).never

private theorem NestedCarries.nameOrCall (carries : NestedCarries joint bound nested nested')
    (name : Token) (fits : tokens.length ≤ bound) :
    Carries joint 0 tokens (nameOrCall nested name) (nameOrCall nested' name) := by
  have rounds := carries.rounds
  have rounds' := carries.rounds'
  have args : ∀ tokens, tokens.length ≤ bound → Carries joint 1 tokens
      (Parser.expression (nested.after Room.callList))
      (Parser.expression (nested'.after Room.callList)) :=
    fun _ fits => (carries.after Room.callList).expression fits
  apply Carries.current
  · rintro opening rest rfl
    by_cases opens : (opening.kind = .leftParen && adjacent name opening) = true
    · rw [if_pos opens, if_pos opens]
      refine Carries.forget (Carries.advance.discard.bind fun _ more shorter => ?_)
      refine (comma_separated_carries args [] ?_ ?_ ?_).bind fun args more shorter => ?_
      · omega
      · omega
      · omega
      exact ((Carries.expect .rightParen nofun _).discard.bind fun _ _ _ => .pure _).forget
    · rw [if_neg opens, if_neg opens]
      exact .pure _
  · intro _
    obtain ⟨notOpen, notOpen'⟩ := joint.apart .leftParen nofun nofun
    simp only [notOpen, notOpen', decide_false, Bool.false_and, Bool.false_eq_true, if_false]
    exact .pure _

private theorem NestedCarries.primary (carries : NestedCarries joint bound nested nested')
    (fits : tokens.length ≤ bound) :
    Carries joint 1 tokens (primary nested) (primary nested') := by
  apply Carries.current
  · rintro token rest rfl
    split
    case h_6 =>
      refine Carries.advance.discard.bind fun _ more shorter => ?_
      refine ((carries.expression ?_).bind fun inner more shorter => ?_).forget
      · omega
      exact ((Carries.expect .rightParen nofun _).discard.bind fun _ _ _ => .pure _).forget
    case h_7 =>
      refine Carries.advance.discard.bind fun _ more shorter => ?_
      exact ((carries.procRest token (by omega)).bind fun _ _ _ => .pure _).forget
    case h_8 =>
      exact Carries.advance.discard.bind fun _ more shorter => carries.nameOrCall token (by omega)
    case h_9 => exact .fail _ _
    all_goals exact Carries.advance.discard.bind fun _ _ _ => .pure _
  · intro _
    simp only [joint.isEof]
    exact .fail _ _

private theorem NestedCarries.operand (carries : NestedCarries joint bound nested nested')
    (fits : tokens.length ≤ bound) :
    Carries joint 1 tokens (Parser.unary nested) (Parser.unary nested') := by
  apply Carries.current
  · rintro token rest rfl
    cases UnaryOp.ofKind? token.kind with
    | some op =>
      refine Carries.advance.discard.bind fun _ more shorter => ?_
      exact ((carries.unary 0 more (by omega)).bind fun _ _ _ => .pure _).forget
    | none => exact (carries.after Room.operand).primary fits
  · rintro rfl
    have noOperator : UnaryOp.ofKind? joint.next.kind = none := by
      rcases joint.ends with kind | kind
      · rw [kind]
        rfl
      · rw [kind]
        rfl
    rw [joint.isEof, noOperator]
    exact (carries.after Room.operand).primary fits

private theorem import_carries (opener : Token) :
    Carries joint 1 tokens (importTarget opener) (importTarget opener) := by
  apply Carries.current
  · rintro token rest rfl
    split
    case h_4 => exact .fail _ _
    all_goals exact Carries.advance.discard.bind fun _ _ _ => .pure _
  · intro _
    simp only [joint.isEof]
    exact .fail _ _

private theorem NestedCarries.declaration (carries : NestedCarries joint bound nested nested')
    (keyword : Token) (fits : tokens.length ≤ bound) :
    Carries joint 1 tokens (declaration nested keyword) (declaration nested' keyword) := by
  refine (Carries.expect .ident nofun _).bind fun name more shorter => ?_
  refine ((Carries.expect .assign nofun _).discard.bind fun _ more shorter => ?_).forget
  exact ((carries.expression (by omega)).bind fun _ _ _ => .pure _).forget

private theorem NestedCarries.guarded (carries : NestedCarries joint bound nested nested')
    (opener : Token) (fits : tokens.length ≤ bound) :
    Carries joint 1 tokens (guarded nested opener) (guarded nested' opener) := by
  refine (carries.expression fits).bind fun condition more shorter => ?_
  refine ((Carries.expectThen opener).bind fun _ more shorter => ?_).forget
  exact ((carries.block opener (by omega)).bind fun _ _ _ => .pure _).forget

/-- A bare return ends before a semicolon as it does at the end of input. -/
theorem NestedCarries.returned (carries : NestedCarries joint bound nested nested')
    (opener : Token) (fits : tokens.length ≤ bound) :
    Carries joint 0 tokens (returned nested opener) (returned nested' opener) := by
  apply Carries.current
  · rintro token rest rfl
    split
    case h_4 => exact (carries.expression fits).forget
    all_goals exact .pure _
  · intro _
    rcases joint.ends with kind | kind
    · simp only [joint.isEof, kind]
      exact .pure _
    · simp only [joint.isEof, kind]
      exact .pure _

private theorem NestedCarries.stmt (carries : NestedCarries joint bound nested nested')
    (fits : tokens.length ≤ bound) :
    Carries joint 1 tokens (Parser.statement nested) (Parser.statement nested') := by
  have within := carries.after Room.statement
  apply Carries.current
  · rintro token rest rfl
    apply Carries.following
    · intro kind more
      dsimp only
      split
      case h_1 => exact Carries.advance.discard.bind fun _ _ _ => (import_carries token).forget
      case h_2 =>
        refine Carries.advance.discard.bind fun _ more shorter => ?_
        refine ((Carries.expect .ident nofun _).bind fun name more shorter => ?_).forget
        exact ((within.block token (by omega)).bind fun _ _ _ => .pure _).forget
      case h_3 | h_4 =>
        refine Carries.advance.discard.bind fun _ more shorter => ?_
        exact ((within.declaration token (by omega)).bind fun _ _ _ => .pure _).forget
      case h_5 | h_7 =>
        refine Carries.advance.discard.bind fun _ more shorter => ?_
        exact ((within.guarded token (by omega)).bind fun _ _ _ => .pure _).forget
      case h_6 =>
        refine Carries.advance.discard.bind fun _ more shorter => ?_
        refine ((Carries.expect .ident nofun _).bind fun name more shorter => ?_).forget
        refine ((Carries.expect .assign nofun _).discard.bind fun _ more shorter => ?_).forget
        refine ((within.expression (by omega)).bind fun start more shorter => ?_).forget
        refine ((Carries.expect .kwTo nofun _).discard.bind fun _ more shorter => ?_).forget
        refine ((within.expression (by omega)).bind fun stop more shorter => ?_).forget
        refine ((Carries.expectThen token).bind fun _ more shorter => ?_).forget
        exact ((within.block token (by omega)).bind fun _ _ _ => .pure _).forget
      case h_8 =>
        refine Carries.advance.discard.bind fun _ more shorter => ?_
        exact (within.returned token (by omega)).bind fun _ _ _ => .pure _
      case h_9 =>
        obtain ⟨name, rest, rfl⟩ := List.exists_cons_of_ne_nil (more nofun)
        simp only [List.length_cons] at fits
        refine .take (Carries.forget (Carries.advance.bind fun name left shorter => ?_))
        simp only [List.length_cons] at shorter
        exact ((carries.procRest token (by omega)).bind fun _ _ _ => .pure _).forget
      case h_10 =>
        obtain ⟨equals, rest, rfl⟩ := List.exists_cons_of_ne_nil (more nofun)
        simp only [List.length_cons] at fits
        refine .take (Carries.forget (.take ?_))
        exact ((within.expression (by omega)).bind fun _ _ _ => .pure _).forget
      case h_11 => exact (carries.expression fits).bind fun _ _ _ => .pure _
    · cases token.kind <;> rfl
  · rintro rfl b last ran
    simp only [joint.isEof] at ran
    have ran : (Parser.expression nested >>= fun e => Pure.pure (Stmt.expr e)) (joint.ended []) =
      .ok (b, last) := ran
    exact (carries.expression fits).never b last ran

/-- The parsers in the same room. -/
theorem within_carries (joint : Joint) {bound rounds rounds' : Nat} (enough : bound < rounds)
    (enough' : bound < rounds') (room : Nat) :
    NestedCarries joint bound ⟨rounds, within rounds room⟩ ⟨rounds', within rounds' room⟩ := by
  induction room with
  | zero => exact ⟨enough, enough', fun _ _ _ => .outOfRoom, fun _ _ _ => .outOfRoom⟩
  | succ room ih =>
    refine ⟨enough, enough', fun units tokens fits => ?_, fun units tokens fits => ?_⟩
    · cases units with
      | succ units => exact ih.unary units tokens fits
      | zero =>
        by_cases short : room < Room.work
        · simp only [within, if_pos short]
          exact .outOfRoom
        · simp only [within, if_neg short]
          exact ih.operand fits
    · cases units with
      | succ units => exact ih.statement units tokens fits
      | zero =>
        by_cases short : room < Room.work
        · simp only [within, if_pos short]
          exact .outOfRoom
        · simp only [within, if_neg short]
          exact ih.stmt fits

end Constructs

section Statements
variable {joint : Joint} {bound : Nat} {next next' : Parse Stmt}

private theorem to_eof_reads {steps : Nat} {done : List Stmt} {token : Token} {rest : List Token}
    (notEof : token.kind ≠ .eof) (notSemicolon : token.kind ≠ .semicolon) :
    statementsToEof next (steps + 1) done (.ofTokens (token :: rest)) =
      (next >>= fun s => statementsToEof next steps (s :: done)) (.ofTokens (token :: rest)) := by
  rw [statementsToEof, bind_ok current_ok]
  cases kind : token.kind <;> first | contradiction | rfl

private theorem to_eof_resumes
    (statements : ∀ tokens, tokens.length ≤ bound → Carries joint 1 tokens next next')
    {steps : Nat} {tokens : List Token} {done body : List Stmt} {after : Cursor}
    (fits : tokens.length ≤ bound) (inner : ∀ token ∈ tokens, token.kind ≠ .eof)
    (ran : statementsToEof next steps done (joint.ended tokens) = .ok (body, after))
    {steps' : Nat} (enough : tokens.length ≤ steps') (done' : List Stmt) :
    ∃ found left, body = done.reverse ++ found ∧ steps' ≤ left + tokens.length ∧
      statementsToEof next' steps' done' (joint.resumed tokens) =
        statementsToEof next' left (found.reverse ++ done') (joint.resumed []) := by
  induction steps generalizing tokens done steps' done' with
  | zero => cases ran
  | succ steps ih =>
    cases tokens with
    | nil =>
      rw [statementsToEof, Joint.ended, List.nil_append, bind_ok current_ok, joint.isEof] at ran
      cases ran
      exact ⟨[], steps', by simp, Nat.le_refl _, rfl⟩
    | cons token rest =>
      simp only [List.length_cons] at fits enough
      obtain ⟨notEof, inner'⟩ := List.forall_mem_cons.mp inner
      obtain ⟨steps', rfl⟩ : ∃ fewer, steps' = fewer + 1 := ⟨steps' - 1, by omega⟩
      by_cases isSemicolon : token.kind = .semicolon
      · rw [Joint.ended, List.cons_append, (to_eof_loop next).skips isSemicolon (by simp)] at ran
        obtain ⟨found, left, split, fewer, resumed⟩ :=
          ih (by omega) inner' ran (show rest.length ≤ steps' by omega) done'
        refine ⟨found, left, split, by simp only [List.length_cons]; omega, ?_⟩
        rw [Joint.resumed, List.cons_append, (to_eof_loop next').skips isSemicolon (by simp)]
        exact resumed
      · rw [Joint.ended, List.cons_append, to_eof_reads notEof isSemicolon] at ran
        cases read : next (.ofTokens (token :: (rest ++ [joint.last]))) with
        | error failure => simp [Bind.bind, StateT.bind, read, Except.bind] at ran
        | ok result =>
          obtain ⟨s, middle⟩ := result
          rw [bind_ok read] at ran
          obtain ⟨left, suffix, shorter, rfl, read'⟩ :=
            statements (token :: rest) fits s middle read
          simp only [List.length_cons] at shorter
          obtain ⟨found, left', split, fewer, resumed⟩ := ih (by omega)
            (fun token member => inner token (suffix.subset member)) ran
            (show left.length ≤ steps' by omega) (s :: done')
          refine ⟨s :: found, left', by simp [split], by simp only [List.length_cons]; omega, ?_⟩
          refine (to_eof_reads notEof isSemicolon).trans ((bind_ok read').trans ?_)
          rw [resumed, List.reverse_cons, List.append_assoc]
          rfl

end Statements

/-- Tokens in front of which every statement ends. -/
def Resumes (tail : List Token) : Prop :=
  ∃ next more, tail = next :: more ∧ (next.kind = .semicolon ∨ next.kind = .eof)

/-- The statements of a source are found in the same room when more tokens take
the place of the end of input. -/
theorem statements_resume {room : Nat} {tokens tail : List Token} {last : Token} {program : Program}
    (inner : ∀ token ∈ tokens, token.kind ≠ .eof) (isEof : last.kind = .eof)
    (parsed : Program.ofTokensWithin room (tokens ++ [last]) = .ok program) (resumes : Resumes tail)
    {rounds steps : Nat} (enough : tokens.length < rounds) (enough' : tokens.length ≤ steps)
    (done : List Stmt) :
    ∃ left, steps ≤ left + tokens.length ∧
      statementsToEof (nestedIn rounds room).statement steps done (.ofTokens (tokens ++ tail)) =
        statementsToEof (nestedIn rounds room).statement left (program.body.reverse ++ done)
          (.ofTokens tail) := by
  obtain ⟨next, more, rfl, ends⟩ := resumes
  let joint : Joint := ⟨last, next, more, isEof, ends⟩
  let nested := nestedIn ((tokens ++ [last]).length + 1) room
  have carries : NestedCarries joint tokens.length nested (nestedIn rounds room) :=
    within_carries joint (by simp only [List.length_append]; omega) enough room
  -- The whole source is what the loop finds, from its first token on.
  obtain ⟨after, ran⟩ : ∃ after, statementsToEof nested.statement nested.rounds []
      (joint.ended tokens) = .ok (program.body, after) := by
    have whole : (·.1) <$> (statementsToEof nested.statement nested.rounds [] >>= fun body =>
        pure (Program.mk (joint.ended tokens).current.loc.file body)) (joint.ended tokens) =
        .ok program := parsed
    cases read : statementsToEof nested.statement nested.rounds [] (joint.ended tokens) with
    | error failure =>
      simp [Bind.bind, StateT.bind, read, Except.bind, Functor.map, Except.map] at whole
    | ok result =>
      obtain ⟨body, after⟩ := result
      rw [bind_ok read] at whole
      cases whole
      exact ⟨after, rfl⟩
  obtain ⟨found, left, split, fewer, resumed⟩ :=
    to_eof_resumes (carries.statement 0) (Nat.le_refl _) inner ran enough' done
  rw [List.reverse_nil, List.nil_append] at split
  rw [split]
  exact ⟨left, fewer, resumed⟩

end BasilLang.Resuming
