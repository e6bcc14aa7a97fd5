import BasilLang.Proofs.Lockstep
import BasilLang.Proofs.Mirroring

/-! The layout of a source means nothing. Blanks, comments and line breaks can
be changed at will as long as the tokens stay the same, and the parentheses
that touch a name still do: the parser accepts both sources or complains about
tokens at the same index, and what it accepts does the same when it runs. -/
namespace BasilLang.Layout
open Placement Lockstep

/-- Whether the token is a name that an opening parenthesis follows and
touches. -/
def isTouched (token : Token) (rest : List Token) : Bool :=
  token.kind = .ident &&
    rest.head?.any fun next => next.kind = .leftParen && Parser.adjacent token next

/-- What layout cannot change about tokens: their kinds and texts in order, and
which of the names are touched by a parenthesis. -/
def essence : List Token → List (TokenKind × String × Bool)
  | [] => []
  | token :: rest => (token.kind, token.text, isTouched token rest) :: essence rest

/-- The failure is reported at the token with this index. -/
def ReportedAt (tokens : List Token) (failure : Failure) (i : Nat) : Prop :=
  ∃ token, tokens[i]? = some token ∧ failure.loc = some token.loc

/-- Two runs that differ in nothing but places: they come to the same value or
fail with the same fault, write the same, and leave the same constants and
bindings that differ in their places only. -/
structure SameRun (run run' : Except Stop (Option Value) × Machine) : Prop where
  outcome : Eval.Agree Eq run.1 run'.1
  out : run.2.console.out = run'.2.console.out
  bindings : run.2.frame.bindings.unplaced = run'.2.frame.bindings.unplaced
  constants : run.2.frame.constants = run'.2.frame.constants

section Tokens
variable {tokens tokens' : List Token}

private theorem adjacent_of_touched {token token' opening opening' : Token}
    {rest rest' : List Token}
    (touched : isTouched token (opening :: rest) = isTouched token' (opening' :: rest'))
    (kind : token.kind = token'.kind) (isName : token.kind = .ident)
    (opens : opening.kind = .leftParen) (opens' : opening'.kind = .leftParen) :
    Parser.adjacent token' opening' = Parser.adjacent token opening := by
  simpa [isTouched, isName, ← kind, opens, opens', eq_comm] using touched

private theorem matched_nil : Matched [] := by
  constructor
  · simp
  · simp
  · simp

private theorem matched_cons {token token' : Token} {rest rest' : List Token}
    (kind : token.kind = token'.kind) (text : token.text = token'.text)
    (touched : isTouched token rest = isTouched token' rest')
    (matched : Matched (rest.zip rest')) : Matched ((token, token') :: rest.zip rest') := by
  constructor
  · exact List.forall_mem_cons.mpr ⟨kind.symm, matched.kind⟩
  · exact List.forall_mem_cons.mpr ⟨text.symm, matched.text⟩
  · intro name opening more suffix isName opens
    rcases List.suffix_cons_iff.mp suffix with whole | later
    · obtain ⟨rfl, others⟩ := List.cons.inj whole
      cases rest with
      | nil => simp at others
      | cons second rest =>
        cases rest' with
        | nil => simp at others
        | cons second' rest' =>
          obtain ⟨rfl, rfl⟩ := List.cons.inj others
          have opens' : second'.kind = .leftParen :=
            (matched.kind (second, second') List.mem_cons_self).trans opens
          exact adjacent_of_touched touched kind isName opens opens'
    · exact matched.touching name opening more later isName opens

private theorem matched_of_essence (same : essence tokens = essence tokens') :
    tokens.length = tokens'.length ∧ Matched (tokens.zip tokens') := by
  induction tokens generalizing tokens' with
  | nil =>
    cases tokens' with
    | nil => exact ⟨rfl, matched_nil⟩
    | cons token' rest' => simp [essence] at same
  | cons token rest ih =>
    cases tokens' with
    | nil => simp [essence] at same
    | cons token' rest' =>
      simp only [essence, List.cons.injEq, Prod.mk.injEq] at same
      obtain ⟨⟨kind, text, touched⟩, others⟩ := same
      obtain ⟨length, matched⟩ := ih others
      exact ⟨congrArg (· + 1) length, matched_cons kind text touched matched⟩

private theorem reported_iff {failure : Failure} {token : Token} {i : Nat}
    (places : tokens.Pairwise fun first second => first.loc ≠ second.loc)
    (found : tokens[i]? = some token) (reported : failure.loc = some token.loc) (j : Nat) :
    ReportedAt tokens failure j ↔ j = i := by
  constructor
  · rintro ⟨other, found', reported'⟩
    have samePlace : token.loc = other.loc := Option.some.inj (reported.symm.trans reported')
    obtain ⟨inside, rfl⟩ := List.getElem?_eq_some_iff.mp found
    obtain ⟨inside', rfl⟩ := List.getElem?_eq_some_iff.mp found'
    have apart := List.pairwise_iff_getElem.mp places
    rcases Nat.lt_trichotomy j i with earlier | here | later
    · exact absurd samePlace.symm (apart j i inside' inside earlier)
    · exact here
    · exact absurd samePlace (apart i j inside inside' later)
  · rintro rfl
    exact ⟨token, found, reported⟩

private theorem reported_of_rejects {failure failure' : Failure}
    (places : tokens.Pairwise fun first second => first.loc ≠ second.loc)
    (places' : tokens'.Pairwise fun first second => first.loc ≠ second.loc)
    (rejects : Rejects (tokens.zip tokens') failure failure')
    (roomy : failure.fault ≠ .parse .tooDeep) :
    ∃ i, ∀ j, (ReportedAt tokens failure j ↔ j = i) ∧ (ReportedAt tokens' failure' j ↔ j = i) := by
  rcases rejects with ⟨tooDeep, -⟩ | ⟨pair, member, reported, reported'⟩
  · exact absurd tooDeep roomy
  · obtain ⟨i, found⟩ := List.mem_iff_getElem?.mp member
    obtain ⟨found, found'⟩ := List.getElem?_zip_eq_some.mp found
    exact ⟨i, fun j => ⟨reported_iff places found reported j, reported_iff places' found' reported' j⟩⟩

private theorem accepted_or_rejected (same : essence tokens = essence tokens')
    (nonempty : tokens ≠ []) :
    (∃ program program', Program.ofTokens tokens = .ok program ∧
      Program.ofTokens tokens' = .ok program' ∧ AlikeStmts program.body program'.body) ∨
    ∃ failure failure', Program.ofTokens tokens = .error failure ∧
      Program.ofTokens tokens' = .error failure' ∧
      Rejects (tokens.zip tokens') failure failure' := by
  obtain ⟨length, matched⟩ := matched_of_essence same
  have nonempty' : tokens' ≠ [] := by
    rw [← List.length_pos_iff, ← length, List.length_pos_iff]
    exact nonempty
  have paired : tokens.zip tokens' ≠ [] := by
    simp [List.zip_eq_nil_iff, nonempty, nonempty']
  have inStep := programs_in_step matched paired (Parser.roomFor tokens)
  have sameRoom : Parser.roomFor tokens = Parser.roomFor tokens' := by
    rw [Parser.roomFor, length, ← Parser.roomFor]
  rw [List.map_fst_zip (Nat.le_of_eq length), List.map_snd_zip (Nat.le_of_eq length.symm),
    ← Program.ofTokens, sameRoom, ← Program.ofTokens] at inStep
  cases read : Program.ofTokens tokens with
  | ok program =>
    cases read' : Program.ofTokens tokens' with
    | ok program' =>
      rw [read, read'] at inStep
      exact .inl ⟨program, program', rfl, rfl, inStep⟩
    | error failure' =>
      rw [read, read'] at inStep
      exact inStep.elim
  | error failure =>
    cases read' : Program.ofTokens tokens' with
    | ok program' =>
      rw [read, read'] at inStep
      exact inStep.elim
    | error failure' =>
      rw [read, read'] at inStep
      exact .inr ⟨failure, failure', rfl, rfl, inStep⟩

end Tokens

private theorem same_run {program program' : Program}
    (bodies : AlikeStmts program.body program'.body) (patience room : Nat) (withMain : Bool)
    (m : Machine) :
    SameRun (program.eval (interpreter patience room) withMain m)
      (program'.eval (interpreter patience room) withMain m) := by
  obtain ⟨outcome, after⟩ :=
    Mirroring.mirrors_program patience room withMain bodies m m ⟨rfl, rfl⟩
  exact ⟨outcome, after.out, after.frame.bindings, after.frame.place.1⟩

/-- Sources with the same tokens, touched by the same parentheses, are both
accepted or both rejected. What is accepted does the same in every room, with
every patience and for every limit of the depth; what is rejected is rejected
at the same token. -/
theorem layout_changes_nothing {source source' file file' : String} {tokens tokens' : List Token}
    (read : tokenize source file = .ok tokens) (read' : tokenize source' file' = .ok tokens')
    (same : essence tokens = essence tokens') :
    (∃ program program', Program.parse source file = .ok program ∧
      Program.parse source' file' = .ok program' ∧
      ∀ patience room withMain maxDepth console,
        SameRun (program.eval (interpreter patience room) withMain ⟨{ maxDepth }, console⟩)
          (program'.eval (interpreter patience room) withMain ⟨{ maxDepth }, console⟩)) ∨
    ∃ failure failure', Program.parse source file = .error failure ∧
      Program.parse source' file' = .error failure' ∧
      ∃ i, ∀ j, (ReportedAt tokens failure j ↔ j = i) ∧
        (ReportedAt tokens' failure' j ↔ j = i) := by
  have laid := tokenize_laid read
  have laid' := tokenize_laid read'
  have parsed : Program.parse source file = Program.ofTokens tokens := by
    rw [Program.parse, read]
    rfl
  have parsed' : Program.parse source' file' = Program.ofTokens tokens' := by
    rw [Program.parse, read']
    rfl
  rw [parsed, parsed']
  rcases accepted_or_rejected same (closed_ne_nil (laid_closed laid)) with
    ⟨program, program', accepted, accepted', bodies⟩ |
    ⟨failure, failure', rejected, rejected', rejects⟩
  · left
    refine ⟨program, program', accepted, accepted', ?_⟩
    intro patience room withMain maxDepth console
    exact same_run bodies patience room withMain _
  · right
    have roomy := Derivation.deep_enough (laid_closed laid) rejected
    exact ⟨failure, failure', rejected, rejected',
      reported_of_rejects (laid_places laid) (laid_places laid') rejects roomy⟩

/-- A proc and its call on one line. -/
def closePacked : String :=
  "proc f(a) then return a+1 end let x=f(2)"

/-- The same, with comments, blanks and line breaks. -/
def wideSpread : String :=
  "# A proc.\nproc f( a )\n  then\n    return a + 1 # One more.\nend\n\nlet x =\n  f( 2 )\n"

theorem spreading_changes_nothing :
    ∃ tokens tokens', tokenize closePacked "close" = .ok tokens ∧
      tokenize wideSpread "wide" = .ok tokens' ∧ essence tokens = essence tokens' ∧
      ∃ program program', Program.parse closePacked "close" = .ok program ∧
        Program.parse wideSpread "wide" = .ok program' ∧
        ∀ patience room withMain maxDepth console,
          SameRun (program.eval (interpreter patience room) withMain ⟨{ maxDepth }, console⟩)
            (program'.eval (interpreter patience room) withMain ⟨{ maxDepth }, console⟩) := by
  have accepted : (Program.parse closePacked "close").toBool = true := by decide +kernel
  have alike : (tokenize closePacked "close").toOption.map essence =
      (tokenize wideSpread "wide").toOption.map essence := by decide +kernel
  cases read : tokenize closePacked "close" with
  | error failure => simp [Program.parse, read, bind, Except.bind, Except.toBool] at accepted
  | ok tokens =>
    cases read' : tokenize wideSpread "wide" with
    | error failure => simp [read, read', Except.toOption] at alike
    | ok tokens' =>
      rw [read, read'] at alike
      have same : essence tokens = essence tokens' := Option.some.inj alike
      refine ⟨tokens, tokens', rfl, rfl, same, ?_⟩
      rcases layout_changes_nothing read read' same with both | ⟨failure, _, rejected, _⟩
      · exact both
      · rw [rejected] at accepted
        cases accepted

end BasilLang.Layout
