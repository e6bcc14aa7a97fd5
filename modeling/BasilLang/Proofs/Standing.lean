import BasilLang.Proofs.Retelling

/-! Where the nodes of a tree stand in its source. Going down a tree from the
whole program, every part has its own stretch of the tokens: the stretches of
its children follow each other inside it, and it can be read back from the
part. Statements and expressions begin where their stretches do. The one node
without tokens is the null of a bare return. Operands bind as tightly as the
operators around them ask for, and a name is the callee of a call exactly if a
parenthesis stands directly behind it in the text. -/
namespace BasilLang

open BasilLang.Parser BasilLang.Placement BasilLang.Derivation Retelling

namespace Part

/-- Every statement and every expression in a part of a tree has the
property. -/
def Every (P : Stmt → Prop) (part : Part) : Prop :=
  ∀ indexes s, part.descend indexes = some (.ofStmt s) → P s

section Every
variable {P Q : Stmt → Prop} {part below : Part} {s : Stmt}

private theorem ofStmt_injective {s s' : Stmt} (same : ofStmt s = ofStmt s') : s = s' := by
  unfold ofStmt at same
  split at same <;> split at same <;> simp_all

theorem Every.here (every : Every P (.ofStmt s)) : P s :=
  every [] s rfl

theorem Every.hereExpr {e : Expr} (every : Every P (.expr e)) : P (.expr e) :=
  every [] (.expr e) rfl

/-- What holds of every node of a part holds of those of its children. -/
theorem Every.child (every : Every P part) (member : below ∈ part.children) : Every P below := by
  intro indexes s reached
  obtain ⟨index, found⟩ := List.mem_iff_getElem?.mp member
  apply every (index :: indexes) s
  rw [descend, found]
  exact reached

theorem Every.imp (every : Every P part) (weaker : ∀ s, P s → Q s) : Every Q part :=
  fun indexes s reached => weaker s (every indexes s reached)

/-- Below a literal there is only a token. -/
theorem every_literal {value : Value} {loc : Loc} (holds : P (.expr (.literal value loc))) :
    Every P (.expr (.literal value loc)) := by
  intro indexes s reached
  match indexes with
  | [] =>
    have same : s = .expr (.literal value loc) := ofStmt_injective (Option.some.inj reached).symm
    rwa [same]
  | [0] => cases s <;> cases reached
  | 0 :: _ :: _ => cases reached
  | (_ + 1) :: _ => cases reached

end Every

end Part

/-- The name that stands in a node. -/
def Stmt.name? : Stmt → Option Name
  | .expr (.identifier name) | .expr (.call name _ _) | .inNamespace name _ _ _
  | .letDecl name _ _ | .constDecl name _ _ | .set name _ | .forRange name _ _ _ _ _
  | .procDecl name _ => some name
  | _ => none

namespace Standing

/-- The tokens hold the stretch `own`, which `after` follows. -/
def Holds (tokens own after : List Token) : Prop :=
  ∃ before, tokens = before ++ (own ++ after)

/-- No parenthesis touches a name at the end of the stretch. -/
def Untouched (own after : List Token) : Prop :=
  ∀ next ∈ after.head?, ∀ last ∈ own.getLast?, last.kind = .ident → next.kind = .leftParen →
    adjacent last next = false

/-- The expression is the null of a bare return, at the place of the return that
stands directly in front. -/
def Supplied (before after : List Token) (e : Expr) : Prop :=
  ∃ front opener next rest, before = front ++ [opener] ∧ after = next :: rest ∧
    opener.kind = .kwReturn ∧
    (next.kind = .kwEnd ∨ next.kind = .semicolon ∨ next.kind = .eof) ∧
    e = .literal .null opener.loc

/-- A token that a tree keeps is one of the source. Two kinds of them are not
written there, and have the place of the word in front: the name of a proc
without one, and the null of a bare return. -/
def Kept (kind : String) (mark : Mark) (before own : List Token) : Prop :=
  (∃ token, own = [token] ∧ markOf token = mark) ∨
    own = [] ∧ ∃ front opener, before = front ++ [opener] ∧
      (kind = "ANON" ∧ opener.kind = .kwProc ∧ mark = ⟨"", opener.loc⟩ ∨
        kind = "NULL" ∧ opener.kind = .kwReturn ∧ mark = ⟨"null", opener.loc⟩)

/-- A part of a tree is spelled by the stretch `own` of the tokens, where it
stands between what is before and what is after. -/
def Spells : Part → (before own after : List Token) → Prop
  | .program program, _, own, _ => StmtsSpelled .eof program.body own
  | .stmt s, _, own, after => s.Spelled own ∧ after ≠ [] ∧ s.EndsBefore own after
  | .expr e, before, own, after =>
    (e.Spelled own ∧ Untouched own after) ∨ (own = [] ∧ Supplied before after e)
  | .argList args loc, _, own, _ =>
    ∃ opening inside closing, own = opening :: inside ++ [closing] ∧ opening.kind = .leftParen ∧
      closing.kind = .rightParen ∧ opening.loc = loc ∧ ExprsSpelled args inside
  | .paramList params loc, _, own, _ =>
    ∃ inside closing, own = inside ++ [closing] ∧ closing.kind = .rightParen ∧ BeginsAt own loc ∧
      Listed Mark.Spelled params inside
  | .block body loc, _, own, _ => BeginsAt own loc ∧ StmtsSpelled .kwEnd body own
  | .token kind mark, before, own, _ => Kept kind mark before own

/-- The parts have stretches that follow each other inside `own`, each with the
property where it stands. Between them and around them there may be gaps. -/
inductive InOrder (P : Part → (before own after : List Token) → Prop) :
    List Part → (before own after : List Token) → Prop where
  | nil {before own after : List Token} : InOrder P [] before own after
  | cons {part : Part} {parts : List Part} {before own after : List Token}
      (gap mine rest : List Token) (split : own = gap ++ (mine ++ rest))
      (first : P part (before ++ gap) mine (rest ++ after))
      (others : InOrder P parts (before ++ gap ++ mine) rest after) :
      InOrder P (part :: parts) before own after

section Order
variable {P Q : Part → List Token → List Token → List Token → Prop} {part : Part}
  {parts : List Part} {before own after : List Token}

private theorem InOrder.imp (inOrder : InOrder P parts before own after)
    (each : ∀ part ∈ parts, ∀ front mine back, front ++ (mine ++ back) = before ++ (own ++ after) →
      P part front mine back → Q part front mine back) : InOrder Q parts before own after := by
  induction inOrder with
  | nil => exact .nil
  | @cons part parts before own after gap mine rest split first _ ih =>
    obtain ⟨here, later⟩ := List.forall_mem_cons.mp each
    refine .cons gap mine rest split (here _ _ _ (by simp [split]) first) (ih ?_)
    intro other member front own' back same
    exact later other member front own' back (by rw [same]; simp [split])

private theorem InOrder.mem (inOrder : InOrder P parts before own after) (member : part ∈ parts) :
    ∃ front mine back, front ++ (mine ++ back) = before ++ (own ++ after) ∧
      P part front mine back := by
  induction inOrder with
  | nil => cases member
  | @cons _ _ before own after gap mine rest split first _ ih =>
    rcases List.mem_cons.mp member with rfl | later
    · exact ⟨_, _, _, by simp [split], first⟩
    · obtain ⟨front, own', back, same, holds⟩ := ih later
      exact ⟨front, own', back, by rw [same]; simp [split], holds⟩

/-- One last part, which ends the stretch. -/
theorem InOrder.last (gap mine : List Token) (split : own = gap ++ mine)
    (holds : P part (before ++ gap) mine after) : InOrder P [part] before own after :=
  .cons gap mine [] (by simp [split]) holds .nil

end Order

section Stretches
variable {own back after : List Token} {next : Token}

private theorem untouched_of_next (noParen : next.kind ≠ .leftParen) :
    Untouched own (next :: after) := by
  intro token member _ _ _ opens
  obtain rfl : next = token := by simpa using member
  exact absurd opens noParen

/-- What ends a stretch ends the last part of it. -/
theorem Untouched.last (front : List Token) (untouched : Untouched (front ++ back) after)
    (nonempty : back ≠ []) : Untouched back after := by
  intro next member last isLast
  refine untouched next member last ?_
  obtain ⟨first, others, rfl⟩ := List.exists_cons_of_ne_nil nonempty
  rw [List.getLast?_append, isLast]
  rfl

private theorem untouched_of_leaves {level : Nat} (leaves : Leaves level own after) :
    Untouched own after :=
  fun next member => (leaves next member).2

/-- The tokens of a part stand among all tokens, in their order. -/
theorem holds_sublist {tokens : List Token} (holds : Holds tokens own after) :
    own.Sublist tokens := by
  obtain ⟨before, rfl⟩ := holds
  exact (List.sublist_append_left own after).trans (List.sublist_append_right before _)

private theorem EndsHeader.noParen (ends : next.EndsHeader) : next.kind ≠ .leftParen := by
  rcases ends with kind | kind <;> simp [kind]

private theorem name_text (token : Token) : (nameOf token).path.text = token.text :=
  Lexing.text_of_text token.text

private theorem literal_text {token : Token} {value : Value} (found : token.literal? = some value) :
    value.text = token.text := by
  unfold Token.literal? at found
  split at found <;> cases found <;> rfl

private theorem proc_loc {opener : Token} {proc : Proc} (spelled : proc.Spelled opener own) :
    proc.loc = opener.loc := by
  obtain ⟨loc, params, paramsLoc, body, bodyLoc⟩ := proc
  obtain ⟨-, -, -, -, -, -, same, -⟩ := spelled
  exact same.symm

private theorem name_kept (token : Token) (before after : List Token) :
    Spells (.ofName (nameOf token)) before [token] after := by
  refine .inl ⟨token, rfl, ?_⟩
  rw [name_text]
  rfl

end Stretches

section Children
variable {before own after : List Token}

private theorem ofStmt_spells {s : Stmt} (spelled : s.Spelled own) (followed : after ≠ [])
    (ends : s.EndsBefore own after) : Spells (.ofStmt s) before own after := by
  cases s with
  | expr e => exact .inl ⟨spelled, untouched_of_leaves (ends rfl).1⟩
  | _ => exact ⟨spelled, followed, ends⟩

private theorem stmts_in_order {stop : TokenKind} (ss : List Stmt)
    (spelled : StmtsSpelled stop ss own) : InOrder Spells (ss.map .ofStmt) before own after := by
  induction ss generalizing before own with
  | nil => exact .nil
  | cons s ss ih =>
    obtain ⟨semicolons, first, rest, rfl, -, single, ends, others⟩ := spelled
    obtain ⟨next, more, rfl⟩ := List.exists_cons_of_ne_nil (Parsing.stmts_nonempty ss others)
    exact .cons semicolons first (next :: more) rfl (ofStmt_spells single nofun ends) (ih others)

private theorem args_in_order {closing : Token} (closes : closing.kind = .rightParen)
    (args : List Expr) (gap : List Token) (spelled : ExprsSpelled args own) :
    InOrder Spells (args.map .expr) before (gap ++ own ++ [closing]) after := by
  induction args generalizing before own gap with
  | nil => exact .nil
  | cons e es ih =>
    rcases spelled with ⟨rfl, single⟩ | ⟨first, comma, rest, rfl, isComma, single, others⟩
    · refine .cons gap own [closing] (List.append_assoc ..) (.inl ⟨single, ?_⟩) .nil
      exact untouched_of_next (by simp [closes])
    · refine .cons gap first ([comma] ++ rest ++ [closing]) (by simp) (.inl ⟨single, ?_⟩) ?_
      · exact untouched_of_next (by simp [isComma])
      · exact ih [comma] others

private theorem params_in_order {closing : Token} (params : List Mark) (gap : List Token)
    (listed : Listed Mark.Spelled params own) :
    InOrder Spells (params.map (.token "IDENT")) before (gap ++ own ++ [closing]) after := by
  induction params generalizing before own gap with
  | nil => exact .nil
  | cons mark marks ih =>
    rcases listed with ⟨rfl, token, rfl, -, -, kept⟩ |
      ⟨first, comma, rest, rfl, -, ⟨token, rfl, -, -, kept⟩, others⟩
    · exact .cons gap [token] [closing] (by simp) (.inl ⟨token, rfl, kept⟩) .nil
    · refine .cons gap [token] ([comma] ++ rest ++ [closing]) (by simp) (.inl ⟨token, rfl, kept⟩) ?_
      exact ih [comma] others

private theorem proc_in_order {opener : Token} {proc : Proc} (spelled : proc.Spelled opener own) :
    InOrder Spells (Part.procChildren proc) before own after := by
  obtain ⟨loc, params, paramsLoc, body, bodyLoc⟩ := proc
  obtain ⟨opening, inside, closing, header, block, rfl, -, -, closes, -, place, listed, begins,
    spelled⟩ := spelled
  refine .cons [opening] (inside ++ [closing]) (header :: block) (by simp) ?_ ?_
  · exact ⟨inside, closing, rfl, closes, place, listed⟩
  · exact .last [header] block rfl ⟨begins, spelled⟩

private theorem expr_in_order {e : Expr} (spelled : e.Spelled own)
    (untouched : Untouched own after) :
    InOrder Spells (Part.exprChildren e) before own after := by
  cases e with
  | literal value loc =>
    obtain ⟨token, rfl, found, rfl⟩ := spelled
    refine .last [] [token] rfl (.inl ⟨token, rfl, ?_⟩)
    rw [literal_text found]
    rfl
  | identifier name =>
    obtain ⟨token, rfl, -, rfl⟩ := spelled
    exact .last [] [token] rfl (name_kept token _ _)
  | group inner loc =>
    obtain ⟨opening, inside, closing, rfl, -, closes, -, spelled⟩ := spelled
    refine .cons [opening] inside [closing] (by simp) (.inl ⟨spelled, ?_⟩) .nil
    exact untouched_of_next (by simp [closes])
  | unary op mark operand =>
    obtain ⟨token, rest, rfl, -, kept, -, spelled⟩ := spelled
    refine .cons [] [token] rest rfl (.inl ⟨token, rfl, kept⟩) (.last [] rest rfl (.inl ⟨spelled, ?_⟩))
    exact Untouched.last [token] untouched (spelled_nonempty spelled)
  | binary left op mark right =>
    obtain ⟨front, token, back, rfl, found, kept, -, -, leftSpelled, rightSpelled⟩ := spelled
    have noParen : token.kind ≠ .leftParen := by
      intro opens
      simp [opens, BinaryOp.ofKind?] at found
    refine .cons [] front (token :: back) rfl (.inl ⟨leftSpelled, untouched_of_next noParen⟩) ?_
    refine .cons [] [token] back rfl (.inl ⟨token, rfl, kept⟩) ?_
    refine .last [] back rfl (.inl ⟨rightSpelled, ?_⟩)
    rw [List.append_cons] at untouched
    exact Untouched.last (front ++ [token]) untouched (spelled_nonempty rightSpelled)
  | call callee args argsLoc =>
    obtain ⟨name, opening, inside, closing, rfl, -, rfl, opens, -, place, closes, spelled⟩ := spelled
    refine .cons [] [name] (opening :: inside ++ [closing]) rfl (name_kept name _ _) ?_
    exact .last [] _ rfl ⟨opening, inside, closing, rfl, opens, closes, place, spelled⟩
  | proc proc =>
    obtain ⟨opener, rest, rfl, isProc, spelled⟩ := spelled
    refine .cons [opener] [] rest rfl (.inr ⟨rfl, before, opener, rfl, .inl ⟨rfl, isProc, ?_⟩⟩) ?_
    · rw [proc_loc spelled]
    · exact proc_in_order spelled

private theorem value_spells {value : Expr} {rest : List Token} (front : List Token)
    (spelled : value.Spelled rest) (leaves : Leaves 0 (front ++ rest) after) :
    Spells (.expr value) before rest after :=
  .inl ⟨spelled, Untouched.last front (untouched_of_leaves leaves) (spelled_nonempty spelled)⟩

private theorem stmt_in_order {s : Stmt} (spelled : s.Spelled own) (followed : after ≠ [])
    (ends : s.EndsBefore own after) : InOrder Spells (Part.stmtChildren s) before own after := by
  cases s with
  | expr e => exact expr_in_order spelled (untouched_of_leaves (ends rfl).1)
  | importLibrary target loc | importRelative target loc =>
    obtain ⟨opener, token, rfl, -, -, -, kept⟩ := spelled
    exact .last [opener] [token] rfl (.inl ⟨token, rfl, kept⟩)
  | inNamespace name body bodyLoc loc =>
    obtain ⟨opener, token, block, rfl, -, -, -, rfl, begins, spelled⟩ := spelled
    refine .cons [opener] [token] block rfl (name_kept token _ _) ?_
    exact .last [] block rfl ⟨begins, spelled⟩
  | letDecl name value loc | constDecl name value loc =>
    obtain ⟨opener, token, equals, rest, rfl, -, -, -, rfl, -, spelled⟩ := spelled
    refine .cons [opener] [token] (equals :: rest) rfl (name_kept token _ _) ?_
    exact .last [equals] rest rfl (value_spells [opener, token, equals] spelled (ends rfl).1)
  | set name value =>
    obtain ⟨token, equals, rest, rfl, -, rfl, -, spelled⟩ := spelled
    refine .cons [] [token] (equals :: rest) rfl (name_kept token _ _) ?_
    exact .last [equals] rest rfl (value_spells [token, equals] spelled (ends rfl).1)
  | ifThen condition body bodyLoc loc | whileTrue condition body bodyLoc loc =>
    obtain ⟨opener, inside, header, block, rfl, -, -, headed, condition, begins, body⟩ := spelled
    refine .cons [opener] inside (header :: block) (by simp) (.inl ⟨condition, ?_⟩) ?_
    · exact untouched_of_next (EndsHeader.noParen headed)
    · exact .last [header] block rfl ⟨begins, body⟩
  | forRange name start stop body bodyLoc loc =>
    obtain ⟨opener, token, equals, first, middle, last, header, block, rfl, -, -, -, rfl, -,
      startSpelled, isTo, stopSpelled, headed, begins, spelled⟩ := spelled
    refine .cons [opener] [token] (equals :: first ++ middle :: last ++ header :: block) (by simp)
      (name_kept token _ _) ?_
    refine .cons [equals] first (middle :: last ++ header :: block) (by simp)
      (.inl ⟨startSpelled, untouched_of_next (by simp [isTo])⟩) ?_
    refine .cons [middle] last (header :: block) (by simp)
      (.inl ⟨stopSpelled, untouched_of_next (EndsHeader.noParen headed)⟩) ?_
    exact .last [header] block rfl ⟨begins, spelled⟩
  | returning value loc =>
    obtain ⟨opener, rest, rfl, isReturn, rfl, bareOrSpelled⟩ := spelled
    obtain ⟨leaves, follows⟩ := ends rfl
    refine .last [opener] rest rfl ?_
    rcases bareOrSpelled with ⟨rfl, rfl⟩ | spelled
    · obtain ⟨next, more, rfl⟩ := List.exists_cons_of_ne_nil followed
      have kinds := (follows next rfl).2 rfl ⟨opener, List.mem_singleton.mpr rfl, isReturn⟩
      exact .inr ⟨rfl, before, opener, next, more, rfl, rfl, isReturn, kinds, rfl⟩
    · exact value_spells [opener] spelled leaves
  | procDecl name proc =>
    obtain ⟨opener, token, rest, rfl, -, -, rfl, spelled⟩ := spelled
    exact .cons [opener] [token] rest rfl (name_kept token _ _) (proc_in_order spelled)

/-- One step down the tree: the children have their stretches, one after the
other, inside that of the part. -/
theorem children_in_order {part : Part} (spells : Spells part before own after) :
    InOrder Spells part.children before own after := by
  cases part with
  | program program => exact stmts_in_order program.body spells
  | stmt s => exact stmt_in_order spells.1 spells.2.1 spells.2.2
  | expr e =>
    rcases spells with ⟨spelled, untouched⟩ | ⟨rfl, front, opener, next, rest, rfl, rfl, isReturn, -, rfl⟩
    · exact expr_in_order spelled untouched
    · exact .last [] [] rfl (.inr ⟨rfl, front, opener, by simp, .inr ⟨rfl, isReturn, rfl⟩⟩)
  | argList args loc =>
    obtain ⟨opening, inside, closing, rfl, -, closes, -, spelled⟩ := spells
    exact args_in_order closes args [opening] spelled
  | paramList params loc =>
    obtain ⟨inside, closing, rfl, -, -, listed⟩ := spells
    exact params_in_order params [] listed
  | block body loc => exact stmts_in_order body spells.2
  | token kind mark => exact .nil

end Children

section Descendants
variable {tokens : List Token} {part below : Part} {s : Stmt}

/-- A part of a tree has its stretch of the tokens. -/
def HasStretch (tokens : List Token) (part : Part) : Prop :=
  ∃ before own after, before ++ (own ++ after) = tokens ∧ Spells part before own after

/-- A program is spelled by all tokens. -/
theorem program_has_stretch {program : Program} (spelled : StmtsSpelled .eof program.body tokens) :
    HasStretch tokens (.program program) :=
  ⟨[], tokens, [], List.append_nil _, spelled⟩

/-- Every part that can be reached from one with a stretch has a stretch. -/
theorem descendants_have_stretch (stretch : HasStretch tokens part) (indexes : List Nat)
    (reached : part.descend indexes = some below) : HasStretch tokens below := by
  induction indexes generalizing part with
  | nil =>
    obtain rfl := Option.some.inj reached
    exact stretch
  | cons index indexes ih =>
    obtain ⟨child, found, reached⟩ := Option.bind_eq_some_iff.mp reached
    obtain ⟨before, own, after, rfl, spells⟩ := stretch
    exact ih ((children_in_order spells).mem (List.mem_of_getElem? found)) reached

/-- What holds of all that has a stretch of the tokens holds everywhere in a
part that has one. -/
theorem every_of_stretch {P : Stmt → Prop} (stretch : HasStretch tokens part)
    (holds : ∀ s, HasStretch tokens (.ofStmt s) → P s) : part.Every P :=
  fun indexes s reached => holds s (descendants_have_stretch stretch indexes reached)

/-- A node with a stretch is spelled by it, or it is the null of a bare
return. -/
theorem spelled_or_supplied (stretch : HasStretch tokens (.ofStmt s)) :
    (∃ own after, Holds tokens own after ∧ s.Spelled own) ∨
      ∃ token ∈ tokens, s = .expr (.literal .null token.loc) := by
  obtain ⟨before, own, after, rfl, spells⟩ := stretch
  cases s with
  | expr e =>
    rcases spells with ⟨spelled, -⟩ | ⟨-, front, opener, next, rest, rfl, -, -, -, rfl⟩
    · exact .inl ⟨own, after, ⟨before, rfl⟩, spelled⟩
    · exact .inr ⟨opener, by simp, rfl⟩
  | _ => exact .inl ⟨own, after, ⟨before, rfl⟩, spells.1⟩

end Descendants

/-- An expression begins where its first token does. -/
theorem expr_begins_at (e : Expr) (own : List Token) (spelled : e.Spelled own) :
    BeginsAt own e.loc := by
  match e with
  | .literal value loc =>
    obtain ⟨token, rfl, -, place⟩ := spelled
    exact ⟨token, [], rfl, place⟩
  | .identifier name =>
    obtain ⟨token, rfl, -, rfl⟩ := spelled
    exact ⟨token, [], rfl, rfl⟩
  | .group inner loc =>
    obtain ⟨opening, inside, closing, rfl, -, -, place, -⟩ := spelled
    exact ⟨opening, _, rfl, place⟩
  | .unary op mark operand =>
    obtain ⟨token, rest, rfl, -, rfl, -⟩ := spelled
    exact ⟨token, rest, rfl, rfl⟩
  | .binary left op mark right =>
    obtain ⟨before, token, after, rfl, -, -, -, -, leftSpelled, -⟩ := spelled
    obtain ⟨first, more, rfl, place⟩ := expr_begins_at left before leftSpelled
    exact ⟨first, _, rfl, place⟩
  | .call callee args argsLoc =>
    obtain ⟨name, opening, inside, closing, rfl, -, rfl, -⟩ := spelled
    exact ⟨name, _, rfl, rfl⟩
  | .proc (.mk loc params paramsLoc body bodyLoc) =>
    obtain ⟨opener, rest, rfl, -, -, -, -, -, -, -, place, -⟩ := spelled
    exact ⟨opener, rest, rfl, place⟩

/-- A statement begins where its first token does. -/
theorem stmt_begins_at (s : Stmt) (own : List Token) (spelled : s.Spelled own) :
    BeginsAt own s.loc := by
  cases s with
  | expr e => exact expr_begins_at e own spelled
  | importLibrary target loc | importRelative target loc =>
    obtain ⟨opener, token, rfl, -, place, -⟩ := spelled
    exact ⟨opener, _, rfl, place⟩
  | inNamespace name body bodyLoc loc =>
    obtain ⟨opener, token, block, rfl, -, place, -⟩ := spelled
    exact ⟨opener, _, rfl, place⟩
  | letDecl name value loc | constDecl name value loc =>
    obtain ⟨opener, token, equals, rest, rfl, -, place, -⟩ := spelled
    exact ⟨opener, _, rfl, place⟩
  | set name value =>
    obtain ⟨token, equals, rest, rfl, -, rfl, -⟩ := spelled
    exact ⟨token, _, rfl, rfl⟩
  | ifThen condition body bodyLoc loc | whileTrue condition body bodyLoc loc =>
    obtain ⟨opener, inside, header, block, rfl, -, place, -⟩ := spelled
    exact ⟨opener, _, rfl, place⟩
  | forRange name start stop body bodyLoc loc =>
    obtain ⟨opener, token, equals, first, middle, last, header, block, rfl, -, place, -⟩ := spelled
    exact ⟨opener, _, rfl, place⟩
  | returning value loc =>
    obtain ⟨opener, rest, rfl, -, place, -⟩ := spelled
    exact ⟨opener, rest, rfl, place⟩
  | procDecl name proc =>
    obtain ⟨loc, params, paramsLoc, body, bodyLoc⟩ := proc
    obtain ⟨opener, token, rest, rfl, -, -, -, -, -, -, -, -, -, place, -⟩ := spelled
    exact ⟨opener, _, rfl, place⟩

section Names
variable {own : List Token} {s : Stmt}

/-- The name in a node is that of a token. -/
theorem name_of_spelled (spelled : s.Spelled own) {name : Name}
    (here : s.name? = some name) :
    ∃ token ∈ own, token.kind = .ident ∧ nameOf token = name := by
  cases s with
  | expr e =>
    cases e with
    | identifier =>
      cases here
      obtain ⟨token, rfl, isName, named⟩ := spelled
      exact ⟨token, by simp, isName, named⟩
    | call =>
      cases here
      obtain ⟨token, _, _, _, rfl, isName, named, -⟩ := spelled
      exact ⟨token, by simp, isName, named⟩
    | literal | group | unary | binary | proc => cases here
  | inNamespace =>
    cases here
    obtain ⟨_, token, _, rfl, -, -, isName, named, -⟩ := spelled
    exact ⟨token, by simp, isName, named⟩
  | letDecl | constDecl =>
    cases here
    obtain ⟨_, token, _, _, rfl, -, -, isName, named, -⟩ := spelled
    exact ⟨token, by simp, isName, named⟩
  | set =>
    cases here
    obtain ⟨token, _, _, rfl, isName, named, -⟩ := spelled
    exact ⟨token, by simp, isName, named⟩
  | forRange =>
    cases here
    obtain ⟨_, token, _, _, _, _, _, _, rfl, -, -, isName, named, -⟩ := spelled
    exact ⟨token, by simp, isName, named⟩
  | procDecl =>
    cases here
    obtain ⟨_, token, _, rfl, -, isName, named, -⟩ := spelled
    exact ⟨token, by simp, isName, named⟩
  | importLibrary | importRelative | ifThen | whileTrue | returning => cases here

end Names

/-- In the text, a name with a list stands directly in front of the parenthesis
that opens the list. -/
def Touching (source file : String) (name : Name) (listLoc : Loc) : Prop :=
  ∃ before after, source.toList = before ++ (name.path.text.toList ++ '(' :: after) ∧
    name.loc = ⟨file, Pos.first.after before⟩ ∧
    listLoc = ⟨file, Pos.first.after (before ++ name.path.text.toList)⟩

/-- In the text, a name stands alone: the next character opens no list. -/
def Alone (source file : String) (name : Name) : Prop :=
  ∃ before after, source.toList = before ++ (name.path.text.toList ++ after) ∧
    name.loc = ⟨file, Pos.first.after before⟩ ∧ after.head? ≠ some '('

/-- What the source has for an expression, beside its stretch: operands bind as
tightly as their operators ask for, and names are told from calls. -/
def WellRead (source file : String) : Expr → Prop
  | .binary left op _ right => op.level ≤ left.tightness ∧ op.level < right.tightness
  | .unary _ _ operand => unaryLevel ≤ operand.tightness
  | .call callee _ argsLoc => Touching source file callee argsLoc
  | .identifier name => Alone source file name
  | _ => True

/-- What the source has for a part of a tree, where it stands. It can be read
back from its stretch, and begins where the stretch does. -/
def Founded (source file : String) : Part → (before own after : List Token) → Prop
  | .program program, _, own, _ => retold own = program.words
  | .stmt s, _, own, _ => retold own = s.words ∧ BeginsAt own s.loc
  | .expr e, before, own, after =>
    (retold own = e.words ∧ BeginsAt own e.loc ∧ WellRead source file e) ∨
      (own = [] ∧ Supplied before after e)
  | .argList args loc, _, own, _ => BeginsAt own loc ∧
    retold own = .ofKind .leftParen :: commaWords (itemWords args) ++ [.ofKind .rightParen]
  | .paramList params loc, _, own, _ => BeginsAt own loc ∧
    retold own =
      commaWords (params.map fun mark => [⟨.ident, mark.text⟩]) ++ [.ofKind .rightParen]
  | .block body loc, _, own, _ => BeginsAt own loc ∧
    retold own = blockWords body ++ [.ofKind .kwEnd]
  | .token kind mark, before, own, _ => Kept kind mark before own

/-- A tree stands in the source: its root has the stretch `own` of the tokens,
and its children stand inside that stretch, one after the other, as trees of
their own. -/
inductive Stands (source file : String) : Part → (before own after : List Token) → Prop where
  | node {part : Part} {before own after : List Token}
      (founded : Founded source file part before own after)
      (children : InOrder (Stands source file) part.children before own after) :
      Stands source file part before own after

section Founding
variable {source file : String} {tokens before own after : List Token}

/-- What a source is parsed to is spelled by its tokens. -/
theorem spelled_of_parse {program : Program}
    (parsed : Program.parse source file = .ok program ∨
      ∃ room, Program.parseWithin room source file = .ok program) :
    ∃ tokens, tokenize source file = .ok tokens ∧
      Laid file ⟨false, .first, source.toList⟩ tokens ∧ StmtsSpelled .eof program.body tokens ∧
      program.file = file := by
  have accepted : ∃ tokens room, tokenize source file = .ok tokens ∧
      Program.ofTokensWithin room tokens = .ok program := by
    cases read : tokenize source file with
    | error failure => simp [Program.parse, Program.parseWithin, read, bind, Except.bind] at parsed
    | ok tokens =>
      simp only [Program.parse, Program.parseWithin, read, bind, Except.bind] at parsed
      rcases parsed with whole | ⟨room, limited⟩
      · exact ⟨tokens, _, rfl, whole⟩
      · exact ⟨tokens, room, rfl, limited⟩
  obtain ⟨tokens, room, read, accepted⟩ := accepted
  have laid := tokenize_laid read
  obtain ⟨spelled, inFile⟩ := spelled_of_tokens (laid_closed laid) accepted
  refine ⟨tokens, read, laid, spelled, ?_⟩
  obtain ⟨first, rest, rfl⟩ := List.exists_cons_of_ne_nil (closed_ne_nil (laid_closed laid))
  rw [inFile first rfl, laid_file laid first (List.mem_cons_self ..)]

end Founding

end Standing

end BasilLang
