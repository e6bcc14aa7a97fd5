import BasilLang.Proofs.Ending
import BasilLang.Proofs.Labelling
import BasilLang.Proofs.Returning

/-! A program that comes from a source never fails because of its own tree.
Evaluated with nothing known but labels and children, its tree is never found
to be in the wrong form, everything that a frame holds stands on some line of a
source, and an operation without a result needs an operator that can be
undefined. Nodes come from the program, from frames and from libraries, so this
is a regime: it holds of what a source is parsed to and of the libraries, and
evaluation keeps to it. -/
namespace BasilLang

open BasilLang.Placement

/-- Whether evaluation halted for a reason that lies in the tree and not in the
program: no rule for a label, children or tokens that a rule did not ask for, or
nowhere to store a value. -/
def Halt.isInner : Halt → Bool
  | .stop (.failed ⟨.eval (.notEvaluable _), _⟩) => true
  | .stop _ => false
  | .unsupported .. | .malformed _ | .unplaced => true

namespace Integrity

/-- What evaluation relies on in a node. -/
structure Genuine (risky : Prop) (s : Stmt) : Prop where
  /-- It stands on some line of a source. -/
  line : 1 ≤ s.loc.pos.line
  /-- The name in it is spelled by a text. -/
  name : ∀ name, s.name? = some name → Path.ofText name.path.text = name.path
  /-- Its operator is always defined, unless a risk is taken. -/
  defined : s.isPartial = true → risky

section Parsed
variable {tokens own : List Token} {s : Stmt}

/-- The kinds of token that spell an operator that can be undefined. -/
def isRisky (kind : TokenKind) : Bool :=
  kind = .percent || kind = .kwNot

private theorem risky_of_spelled (spelled : s.Spelled own) (partly : s.isPartial = true) :
    ∃ token ∈ own, isRisky token.kind = true := by
  unfold Stmt.isPartial at partly
  split at partly
  · obtain ⟨token, rest, rfl, found, -⟩ := spelled
    obtain ⟨same, -⟩ := Retelling.operator_kind.1 .not found
    exact ⟨token, List.mem_cons_self, by rw [← same]; rfl⟩
  · obtain ⟨before, token, after, rfl, found, -⟩ := spelled
    obtain ⟨same, -⟩ := Retelling.operator_kind.2 .modulo found
    exact ⟨token, by simp, by rw [← same]; rfl⟩
  · cases partly

private theorem genuine_of_stretch {file : String} {text : List Char}
    (laid : Laid file ⟨false, .first, text⟩ tokens)
    (stretch : Standing.HasStretch tokens (.ofStmt s)) :
    Genuine (∃ token ∈ tokens, isRisky token.kind = true) s := by
  have lines : ∀ token ∈ tokens, 1 ≤ token.loc.pos.line := by
    intro token member
    have later := laid_not_before laid token member
    simp only [Before, Pos.first] at later
    omega
  rcases Standing.spelled_or_supplied stretch with
    ⟨own, after, holds, spelled⟩ | ⟨token, member, rfl⟩
  · have within := Standing.holds_sublist holds
    constructor
    · obtain ⟨first, rest, rfl, place⟩ := Standing.stmt_begins_at s own spelled
      rw [← place]
      exact lines first (within.mem List.mem_cons_self)
    · intro name here
      obtain ⟨token, -, -, rfl⟩ := Standing.name_of_spelled spelled here
      exact congrArg Path.ofText (Lexing.text_of_text token.text)
    · intro partly
      obtain ⟨token, member, risky⟩ := risky_of_spelled spelled partly
      exact ⟨token, within.mem member, risky⟩
  · exact ⟨lines token member, nofun, nofun⟩

/-- Whether no token of a text spells an operator that can be undefined. -/
def avoidsRisk (file : String) (text : List Char) : Bool :=
  match Lexer.place file .first (Lexer.pieces text) with
  | .ok tokens => tokens.all fun token => !isRisky token.kind
  | .error _ => false

/-- All that a source is parsed to is genuine. -/
theorem genuine_of_parse {source file : String} {program : Program}
    (parsed : Program.parse source file = .ok program ∨
      ∃ room, Program.parseWithin room source file = .ok program) :
    (Part.program program).Every (Genuine (avoidsRisk file source.toList = false)) := by
  obtain ⟨tokens, read, laid, spelled, -⟩ := Standing.spelled_of_parse parsed
  refine Standing.every_of_stretch (Standing.program_has_stretch spelled) fun s below => ?_
  obtain ⟨line, name, defined⟩ := genuine_of_stretch laid below
  refine ⟨line, name, fun partly => ?_⟩
  obtain ⟨token, member, risky⟩ := defined partly
  have placed : Lexer.place file .first (Lexer.pieces source.toList) = .ok tokens := read
  rw [avoidsRisk, placed, List.all_eq_false]
  exact ⟨token, member, by simp [risky]⟩

private theorem std_avoidsRisk :
    avoidsRisk (Library.file "std") Library.std.toList = true := by
  unfold Library.std
  apply Lexing.holds_of_literal rfl
  decide +kernel

private theorem math_avoidsRisk :
    avoidsRisk (Library.file "math") Library.math.toList = true := by
  unfold Library.math
  apply Lexing.holds_of_literal rfl
  decide +kernel

/-- A library is genuine, and takes no risk. -/
theorem library_genuine {name source : String} {room : Nat} {program : Program}
    (known : Library.source? name = some source)
    (parsed : Program.parseWithin room source (Library.file name) = .ok program) (risky : Prop) :
    (Part.program program).Every (Genuine risky) := by
  have safe := Library.holds_of_known std_avoidsRisk math_avoidsRisk known
  refine (genuine_of_parse (.inr ⟨room, parsed⟩)).imp fun s holds =>
    ⟨holds.line, holds.name, fun partly => ?_⟩
  rw [holds.defined partly] at safe
  cases safe

/-- What is wrong with a library that cannot be read is its syntax. -/
theorem library_rejected {name source : String} {room : Nat} {failure : Failure}
    (known : Library.source? name = some source)
    (rejected : Program.parseWithin room source (Library.file name) = .error failure) :
    ∃ fault, failure.fault = .parse fault := by
  obtain ⟨program, parsed, -⟩ := Library.known_read known
  obtain ⟨tokens, read, laid, -⟩ := Standing.spelled_of_parse (.inl parsed)
  rw [Program.parseWithin, read] at rejected
  obtain ⟨fault, reported, -⟩ := Derivation.rejected_for_syntax (laid_closed laid) rejected
  exact ⟨fault, reported⟩

end Parsed

/-- How evaluation can end: with no complaint about a node that it cannot
evaluate, and without a result only at a risk. Whether it can be broken off is
left open. -/
def Expected (risky broken : Prop) : Stop → Prop
  | .failed failure => ∀ shown, failure.fault ≠ .eval (.notEvaluable shown)
  | .undefined _ => risky
  | .tooMuchRoom => broken
  | .returned _ | .outOfRoom | .outOfPatience => True

/-- Everything in the program, in the frames and in the libraries is
genuine. -/
def genuine (risky broken : Prop) : Regime where
  node := Part.Every (Genuine risky)
  loops _ := True
  calls _ _ := True
  stops := Expected risky broken
  parting := False
  inside := Part.Every.child
  resolved _ node := Part.every_literal ⟨node.here.line, nofun, nofun⟩
  libraries _ known parsed := library_genuine known parsed risky
  calls_sameKeys _ called := called
  returns _ := trivial
  outOfRoom := trivial
  outOfPatience := trivial
  fails fault ordinary shown same := by
    cases same
    cases ordinary
  locates expected _ := expected
  unreadable known rejected shown same := by
    obtain ⟨fault, reported⟩ := library_rejected known rejected
    rw [reported] at same
    cases same
  undefined _ node partly := node.here.defined partly

section Runs
variable {run : Run} {risky broken : Prop} {s : Stmt} {frame : Frame}

private theorem genuine_allows (s : Stmt) (frame : Frame) : (genuine risky broken).Allows frame s :=
  ⟨fun _ _ => trivial, fun _ _ => trivial, fun _ _ => trivial⟩

private theorem interpreter_obedient (patience room : Nat) :
    Obedient (genuine risky broken) fun _ => interpreter patience room :=
  Regime.walks_interpreter (Course.lasts_under _) (Course.enters_under _) genuine_allows patience
    room

private theorem start_under (run : Run) : run.start.Under (genuine risky broken) :=
  Frame.under_of_fresh run.fresh

private theorem program_conforms {inside : Bool → Meaning}
    (obedient : Obedient (genuine risky broken) inside)
    (node : (Part.program run.program).Every (Genuine risky)) :
    run.program.eval (inside true) run.withMain ⟨run.start, run.console⟩ =
        run.program.eval (inside false) run.withMain ⟨run.start, run.console⟩ ∧
      Course.Conforms (genuine risky broken) (genuine risky broken).stops .work run.start
        (fun _ _ => True) (run.program.eval (inside true) run.withMain ⟨run.start, run.console⟩).1
        (run.program.eval (inside true) run.withMain ⟨run.start, run.console⟩).2.frame := by
  have keeps := Regime.keeps_program obedient (start_under run) node nofun
    fun asked : run.withMain = true => ⟨fun _ _ => trivial, nofun⟩
  exact Regime.conforms_of_keeps keeps (fun _ _ _ same => ⟨same, trivial⟩) run.console False.elim

private theorem genuine_of_evaluates (node : (Part.program run.program).Every (Genuine risky))
    (evaluates : run.Evaluates s frame) :
    (Part.ofStmt s).Every (Genuine risky) ∧ frame.Under (genuine risky True) := by
  apply @Run.holds_of_reports (fun s frame =>
    (Part.ofStmt s).Every (Genuine risky) ∧ frame.Under (genuine risky True)) run s frame evaluates
  intro test report other same
  have suits : Diversion.Suits (genuine risky True) (Frame.Under (genuine risky True))
      (.breakOff test report) (.breakOff test other) :=
    .breakOff trivial (fun s frame _ => genuine_allows s frame)
      fun s frame node under => same s frame ⟨node, under⟩
  exact (program_conforms (suits.walks (Course.lasts_under _) (Course.enters_under _) run.patience
    run.room) node).1

private theorem under_of_interpret (node : (Part.ofStmt s).Every (Genuine risky))
    (under : frame.Under (genuine risky broken)) (patience room units : Nat) (console : Console) :
    (interpret patience room units s ⟨frame, console⟩).2.frame.Under (genuine risky broken) := by
  have keeps := (@interpreter_obedient risky broken patience room).near.node units under node
    fun _ => .refl s
  have ends := (Regime.conforms_of_keeps keeps (fun _ _ _ same => ⟨same, trivial⟩) console
    False.elim).2
  exact ends.evolves.under under

private theorem outcome_conforms (node : (Part.program run.program).Every (Genuine risky)) :
    Course.Conforms (genuine risky False) (genuine risky False).stops .work run.start
      (fun _ _ => True) run.outcome.1 run.outcome.2.frame :=
  (program_conforms (interpreter_obedient run.patience run.room) node).2

private theorem room_reported {α : Type} (act : Eval α) (loc : Loc) (m : Machine) :
    (act.reportingRoom loc m).1 ≠ .error .outOfRoom := by
  unfold Eval.reportingRoom
  split
  · nofun
  · next unreported => exact fun lacking => unreported _ (Prod.ext lacking rfl)

private theorem outcome_caught (run : Run) :
    (∀ value, run.outcome.1 ≠ .error (.returned value)) ∧ run.outcome.1 ≠ .error .outOfRoom := by
  constructor
  · exact fun value => Returning.never_eval run.patience run.room run.program run.withMain _ value
  · exact room_reported _ run.program.loc _

private theorem not_inner {reason : Stop} (expected : Expected risky broken reason) :
    (Halt.stop reason).isInner = false := by
  unfold Halt.isInner
  split
  · next shown loc same =>
    cases same
    exact absurd rfl (expected shown)
  · rfl
  · next same => cases same
  · next same => cases same
  · next same => cases same

private theorem genuine_lettered : Labelling.Lettered (genuine risky broken) :=
  ⟨fun node => Part.Every.imp node fun _ holds => holds.name, fun _ _ => trivial,
    fun _ => trivial, fun _ => trivial⟩

private theorem tree_outcome (node : (Part.program run.program).Every (Genuine risky))
    (fallback : Option Loc) :
    Dispatch.run (treeInterpreter fallback run.patience run.room)
      (Part.program run.program).tree run.withMain ⟨run.start.trees, run.console⟩ =
      Labelling.told id run.outcome := by
  have same := Labelling.matches_interpreter fallback (@genuine_lettered risky False)
    (fun room => interpreter_obedient run.patience room) run.room
  exact same.program (start_under run) node run.withMain run.console

/-- Everything that a frame holds stands in some source. -/
def Placed (frame : Frame) : Prop :=
  frame.Binds fun _ bound => bound.part.Every fun s => s.loc ≠ .runtime

private theorem placed_of_under (under : frame.Under (genuine risky broken)) : Placed frame := by
  intro path bound found
  refine Part.Every.imp (under path bound found) fun s holds same => ?_
  have line : 1 ≤ s.loc.pos.line := holds.line
  rw [same] at line
  cases line

end Runs

/-- A program that comes from a source never fails because of its own tree.
Evaluated as a plain tree, by labels, it is run as the program is, whatever is
done about values that stand nowhere; so it never halts for a reason that lies
in the tree. Nothing is ever stored that stands in no source. And without an
operator that can be undefined, the run has a result or fails with a complaint,
if its loops come to an end. -/
theorem parsed_programs_have_no_inner_fault {source file : String} {run : Run}
    (parsed : Program.parse source file = .ok run.program ∨
      ∃ room, Program.parseWithin room source file = .ok run.program) :
    (∀ fallback,
      let ended := Dispatch.run (treeInterpreter fallback run.patience run.room)
        (Part.program run.program).tree run.withMain ⟨run.start.trees, run.console⟩
      ended = Labelling.told id run.outcome ∧
        (∀ halt, ended.1 = .error halt → halt.isInner = false) ∧
        ((Part.program run.program).Every (fun s => s.isPartial = false) →
          (∃ result, ended.1 = .ok result) ∨
          (∃ failure, ended.1 = .error (.stop (.failed failure))) ∨
          ended.1 = .error (.stop .outOfPatience))) ∧
    (∀ s frame, run.Evaluates s frame → Placed frame ∧
      ∀ patience room units console,
        Placed (interpret patience room units s ⟨frame, console⟩).2.frame) ∧
    Placed run.outcome.2.frame := by
  -- The risk is that of the operators in the program itself.
  let risky : Prop := ¬ (Part.program run.program).Every fun s => s.isPartial = false
  have node : (Part.program run.program).Every (Genuine risky) := by
    intro indexes s reached
    have holds := genuine_of_parse parsed indexes s reached
    refine ⟨holds.line, holds.name, fun partly total => ?_⟩
    rw [total indexes s reached] at partly
    cases partly
  have ends := outcome_conforms node
  refine ⟨fun fallback => ?_, fun s frame evaluates => ?_, ?_⟩
  · have followed := tree_outcome node fallback
    dsimp only
    rw [followed]
    refine ⟨rfl, fun halt halted => ?_, fun total => ?_⟩
    · cases ended : run.outcome.1 with
      | ok result =>
        rw [Labelling.told_ok ended] at halted
        cases halted
      | error reason =>
        rw [Labelling.told_error ended] at halted
        cases halted
        exact not_inner (ends.stops reason ended)
    · obtain ⟨noReturn, enoughRoom⟩ := outcome_caught run
      cases ended : run.outcome.1 with
      | ok result => exact .inl ⟨_, Labelling.told_ok ended⟩
      | error reason =>
        have expected : Expected risky False reason := ends.stops reason ended
        rw [Labelling.told_error ended]
        cases reason with
        | returned value => exact absurd ended (noReturn value)
        | failed failure => exact .inr (.inl ⟨failure, rfl⟩)
        | undefined => exact absurd total expected
        | outOfRoom => exact absurd ended enoughRoom
        | tooMuchRoom => exact expected.elim
        | outOfPatience => exact .inr (.inr rfl)
  · obtain ⟨here, under⟩ := genuine_of_evaluates node evaluates
    refine ⟨placed_of_under under, ?_⟩
    exact fun patience room units console =>
      placed_of_under (under_of_interpret here under patience room units console)
  · exact placed_of_under (ends.evolves.under (start_under run))

/-- A source with nodes of many forms: a library, signs, a namespace, procs
with and without names, a bare return and a loop. -/
def variety : String :=
  "import math; const n = -2 namespace a let k = math.pow(n, 3) end
  proc f(x, g) then if x is a.k then return end g(x) end
  for i = 0 to 3 then f(i, proc(y) then a.k = y / n end) end return a.k"

theorem variety_has_no_inner_fault :
    ∃ program, Program.parse variety "f" = .ok program ∧
      (Part.program program).Every (fun s => s.isPartial = false) ∧
      ∀ patience room, ∃ run : Run, run.program = program ∧ run.patience = patience ∧
        run.room = room ∧ Placed run.outcome.2.frame ∧
        let ended := Dispatch.run (treeInterpreter none patience room) (Part.program program).tree
          false ⟨{}, {}⟩
        ended = Labelling.told id run.outcome ∧
          ((∃ result, ended.1 = .ok result) ∨
            (∃ failure, ended.1 = .error (.stop (.failed failure))) ∨
            ended.1 = .error (.stop .outOfPatience)) := by
  have accepted : (Program.parse variety "f").toBool = true := by
    unfold variety
    apply @Lexing.holds_of_literal fun text =>
      (Lexer.place "f" .first (Lexer.pieces text) >>= Program.ofTokens).toBool
    · rfl
    · decide +kernel
  have safe : avoidsRisk "f" variety.toList = true := by
    unfold variety
    apply Lexing.holds_of_literal rfl
    decide +kernel
  cases parsed : Program.parse variety "f" with
  | error failure =>
    rw [parsed] at accepted
    cases accepted
  | ok program =>
    have total : (Part.program program).Every fun s => s.isPartial = false := by
      refine (genuine_of_parse (.inl parsed)).imp fun s holds => ?_
      by_cases partly : s.isPartial = true
      · rw [holds.defined partly] at safe
        cases safe
      · exact Bool.not_eq_true _ ▸ partly
    refine ⟨program, rfl, total, fun patience room => ?_⟩
    let run : Run := ⟨program, false, patience, room, {}, {}, rfl⟩
    obtain ⟨trees, -, placed⟩ := @parsed_programs_have_no_inner_fault _ _ run (.inl parsed)
    obtain ⟨same, -, ends⟩ := trees none
    exact ⟨run, rfl, rfl, rfl, placed, same, ends total⟩

/-- Trees that no source is parsed to: a list, a token, nothing inside
parentheses, a token that is no operator, too few operands, a token that is no
literal, and a value to store that stands nowhere. -/
example :
    let one := Tree.ofValue ⟨.number, "1"⟩ .runtime
    let trees : List Tree := [.node "body" [] none, .token "NUMBER" "1", .node "group" [] none,
      .node "unary" [.token "PLUS" "+", one] none, .node "binary" [one, one] none,
      .node "literal" [.token "IDENT" "x"] none,
      .node "let" [.token "IDENT" "x", .node "literal" one.children none] none]
    trees.map (fun tree =>
      ((treeInterpreter none 0 100).eval tree ⟨{}, {}⟩).1.mapError Halt.isInner) =
      trees.map fun _ => .error true := by
  decide +kernel

end Integrity

end BasilLang
