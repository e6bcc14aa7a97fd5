import BasilLang.Proofs.Binding
import BasilLang.Proofs.Ending
import Mathlib.Order.Filter.AtTopBot.Basic

/-! Programs without `while` end. Calls and imports go one level deeper, and a
limit bounds how deep that can be; a counting loop knows its rounds before the
first of them; and reading a name is well-founded, since bindings never lead
back to themselves. So there is an induction on the levels that are left, and
inside each level one on the tree. What ends is told by a course: with enough
room all runs come to one and the same end, whatever their patience. -/
namespace BasilLang.Termination

/-- An end that is not for lack of room or patience. -/
def Final : Stop → Prop
  | .returned _ | .undefined _ => True
  | .failed failure => failure.fault ≠ .eval .nestingTooDeep
  | .outOfRoom | .tooMuchRoom | .outOfPatience => False

private theorem final_calm : Calm Final where
  returned _ := trivial
  fails fault ordinary _ := by
    rintro ⟨⟩
    cases ordinary

/-- Runs without `while`, with any patience and in any room: those with enough
room do the same. -/
def ending : Course (Nat × Nat) where
  sight := .plain
  regime := whileFree
  most := Filter.comap Prod.snd Filter.atTop
  alike consoles := ∀ i j, consoles i = consoles j
  parted _ := False
  alike_write text same i j := by
    dsimp only
    rw [same i j]
  alike_note event noted same i j := by
    dsimp only
    rw [same i j, noted i trivial, noted j trivial]
  parts := False.elim

private theorem eventually_iff {p : Nat × Nat → Prop} :
    (∀ᶠ i in ending.most, p i) ↔ ∃ enough, ∀ room ≥ enough, ∀ patience, p (patience, room) := by
  have same : (∀ᶠ i in ending.most, p i) ↔ ∀ᶠ room in Filter.atTop, ∀ i : Nat × Nat,
      i.2 = room → p i := Filter.eventually_comap
  rw [same, Filter.eventually_atTop]
  refine exists_congr fun enough => forall_congr' fun room => imp_congr_right fun _ =>
    ⟨fun holds patience => holds (patience, room) rfl, ?_⟩
  rintro holds i rfl
  exact holds i.1

/-- Less room is only a matter of having more to begin with. -/
theorem in_less_room {α : Type} {manner : Manner} {start : Frame} {act : Nat × Nat → Eval α}
    (keeps : ending.Keeps Final manner start act Course.Same) (units : Nat) :
    ending.Keeps Final manner start (fun i => act (i.1, i.2 - units)) Course.Same := by
  intro states there
  have onto : Filter.Tendsto (fun i : Nat × Nat => (i.1, i.2 - units)) ending.most ending.most :=
    Filter.tendsto_comap_iff.mpr
      ((Filter.tendsto_sub_atTop_nat units).comp Filter.tendsto_comap)
  -- All members start in one state, so it does not matter whose it is.
  have one : ∀ i j, states i = states j := fun i j =>
    congrArg₂ Machine.mk ((there.frames i).symm.trans (there.frames j)) (there.consoles i j)
  rcases keeps states there with ⟨a, as, after, states', ran, later, moves, rfl⟩ |
    ⟨reason, reasons, after, states', ran, later, seen, leaves⟩ | parted
  · refine .inl ⟨a, fun _ => a, after, fun i => states' (i.1, i.2 - units), ?_,
      ⟨fun i => later.frames _, fun i j => later.consoles _ _⟩, moves, rfl⟩
    filter_upwards [onto.eventually ran] with i done
    rw [one i (i.1, i.2 - units)]
    exact done
  · refine .inr (.inl ⟨reason, fun i => reasons (i.1, i.2 - units), after,
      fun i => states' (i.1, i.2 - units), ?_,
      ⟨fun i => later.frames _, fun i j => later.consoles _ _⟩, fun i => seen _, leaves⟩)
    filter_upwards [onto.eventually ran] with i stopped
    rw [one i (i.1, i.2 - units)]
    exact stopped
  · exact parted.elim

/-- The statement ends in every frame with the property. -/
def Halts (P : Frame → Prop) (s : Stmt) : Prop :=
  ∀ frame, P frame → ending.Keeps Final s.manner frame
    (fun i => (interpreter i.1 i.2).stmt s) Course.Same

/-- The interpreter, where some nodes end. -/
theorem minds_of_halts {P : Frame → Prop} {here : Stmt → Prop} (lasts : ending.Lasts P)
    (free : ∀ {s}, here s → s.isWhileFree = true) (halts : ∀ {s}, here s → Halts P s) :
    ending.Minds Final P here fun i => interpreter i.1 i.2 where
  sees := ⟨fun _ _ => trivial, fun _ _ => trivial⟩
  isCalm := final_calm
  lasts := lasts
  nodes ready := (Part.isWhileFree_ofStmt _).trans (free ready)
  node units s start ss holds ready seen := by
    obtain rfl : ss = fun _ => s := funext fun i => ((seen i).same trivial).symm
    refine (in_less_room (halts ready start holds) units).congr fun states _ i => ?_
    exact congrFun (Binding.interpret_units i.1 i.2 units s) _
  room units more start := by
    refine (Course.keeps_done ()).congr_most fun states _ =>
      eventually_iff.mpr ⟨units + more, fun room enough patience => ?_⟩
    have left : more ≤ ((interpreter patience room).after units).left := by
      simp only [interpreter, Meaning.after]
      omega
    simp only [Meaning.require, if_pos left]
  library units name source start _ known := by
    obtain ⟨program, parsed, free⟩ := Library.known_read known
    obtain ⟨enough, reads⟩ := Narrowing.read_in_enough_room parsed
    have nodes : ∀ s ∈ program.body, ending.regime.node (.ofStmt s) := fun s member =>
      (Part.isWhileFree_ofStmt s).trans (areWhileFree_iff.mp free s member)
    refine (@Course.keeps_pure _ _ _ _ _ _ _ program (fun _ => program) ⟨rfl, nodes⟩).congr_most
      fun states _ => eventually_iff.mpr ⟨enough + units + Room.reading, fun room more _ => ?_⟩
    have reads := reads (room - units - Room.reading) (by omega)
    simp only [Evaluation.readLibrary, Meaning.after, interpreter, reads]

/-- A tidy frame without `while`, limited in its depth, from which at most so
many more levels can be entered. -/
structure Confined (limit : Int) (calls : Nat) (frame : Frame) : Prop where
  tidy : frame.Tidy
  whileFree : frame.Under whileFree
  limited : frame.maxDepth = some limit
  few : limit - frame.depth ≤ calls

/-- A level deeper, where fewer can be entered. -/
def Deeper (limit : Int) (calls : Nat) (frame : Frame) : Prop :=
  ∃ fewer < calls, Confined limit fewer frame

/-- With fewer levels left, everything without `while` ends. -/
def Below (limit : Int) (calls : Nat) : Prop :=
  ∀ fewer < calls, ∀ s : Stmt, s.isWhileFree = true → Halts (Confined limit fewer) s

section Levels
variable {limit : Int} {calls : Nat}

private theorem lasts_confined : ending.Lasts (Confined limit calls) where
  under holds := holds.whileFree
  moves holds moves := by
    obtain ⟨depth, maxDepth⟩ := moves.evolves.depth
    refine ⟨holds.tidy.settles moves.settles, moves.evolves.under holds.whileFree,
      maxDepth.trans holds.limited, ?_⟩
    rw [depth]
    exact holds.few
  within _ holds :=
    ⟨holds.tidy.settles (.of_lookup fun _ => rfl), holds.whileFree, holds.limited, holds.few⟩
  counts _ holds node :=
    ⟨holds.tidy.settles ((Frame.Settles.refl _).bind rfl), Frame.Binds.put holds.whileFree node,
      holds.limited, holds.few⟩

private theorem lasts_deeper : ending.Lasts (Deeper limit calls) where
  under := fun ⟨_, _, holds⟩ => holds.whileFree
  moves := fun ⟨fewer, less, holds⟩ moves => ⟨fewer, less, lasts_confined.moves holds moves⟩
  within scope := fun ⟨fewer, less, holds⟩ => ⟨fewer, less, lasts_confined.within scope holds⟩
  counts path := fun ⟨fewer, less, holds⟩ node =>
    ⟨fewer, less, lasts_confined.counts path holds node⟩

/-- A call or an import takes one of the levels that are left. -/
theorem enters_deeper : ending.Enters (Confined limit calls) (Deeper limit calls) where
  callee {frame copy proc args} path holds deeper count fine := by
    have tidy : ending.Enters Frame.Tidy Frame.Tidy := Acyclicity.lasting_tidy.enters
    have entered : copy.maxDepth = some limit ∧ copy.depth = frame.depth + 1 ∧
        (frame.depth : Int) + 1 ≤ limit := by
      simp only [Frame.deeper, holds.limited] at deeper
      split at deeper
      · cases deeper
      · next allowed =>
        cases deeper
        exact ⟨rfl, rfl, by omega⟩
    obtain ⟨limited, depth, allowed⟩ := entered
    obtain ⟨sameDepth, sameLimit⟩ :=
      Frame.bindAll_depth (copy.within path) (Evaluation.paramPaths proc) args
    have few := holds.few
    refine ⟨calls - 1, by omega, tidy.callee path holds.tidy deeper count fine,
      ending.enters_under.callee path holds.whileFree deeper count fine,
      sameLimit.trans limited, ?_⟩
    rw [Evaluation.calleeFrame, sameDepth]
    change limit - (copy.depth : Int) ≤ _
    omega
  own {frame} holds allowed := by
    have few := holds.few
    have below : ¬ limit < ((frame.depth + 1 : Nat) : Int) := by
      simpa [holds.limited] using allowed
    refine ⟨calls - 1, by omega, Acyclicity.lasting_tidy.empty _ rfl, Frame.under_of_fresh rfl,
      holds.limited, ?_⟩
    change limit - ((frame.depth + 1 : Nat) : Int) ≤ _
    omega

/-- The interpreter at a level, where some nodes are known to end. -/
theorem walks_of_below (below : Below limit calls) :
    ending.Walks Final (Confined limit calls) (Deeper limit calls)
      (fun s => s.isWhileFree = true ∧ Halts (Confined limit calls) s)
      (fun i => interpreter i.1 i.2) fun i => interpreter i.1 i.2 where
  near := minds_of_halts lasts_confined (fun ready => ready.1) fun ready => ready.2
  far := by
    have free : ∀ {s : Stmt}, ending.regime.node (.ofStmt s) → s.isWhileFree = true :=
      fun {s} node => (Part.isWhileFree_ofStmt s).symm.trans node
    refine minds_of_halts lasts_deeper free fun {s} node frame ⟨fewer, less, holds⟩ => ?_
    exact below fewer less s (free node) frame holds
  enters := enters_deeper

private theorem stmt_patience {s : Stmt} (free : s.isWhileFree = true) (patience : Nat)
    (inside : Meaning) : Evaluation.stmt patience inside s = Evaluation.stmt 0 inside s := by
  cases s with
  | whileTrue => cases free
  | expr | importLibrary | importRelative | inNamespace | letDecl | constDecl | set | ifThen
  | forRange | returning | procDecl => rfl

private theorem final_admits {s : Stmt} (free : s.isWhileFree = true) (frame : Frame) :
    ending.Admits Final frame s where
  toAllows := whileFree_allows s frame
  undefined _ _ := trivial
  impatient loops := by
    cases s with
    | whileTrue => cases free
    | _ => cases loops
  refuses _ _ tooDeep := EvalFault.ne_nestingTooDeep tooDeep

/-- A node ends if what it evaluates does. -/
theorem halts_of_inner {s : Stmt} (below : Below limit calls) (free : s.isWhileFree = true)
    (inner : ∀ frame, ∀ t ∈ s.inner frame, Halts (Confined limit calls) t) :
    Halts (Confined limit calls) s := by
  intro frame holds
  have node : ending.regime.node (.ofStmt s) := (Part.isWhileFree_ofStmt s).trans free
  have nodes := Regime.inner_nodes holds.whileFree node
  have step := (walks_of_below below).statement holds node (final_admits free frame)
    (fun t member =>
      ⟨(Part.isWhileFree_ofStmt t).symm.trans (nodes t member), inner frame t member⟩)
    (fun _ => .refl s) 0
  have placed := step.locatedAt s.loc (fun _ _ => id) fun _ final => final
  refine (in_less_room placed (s.units + 1)).congr_most fun states _ =>
    eventually_iff.mpr ⟨Room.work + 1, fun room more patience => ?_⟩
  obtain ⟨room, rfl⟩ : ∃ inner, room = inner + 1 := ⟨room - 1, by omega⟩
  have less : room + 1 - (s.units + 1) = room - s.units := by omega
  change interpret patience (room + 1) 0 s _ = _
  rw [Binding.interpret_succ (by omega), stmt_patience free, interpreter_after, less,
    Nesting.stmt_same]

/-- Names end, since reading them comes to something in a tidy frame. -/
theorem name_halts (name : Name) : Halts (Confined limit calls) (.expr (.identifier name)) := by
  intro frame holds
  obtain ⟨outcome, concluded, enough, steady⟩ := holds.tidy.name_comesTo name
  have same : ∀ states, ending.At frame states → ∀ᶠ i in ending.most,
      (interpreter i.1 i.2).stmt (.expr (.identifier name)) (states i) = (outcome, states i) := by
    refine fun states there => eventually_iff.mpr ⟨enough, fun room more patience => ?_⟩
    have found := steady room more patience (states (patience, room)).console
    rwa [there.frames (patience, room)] at found
  have obedient : Obedient BasilLang.whileFree fun _ => interpreter 0 enough :=
    Regime.walks_interpreter whileFree.beside.lasts_under whileFree.beside.enters_under
      whileFree_allows 0 enough
  have keeps := @obedient.near.node 0 (.expr (.identifier name)) frame _ holds.whileFree rfl
    fun _ => .refl _
  have conforms := (Regime.conforms_of_keeps keeps (fun _ _ _ same => ⟨same, trivial⟩) {}
    False.elim).2
  have ran : (interpreter 0 enough).node 0 (.expr (.identifier name)) ⟨frame, {}⟩ = _ :=
    steady enough le_rfl 0 {}
  rw [ran] at conforms
  cases outcome with
  | ok value => exact (Course.keeps_done value).congr_most same
  | error reason =>
    have final : Final reason := by
      cases reason with
      | failed failure => exact conforms.stops _ rfl failure rfl
      | undefined | returned => trivial
      | outOfRoom | tooMuchRoom | outOfPatience => exact concluded
    refine (Course.keeps_stopped final ?_).congr_most same
    cases reason with
    | returned => exact concluded.elim
    | _ => rfl

end Levels

section Trees
variable {limit : Int} {calls : Nat}

private theorem both {a b : Bool} (holds : (a && b) = true) : a = true ∧ b = true :=
  Bool.and_eq_true_iff.mp holds

mutual

/-- With so many levels left, every expression without `while` ends. -/
theorem expr_halts (below : Below limit calls) :
    (e : Expr) → e.isWhileFree = true → Halts (Confined limit calls) (.expr e)
  | .literal _ _, free => halts_of_inner below free fun _ => by simp [Stmt.inner, Expr.inner]
  | .identifier name, _ => name_halts name
  | .group inner _, free => halts_of_inner below free fun _ =>
    List.forall_mem_singleton.mpr (expr_halts below inner free)
  | .unary _ _ operand, free => halts_of_inner below free fun _ =>
    List.forall_mem_singleton.mpr (expr_halts below operand free)
  | .binary left _ _ right, free => halts_of_inner below free fun _ =>
    List.forall_mem_cons.mpr ⟨expr_halts below left (both free).1,
      List.forall_mem_singleton.mpr (expr_halts below right (both free).2)⟩
  | .call _ args _, free => halts_of_inner below free fun _ =>
    List.forall_mem_map.mpr (exprs_halt below args free)
  | .proc _, free => halts_of_inner below free fun _ => by simp [Stmt.inner, Expr.inner]

/-- With so many levels left, expressions without `while` end. -/
theorem exprs_halt (below : Below limit calls) :
    (es : List Expr) → areExprsWhileFree es = true →
      ∀ e ∈ es, Halts (Confined limit calls) (.expr e)
  | [], _ => by simp
  | e :: es, free => List.forall_mem_cons.mpr
    ⟨expr_halts below e (both free).1, exprs_halt below es (both free).2⟩

/-- With so many levels left, every statement without `while` ends. -/
theorem stmt_halts (below : Below limit calls) :
    (s : Stmt) → s.isWhileFree = true → Halts (Confined limit calls) s
  | .expr e, free => expr_halts below e free
  | .importLibrary _ _, free => halts_of_inner below free fun _ => by simp [Stmt.inner]
  | .importRelative _ _, free => halts_of_inner below free fun _ => by simp [Stmt.inner]
  | .inNamespace _ body _ _, free => halts_of_inner below free fun _ => stmts_halt below body free
  | .letDecl _ value _, free => halts_of_inner below free fun _ =>
    List.forall_mem_singleton.mpr (expr_halts below value free)
  | .constDecl _ value _, free => halts_of_inner below free fun _ =>
    List.forall_mem_singleton.mpr (expr_halts below value free)
  | .set _ value, free => halts_of_inner below free fun _ =>
    List.forall_mem_singleton.mpr (expr_halts below value free)
  | .ifThen condition body _ _, free => halts_of_inner below free fun _ =>
    List.forall_mem_cons.mpr ⟨expr_halts below condition (both free).1,
      stmts_halt below body (both free).2⟩
  | .forRange _ start stop body _ _, free => halts_of_inner below free fun _ =>
    List.forall_mem_cons.mpr ⟨expr_halts below start (both (both free).1).1,
      List.forall_mem_cons.mpr ⟨expr_halts below stop (both (both free).1).2,
        stmts_halt below body (both free).2⟩⟩
  | .whileTrue _ _ _ _, free => nomatch free
  | .returning value _, free => halts_of_inner below free fun _ =>
    List.forall_mem_singleton.mpr (expr_halts below value free)
  | .procDecl _ _, free => halts_of_inner below free fun _ => by simp [Stmt.inner]

/-- With so many levels left, statements without `while` end. -/
theorem stmts_halt (below : Below limit calls) :
    (ss : List Stmt) → areWhileFree ss = true → ∀ s ∈ ss, Halts (Confined limit calls) s
  | [], _ => by simp
  | s :: ss, free => List.forall_mem_cons.mpr
    ⟨stmt_halts below s (both free).1, stmts_halt below ss (both free).2⟩

end

/-- However many levels are left, everything without `while` ends. -/
theorem below_all (limit : Int) (calls : Nat) : Below limit calls := by
  induction calls with
  | zero => exact fun fewer less => absurd less (Nat.not_lt_zero fewer)
  | succ calls ih =>
    intro fewer less s whileFree
    apply stmt_halts
    · exact fun least further => ih least (by omega)
    · exact whileFree

/-- So a program without `while` ends as well. -/
theorem program_keeps {program : Program} {frame : Frame} (holds : Confined limit calls frame)
    (free : program.isWhileFree = true) (withMain : Bool) :
    ending.Keeps Final .work frame (fun i => program.eval (interpreter i.1 i.2) withMain)
      Course.Same := by
  have below := below_all limit calls
  refine (walks_of_below below).program (fun parted => parted.elim) holds (fun s member => ?_)
    (fun _ => .refl _) (fun _ _ => rfl) (fun _ _ => id) False.elim fun _ => ?_
  · have free := areWhileFree_iff.mp free s member
    exact ⟨free, stmt_halts below s free⟩
  · exact ⟨trivial, fun _ _ => trivial, fun _ => EvalFault.ne_nestingTooDeep, nofun,
      fun _ _ _ => nofun⟩

end Trees

/-- A run came to a value, to none or to an error of the program, and did not
just use up its room or its patience. -/
def Ended : Except Stop (Option Value) → Prop
  | .ok _ | .error (.undefined _) => True
  | .error (.failed failure) => failure.fault ≠ .eval .nestingTooDeep
  | .error (.returned _) | .error .outOfRoom | .error .tooMuchRoom | .error .outOfPatience => False

/-- A program without `while` ends, whatever the limit of its depth. A run is
only ever cut short for lack of room or patience, so with enough room it comes
to an end of its own, and the same one however much more there is of either. -/
theorem while_free_programs_end (program : Program) (whileFree : program.isWhileFree = true)
    (limit : Int) (withMain : Bool) (console : Console) :
    ∃ outcome after, Ended outcome ∧ ∃ enough, ∀ room ≥ enough, ∀ patience,
      program.eval (interpreter patience room) withMain ⟨Session.frame limit, console⟩ =
        (outcome, after) := by
  have confined : Confined limit limit.toNat (Session.frame limit) := by
    refine ⟨Acyclicity.lasting_tidy.empty _ rfl, Frame.under_of_fresh rfl, rfl, ?_⟩
    change limit - ((0 : Nat) : Int) ≤ _
    omega
  have start : ending.At (Session.frame limit) fun _ => ⟨Session.frame limit, console⟩ :=
    ⟨fun _ => rfl, fun _ _ => rfl⟩
  have all : ∀ {after : Frame} {states : Nat × Nat → Machine}, ending.At after states →
      ∀ i, states i = ⟨after, (states (0, 0)).console⟩ := fun there i =>
    congrArg₂ Machine.mk (there.frames i).symm (there.consoles i (0, 0))
  rcases program_keeps confined whileFree withMain _ start with
    ⟨a, _, after, states, ran, there, -, rfl⟩ |
    ⟨reason, reasons, after, states, ran, there, seen, leaves⟩ | parted
  · obtain ⟨enough, ran⟩ := eventually_iff.mp ran
    refine ⟨.ok a, ⟨after, (states (0, 0)).console⟩, trivial, enough, fun room more patience => ?_⟩
    exact (ran room more patience).trans (congrArg _ (all there _))
  · obtain ⟨enough, ran⟩ := eventually_iff.mp ran
    refine ⟨.error reason, ⟨after, (states (0, 0)).console⟩, ?_, enough,
      fun room more patience => ?_⟩
    · cases reason with
      | returned value => cases (leaves.back value rfl).1
      | _ => exact leaves.calm
    · refine (ran room more patience).trans ?_
      rw [← (seen _).same trivial, all there]
  · exact parted.elim

/-- `proc again(p) then for i = 0 to 3 then p(p) end end`, and then
`again(again)`: it calls what it is given, which is itself, three times. -/
def callingItself : Program where
  file := ""
  body :=
    let p : Expr := .identifier ⟨["p"], default⟩
    let number (text : String) : Expr := .literal ⟨.number, text⟩ default
    let loop : Stmt := .forRange ⟨["i"], default⟩ (number "0") (number "3")
      [.expr (.call ⟨["p"], default⟩ [p] default)] default default
    [.procDecl ⟨["again"], default⟩ (.mk default [⟨"p", default⟩] default [loop] default),
      .expr (.call ⟨["again"], default⟩ [.identifier ⟨["again"], default⟩] default)]

theorem calling_itself_ends :
    callingItself.isWhileFree = true ∧
    ∃ outcome after, Ended outcome ∧ ∃ enough, ∀ room ≥ enough, ∀ patience,
      callingItself.eval (interpreter patience room) false ⟨Session.frame 100, {}⟩ =
        (outcome, after) :=
  ⟨by decide, while_free_programs_end callingItself (by decide) 100 false {}⟩

end BasilLang.Termination
