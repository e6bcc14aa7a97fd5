import BasilLang.Proofs.Concurrence

/-! What is under way where a node is evaluated. The interpreter is set beside
one that carries along what has begun and not ended: the nodes that stand
around, and which of them has gone into the proc that it calls or the library
that it imports. Broken off at a node, it reports that as well. The depth of a
frame is then the number of procs and libraries that have been entered, since
no rule changes the depth of the frame that it works in, and only a call or an
entered library works in a deeper one. -/
namespace BasilLang

/-- What has begun and not ended. -/
inductive Pending where
  /-- A node, something inside of which is being evaluated. -/
  | node (s : Stmt) (frame : Frame)
  /-- A node that has entered the proc that it calls or the library that it
  imports. -/
  | entered (s : Stmt) (frame : Frame)
  /-- The call of the main proc, which stands in no node. -/
  | main (frame : Frame)

namespace Pending

/-- The frame in which it began. -/
def frame : Pending → Frame
  | .node _ frame | .entered _ frame | .main frame => frame

/-- Whether a proc or a library has been entered. -/
def isActive : Pending → Bool
  | .node _ _ => false
  | .entered _ _ | .main _ => true

/-- How many procs and libraries have been entered and not left. -/
def active : List Pending → Nat
  | [] => 0
  | p :: rest => active rest + if p.isActive then 1 else 0

/-- Whatever began, began at the depth that there was: the innermost stands
first. -/
def Nested : List Pending → Prop
  | [] => True
  | p :: rest => p.frame.depth = active rest ∧ Nested rest

end Pending

namespace Nesting

/-- What is told where evaluation is broken off. -/
abbrev Report := List Pending → Stmt → Frame → Console

/-- The interpreter that carries along what is pending and is broken off at the
first node that passes a test. -/
def interpret (test : List Pending → Stmt → Frame → Bool) (report : Report) (patience : Nat) :
    Nat → List Pending → Nat → Stmt → Eval Value
  | 0, _, _, _ => Eval.stop .outOfRoom
  | room + 1, pending, units + 1, s => interpret test report patience room pending units s
  | room + 1, pending, 0, s => fun m =>
    if test pending s m.frame then
      (.error .tooMuchRoom, ⟨m.frame, report pending s m.frame⟩)
    else if room < Room.work then Eval.stop .outOfRoom m
    else Eval.located s.loc (stmt patience
      ⟨room - s.units, fun units =>
        interpret test report patience room (.node s m.frame :: pending) (units + s.units)⟩
      ⟨room - s.units, fun units =>
        interpret test report patience room (.entered s m.frame :: pending) (units + s.units)⟩
      s) m

/-- The meanings that are left with the given room. -/
def interpreter (test : List Pending → Stmt → Frame → Bool) (report : Report)
    (patience room : Nat) (pending : List Pending) : Meaning :=
  ⟨room, interpret test report patience room pending⟩

/-- If neither the test nor the report looks at what is pending, it may as well
not be carried along. -/
theorem interpret_forgetful (test : Stmt → Frame → Bool) (report : Stmt → Frame → Console)
    (patience room : Nat) (pending : List Pending) (units : Nat) (s : Stmt) :
    interpret (fun _ => test) (fun _ => report) patience room pending units s =
      (Diversion.breakOff test report).interpret patience room units s := by
  induction room generalizing pending units s with
  | zero => rfl
  | succ room ih =>
    cases units with
    | succ units => exact ih pending units s
    | zero =>
      funext m
      have inner : ∀ pending, interpret (fun _ => test) (fun _ => report) patience room pending =
          (Diversion.breakOff test report).interpret patience room := fun pending =>
        funext fun units => funext fun s => ih pending units s
      simp only [interpret, inner, stmt_same]
      rfl

private theorem interpreter_forgetful (test : Stmt → Frame → Bool) (report : Stmt → Frame → Console)
    (patience room : Nat) (pending : List Pending) :
    interpreter (fun _ => test) (fun _ => report) patience room pending =
      (Diversion.breakOff test report).interpreter patience room := by
  unfold interpreter Diversion.interpreter
  congr
  funext units s
  exact interpret_forgetful test report patience room pending units s

end Nesting

namespace Run

/-- How the run ends if it is broken off at the first node that passes a test,
where what is pending is known. -/
def traced (run : Run) (test : List Pending → Stmt → Frame → Bool) (report : Nesting.Report) :
    Except Stop (Option Value) × Machine :=
  Eval.reportingRoom run.program.loc (do
    let inside := Nesting.interpreter test report run.patience run.room
    let result ← Eval.catchReturn ((inside []).body run.program.body)
    if run.withMain then
      return some (← Program.callMain (inside [.main (← Eval.frame)]) run.program.loc)
    else return result) ⟨run.start, run.console⟩

/-- The run evaluates a node in a frame while all of this is pending. -/
def Reaches (run : Run) (pending : List Pending) (s : Stmt) (frame : Frame) : Prop :=
  ∃ test, ∀ report, (run.traced test report).2.console = report pending s frame

theorem traced_forgetful (run : Run) (test : Stmt → Frame → Bool)
    (report : Stmt → Frame → Console) :
    run.traced (fun _ => test) (fun _ => report) = run.diverted (.breakOff test report) := by
  unfold traced diverted Program.eval
  simp only [Nesting.interpreter_forgetful]
  rfl

end Run

/-- The frame has this depth and this limit. -/
structure Frame.IsAt (frame : Frame) (level limit : Nat) : Prop where
  depth : frame.depth = level
  maxDepth : frame.maxDepth = some (limit : Int)

/-- Binding parameters does not change the level. -/
theorem Frame.IsAt.callee {copy : Frame} {level limit : Nat} (placed : copy.IsAt level limit)
    (proc : Proc) (path : Path) (args : List Bound) :
    (Evaluation.calleeFrame copy proc path args).IsAt level limit := by
  obtain ⟨depth, maxDepth⟩ :=
    Frame.bindAll_depth (copy.within path) (Evaluation.paramPaths proc) args
  exact ⟨depth.trans placed.depth, maxDepth.trans placed.maxDepth⟩

namespace Nesting
variable {limit level : Nat}

/-- The frame is as deep as what is pending says, and not too deep. -/
structure Proper (limit : Nat) (pending : List Pending) (frame : Frame) : Prop where
  nested : Pending.Nested pending
  placed : frame.IsAt (Pending.active pending) limit
  allowed : Pending.active pending ≤ limit

/-- A node that is reached where all is proper. -/
structure Spot (limit : Nat) where
  pending : List Pending
  stmt : Stmt
  frame : Frame
  proper : Proper limit pending frame

/-- Evaluations that differ in what is to be reported do the same until they are
broken off at a node, which they report. -/
def reporting (limit : Nat) : Parting Report (Spot limit) where
  ends _ _ := some .tooMuchRoom
  shows report spot console := console = report spot.pending spot.stmt spot.frame
  alike consoles := ∀ report report', consoles report = consoles report'
  final := by
    rintro _ _ _ ⟨⟩
    rfl
  alike_step step alike report report' := congrArg step (alike report report')

private theorem reporting_partsInRoom (limit : Nat) : (reporting limit).course.PartsInRoom := by
  rintro ends ends' ⟨spot, meets⟩ same
  refine ⟨spot, fun report reason laidDown => ?_⟩
  have met := meets report reason laidDown
  cases laidDown
  rw [same report (by rw [met.1]; nofun)]
  exact met

/-- No rule changes the depth of the frame that it works in. -/
theorem lasts_at : (reporting limit).course.Lasts fun frame => frame.IsAt level limit where
  under _ _ _ _ := trivial
  moves placed moves :=
    ⟨moves.evolves.depth.1.trans placed.depth, moves.evolves.depth.2.trans placed.maxDepth⟩
  within _ placed := ⟨placed.depth, placed.maxDepth⟩
  counts _ placed _ := ⟨placed.depth, placed.maxDepth⟩

/-- What is entered lies one level deeper, if that is allowed. -/
theorem of_deeper {frame copy : Frame} (placed : frame.IsAt level limit)
    (entered : frame.deeper = .ok copy) : level < limit ∧ copy.IsAt (level + 1) limit := by
  simp only [Frame.deeper, placed.maxDepth, placed.depth] at entered
  split at entered
  · cases entered
  · next allowed =>
    cases entered
    exact ⟨by omega, rfl, rfl⟩

private theorem lasts_below : (reporting limit).course.Lasts fun frame =>
    level < limit ∧ frame.IsAt (level + 1) limit where
  under _ _ _ _ := trivial
  moves below moves := ⟨below.1, lasts_at.moves below.2 moves⟩
  within scope below := ⟨below.1, lasts_at.within scope below.2⟩
  counts path below node := ⟨below.1, lasts_at.counts path below.2 node⟩

private theorem enters_below : (reporting limit).course.Enters (fun frame => frame.IsAt level limit)
    fun frame => level < limit ∧ frame.IsAt (level + 1) limit where
  callee {_ _ proc args} path placed entered _ _ :=
    ⟨(of_deeper placed entered).1, (of_deeper placed entered).2.callee proc path args⟩
  own {frame} placed allowed := by
    have within : ¬ (limit : Int) < (level + 1 : Nat) := by
      simpa [placed.maxDepth, placed.depth, Option.filter_some] using allowed
    exact ⟨by omega, congrArg (· + 1) placed.depth, placed.maxDepth⟩

section Interpreter
variable {pending : List Pending}

private theorem minds_of_nodes {P : Frame → Prop} {inside : Report → Meaning} {room : Nat}
    (lasts : (reporting limit).course.Lasts P) (left : ∀ report, (inside report).left = room)
    (nodes : ∀ units s frame, P frame → (reporting limit).course.Keeps (fun _ => True) s.manner
      frame (fun report => (inside report).node units s) Course.Same) :
    (reporting limit).course.Minds (fun _ => True) P (fun s => Regime.free.node (.ofStmt s))
      inside :=
  Parting.minds ⟨fun _ => trivial, fun _ _ _ => trivial⟩ lasts nodes
    (fun units more _ => Course.keeps_require left trivial units more)
    fun units _ _ _ _ =>
      (Course.keeps_readLibrary left trivial (fun _ _ => trivial) units).weaken
        fun _ _ _ _ read => read.1

/-- What is evaluated while so much is pending is evaluated at that depth. -/
theorem interpret_keeps (test : List Pending → Stmt → Frame → Bool) (patience room : Nat)
    (units : Nat) (s : Stmt) {frame : Frame} (proper : Proper limit pending frame) :
    (reporting limit).course.Keeps (fun _ => True) s.manner frame
      (fun report => interpret test report patience room pending units s) Course.Same := by
  induction room generalizing pending units s frame with
  | zero => exact Course.keeps_stopped trivial rfl
  | succ room ih =>
    cases units with
    | succ units => exact ih units s proper
    | zero =>
      by_cases here : test pending s frame = true
      · refine fun states there => .inr (.inr ⟨⟨pending, s, frame, proper⟩, fun report => ?_⟩)
        have found : (states report).frame = frame := (there.frames report).symm
        rintro _ ⟨⟩
        simp only [interpret, found, if_pos here]
        exact ⟨rfl, rfl⟩
      · by_cases short : room < Room.work
        · have stopped : (reporting limit).course.Keeps (fun _ => True) s.manner frame
              (fun _ => (Eval.stop .outOfRoom : Eval Value)) Course.Same :=
            Course.keeps_stopped trivial rfl
          refine stopped.congr fun states there report => ?_
          have found : (states report).frame = frame := (there.frames report).symm
          simp only [interpret, found, if_neg here, if_pos short]
        · -- What stands inside is at this level, and what is entered one below.
          have near := @minds_of_nodes limit
            (fun frame => frame.IsAt (Pending.active pending) limit)
            (fun report => ⟨room - s.units, fun units => interpret test report patience room
              (.node s frame :: pending) (units + s.units)⟩) (room - s.units) lasts_at
            (fun _ => rfl) fun units inner after placed =>
              @ih (.node s frame :: pending) _ inner after ⟨⟨proper.placed.depth, proper.nested⟩, placed, proper.allowed⟩
          have far := @minds_of_nodes limit
            (fun frame => Pending.active pending < limit ∧
              frame.IsAt (Pending.active pending + 1) limit)
            (fun report => ⟨room - s.units, fun units => interpret test report patience room
              (.entered s frame :: pending) (units + s.units)⟩) (room - s.units) lasts_below
            (fun _ => rfl) fun units inner after below =>
              @ih (.entered s frame :: pending) _ inner after
                ⟨⟨proper.placed.depth, proper.nested⟩, below.2, below.1⟩
          have step := Course.Walks.statement ⟨near, far, enters_below⟩ proper.placed trivial
            ((reporting limit).admits (fun _ => trivial) (fun _ => trivial) trivial frame s)
            (fun _ _ => trivial) (fun _ => .refl s) patience
          refine (step.locatedAt s.loc (fun _ _ => id) fun _ _ => trivial).congr
            fun states there report => ?_
          have found : (states report).frame = frame := (there.frames report).symm
          simp only [interpret, found, if_neg here, if_neg short]

private theorem interpreter_minds (test : List Pending → Stmt → Frame → Bool) (patience room : Nat)
    (nested : Pending.Nested pending) (allowed : Pending.active pending ≤ limit) :
    (reporting limit).course.Minds (fun _ => True)
      (fun frame => frame.IsAt (Pending.active pending) limit)
      (fun s => Regime.free.node (.ofStmt s))
      fun report => interpreter test report patience room pending :=
  minds_of_nodes lasts_at (fun _ => rfl) fun units s _ placed =>
    interpret_keeps test patience room units s ⟨nested, placed, allowed⟩

end Interpreter

end Nesting

namespace Run
variable {run : Run} {limit : Nat}

open Nesting

/-- A run from a frame at depth zero goes the same way whatever is to be
reported, unless it is broken off, and where it is, all is proper. -/
theorem traced_stays (placed : run.start.IsAt 0 limit)
    (test : List Pending → Stmt → Frame → Bool) :
    (∃ result, ∀ report, run.traced test report = result) ∨
      ∃ spot : Spot limit, ∀ report,
        (run.traced test report).2.console = report spot.pending spot.stmt spot.frame := by
  have near := @interpreter_minds limit [] test run.patience run.room trivial (Nat.zero_le limit)
  -- The frame that the main proc is called in is known only once it is reached.
  have far : ∀ frame : Frame, frame.IsAt 0 limit → (reporting limit).course.Minds (fun _ => True)
      (fun frame => 0 < limit ∧ frame.IsAt (0 + 1) limit) (fun s => Regime.free.node (.ofStmt s))
      fun report => Nesting.interpreter test report run.patience run.room [.main frame] :=
    fun frame placed => minds_of_nodes lasts_below (fun _ => rfl) fun units s _ below =>
      interpret_keeps test run.patience run.room units s
        ⟨⟨placed.depth, trivial⟩, below.2, below.1⟩
  have whole : (reporting limit).course.Keeps (fun _ => True) .work run.start
      (fun report => Eval.reportingRoom run.program.loc (do
        let inside := Nesting.interpreter test report run.patience run.room
        let result ← Eval.catchReturn ((inside []).body run.program.body)
        if run.withMain then
          return some (← Program.callMain (inside [.main (← Eval.frame)]) run.program.loc)
        else return result)) Course.Same := by
    refine @Course.Keeps.reportingRoom _ _ _ _ (fun _ => True) _ _ _ _ _ _
      (reporting_partsInRoom limit) ?_ (fun _ _ => rfl) (fun _ _ _ => trivial) fun _ => trivial
    refine (near.body placed (fun _ _ => trivial) fun _ => .refl _).catchReturn.bind ?_
    rintro result _ after moves rfl
    cases run.withMain with
    | false => exact Course.keeps_done result
    | true =>
      refine .frame_bind fun frames looks => ?_
      obtain rfl : frames = fun _ => after := funext fun report => (looks report).symm
      have placed := lasts_at.moves placed moves
      have admits : (reporting limit).course.AdmitsMain (fun _ => True) (some run.program.loc) :=
        ⟨trivial, fun _ _ => trivial, fun _ _ => trivial, trivial, fun _ _ _ => trivial⟩
      refine (Course.Walks.callMain ⟨near, far after placed, enters_below⟩ admits placed
        fun _ _ => rfl).bind ?_
      rintro value _ last further rfl
      exact Course.keeps_done (some value)
  rcases whole.conforms ⟨rfl, rfl⟩ (fun _ _ _ same => ⟨same, trivial⟩) (fun _ => run.console)
    fun _ _ => rfl with ⟨outcome, after, consoles, alike, ran, -⟩ | ⟨spot, parted⟩
  · refine .inl ⟨(outcome, ⟨after, consoles fun _ _ _ => {}⟩), fun report => ?_⟩
    exact (ran report).trans (by rw [alike report])
  · exact .inr ⟨spot, fun report => (parted report .tooMuchRoom rfl).2⟩

private theorem eq_of_reports {σ : Type} {a b : σ}
    (same : ∀ report : σ → Console, report a = report b) : a = b := by
  classical
  by_contra differs
  have told := same fun c => ⟨if c = a then "!" else "", #[]⟩
  rw [if_pos rfl, if_neg fun again => differs again.symm] at told
  exact absurd (congrArg Console.out told) (by decide)

private theorem reports_differ {σ : Type} (a : σ) (console : Console) :
    ¬ ∀ report : σ → Console, console = report a := by
  intro told
  have same : (⟨"", #[]⟩ : Console) = ⟨"!", #[]⟩ :=
    (told fun _ => ⟨"", #[]⟩).symm.trans (told fun _ => ⟨"!", #[]⟩)
  exact absurd (congrArg Console.out same) (by decide)

/-- Whatever is evaluated is evaluated while something is pending, be it
nothing. -/
theorem reaches_of_evaluates (placed : run.start.IsAt 0 limit) {s : Stmt} {frame : Frame}
    (evaluates : run.Evaluates s frame) : ∃ pending, run.Reaches pending s frame := by
  obtain ⟨test, reported⟩ := evaluates
  have told : ∀ report : Stmt × Frame → Console,
      (run.traced (fun _ => test) fun _ s frame => report (s, frame)).2.console =
        report (s, frame) := by
    intro report
    rw [traced_forgetful]
    exact reported fun s frame => report (s, frame)
  rcases traced_stays placed fun _ => test with ⟨result, same⟩ | ⟨⟨pending, s', frame', _⟩, parted⟩
  · exact absurd (fun report => by rw [← told report, same])
      (reports_differ (s, frame) result.2.console)
  · have here : (s', frame') = (s, frame) :=
      eq_of_reports fun report => (parted _).symm.trans (told report)
    cases here
    exact ⟨pending, fun _ => test, parted⟩

/-- The depth of a frame in which something is evaluated is the number of the
procs and libraries that have been entered. -/
theorem proper_of_reaches (placed : run.start.IsAt 0 limit) {pending : List Pending} {s : Stmt}
    {frame : Frame} (reaches : run.Reaches pending s frame) : Proper limit pending frame := by
  obtain ⟨test, reported⟩ := reaches
  have told : ∀ report : List Pending × Stmt × Frame → Console,
      (run.traced test fun pending s frame => report (pending, s, frame)).2.console =
        report (pending, s, frame) := fun report => reported _
  rcases traced_stays placed test with ⟨result, same⟩ | ⟨⟨pending', s', frame', proper⟩, parted⟩
  · exact absurd (fun report => by rw [← told report, same])
      (reports_differ (pending, s, frame) result.2.console)
  · have here : (pending', s', frame') = (pending, s, frame) :=
      eq_of_reports fun report => (parted _).symm.trans (told report)
    cases here
    exact proper

end Run

end BasilLang
