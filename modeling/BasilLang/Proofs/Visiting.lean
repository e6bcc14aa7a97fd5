import BasilLang.Proofs.Obedience

/-! Which nodes a run evaluates, and in which frames. The interpreter is set
beside one that breaks evaluation off at the first node that passes a test and
reports the node and the frame: a run evaluates a node in a frame if it can be
broken off there. A property of frames that every rule keeps then holds wherever
a run evaluates anything. -/
namespace BasilLang

/-- A run of a program from a frame without bindings. -/
structure Run where
  program : Program
  withMain : Bool
  patience : Nat
  room : Nat
  start : Frame
  console : Console
  fresh : start.bindings = []

namespace Run

/-- A run of a body from the empty frame, without its `main`. -/
def ofBody (body : List Stmt) (room : Nat) : Run where
  program := ⟨"", body⟩
  withMain := false
  patience := 0
  room := room
  start := {}
  console := {}
  fresh := rfl

/-- How the run ends. -/
def outcome (run : Run) : Except Stop (Option Value) × Machine :=
  run.program.eval (interpreter run.patience run.room) run.withMain ⟨run.start, run.console⟩

/-- How the run ends with a diversion. -/
def diverted (run : Run) (diversion : Diversion) : Except Stop (Option Value) × Machine :=
  run.program.eval (diversion.interpreter run.patience run.room) run.withMain
    ⟨run.start, run.console⟩

/-- Whether the run evaluates a node in a frame: for some test, it is there
that the run is broken off. -/
def Evaluates (run : Run) (s : Stmt) (frame : Frame) : Prop :=
  ∃ test, ∀ report, (run.diverted (.breakOff test report)).2.console = report s frame

/-- If a run that is broken off cannot tell apart two reports that differ only
where a property fails, then the property holds where it is broken off. -/
theorem holds_where_broken_off {P : Stmt → Frame → Prop} {run : Run} {s : Stmt} {frame : Frame}
    {test : Stmt → Frame → Bool}
    (reported : ∀ report, (run.diverted (.breakOff test report)).2.console = report s frame)
    (blind : ∀ report other, (∀ s frame, P s frame → report s frame = other s frame) →
      run.diverted (.breakOff test report) = run.diverted (.breakOff test other)) : P s frame := by
  classical
  refine Classical.byContradiction fun fails => ?_
  let report : String → Stmt → Frame → Console := fun out s frame =>
    if P s frame then {} else ⟨out, #[]⟩
  have agree : ∀ s frame, P s frame → report "" s frame = report "!" s frame := by
    intro s frame holds
    simp only [report, if_pos holds]
  have same : report "" s frame = report "!" s frame := by
    rw [← reported (report ""), ← reported (report "!"), blind _ _ agree]
  simp only [report, if_neg fails] at same
  exact absurd (congrArg Console.out same) (by decide)

/-- A property that no two reports tell apart holds of all that is evaluated. -/
theorem holds_of_reports {P : Stmt → Frame → Prop} {run : Run} {s : Stmt} {frame : Frame}
    (evaluates : run.Evaluates s frame)
    (blind : ∀ test report other, (∀ s frame, P s frame → report s frame = other s frame) →
      run.diverted (.breakOff test report) = run.diverted (.breakOff test other)) : P s frame := by
  obtain ⟨test, reported⟩ := evaluates
  exact holds_where_broken_off reported (blind test)

/-- A lasting property holds of every frame that something is evaluated in. -/
theorem holds_of_evaluates {P : Frame → Prop} (lasting : Lasting P) {run : Run} {s : Stmt}
    {frame : Frame} (evaluates : run.Evaluates s frame) : P frame := by
  apply @holds_of_reports (fun _ frame => P frame) run s frame evaluates
  intro test report other same
  have suits : Diversion.Suits .free P (.breakOff test report) (.breakOff test other) :=
    .breakOff trivial (fun s frame _ => Regime.free_allows frame s) fun s frame _ => same s frame
  have walks := suits.walks (lasting.lasts fun _ => trivial) lasting.enters run.patience run.room
  have keeps := @Regime.keeps_program _ run.start _ _ run.program run.withMain walks
    (lasting.empty run.start run.fresh) trivial trivial fun _ => ⟨fun _ _ => trivial, trivial⟩
  exact (Regime.conforms_of_keeps keeps (fun _ _ _ same => ⟨same, trivial⟩) run.console
    False.elim).1

end Run

end BasilLang
