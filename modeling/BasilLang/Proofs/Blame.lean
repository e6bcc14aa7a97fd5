import BasilLang.Proofs.Concurrence
import BasilLang.Proofs.Ending
import BasilLang.Proofs.Standing

/-! A failure of a running program points at the node that is to blame for it.
A rule that finds something wrong gives no place; the node supplies its own, and
the nodes around it leave that as it is. So a failing run is set beside the runs
that are broken off at the first node whose own rule finds a fault: they all go
the same way up to that node, which is where the failure points. The node comes
from the program or from a library that was imported, since all that is
evaluated does, beside the values of names, and these find no faults. -/
namespace BasilLang

open Standing (Holds)

/-- The run comes to import the library. -/
def Run.Imports (run : Run) (name : String) : Prop :=
  ∃ s frame, run.Evaluates s frame ∧ s.imported? = some name

namespace Blame

/-- In the frame, the rule of the node finds the fault by itself. What is found
by a node inside has a place already. -/
def Raises (patience : Nat) (s : Stmt) (frame : Frame) (fault : Fault) : Prop :=
  ∃ room console, (Evaluation.stmt patience (interpreter patience room) s ⟨frame, console⟩).1 =
    .error (.failed ⟨fault, none⟩)

/-- The node is spelled by a stretch of the tokens of a source, and its place is
that of the first token. -/
def StandsIn (source file : String) (s : Stmt) : Prop :=
  ∃ tokens own after, tokenize source file = .ok tokens ∧ Holds tokens own after ∧
    s.Spelled own ∧ BeginsAt own s.loc ∧ s.loc.file = file

section Raising
variable {patience : Nat} {s : Stmt} {frame : Frame} {fault : Fault}

private theorem raises_in_room (raises : Raises patience s frame fault) (room : Nat)
    (console : Console) :
    (Evaluation.stmt patience (interpreter patience room) s ⟨frame, console⟩).1 =
        .error .outOfRoom ∨
      (Evaluation.stmt patience (interpreter patience room) s ⟨frame, console⟩).1 =
        .error (.failed ⟨fault, none⟩) := by
  obtain ⟨room', console', raised⟩ := raises
  rw [← raised]
  by_cases less : room ≤ room'
  · exact Narrowing.rule_in_less_room patience less s frame console console'
  · have more : room' ≤ room := by omega
    rcases Narrowing.rule_in_less_room patience more s frame console' console with lacks | same
    · rw [raised] at lacks
      cases lacks
    · exact .inr same.symm

private theorem located_error {act : Eval Value} {loc : Loc} {m : Machine}
    (failed : (act m).1 = .error (.failed ⟨fault, none⟩)) :
    (act.located loc m).1 = .error (.failed ⟨fault, some loc⟩) := by
  rw [Eval.located_eq, failed]
  rfl

/-- A node whose rule finds a fault ends with that fault at its own place, or
runs out of room. -/
theorem fails_here (raises : Raises patience s frame fault) (room : Nat) (console : Console) :
    (interpret patience room 0 s ⟨frame, console⟩).1 = .error .outOfRoom ∨
      (interpret patience room 0 s ⟨frame, console⟩).1 =
        .error (.failed ⟨fault, some s.loc⟩) := by
  cases room with
  | zero => exact .inl rfl
  | succ room =>
    by_cases short : room < Room.work
    · rw [interpret, if_pos short]
      exact .inl rfl
    · rw [Binding.interpret_succ (by omega), interpreter_after]
      rcases raises_in_room raises (room - s.units) console with lacks | raised
      · left
        rw [Eval.located_eq, lacks]
        rfl
      · exact .inr (located_error raised)

end Raising

/-- Where a run is broken off, and why the run itself stops there if that is
known: it imports what is never imported, or its rule finds a fault, unless the
room is used up. -/
structure Incident (run : Run) where
  node : Stmt
  frame : Frame
  reason : Option Stop
  cause : (reason = none ∧ ∃ name, node.imported? = some name ∧ ¬ run.Imports name) ∨
    reason = some .outOfRoom ∨
    ∃ fault, reason = some (.failed ⟨fault, some node.loc⟩) ∧
      Raises run.patience node frame fault

section Breaking
variable {run : Run}

open Classical in
/-- The spots at which an incident occurs. -/
noncomputable def isSpot (run : Run) (s : Stmt) (frame : Frame) : Bool :=
  decide ((∃ fault, Raises run.patience s frame fault) ∨
    ∃ name, s.imported? = some name ∧ ¬ run.Imports name)

private theorem isSpot_iff {s : Stmt} {frame : Frame} : isSpot run s frame = true ↔
    (∃ fault, Raises run.patience s frame fault) ∨
      ∃ name, s.imported? = some name ∧ ¬ run.Imports name := by
  simp only [isSpot, decide_eq_true_eq]

/-- The run itself, and for every report the run that is broken off. -/
noncomputable def member (run : Run) : Option (Stmt → Frame → Console) → Diversion
  | none => .never
  | some report => .breakOff (isSpot run) report

/-- After an incident, the run has stopped and all others have reported it. -/
def parting (run : Run) : Parting (Option (Stmt → Frame → Console)) (Incident run) where
  ends
    | none, incident => incident.reason
    | some _, _ => some .tooMuchRoom
  shows
    | none, _, _ => True
    | some report, incident, console => console = report incident.node incident.frame
  alike _ := True
  final := by
    intro i incident reason ends
    cases i with
    | none =>
      rcases incident.cause with ⟨unknown, -⟩ | lacks | ⟨fault, failed, -⟩
      · exact absurd (ends.symm.trans unknown) nofun
      · cases ends.symm.trans lacks
        rfl
      · cases ends.symm.trans failed
        rfl
    | some report =>
      cases ends
      rfl
  alike_step _ _ := trivial

/-- Any reason to stop but a failure. -/
def Serene (reason : Stop) : Prop :=
  reason.isFailure = false

/-- A failure with this reason has no place yet. -/
def Placeless (reason : Stop) : Prop :=
  ∀ failure, reason = .failed failure → failure.loc = none

private theorem placeless_calm : Calm Placeless where
  returned _ := nofun
  fails _ _ _ := by
    rintro failure ⟨⟩
    rfl

private theorem placeless_of_serene (reason : Stop) (serene : Serene reason) :
    Placeless reason := by
  rintro failure rfl
  cases serene

private theorem incident_at {s : Stmt} {frame : Frame} (here : isSpot run s frame = true)
    (room : Nat) (console : Console) :
    ∃ incident : Incident run, incident.node = s ∧ incident.frame = frame ∧
      ∀ reason, incident.reason = some reason →
        (interpret run.patience room 0 s ⟨frame, console⟩).1 = .error reason := by
  rcases isSpot_iff.mp here with ⟨fault, raises⟩ | unimported
  · rcases fails_here raises room console with lacks | failed
    · exact ⟨⟨s, frame, _, .inr (.inl rfl)⟩, rfl, rfl, fun _ same => by cases same; exact lacks⟩
    · exact ⟨⟨s, frame, _, .inr (.inr ⟨fault, rfl, raises⟩)⟩, rfl, rfl,
        fun _ same => by cases same; exact failed⟩
  · exact ⟨⟨s, frame, none, .inl ⟨rfl, unimported⟩⟩, rfl, rfl, nofun⟩

private theorem member_succ {s : Stmt} {frame : Frame} (apart : isSpot run s frame = false)
    (i : Option (Stmt → Frame → Console)) (room : Nat) (console : Console) :
    (member run i).interpret run.patience (room + 1) 0 s ⟨frame, console⟩ =
      if room < Room.work then (.error .outOfRoom, ⟨frame, console⟩)
      else Eval.located s.loc (Evaluation.stmt run.patience
        (((member run i).interpreter run.patience room).after s.units) s) ⟨frame, console⟩ := by
  have clear : (member run i).spots s frame = false := by
    cases i
    · rfl
    · exact apart
  simp only [Diversion.interpret, clear]
  rfl

private theorem concurring_of_serene {calm : Stop → Prop} {room : Nat} (isCalm : Calm calm)
    (wider : ∀ reason, Serene reason → calm reason)
    (nodes : ∀ units s frame, (parting run).course.Keeps Serene s.manner frame
      (fun i => (member run i).interpret run.patience room units s) Course.Same) :
    Concurring (parting run) calm fun i => (member run i).interpreter run.patience room := by
  have left : ∀ i, ((member run i).interpreter run.patience room).left = room := fun _ => rfl
  refine concurring_of_nodes isCalm (fun units s frame => ?_) ?_ ?_
  · exact (nodes units s frame).mono (fun _ _ _ _ => id) wider (.refl _)
  · exact fun units more frame => Course.keeps_require left (wider _ rfl) units more
  · intro units name source frame known
    exact (Course.keeps_readLibrary left (wider _ rfl) (fun unread other =>
      absurd (Library.lacks_room_of_unread known unread) other) units).weaken
        fun _ _ _ _ read => read.1

private theorem rule_serene {room : Nat} {s : Stmt} {frame : Frame}
    (apart : isSpot run s frame = false)
    (inner : Concurring (parting run) Placeless fun i =>
      ((member run i).interpreter run.patience room).after s.units) :
    (parting run).course.Keeps Serene s.manner frame (fun i => Evaluation.stmt run.patience
      (((member run i).interpreter run.patience room).after s.units) s) Course.Same := by
  have step := inner.statement trivial trivial ((parting run).admits
    (fun fault => by rintro failure ⟨⟩; rfl) (fun _ => nofun) nofun frame s) (fun _ _ => trivial)
    (fun _ => .refl s) run.patience
  simp only [Nesting.stmt_same] at step
  intro states there
  rcases step states there with done | ⟨reason, reasons, after, states', ran, later, seen, leaves⟩ |
    parted
  · exact .inl done
  · refine .inr (.inl ⟨reason, reasons, after, states', ran, later, seen, leaves.evolves, ?_,
      leaves.back⟩)
    cases reason with
    | failed failure =>
      -- A fault that the rule of a node finds would make the node a spot.
      obtain ⟨fault, loc⟩ := failure
      obtain rfl : loc = none := leaves.calm _ rfl
      have plain := Filter.eventually_top.mp ran none
      have start : states none = ⟨frame, (states none).console⟩ :=
        congrArg (Machine.mk · _) (there.frames none).symm
      rw [← (seen none).same trivial, start] at plain
      simp only [member, Diversion.never_interpreter, interpreter_after] at plain
      have raises : Raises run.patience s frame fault :=
        ⟨room - s.units, (states none).console, congrArg Prod.fst plain⟩
      rw [isSpot_iff.mpr (.inl ⟨fault, raises⟩)] at apart
      cases apart
    | _ => rfl
  · exact .inr (.inr parted)

private theorem node_concurs (run : Run) (room units : Nat) (s : Stmt) (frame : Frame) :
    (parting run).course.Keeps Serene s.manner frame
      (fun i => (member run i).interpret run.patience room units s) Course.Same := by
  induction room generalizing units s frame with
  | zero => exact Course.keeps_stopped rfl rfl
  | succ room ih =>
    cases units with
    | succ units => exact ih units s frame
    | zero =>
      by_cases here : isSpot run s frame = true
      · intro states there
        have start : ∀ i, states i = ⟨frame, (states i).console⟩ := fun i =>
          congrArg (Machine.mk · _) (there.frames i).symm
        obtain ⟨incident, rfl, rfl, stops⟩ := incident_at here (room + 1) (states none).console
        refine .inr (.inr ⟨incident, fun i reason laidDown => ?_⟩)
        cases i with
        | none =>
          have stopped := stops reason laidDown
          rw [← start none] at stopped
          simp only [member, Diversion.never_interpret, Eval.ended, stopped]
          exact ⟨rfl, trivial⟩
        | some report =>
          cases laidDown
          have broken : (member run (some report)).interpret run.patience (room + 1) 0
              incident.node (states (some report)) =
                (.error .tooMuchRoom, ⟨incident.frame, report incident.node incident.frame⟩) := by
            rw [start]
            simp only [member, Diversion.interpret, Diversion.breakOff, here, if_true]
          exact ⟨congrArg (fun ran => (Eval.ended ran).1) broken,
            congrArg (fun ran => (Eval.ended ran).2) broken⟩
      · have apart : isSpot run s frame = false := Bool.not_eq_true _ ▸ here
        have step : ∀ (i : Option (Stmt → Frame → Console)) (m : Machine), m.frame = frame →
            (member run i).interpret run.patience (room + 1) 0 s m =
              if room < Room.work then Eval.stop .outOfRoom m
              else Eval.located s.loc (Evaluation.stmt run.patience
                (((member run i).interpreter run.patience room).after s.units) s) m := by
          rintro i ⟨_, console⟩ rfl
          exact member_succ apart i room console
        by_cases short : room < Room.work
        · have refused : (parting run).course.Keeps Serene s.manner frame
              (fun _ => (Eval.stop .outOfRoom : Eval Value)) Course.Same :=
            Course.keeps_stopped rfl rfl
          refine refused.congr fun states there i => ?_
          rw [step i _ (there.frames i).symm, if_pos short]
        · have inner :=
            (concurring_of_serene placeless_calm placeless_of_serene ih).after s.units s.units
          refine ((rule_serene apart inner).locatedAt s.loc (fun _ _ => id)
            fun _ serene => Bool.noConfusion serene).congr fun states there i => ?_
          rw [step i _ (there.frames i).symm, if_neg short]

private theorem body_concurs (run : Run) :
    (parting run).course.Keeps Serene .body run.start
      (fun i => ((member run i).interpreter run.patience run.room).body run.program.body)
      Course.Same := by
  refine Course.keeps_body (fun _ => .refl _) fun s _ ss seen after _ => ?_
  obtain rfl : ss = fun _ => s := funext fun i => ((seen i).same trivial).symm
  exact (node_concurs run run.room Room.body s after).mono (fun _ _ _ _ => id) (fun _ => id)
    (.inBody _)

/-- The member's run of the body. -/
private noncomputable def bodyRun (run : Run) (i : Option (Stmt → Frame → Console)) :
    Eval (Option Value) :=
  Eval.catchReturn (((member run i).interpreter run.patience run.room).body run.program.body)

/-- What the member does with the result: it calls the main proc if that is asked
for. -/
private noncomputable def ending (run : Run) (i : Option (Stmt → Frame → Console))
    (result : Option Value) : Eval (Option Value) :=
  if run.withMain then
    Program.callMain ((member run i).interpreter run.patience run.room) run.program.loc >>=
      fun value => pure (some value)
  else pure result

/-- The member's run up to where lack of room is reported. -/
private noncomputable def unreported (run : Run) (i : Option (Stmt → Frame → Console)) :
    Eval (Option Value) :=
  bodyRun run i >>= ending run i

private theorem outcome_eq :
    run.outcome = (unreported run none).reportingRoom run.program.loc ⟨run.start, run.console⟩ := by
  rw [Run.outcome, ← Diversion.never_interpreter]
  rfl

private theorem diverted_eq (report : Stmt → Frame → Console) :
    run.diverted (.breakOff (isSpot run) report) =
      (unreported run (some report)).reportingRoom run.program.loc ⟨run.start, run.console⟩ :=
  rfl

/-- A failure with this reason is one to call the main proc: it has no place, or
it complains about `main` itself. -/
def OfMain (reason : Stop) : Prop :=
  ∀ failure, reason = .failed failure →
    failure.loc = none ∨ failure.fault = .eval .noMain ∨ failure.fault = .eval .mainNotAProc

private theorem ofMain_calm : Calm OfMain where
  returned _ := nofun
  fails _ _ _ := by
    rintro failure ⟨⟩
    exact .inl rfl

private theorem ofMain_of_serene (reason : Stop) (serene : Serene reason) : OfMain reason := by
  rintro failure rfl
  cases serene

private theorem ending_concurs (run : Run) (result : Option Value) (frame : Frame) :
    (parting run).course.Keeps OfMain .work frame (fun i => ending run i result) Course.Same := by
  by_cases withMain : run.withMain = true
  · have inner := concurring_of_serene ofMain_calm ofMain_of_serene (node_concurs run run.room)
    have admits : (parting run).course.AdmitsMain OfMain (some run.program.loc) := by
      refine ⟨trivial, fun _ _ => trivial, fun fault _ => ?_, ?_, fun bound _ _ => ?_⟩
      · rintro failure ⟨⟩
        exact .inl rfl
      · rintro failure ⟨⟩
        exact .inr (.inl rfl)
      · rintro failure ⟨⟩
        exact .inr (.inr rfl)
    simp only [ending, if_pos withMain]
    refine (inner.callMain admits trivial fun _ _ => rfl).bind ?_
    rintro value _ after _ rfl
    exact Course.keeps_done (some value)
  · simp only [ending, if_neg withMain]
    exact Course.keeps_done result

private theorem called_of_ending {result : Option Value} {m : Machine} {failure : Failure}
    (failed : (ending run none result m).1 = .error (.failed failure)) :
    run.withMain = true ∧
      (Program.callMain (interpreter run.patience run.room) run.program.loc m).1 =
        .error (.failed failure) := by
  by_cases withMain : run.withMain = true
  · rw [ending, if_pos withMain, member, Diversion.never_interpreter] at failed
    rcases called : Program.callMain (interpreter run.patience run.room) run.program.loc m with
      ⟨reason | value, last⟩
    · rw [Eval.bind_of_error called] at failed
      cases failed
      exact ⟨withMain, rfl⟩
    · rw [Eval.bind_of_ok called] at failed
      cases failed
  · rw [ending, if_neg withMain] at failed
    cases failed

private theorem reported_of_error {act : Eval (Option Value)} {loc : Loc} {m : Machine}
    {reason : Stop} (stopped : (act m).1 = .error reason) (roomy : reason ≠ .outOfRoom) :
    act.reportingRoom loc m = (.error reason, (act m).2) := by
  rw [Eval.reportingRoom_eq, stopped]
  cases reason with
  | outOfRoom => exact absurd rfl roomy
  | _ => rfl

private theorem lack_reported {act : Eval (Option Value)} {loc : Loc} {m : Machine}
    (lacks : (act m).1 = .error .outOfRoom) :
    (act.reportingRoom loc m).1 = .error (.failed ⟨.eval .nestingTooDeep, some loc⟩) := by
  rw [Eval.reportingRoom_eq, lacks]
  rfl

private theorem blamed_where_parted {failure : Failure} {incident : Incident run}
    (parted : ∀ i,
      (parting run).Meets i incident (Eval.ended (unreported run i ⟨run.start, run.console⟩)))
    (failed : run.outcome.1 = .error (.failed failure))
    (enough : (unreported run none ⟨run.start, run.console⟩).1 ≠ .error .outOfRoom) :
    ∃ s frame,
      (∀ report, (run.diverted (.breakOff (isSpot run) report)).2.console = report s frame) ∧
      Raises run.patience s frame failure.fault ∧ failure.loc = some s.loc := by
  have reported : ∀ report, (run.diverted (.breakOff (isSpot run) report)).2.console =
      report incident.node incident.frame := by
    intro report
    obtain ⟨stopped, shown⟩ := parted (some report) .tooMuchRoom rfl
    rw [diverted_eq, reported_of_error (congrArg Prod.fst (Eval.eq_of_ended stopped)) nofun]
    exact shown
  rcases incident.cause with ⟨-, name, imports, never⟩ | lacks | ⟨fault, atNode, raises⟩
  · exact absurd ⟨incident.node, incident.frame, ⟨isSpot run, reported⟩, imports⟩ never
  · exact absurd (congrArg Prod.fst (Eval.eq_of_ended (parted none _ lacks).1)) enough
  · have stopped := congrArg Prod.fst (Eval.eq_of_ended (parted none _ atNode).1)
    rw [outcome_eq, reported_of_error stopped nofun] at failed
    cases failed
    exact ⟨incident.node, incident.frame, reported, raises, rfl⟩

/-- A run that fails can be broken off at the node that is to blame, unless it
is the call of the main proc that fails. -/
theorem broken_off_or_main {failure : Failure} (failed : run.outcome.1 = .error (.failed failure))
    (roomy : failure.fault ≠ .eval .nestingTooDeep) :
    (∃ s frame,
      (∀ report, (run.diverted (.breakOff (isSpot run) report)).2.console = report s frame) ∧
      Raises run.patience s frame failure.fault ∧ failure.loc = some s.loc) ∨
    (run.withMain = true ∧ OfMain (.failed failure) ∧ ∃ result m,
      Eval.catchReturn ((interpreter run.patience run.room).body run.program.body)
        ⟨run.start, run.console⟩ = (.ok result, m) ∧
      (Program.callMain (interpreter run.patience run.room) run.program.loc m).1 =
        .error (.failed failure)) := by
  -- Running out of room is excluded, since it would have been reported instead.
  have enough : (unreported run none ⟨run.start, run.console⟩).1 ≠ .error .outOfRoom := by
    intro lacks
    rw [outcome_eq, lack_reported lacks] at failed
    cases failed
    exact roomy rfl
  have itself : (unreported run none ⟨run.start, run.console⟩).1 = .error (.failed failure) := by
    rw [outcome_eq, Eval.reportingRoom] at failed
    split at failed
    · next lacks => exact absurd (congrArg Prod.fst lacks) enough
    · exact failed
  have body : (parting run).course.Keeps Serene .work run.start (bodyRun run) Course.Same :=
    (body_concurs run).catchReturn
  rcases body.conforms ⟨rfl, rfl⟩ (fun _ _ _ same => ⟨same, trivial⟩) (fun _ => run.console)
    trivial with ⟨outcome, after, consoles, -, ran, serene⟩ | ⟨incident, parted⟩
  · cases outcome with
    | error reason =>
      rw [unreported, Eval.bind_of_error (ran none)] at itself
      cases itself
      cases serene.stops _ rfl
    | ok result =>
      have goesOn : ∀ i, unreported run i ⟨run.start, run.console⟩ =
          ending run i result ⟨after, consoles i⟩ := fun i => Eval.bind_of_ok (ran i)
      rcases (ending_concurs run result after).conforms ⟨rfl, rfl⟩
        (fun _ _ _ same => ⟨same, trivial⟩) consoles trivial with
        ⟨_, _, _, -, ran', calm⟩ | ⟨incident, parted⟩
      · rw [goesOn] at itself
        obtain ⟨withMain, called⟩ := called_of_ending itself
        have plain : bodyRun run none ⟨run.start, run.console⟩ = _ := ran none
        rw [bodyRun, member, Diversion.never_interpreter] at plain
        exact .inr ⟨withMain, calm.stops _ ((congrArg Prod.fst (ran' none)).symm.trans itself),
          result, _, plain, called⟩
      · have met : ∀ i, (parting run).Meets i incident
            (Eval.ended (unreported run i ⟨run.start, run.console⟩)) :=
          fun i => (goesOn i).symm ▸ parted i
        exact .inl (blamed_where_parted met failed enough)
  · -- What would have followed does not matter once an end was laid down.
    have met : ∀ i, (parting run).Meets i incident
        (Eval.ended (unreported run i ⟨run.start, run.console⟩)) := by
      intro i reason laidDown
      obtain ⟨stopped, shown⟩ := parted i reason laidDown
      have passed : unreported run i ⟨run.start, run.console⟩ = _ :=
        Eval.bind_of_error (Eval.eq_of_ended stopped)
      rw [passed]
      exact ⟨rfl, shown⟩
    exact .inl (blamed_where_parted met failed enough)

end Breaking

section Sources
variable {run : Run} {source file : String} {s : Stmt}

/-- The node stands in the source of the program or in that of a library which
the run imports. -/
def Sourced (run : Run) (source file : String) (s : Stmt) : Prop :=
  StandsIn source file s ∨
    ∃ name text, run.Imports name ∧ Library.source? name = some text ∧
      StandsIn text (Library.file name) s

/-- A value that is stored for a name. -/
def IsValue (s : Stmt) : Prop :=
  ∃ value loc, s = .expr (.literal value loc)

private theorem stands_of_parse {program : Program}
    (parsed : Program.parse source file = .ok program ∨
      ∃ room, Program.parseWithin room source file = .ok program) :
    (Part.program program).Every fun s => StandsIn source file s ∨ IsValue s := by
  obtain ⟨tokens, read, laid, spelled, -⟩ := Standing.spelled_of_parse parsed
  refine Standing.every_of_stretch (Standing.program_has_stretch spelled) fun s below => ?_
  rcases Standing.spelled_or_supplied below with ⟨own, after, holds, spelled⟩ | ⟨token, -, rfl⟩
  · obtain ⟨first, rest, rfl, place⟩ := Standing.stmt_begins_at s own spelled
    refine .inl ⟨tokens, _, after, read, holds, spelled, ⟨first, rest, rfl, place⟩, ?_⟩
    rw [← place]
    exact Placement.laid_file laid first ((Standing.holds_sublist holds).mem List.mem_cons_self)
  · exact .inr ⟨.null, token.loc, rfl⟩

/-- What is evaluated stands in a source, beside the values of names. -/
def sources (run : Run) (source file : String) : Regime where
  node := Part.Every fun s => Sourced run source file s ∨ IsValue s
  loops _ := True
  calls _ _ := True
  imports := run.Imports
  stops _ := True
  parting := False
  inside := Part.Every.child
  resolved value _ := Part.every_literal (.inr ⟨value, _, rfl⟩)
  libraries imported known parsed := (stands_of_parse (.inr ⟨_, parsed⟩)).imp fun _ holds =>
    holds.imp_left fun stands => .inr ⟨_, _, imported, known, stands⟩
  calls_sameKeys _ called := called
  returns _ := trivial
  outOfRoom := trivial
  outOfPatience := trivial
  fails _ _ := trivial
  locates _ _ := trivial
  unreadable _ _ := trivial
  undefined _ _ _ := trivial

private theorem sourced_where_broken_off {frame : Frame}
    (node : (sources run source file).node (.program run.program))
    (reported : ∀ report,
      (run.diverted (.breakOff (isSpot run) report)).2.console = report s frame) :
    Sourced run source file s ∨ IsValue s := by
  apply @Run.holds_where_broken_off (fun s _ => Sourced run source file s ∨ IsValue s) run s frame
    (isSpot run) reported
  intro report other same
  have suits : Diversion.Suits (sources run source file) (Frame.Under (sources run source file))
      (.breakOff (isSpot run) report) (.breakOff (isSpot run) other) := by
    refine .breakOff trivial (fun s frame apart => ?_) fun s frame node _ => same s frame node.here
    refine ⟨fun _ _ => trivial, fun _ _ => trivial, fun name imports => ?_⟩
    refine Classical.byContradiction fun never => ?_
    rw [isSpot_iff.mpr (.inr ⟨name, imports, never⟩)] at apart
    cases apart
  have walks := suits.walks (Course.lasts_under _) (Course.enters_under _) run.patience run.room
  have keeps := Regime.keeps_program walks (Frame.under_of_fresh run.fresh) node trivial
    fun asked : run.withMain = true => ⟨fun _ _ => trivial, trivial⟩
  exact (Regime.conforms_of_keeps keeps (fun _ _ _ same => ⟨same, trivial⟩) run.console
    False.elim).1

private theorem values_raise_nothing {patience : Nat} {frame : Frame} {fault : Fault}
    (isValue : IsValue s) : ¬ Raises patience s frame fault := by
  rintro ⟨room, console, raised⟩
  obtain ⟨value, loc, rfl⟩ := isValue
  cases raised

end Sources

/-- Whatever a node finds wrong has a place. -/
theorem failure_placed (patience room units : Nat) (s : Stmt) (m : Machine) (failure : Failure)
    (failed : (interpret patience room units s m).1 = .error (.failed failure)) :
    failure.loc.isSome = true := by
  rw [Binding.interpret_units] at failed
  cases left : room - units with
  | zero =>
    rw [left] at failed
    cases failed
  | succ room =>
    rw [left] at failed
    by_cases short : room < Room.work
    · rw [interpret, if_pos short] at failed
      cases failed
    · rw [Binding.interpret_succ (by omega), Eval.located] at failed
      split at failed
      · cases failed
        rfl
      · next unfailing => exact (unfailing failure _ (Prod.ext failed rfl)).elim

/-- A failure of a running program points at the node that is to blame for it.
It has a place, which is that of a node that the run evaluates and whose own
rule finds the fault in the frame of that moment; a failure that comes out of a
node inside has a place of its own, so no node inside is to blame. The place is
that of the first token of the node, in the source of the program or in that of
a library which the run imports. -/
theorem failures_point_at_the_node_to_blame {source file : String} {run : Run} {failure : Failure}
    (parsed : Program.parse source file = .ok run.program ∨
      ∃ room, Program.parseWithin room source file = .ok run.program)
    (withoutMain : run.withMain = false) (failed : run.outcome.1 = .error (.failed failure))
    (roomy : failure.fault ≠ .eval .nestingTooDeep) :
    ∃ s frame, run.Evaluates s frame ∧ Raises run.patience s frame failure.fault ∧
      failure.loc = some s.loc ∧ Sourced run source file s ∧
      ∀ room units inner m other,
        (interpret run.patience room units inner m).1 = .error (.failed other) →
          other.loc.isSome = true := by
  obtain ⟨s, frame, reported, raises, place⟩ := (broken_off_or_main failed roomy).resolve_right
    fun main => Bool.false_ne_true (withoutMain.symm.trans main.1)
  have node : (sources run source file).node (.program run.program) :=
    (stands_of_parse parsed).imp fun _ => .imp_left .inl
  refine ⟨s, frame, ⟨isSpot run, reported⟩, raises, place, ?_, failure_placed run.patience⟩
  rcases sourced_where_broken_off node reported with sourced | isValue
  · exact sourced
  · exact absurd raises (values_raise_nothing isValue)

/-- A name without a value inside a comparison, inside two calls. -/
def unboundName : String :=
  "proc f(x) then return x is nope end proc g(y) then f(y) end g(\"a\")"

/-- The complaint about it, at the name and not at the comparison. -/
def unboundNameFailure : Failure :=
  ⟨.eval (.undefined ["nope"]), some ⟨"f", ⟨1, 28⟩⟩⟩

/-- Whether a source is read as a program that fails in the given way. -/
def failsWith (source : String) (failure : Failure) : Bool :=
  match Program.parse source "f" with
  | .ok program =>
    decide ((program.eval (interpreter 0 200) false ⟨{}, {}⟩).1 = .error (.failed failure))
  | .error _ => false

theorem unbound_name_is_to_blame :
    ∃ run : Run, Program.parse unboundName "f" = .ok run.program ∧ run.withMain = false ∧
      run.outcome.1 = .error (.failed unboundNameFailure) ∧
      ∃ s frame, run.Evaluates s frame ∧ Raises run.patience s frame unboundNameFailure.fault ∧
        unboundNameFailure.loc = some s.loc ∧ Sourced run unboundName "f" s := by
  have fails : failsWith unboundName unboundNameFailure = true := by decide +kernel
  unfold failsWith at fails
  cases parsed : Program.parse unboundName "f" with
  | error failure =>
    rw [parsed] at fails
    cases fails
  | ok program =>
    rw [parsed] at fails
    let run : Run := ⟨program, false, 0, 200, {}, {}, rfl⟩
    have failed : run.outcome.1 = .error (.failed unboundNameFailure) := of_decide_eq_true fails
    obtain ⟨s, frame, evaluates, raises, place, sourced, -⟩ :=
      failures_point_at_the_node_to_blame (.inl parsed) (show run.withMain = false from rfl) failed
        (by simp [unboundNameFailure])
    exact ⟨run, rfl, rfl, failed, s, frame, evaluates, raises, place, sourced⟩

end Blame

end BasilLang
