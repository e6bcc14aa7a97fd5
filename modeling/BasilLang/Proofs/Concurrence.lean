import BasilLang.Proofs.Binding
import BasilLang.Proofs.Narrowing

/-! Evaluations that go the same way until they part. The members of a family do
the same in every state unless one of some incidents occurs, upon which it is
laid down for each member how it ends, if anything is. This is a course: until
the first incident the members cannot be told apart, and what follows it does
not matter, since an end that is laid down is passed on unchanged. Evaluation in
less room is set beside that in more in this way; they part where the first runs
out of room. -/
namespace BasilLang

/-- How the members of a family end once an incident has occurred. -/
structure Parting (ι Incident : Type) where
  /-- The reason why the member stops, if one is laid down. -/
  ends : ι → Incident → Option Stop
  /-- What it leaves on the console in that case. -/
  shows : ι → Incident → Console → Prop
  /-- What the consoles of the members have in common. -/
  alike : (ι → Console) → Prop
  final : ∀ {i incident reason}, ends i incident = some reason → reason.isFinal = true
  alike_step : ∀ {consoles} (step : Console → Console), alike consoles →
    alike fun i => step (consoles i)

namespace Parting
variable {ι Incident : Type}

/-- The member has ended as laid down. -/
def Meets (parting : Parting ι Incident) (i : ι) (incident : Incident)
    (ended : Option Stop × Console) : Prop :=
  ∀ reason, parting.ends i incident = some reason →
    ended.1 = some reason ∧ parting.shows i incident ended.2

/-- The members do the same until an incident occurs. -/
def course (parting : Parting ι Incident) : Course ι :=
  .plainly .free parting.alike
    (fun ends => ∃ incident, ∀ i, parting.Meets i incident (ends i)) parting.alike_step
    fun ⟨incident, meets⟩ passes => by
      refine ⟨incident, fun i reason laidDown => ?_⟩
      obtain ⟨stopped, shown⟩ := meets i reason laidDown
      rw [passes i reason (parting.final laidDown) stopped]
      exact ⟨stopped, shown⟩

/-- Until they part, the members may come upon everything. -/
theorem admits (parting : Parting ι Incident) {calm : Stop → Prop}
    (fails : ∀ fault, calm (.failed ⟨.eval fault, none⟩))
    (undefined : ∀ cause, calm (.undefined cause)) (outOfPatience : calm .outOfPatience)
    (frame : Frame) (s : Stmt) : parting.course.Admits calm frame s where
  toAllows := Regime.free_allows frame s
  undefined _ := undefined
  impatient _ := outOfPatience
  refuses _ fault _ := fails fault

end Parting

/-- The members of a family of meanings part only as laid down, whatever they
evaluate. -/
abbrev Concurring {ι Incident : Type} (parting : Parting ι Incident) (calm : Stop → Prop)
    (inside : ι → Meaning) : Prop :=
  parting.course.Walks calm (fun _ => True) (fun _ => True) (fun s => Regime.free.node (.ofStmt s))
    inside inside

/-- They keep to the course in the frames of some kind if they do on every node,
and if they agree on what there is room for. -/
theorem Parting.minds {ι Incident : Type} {parting : Parting ι Incident} {calm : Stop → Prop}
    {P : Frame → Prop} {inside : ι → Meaning} (isCalm : Calm calm)
    (lasts : parting.course.Lasts P)
    (nodes : ∀ units s frame, P frame → parting.course.Keeps calm s.manner frame
      (fun i => (inside i).node units s) Course.Same)
    (room : ∀ units more frame, parting.course.Keeps calm .value frame
      (fun i => ((inside i).after units).require more) Course.Same)
    (library : ∀ units name source frame, Library.source? name = some source →
      parting.course.Keeps calm .value frame
        (fun i => Evaluation.readLibrary ((inside i).after units) name source) Course.Same) :
    parting.course.Minds calm P (fun s => Regime.free.node (.ofStmt s)) inside := by
  refine ⟨⟨fun _ _ => trivial, fun _ _ => trivial⟩, isCalm, lasts, id, ?_,
    fun units more {frame} => room units more frame, ?_⟩
  · intro units s start ss holds _ seen
    obtain rfl : ss = fun _ => s := funext fun i => ((seen i).same trivial).symm
    exact nodes units s start holds
  · intro units name source start _ known
    exact (library units name source start known).weaken fun _ _ _ _ same =>
      ⟨same, fun _ _ => trivial⟩

/-- They concur if they do on every node. -/
theorem concurring_of_nodes {ι Incident : Type} {parting : Parting ι Incident}
    {calm : Stop → Prop} {inside : ι → Meaning} (isCalm : Calm calm)
    (nodes : ∀ units s frame, parting.course.Keeps calm s.manner frame
      (fun i => (inside i).node units s) Course.Same)
    (room : ∀ units more frame, parting.course.Keeps calm .value frame
      (fun i => ((inside i).after units).require more) Course.Same)
    (library : ∀ units name source frame, Library.source? name = some source →
      parting.course.Keeps calm .value frame
        (fun i => Evaluation.readLibrary ((inside i).after units) name source) Course.Same) :
    Concurring parting calm inside := by
  have minds : parting.course.Minds calm (fun _ => True) (fun s => Regime.free.node (.ofStmt s))
      inside :=
    Parting.minds isCalm (lasting_trivial.lasts fun _ => trivial)
      (fun units s frame _ => nodes units s frame) room library
  exact ⟨minds, minds, lasting_trivial.enters⟩

namespace Narrowing
variable {α : Type} {sameConsole : Prop} {patience room room' : Nat} {frame : Frame}
  {manner : Manner}

/-- Two evaluations, the first of which may run out of room; only then do they
part. They may be asked to start with the same console. -/
def inLessRoom (sameConsole : Prop) : Parting Bool Unit where
  ends roomy _ := if roomy then none else some .outOfRoom
  shows _ _ _ := True
  alike consoles := sameConsole → consoles false = consoles true
  final := by
    intro roomy _ reason ends
    cases roomy <;> cases ends
    rfl
  alike_step step alike asked := congrArg step (alike asked)

/-- In each frame, the action ends as with more room, or runs out of room. -/
abbrev Keeps (sameConsole : Prop) (manner : Manner) (frame : Frame) (act : Bool → Eval α) : Prop :=
  (inLessRoom sameConsole).course.Keeps (fun _ => True) manner frame act Course.Same

private theorem lacking {act : Bool → Eval α} (stops : act false = Eval.stop .outOfRoom) :
    Keeps sameConsole manner frame act := by
  refine fun states _ => .inr (.inr ⟨(), fun roomy reason laidDown => ?_⟩)
  cases roomy with
  | true => cases laidDown
  | false =>
    cases laidDown
    dsimp only
    rw [stops]
    exact ⟨rfl, trivial⟩

private theorem same_for_both {act : Bool → Eval α} (same : act false = act true)
    (keeps : Keeps sameConsole manner frame fun _ => act true) :
    Keeps sameConsole manner frame act := by
  have both : act = fun _ => act true := by
    funext roomy
    cases roomy
    · exact same
    · rfl
  rw [both]
  exact keeps

private theorem concurring_of_less (less : room ≤ room')
    (nodes : ∀ units s frame, Keeps sameConsole s.manner frame fun roomy =>
      interpret patience (if roomy then room' else room) units s) :
    Concurring (inLessRoom sameConsole) (fun _ => True) fun roomy =>
      interpreter patience (if roomy then room' else room) := by
  refine concurring_of_nodes ⟨fun _ => trivial, fun _ _ _ => trivial⟩ nodes ?_ ?_
  · intro units more frame
    by_cases enough : more ≤ room - units
    · have enough' : more ≤ room' - units := by omega
      apply same_for_both
      · simp [Meaning.require, Meaning.after, interpreter, enough, enough']
      · simp only [Meaning.require, Meaning.after, interpreter, if_true, if_pos enough']
        exact Course.keeps_done ()
    · apply lacking
      simp [Meaning.require, Meaning.after, interpreter, enough]
  · intro units name source frame known
    have less' : room - units - Room.reading ≤ room' - units - Room.reading := by omega
    simp only [Evaluation.readLibrary, Meaning.after, interpreter]
    rcases source_in_less_room less' source (Library.file name) with same | ⟨loc, lacks⟩
    · apply same_for_both
      · simp [same]
      · simp only [if_true]
        cases Program.parseWithin (room' - units - Room.reading) source (Library.file name) with
        | ok program => exact Course.keeps_done program
        | error failure =>
          refine Course.keeps_stopped trivial ?_
          split <;> rfl
    · apply lacking
      simp [lacks]

private theorem node_in_less_room (less : room ≤ room') (units : Nat) (s : Stmt) (frame : Frame) :
    Keeps sameConsole s.manner frame fun roomy =>
      interpret patience (if roomy then room' else room) units s := by
  induction room generalizing room' units s frame with
  | zero => exact lacking rfl
  | succ room ih =>
    obtain ⟨room', rfl⟩ : ∃ more, room' = more + 1 := ⟨room' - 1, by omega⟩
    cases units with
    | succ units =>
      refine (ih (show room ≤ room' by omega) units s frame).congr fun states _ roomy => ?_
      cases roomy <;> rfl
    | zero =>
      by_cases short : room < Room.work
      · apply lacking
        simp only [interpret, Bool.false_eq_true, if_false, if_pos short]
      · have inner := (concurring_of_less (show room ≤ room' by omega)
          (ih (show room ≤ room' by omega))).after s.units s.units
        have step := inner.statement trivial trivial ((inLessRoom sameConsole).admits
          (fun _ => trivial) (fun _ => trivial) trivial frame s) (fun _ _ => trivial)
          (fun _ => .refl s) patience
        refine (step.locatedAt s.loc (fun _ _ => id) fun _ _ => trivial).congr
          fun states _ roomy => ?_
        rw [Nesting.stmt_same]
        cases roomy
        · exact congrFun (Binding.interpret_succ (by omega) s) _
        · exact congrFun (Binding.interpret_succ (by omega) s) _

/-- All that is inside, in less room. -/
theorem inside_in_less_room (patience : Nat) (less : room ≤ room') :
    Concurring (inLessRoom sameConsole) (fun _ => True) fun roomy =>
      interpreter patience (if roomy then room' else room) :=
  concurring_of_less less (node_in_less_room less)

/-- In less room an action ends as in more, unless it runs out of room. -/
theorem ends_in_less_room {act : Bool → Eval α} (keeps : Keeps sameConsole manner frame act)
    {console console' : Console} (same : sameConsole → console = console') :
    (act false ⟨frame, console⟩).1 = .error .outOfRoom ∨
      (act false ⟨frame, console⟩).1 = (act true ⟨frame, console'⟩).1 ∧
      (act false ⟨frame, console⟩).2.frame = (act true ⟨frame, console'⟩).2.frame ∧
      (sameConsole →
        (act false ⟨frame, console⟩).2.console = (act true ⟨frame, console'⟩).2.console) := by
  rcases keeps.conforms ⟨rfl, rfl⟩ (fun _ _ _ same => ⟨same, trivial⟩)
    (fun roomy => if roomy then console' else console) same with
    ⟨outcome, after, consoles, alike, ran, -⟩ | ⟨_, parted⟩
  · right
    have small : act false ⟨frame, console⟩ = _ := ran false
    have large : act true ⟨frame, console'⟩ = _ := ran true
    rw [small, large]
    exact ⟨rfl, rfl, alike⟩
  · exact .inl (congrArg Prod.fst (Eval.eq_of_ended (parted false .outOfRoom rfl).1))

/-- In less room an action does what it does in more, unless it runs out of
room. -/
theorem same_in_less_room {act : Bool → Eval α} {m : Machine}
    (keeps : Keeps True manner m.frame act) :
    (act false m).1 = .error .outOfRoom ∨ act false m = act true m := by
  have states : ∀ m m' : Machine, m.frame = m'.frame → m.console = m'.console → m = m' := by
    rintro ⟨frame, console⟩ ⟨_, _⟩ rfl rfl
    rfl
  rcases @ends_in_less_room _ _ _ _ _ keeps m.console m.console fun _ => rfl with
    lacks | ⟨ending, frames, consoles⟩
  · exact .inl lacks
  · exact .inr (Prod.ext ending (states _ _ frames (consoles trivial)))

/-- A statement in less room. -/
theorem stmt_in_less_room (patience : Nat) (less : room ≤ room') (s : Stmt) (m : Machine) :
    ((interpreter patience room).stmt s m).1 = .error .outOfRoom ∨
      (interpreter patience room).stmt s m = (interpreter patience room').stmt s m :=
  same_in_less_room ((inside_in_less_room patience less).near.stmt trivial trivial fun _ => .refl s)

/-- A body in less room, or in the same with other things written before. -/
theorem body_in_less_room (patience : Nat) (less : room ≤ room') (body : List Stmt)
    (frame : Frame) : Keeps sameConsole .body frame fun roomy =>
      (interpreter patience (if roomy then room' else room)).body body :=
  (inside_in_less_room patience less).near.body trivial (fun _ _ => trivial) fun _ => .refl body

/-- The rule of a node in less room. -/
theorem rule_in_less_room (patience : Nat) (less : room ≤ room') (s : Stmt) (frame : Frame)
    (console console' : Console) :
    (Evaluation.stmt patience (interpreter patience room) s ⟨frame, console⟩).1 =
      .error .outOfRoom ∨
    (Evaluation.stmt patience (interpreter patience room) s ⟨frame, console⟩).1 =
      (Evaluation.stmt patience (interpreter patience room') s ⟨frame, console'⟩).1 := by
  have keeps := (@inside_in_less_room False _ _ patience less).statement trivial trivial
    ((inLessRoom False).admits (fun _ => trivial) (fun _ => trivial) trivial frame s)
    (fun _ _ => trivial) (fun _ => .refl s) patience
  simp only [Nesting.stmt_same] at keeps
  rcases @ends_in_less_room _ _ _ _ _ keeps console console' False.elim with lacks | ⟨same, -⟩
  · exact .inl lacks
  · exact .inr same

end Narrowing

end BasilLang
