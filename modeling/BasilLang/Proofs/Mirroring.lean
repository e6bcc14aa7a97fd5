import BasilLang.Proofs.Obedience

/-! Evaluation does not look at places. Two runs over trees that differ in
nothing but places, from frames that differ in nothing but places, mirror each
other: they write the same, end with the same value or the same fault, and
leave frames that differ in nothing but places. This holds at every room and
every patience, so it holds for runs that use them up as well. It is what the
rules keep if places are not seen. -/
namespace BasilLang

/-- Reasons to stop that differ at most in where a failure is reported. -/
inductive Stop.Alike : Stop → Stop → Prop where
  | same (stop : Stop) : Stop.Alike stop stop
  | failed (fault : Fault) (loc loc' : Option Loc) :
    Stop.Alike (.failed ⟨fault, loc⟩) (.failed ⟨fault, loc'⟩)

private theorem Stop.Alike.of_unplaced {stop stop' : Stop} (same : stop.unplaced = stop'.unplaced) :
    stop.Alike stop' := by
  have seen : Seen False Stop.unplaced stop stop' := ⟨same, False.elim⟩
  cases stop with
  | failed failure =>
    obtain ⟨loc', rfl, -⟩ := seen.failed
    exact .failed failure.fault failure.loc loc'
  | _ =>
    rw [seen.eq_of_stop rfl]
    exact .same _

/-- States with alike frames and the same output. The logs may differ, since
they tell of places. -/
structure Machine.Alike (m m' : Machine) : Prop where
  frame : m.frame.Alike m'.frame
  out : m.console.out = m'.console.out

namespace Eval
variable {α : Type} {same : α → α → Prop}

/-- Both have a result, and these are related, or none has, for reasons that
are alike. -/
def Agree (same : α → α → Prop) : Except Stop α → Except Stop α → Prop
  | .ok a, .ok a' => same a a'
  | .error stop, .error stop' => stop.Alike stop'
  | .ok _, .error _ | .error _, .ok _ => False

/-- From states that are alike, two actions end alike. -/
def Mirrors (same : α → α → Prop) (act act' : Eval α) : Prop :=
  ∀ m m', m.Alike m' → Agree same (act m).1 (act' m').1 ∧ (act m).2.Alike (act' m').2

/-- The two ways in which outcomes can agree. -/
theorem Agree.cases {outcome outcome' : Except Stop α} (agree : Agree same outcome outcome') :
    (∃ a a', outcome = .ok a ∧ outcome' = .ok a' ∧ same a a') ∨
      ∃ stop stop', outcome = .error stop ∧ outcome' = .error stop' ∧ stop.Alike stop' := by
  cases outcome with
  | ok a =>
    cases outcome' with
    | ok a' => exact .inl ⟨a, a', rfl, rfl, agree⟩
    | error stop' => exact agree.elim
  | error stop =>
    cases outcome' with
    | ok a' => exact agree.elim
    | error stop' => exact .inr ⟨stop, stop', rfl, rfl, agree⟩

end Eval

/-- Places are not seen, neither in trees nor in what is bound. -/
def Sight.blind : Sight where
  exact := False
  whole := True
  names _ := True
  stores _ := True
  frames := Frame.Alike
  all _ := {
    refl := fun _ => rfl
    place := fun alike => alike.place.2
    paths := fun alike => alike.paths
    reads := fun alike exprs => alike.reads? exprs.alike
    markConstant := fun path alike => congrArg (Frame.markConstant · path) alike
    within := fun scope alike => alike.within scope
    deeper := fun alike => .of_map alike.deeper
    mergeUnder := fun top alike inners => alike.mergeUnder inners top
    addLibrary := fun alike libraries => alike.addLibrary libraries }
  names_whole _ _ := trivial
  stores_whole _ _ := trivial
  stores_value _ _ := trivial
  lookup {frame frame' path} alike _ := by
    rcases both_or_none (alike.lookup path) with ⟨none, none'⟩ | ⟨b, b', held, held', bounds⟩
    · rw [none, none']
      exact .none
    · rw [held, held']
      exact .some ⟨trivial, bounds, False.elim⟩
  isConstant {_ _ path} alike _ := congrArg (List.contains · path) alike.place.1
  put path alike _ bounds := alike.put bounds.alike path
  bind path alike _ bounds := alike.bind bounds.alike path
  mergeExisting alike inners := alike.mergeExisting inners

namespace Mirroring
variable {α : Type} {manner : Manner} {start : Frame}

/-- Two runs that write the same, places apart. -/
def course : Course Bool where
  sight := .blind
  regime := .free
  most := ⊤
  alike consoles := (consoles true).out = (consoles false).out
  parted _ := False
  alike_write text same := congrArg (· ++ text) same
  alike_note _ _ same := same
  parts := False.elim

/-- What keeps to this course in every frame is mirrored. -/
theorem mirrors_of_keeps {acts : Bool → Eval α}
    (keeps : ∀ start, course.Keeps (fun _ => True) manner start acts Course.Same) :
    Eval.Mirrors Eq (acts true) (acts false) := by
  intro m m' alike
  have both : ∀ {after : Frame} {states : Bool → Machine}, course.At after states →
      (states true).Alike (states false) := fun there =>
    ⟨(there.frames true).symm.trans (there.frames false), there.consoles⟩
  have here : course.At m.frame fun first => cond first m m' := by
    refine ⟨fun first => ?_, alike.out⟩
    cases first with
    | true => exact rfl
    | false => exact alike.frame
  rcases (keeps m.frame).cases rfl here with ⟨a, as, after, states, ran, there, -, same⟩ |
    ⟨reason, reasons, after, states, ran, there, seen, -⟩ | impossible
  · have done : acts true m = _ := ran true
    have done' : acts false m' = _ := ran false
    rw [done, done', same]
    exact ⟨rfl, both there⟩
  · have stopped : acts true m = _ := ran true
    have stopped' : acts false m' = _ := ran false
    rw [stopped, stopped']
    exact ⟨.of_unplaced ((seen true).alike.symm.trans (seen false).alike), both there⟩
  · exact impossible.elim

section Interpreter
variable {patience room : Nat}

private theorem walks_of_nodes
    (nodes : ∀ units s start (ss : Bool → Stmt), (∀ i, Seen False Stmt.unplaced s (ss i)) →
      course.Keeps (fun _ => True) s.manner start (fun i => interpret patience room units (ss i))
        Course.Same) :
    course.Walks (fun _ => True) (fun _ => True) (fun _ => True)
      (fun s => Regime.free.node (.ofStmt s)) (fun _ => interpreter patience room)
      (fun _ => interpreter patience room) := by
  have minds : course.Minds (fun _ => True) (fun _ => True)
      (fun s => Regime.free.node (.ofStmt s)) (fun _ => interpreter patience room) := by
    refine ⟨⟨fun _ _ => trivial, fun _ _ => trivial⟩, ⟨fun _ => trivial, fun _ _ _ => trivial⟩,
      lasting_trivial.lasts fun _ => trivial, id,
      fun units {s start ss} _ _ seen => nodes units s start ss seen,
      fun units more {start} => Course.keeps_require (fun _ => rfl) trivial units more, ?_⟩
    intro units name source start _ _
    exact (Course.keeps_readLibrary (fun _ => rfl) trivial (fun _ _ => trivial) units).weaken
      fun _ _ _ _ read => ⟨read.1, fun _ _ => trivial⟩
  exact ⟨minds, minds, lasting_trivial.enters⟩

private theorem node_keeps (units : Nat) (s : Stmt) (start : Frame) (ss : Bool → Stmt)
    (seen : ∀ i, Seen False Stmt.unplaced s (ss i)) :
    course.Keeps (fun _ => True) s.manner start (fun i => interpret patience room units (ss i))
      Course.Same := by
  induction room generalizing units s start ss with
  | zero =>
    simp only [interpret]
    exact Course.keeps_stopped trivial rfl
  | succ room ih =>
    cases units with
    | succ units => exact ih units s start ss seen
    | zero =>
      simp only [interpret]
      by_cases tight : room < Room.work
      · simp only [if_pos tight]
        exact Course.keeps_stopped trivial rfl
      · have step := ((walks_of_nodes ih).after s.units s.units).statement trivial trivial
          ⟨Regime.free_allows start s, fun _ _ => trivial, fun _ => trivial, fun _ _ _ => trivial⟩
          (fun _ _ => trivial) seen patience
        simp only [if_neg tight, ← Stmt.Alike.units (seen _).alike]
        -- Places are not seen on this course, so the two need not have the same.
        have places : ∀ i, course.sight.exact → (ss i).loc = s.loc := fun _ => False.elim
        refine (step.located places (fun _ _ => id) fun _ _ => trivial).congr fun states _ i => ?_
        rw [Nesting.stmt_same]
        rfl

/-- The interpreter does not look at places, whatever its room. -/
theorem blind_interpreter (patience room : Nat) :
    course.Walks (fun _ => True) (fun _ => True) (fun _ => True)
      (fun s => Regime.free.node (.ofStmt s)) (fun _ => interpreter patience room)
      (fun _ => interpreter patience room) :=
  walks_of_nodes node_keeps

end Interpreter

private theorem seen_of_alike {ss ss' : List Stmt} (bodies : AlikeStmts ss ss') (first : Bool) :
    Seen False (List.map Stmt.unplaced) ss (cond first ss ss') := by
  cases first with
  | true => exact .refl ss
  | false =>
    simp only [AlikeStmts, unplacedStmts_eq_map] at bodies
    exact ⟨bodies, False.elim⟩

/-- Bodies that differ in places only do the same. -/
theorem mirrors_body (patience room : Nat) {ss ss' : List Stmt} (bodies : AlikeStmts ss ss') :
    Eval.Mirrors Eq ((interpreter patience room).body ss) ((interpreter patience room).body ss') :=
  @mirrors_of_keeps _ .body (fun first => (interpreter patience room).body (cond first ss ss'))
    fun _ => (blind_interpreter patience room).near.body trivial (fun _ _ => trivial)
      (seen_of_alike bodies)

/-- Programs that differ in places only do the same, in every room and for
every patience. -/
theorem mirrors_program (patience room : Nat) (withMain : Bool) {program program' : Program}
    (bodies : AlikeStmts program.body program'.body) :
    Eval.Mirrors Eq (program.eval (interpreter patience room) withMain)
      (program'.eval (interpreter patience room) withMain) := by
  have seen : ∀ first, Seen False (List.map Stmt.unplaced) program.body
      (cond first program program').body := by
    intro first
    have seen := seen_of_alike bodies first
    cases first <;> exact seen
  exact @mirrors_of_keeps _ .work
    (fun first => (cond first program program').eval (interpreter patience room) withMain)
    fun start => (blind_interpreter patience room).program False.elim trivial
      (fun _ _ => trivial) seen (fun _ => False.elim) (fun _ _ => id) (fun _ => trivial) fun _ =>
        ⟨trivial, fun _ _ => trivial, fun _ _ => trivial, trivial, fun _ _ _ => trivial⟩

end Mirroring

end BasilLang
