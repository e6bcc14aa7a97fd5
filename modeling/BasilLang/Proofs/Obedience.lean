import BasilLang.Proofs.Rules

/-! Evaluation keeps to a regime: whatever node of the regime is evaluated, in a
frame that binds only such nodes, the frame evolves under the regime and the end
is one that the regime expects. Nothing is assumed about how evaluation ends.
Two runs are looked at side by side, each of which may be diverted at chosen
spots, so that a run can be set beside one that is broken off. -/
namespace BasilLang

/-- Another meaning for some nodes in some frames. -/
structure Diversion where
  spots : Stmt → Frame → Bool
  instead : Stmt → Eval Value

namespace Diversion

/-- The interpreter with a diversion: a node at one of the spots is given the
other meaning. -/
def interpret (diversion : Diversion) (patience : Nat) : Nat → Nat → Stmt → Eval Value
  | 0, _, _ => Eval.stop .outOfRoom
  | room + 1, units + 1, s => diversion.interpret patience room units s
  | room + 1, 0, s => fun m =>
    if diversion.spots s m.frame then diversion.instead s m
    else if room < Room.work then Eval.stop .outOfRoom m
    else Eval.located s.loc (Evaluation.stmt patience
      ⟨room - s.units, fun units => diversion.interpret patience room (units + s.units)⟩ s) m

/-- The meanings that are left with the given room. -/
def interpreter (diversion : Diversion) (patience room : Nat) : Meaning :=
  ⟨room, diversion.interpret patience room⟩

/-- The diversion that never takes place. -/
def never : Diversion := ⟨fun _ _ => false, fun _ => .stop .outOfRoom⟩

theorem never_interpret (patience room units : Nat) (s : Stmt) :
    never.interpret patience room units s = BasilLang.interpret patience room units s := by
  induction room generalizing units s with
  | zero => rfl
  | succ room ih =>
    cases units with
    | succ units => exact ih units s
    | zero =>
      funext m
      have inner : never.interpret patience room = BasilLang.interpret patience room :=
        funext fun units => funext fun s => ih units s
      have apart : ¬ never.spots s m.frame = true := nofun
      simp only [interpret, BasilLang.interpret, inner, if_neg apart]
      split <;> rfl

/-- Without a diversion this is the interpreter. -/
theorem never_interpreter (patience room : Nat) :
    never.interpreter patience room = BasilLang.interpreter patience room := by
  unfold interpreter BasilLang.interpreter
  congr
  funext units s
  exact never_interpret patience room units s

/-- Breaks evaluation off at the first node that passes a test, and reports the
node and the frame. -/
def breakOff (test : Stmt → Frame → Bool) (report : Stmt → Frame → Console) : Diversion :=
  ⟨test, fun s m => (.error .tooMuchRoom, ⟨m.frame, report s m.frame⟩)⟩

/-- Breaks evaluation off at every spot. -/
def halting (spots : Stmt → Frame → Bool) : Diversion :=
  ⟨spots, fun _ => Eval.stop .tooMuchRoom⟩

end Diversion

private theorem EvalFault.isOrdinary_of_isDepth {fault : EvalFault} (deep : fault.isDepth = true) :
    fault.isOrdinary = true := by
  cases fault <;> first | rfl | cases deep

namespace Regime
variable {regime : Regime}

/-- A regime that expects everything. -/
def free : Regime :=
  { unguarded (fun _ => True) (fun _ _ => True) fun _ _ => trivial with parting := False }

/-- A regime that expects everything asks nothing of a node. -/
theorem free_allows (frame : Frame) (s : Stmt) : free.Allows frame s :=
  ⟨fun _ _ => trivial, fun _ _ => trivial, fun _ _ => trivial⟩

/-- Two runs that do the same under a regime, unless they part because the first
is broken off. -/
def beside (regime : Regime) : Course Bool :=
  .plainly regime (fun consoles => consoles true = consoles false)
    (fun ends => regime.parting ∧ (ends true).1 = some .tooMuchRoom)
    @Course.one_console
    fun parted passes => by
      have same := passes true .tooMuchRoom rfl parted.2
      exact ⟨parted.1, by rw [same]; exact parted.2⟩

/-- Nothing is hidden from two runs side by side. -/
theorem beside_sees (regime : Regime) : regime.beside.Sees :=
  ⟨fun _ _ => trivial, fun _ _ => trivial⟩

private theorem beside_partsInRoom (regime : Regime) : regime.beside.PartsInRoom := by
  rintro ends ends' ⟨parting, broken⟩ same
  have unchanged := same true (by rw [broken]; nofun)
  exact ⟨parting, by rw [unchanged]; exact broken⟩

private theorem isCalm (regime : Regime) : Calm regime.stops :=
  ⟨regime.returns, fun fault ordinary _ => regime.fails fault ordinary⟩

/-- What a regime allows, two runs side by side may come upon. -/
theorem admits {frame : Frame} {s : Stmt} (node : regime.node (.ofStmt s))
    (allows : regime.Allows frame s) : regime.beside.Admits regime.stops frame s where
  toAllows := allows
  undefined isPartial cause := regime.undefined cause node isPartial
  impatient _ := regime.outOfPatience
  refuses _ fault deep := regime.fails fault (EvalFault.isOrdinary_of_isDepth deep)

/-- Meanings that have the same room keep to a regime if they do on every node. -/
theorem walks_of_nodes {P : Frame → Prop} {inside : Bool → Meaning} {room : Nat}
    (lasts : regime.beside.Lasts P) (enters : regime.beside.Enters P P)
    (left : ∀ first, (inside first).left = room)
    (nodes : ∀ units {s frame}, P frame → regime.node (.ofStmt s) →
      regime.beside.Keeps regime.stops s.manner frame (fun first => (inside first).node units s)
        Course.Same) :
    regime.beside.Walks regime.stops P P (fun s => regime.node (.ofStmt s)) inside inside := by
  have minds : regime.beside.Minds regime.stops P (fun s => regime.node (.ofStmt s)) inside := by
    refine ⟨regime.beside_sees, regime.isCalm, lasts, id, ?_,
      fun units more {start} => Course.keeps_require left regime.outOfRoom units more, ?_⟩
    · intro units s start ss holds node seen
      obtain rfl : ss = fun _ => s := funext fun first => ((seen first).same trivial).symm
      exact nodes units holds node
    · intro units name source start imported known
      refine (Course.keeps_readLibrary left regime.outOfRoom 
        (fun parsed _ => regime.unreadable known parsed) units).weaken ?_
      rintro program _ _ _ ⟨same, room, parsed⟩
      exact ⟨same, fun s member =>
        regime.inside (regime.libraries imported known parsed) (List.mem_map_of_mem member)⟩
  exact ⟨minds, minds, enters⟩

end Regime

/-- Two meanings keep to a regime on all nodes. -/
abbrev Obedient (regime : Regime) (inside : Bool → Meaning) : Prop :=
  regime.beside.Walks regime.stops (Frame.Under regime) (Frame.Under regime)
    (fun s => regime.node (.ofStmt s)) inside inside

namespace Diversion
variable {regime : Regime} {P : Frame → Prop} {diversion other : Diversion} {frame : Frame}

/-- The regime allows every node that is not at a spot; the other diversion
takes place at no other spots, and what is done there instead is as the regime
has it. -/
structure Suits (regime : Regime) (P : Frame → Prop) (diversion other : Diversion) : Prop where
  allows : ∀ s frame, diversion.spots s frame = false → regime.Allows frame s
  spots : ∀ s frame, diversion.spots s frame = false → other.spots s frame = false
  instead : ∀ s frame, diversion.spots s frame = true → regime.node (.ofStmt s) → P frame →
    ∀ rule : Eval Value, regime.beside.Keeps regime.stops s.manner frame
      (fun first => cond first (diversion.instead s) fun m =>
        if other.spots s m.frame then other.instead s m else rule m) Course.Same

/-- The interpreter keeps to the regime. -/
theorem Suits.keeps (suits : Suits regime P diversion other) (lasts : regime.beside.Lasts P)
    (enters : regime.beside.Enters P P) (patience : Nat) {room units : Nat} {s : Stmt}
    (holds : P frame) (node : regime.node (.ofStmt s)) :
    regime.beside.Keeps regime.stops s.manner frame
      (fun first => (cond first diversion other).interpret patience room units s)
      Course.Same := by
  induction room generalizing units s frame with
  | zero =>
    simp only [interpret]
    exact Course.keeps_stopped regime.outOfRoom rfl
  | succ room ih =>
    cases units with
    | succ units => exact ih holds node
    | zero =>
      have inside : regime.beside.Walks regime.stops P P (fun s => regime.node (.ofStmt s))
          (fun first => ((cond first diversion other).interpreter patience room).after s.units)
          (fun first => ((cond first diversion other).interpreter patience room).after s.units) :=
        @Regime.walks_of_nodes _ _ _ (room - s.units) lasts enters (fun _ => rfl)
          fun _ _ _ holds node => ih holds node
      by_cases here : diversion.spots s frame = true
      · -- What the second run does here is its own rule, unless it is diverted too.
        refine (suits.instead s frame here node holds fun m =>
          if room < Room.work then Eval.stop .outOfRoom m
          else Eval.located s.loc (Evaluation.stmt patience
            ((other.interpreter patience room).after s.units) s) m).congr
          fun states there first => ?_
        have same : (states first).frame = frame := (there.frames first).symm
        cases first with
        | true =>
          simp only [interpret, cond_true, same, if_pos here]
          rfl
        | false => rfl
      · have apart : diversion.spots s frame = false := Bool.not_eq_true _ ▸ here
        have clear : ∀ first, (cond first diversion other).spots s frame = false := by
          intro first
          cases first
          · exact suits.spots s frame apart
          · exact apart
        by_cases short : room < Room.work
        · refine (Course.keeps_stopped regime.outOfRoom rfl).congr fun states there first => ?_
          have same : (states first).frame = frame := (there.frames first).symm
          simp only [interpret, same, clear first, if_pos short]
          rfl
        · have step := inside.statement holds node (regime.admits node (suits.allows s frame apart))
            (Regime.inner_nodes (lasts.under holds) node) (fun _ => .refl s) patience
          refine (step.locatedAt s.loc (fun _ _ => id)
            fun _ expected => regime.locates expected node).congr fun states there first => ?_
          have same : (states first).frame = frame := (there.frames first).symm
          simp only [interpret, same, clear first, if_neg short, Nesting.stmt_same]
          rfl

/-- All that is inside and all that is entered keeps to the regime. -/
theorem Suits.walks (suits : Suits regime P diversion other) (lasts : regime.beside.Lasts P)
    (enters : regime.beside.Enters P P) (patience room : Nat) :
    regime.beside.Walks regime.stops P P (fun s => regime.node (.ofStmt s))
      (fun first => (cond first diversion other).interpreter patience room)
      (fun first => (cond first diversion other).interpreter patience room) :=
  @Regime.walks_of_nodes _ _ _ room lasts enters (fun _ => rfl) fun _ _ _ holds node =>
    suits.keeps lasts enters patience holds node

/-- Evaluation that is broken off tells apart only the reports about what is not
to be expected. -/
theorem Suits.breakOff {test : Stmt → Frame → Bool} {report report' : Stmt → Frame → Console}
    (broken : regime.stops .tooMuchRoom)
    (allows : ∀ s frame, test s frame = false → regime.Allows frame s)
    (same : ∀ s frame, regime.node (.ofStmt s) → P frame → report s frame = report' s frame) :
    Suits regime P (.breakOff test report) (.breakOff test report') where
  allows := allows
  spots _ _ apart := apart
  instead s frame here node holds rule states there := by
    have here : test s frame = true := here
    refine .inr (.inl ⟨.tooMuchRoom, fun _ => .tooMuchRoom, frame,
      fun _ => ⟨frame, report s frame⟩, Filter.eventually_top.mpr fun first => ?_,
      ⟨fun _ => rfl, rfl⟩, fun _ => .refl _, .refl frame, broken, nofun⟩)
    have found : (states first).frame = frame := (there.frames first).symm
    cases first with
    | true =>
      change (_, Machine.mk (states true).frame (report s (states true).frame)) = _
      rw [found]
    | false =>
      change (if test s (states false).frame then (_, Machine.mk (states false).frame
        (report' s (states false).frame)) else rule (states false)) = _
      rw [found, if_pos here, same s frame node holds]

/-- Evaluation that is broken off may part from any other. -/
theorem Suits.halting {spots : Stmt → Frame → Bool} (parting : regime.parting)
    (allows : ∀ s frame, spots s frame = false → regime.Allows frame s) :
    Suits regime P (.halting spots) .never where
  allows := allows
  spots _ _ _ := rfl
  instead _ _ _ _ _ _ _ _ := .inr (.inr ⟨parting, rfl⟩)

/-- The interpreter itself, under a regime that allows everything. -/
theorem Suits.never (allows : ∀ s frame, regime.Allows frame s) :
    Suits regime P .never .never where
  allows s frame _ := allows s frame
  spots _ _ apart := apart
  instead _ _ here := absurd here Bool.false_ne_true

end Diversion

namespace Regime
variable {regime : Regime} {α : Type} {manner : Manner} {start : Frame} {act other : Eval α}
  {middle : α → (Bool → α) → Frame → Prop} {result : α → Frame → Prop}

/-- The interpreter keeps to a regime that allows everything. -/
theorem walks_interpreter {P : Frame → Prop} (lasts : regime.beside.Lasts P)
    (enters : regime.beside.Enters P P) (allows : ∀ s frame, regime.Allows frame s)
    (patience room : Nat) :
    regime.beside.Walks regime.stops P P (fun s => regime.node (.ofStmt s))
      (fun _ => interpreter patience room) (fun _ => interpreter patience room) := by
  have walks := (Diversion.Suits.never allows).walks lasts enters patience room
  simp only [Bool.cond_self, Diversion.never_interpreter] at walks
  exact walks

/-- What two runs have come to, unless the first was broken off. -/
theorem conforms_of_keeps {calm : Stop → Prop} {acts : Bool → Eval α}
    (keeps : regime.beside.Keeps calm manner start acts middle)
    (same : ∀ a as after, middle a as after → Course.Same a as after ∧ result a after)
    (console : Console)
    (whole : regime.parting → Eval.ending (acts true ⟨start, console⟩).1 ≠ some .tooMuchRoom) :
    acts true ⟨start, console⟩ = acts false ⟨start, console⟩ ∧
      Course.Conforms regime calm manner start result (acts true ⟨start, console⟩).1
        (acts true ⟨start, console⟩).2.frame := by
  rcases keeps.conforms ⟨rfl, rfl⟩ same (fun _ => console) rfl with
    ⟨outcome, after, consoles, alike, ran, conforms⟩ | ⟨parting, broken⟩
  · rw [ran true, ran false, alike]
    exact ⟨rfl, conforms⟩
  · exact absurd broken (whole parting)

/-- A program, in a frame that the regime comes upon. -/
theorem keeps_program {P : Frame → Prop} {inside : Bool → Meaning} {program : Program}
    {withMain : Bool}
    (walks : regime.beside.Walks regime.stops P P (fun s => regime.node (.ofStmt s)) inside inside)
    (holds : P start) (node : regime.node (.program program))
    (tooDeep : regime.stops (.failed ⟨.eval .nestingTooDeep, some program.loc⟩))
    (main : withMain = true → (∀ frame proc, regime.calls frame proc) ∧
      regime.stops (.failed ⟨.eval .noMain, some program.loc⟩)) :
    regime.beside.Keeps regime.stops .work start (fun first => program.eval (inside first) withMain)
      Course.Same := by
  refine walks.program regime.beside_partsInRoom holds
    (fun s member => regime.inside node (List.mem_map_of_mem member)) (fun _ => .refl _)
    (fun _ _ => rfl) (fun _ _ => id) (fun _ => tooDeep) fun asked => ?_
  obtain ⟨calls, missing⟩ := main asked
  refine ⟨trivial, calls, fun fault deep => ?_, missing, fun bound node notProc => ?_⟩
  · exact regime.fails fault (EvalFault.isOrdinary_of_isDepth deep)
  · cases bound with
    | declared => cases notProc
    | expr e => exact @regime.locates _ (.expr e) (regime.fails .mainNotAProc rfl) node

/-- What is made of a submitted program. -/
theorem keeps_reply {P : Frame → Prop} {inside : Bool → Meaning} {program : Program}
    (walks : regime.beside.Walks regime.stops P P (fun s => regime.node (.ofStmt s)) inside inside)
    (holds : P start) (node : regime.node (.program program))
    (tooDeep : regime.stops (.failed ⟨.eval .nestingTooDeep, some program.loc⟩)) :
    regime.beside.Keeps regime.stops .body start
      (fun first => Session.reply program (inside first)) Course.Same := by
  by_cases echoed : ∃ s, program.body = [s] ∧ s.isEchoed = true
  · obtain ⟨s, body, echoed⟩ := echoed
    have within : regime.node (.ofStmt s) :=
      regime.inside node (List.mem_map_of_mem (body ▸ List.mem_singleton_self s))
    have ran := Course.Keeps.reportingRoom regime.beside_partsInRoom
      (walks.near.stmt holds within fun _ => .refl s) (fun _ _ => rfl) (fun _ _ => id)
      fun _ => tooDeep
    simp only [Session.reply, body, if_pos echoed]
    refine ran.bind ?_
    rintro value _ after moves rfl
    exact Course.keeps_done _
  · have ran : regime.beside.Keeps regime.stops .body start
        (fun first => program.eval (inside first) false) Course.Same :=
      (keeps_program walks holds node tooDeep (Bool.false_ne_true · |>.elim)).mono
        (fun _ _ _ _ => id) (fun _ => id) (.inBody _)
    have whole : ∀ inside, Session.reply program inside = program.eval inside false >>=
        fun value => pure ⟨value.getD .null, false⟩ := by
      intro inside
      unfold Session.reply
      split
      · next s body => rw [if_neg fun echo => echoed ⟨s, body, echo⟩]
      · rfl
    simp only [whole]
    refine ran.bind ?_
    rintro value _ after moves rfl
    exact Course.keeps_done _

end Regime

/-- Two meanings that keep to what holds of all evaluation. -/
abbrev Freely (inside : Bool → Meaning) : Prop :=
  Regime.free.beside.Walks Regime.free.stops (fun _ => True) (fun _ => True)
    (fun s => Regime.free.node (.ofStmt s)) inside inside

/-- The interpreter keeps to what holds of all evaluation. -/
theorem freely_interpreter (patience room : Nat) : Freely fun _ => interpreter patience room := by
  have lasts : Regime.free.beside.Lasts fun _ => True := lasting_trivial.lasts fun _ => trivial
  exact Regime.walks_interpreter lasts lasting_trivial.enters
    (fun s frame => Regime.free_allows frame s) patience room

namespace Freely
variable {inside : Bool → Meaning} {manner : Manner} {start : Frame}

theorem program (freely : Freely inside) (program : Program) (withMain : Bool) :
    Regime.free.beside.Keeps Regime.free.stops .work start
      (fun first => program.eval (inside first) withMain) Course.Same :=
  Regime.keeps_program freely trivial trivial trivial fun _ => ⟨fun _ _ => trivial, trivial⟩

end Freely

/-- Evaluation comes to none of the spots: if it is broken off at the first of
them, it is not broken off at all. -/
def Avoids {α : Type} (spots : Stmt → Frame → Bool) (patience room : Nat) (act : Meaning → Eval α)
    (m : Machine) : Prop :=
  Eval.ending (act ((Diversion.halting spots).interpreter patience room) m).1 ≠ some .tooMuchRoom

instance {α : Type} (spots : Stmt → Frame → Bool) (patience room : Nat) (act : Meaning → Eval α)
    (m : Machine) : Decidable (Avoids spots patience room act m) :=
  inferInstanceAs (Decidable (_ ≠ _))

/-- Evaluation that avoids all that a regime does not allow keeps to the
regime. -/
theorem Avoids.evolves {α : Type} {regime : Regime} {spots : Stmt → Frame → Bool}
    {patience room : Nat} {act : Meaning → Eval α} {m : Machine} {manner : Manner}
    (avoids : Avoids spots patience room act m) (parting : regime.parting)
    (allows : ∀ s frame, spots s frame = false → regime.Allows frame s)
    (under : m.frame.Under regime)
    (keeps : ∀ inside, Obedient regime inside → ∀ start : Frame, start.Under regime →
      regime.beside.Keeps regime.stops manner start (fun first => act (inside first))
        Course.Same) :
    m.frame.Evolves regime (act (interpreter patience room) m).2.frame := by
  have suits : Diversion.Suits regime (Frame.Under regime) (.halting spots) .never :=
    .halting parting allows
  have obedient : Obedient regime _ :=
    suits.walks regime.beside.lasts_under regime.beside.enters_under patience room
  obtain ⟨same, conforms⟩ := Regime.conforms_of_keeps (keeps _ obedient m.frame under)
    (fun _ _ _ same => ⟨same, trivial⟩) m.console fun _ => avoids
  have never : act (Diversion.never.interpreter patience room) m = _ := same.symm
  rw [Diversion.never_interpreter] at never
  rw [never]
  exact conforms.evolves

end BasilLang
