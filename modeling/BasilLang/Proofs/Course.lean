import BasilLang.Proofs.Regime
import BasilLang.Proofs.Sight
import Mathlib.Order.Filter.Basic

/-! Evaluations that take the same course. A family of actions is looked at at
once, each started in a frame that is seen as one and the same frame. They keep
to a course if they have one outcome, as far as it is seen, and leave frames that
are seen as one again; as long as there is a result, that frame settles, and
however evaluation ends, it has evolved as a regime has it. Only most of the
members need do so, and they may part, if the course says how they end then. What
is said of meanings elsewhere are courses of one kind or another, so each way of
putting actions together is gone through here alone. -/
namespace BasilLang

/-- How something is evaluated. -/
inductive Manner where
  /-- For its value: there is no return, and no other paths are bound
  afterwards. -/
  | value
  /-- For what it does, without a return. -/
  | work
  /-- In a body, where there may be a return. -/
  | body

/-- Whether what is evaluated in this manner may end in a return. -/
def Manner.mayReturn : Manner → Bool
  | .value | .work => false
  | .body => true

/-- What is evaluated in one manner is evaluated in a wider one as well. -/
structure Manner.Within (manner wider : Manner) : Prop where
  value : wider = .value → manner = .value
  body : manner = .body → wider = .body

theorem Manner.Within.refl (manner : Manner) : manner.Within manner :=
  ⟨id, id⟩

private theorem Manner.Within.ofValue (manner : Manner) : Manner.value.Within manner :=
  ⟨fun _ => rfl, fun same => by cases same⟩

/-- Everything may stand in a body. -/
theorem Manner.Within.inBody (manner : Manner) : manner.Within .body :=
  ⟨nofun, fun _ => rfl⟩

/-- An expression has a value; a return stands in a body, or is one. -/
def Stmt.manner : Stmt → Manner
  | .expr _ => .value
  | .inNamespace .. | .ifThen .. | .forRange .. | .whileTrue .. | .returning .. => .body
  | .importLibrary .. | .importRelative .. | .letDecl .. | .constDecl .. | .set ..
  | .procDecl .. => .work

/-- The reason to stop, without a place. -/
def Stop.unplaced : Stop → Stop
  | .failed failure => .failed { failure with loc := none }
  | reason => reason

/-- Whether something has been found wrong. -/
def Stop.isFailure : Stop → Bool
  | .failed _ => true
  | _ => false

/-- Whether the reason to stop is a return. -/
def Stop.isReturn : Stop → Bool
  | .returned _ => true
  | _ => false

/-- Whether no rule catches the reason to stop or adds to it. -/
def Stop.isFinal : Stop → Bool
  | .returned _ => false
  | .failed failure => failure.loc.isSome
  | _ => true

namespace Seen
variable {exact : Prop} {reason' : Stop}

/-- A failure is seen as a failure of the same kind. -/
theorem failed {failure : Failure} (seen : Seen exact Stop.unplaced (.failed failure) reason') :
    ∃ loc, reason' = .failed ⟨failure.fault, loc⟩ ∧ (exact → loc = failure.loc) := by
  obtain ⟨alike, same⟩ := seen
  cases reason' with
  | failed failure' =>
    obtain ⟨fault, loc⟩ := failure'
    cases alike
    exact ⟨loc, rfl, fun sharp => (congrArg Failure.loc (Stop.failed.inj (same sharp))).symm⟩
  | _ => cases alike

/-- All other reasons to stop are seen as they are. -/
theorem eq_of_stop {reason : Stop} (seen : Seen exact Stop.unplaced reason reason')
    (other : reason.isFailure = false) : reason' = reason := by
  have alike := seen.alike
  cases reason with
  | failed failure => cases other
  | _ =>
    cases reason' with
    | failed => cases alike
    | _ => exact alike.symm

end Seen

namespace Frame
variable {regime : Regime} {manner : Manner} {before middle after : Frame}

/-- How a frame changes while evaluation goes well. -/
structure Moves (regime : Regime) (manner : Manner) (before after : Frame) : Prop where
  evolves : before.Evolves regime after
  settles : before.Settles after
  keys : manner = .value → before.SameKeys after

private theorem Moves.refl (frame : Frame) : frame.Moves regime manner frame :=
  ⟨.refl frame, .refl frame, fun _ => .refl frame⟩

private theorem Moves.trans (first : before.Moves regime manner middle)
    (second : middle.Moves regime manner after) : before.Moves regime manner after :=
  ⟨first.evolves.trans second.evolves, first.settles.trans second.settles,
    fun value => (first.keys value).trans (second.keys value)⟩

/-- Work may bind other paths. -/
theorem Moves.working (evolves : before.Evolves regime after) (settles : before.Settles after) :
    before.Moves regime .work after :=
  ⟨evolves, settles, nofun⟩

private theorem Moves.mono {wider : Manner} (moves : before.Moves regime manner after)
    (within : manner.Within wider) : before.Moves regime wider after :=
  ⟨moves.evolves, moves.settles, fun value => moves.keys (within.value value)⟩

end Frame

namespace Eval

/-- Why there is no result. -/
def ending {α : Type} : Except Stop α → Option Stop
  | .ok _ => none
  | .error reason => some reason

/-- How evaluation has ended for someone who does not look at the frame. -/
def ended {α : Type} (run : Except Stop α × Machine) : Option Stop × Console :=
  (ending run.1, run.2.console)

/-- Why there is no result is the outcome itself. -/
theorem eq_of_ended {α : Type} {run : Except Stop α × Machine} {reason : Stop}
    (stopped : (ended run).1 = some reason) : run = (.error reason, run.2) := by
  obtain ⟨outcome, m⟩ := run
  cases outcome with
  | ok a => cases stopped
  | error other =>
    cases stopped
    rfl

end Eval

/-- What the members of a family have in common on their way. -/
structure Course (ι : Type) where
  sight : Sight
  regime : Regime
  /-- Of which members it is said. -/
  most : Filter ι
  /-- What the consoles of the members have in common. -/
  alike : (ι → Console) → Prop
  /-- The members have parted and ended in such ways. -/
  parted : (ι → Option Stop × Console) → Prop
  alike_write : ∀ {consoles} text, alike consoles →
    alike fun i => { consoles i with out := (consoles i).out ++ text }
  alike_note : ∀ {consoles} {events : ι → Event} event, (∀ i, sight.exact → events i = event) →
    alike consoles → alike fun i => { consoles i with log := (consoles i).log.push (events i) }
  /-- A final end is passed on, and what would have followed it does not
  matter. -/
  parts : ∀ {ends ends'}, parted ends → (∀ᶠ i in most, ∀ reason, reason.isFinal = true →
    (ends i).1 = some reason → ends' i = ends i) → parted ends'

/-- The reasons to stop that every rule may have. -/
structure Calm (calm : Stop → Prop) : Prop where
  returned : ∀ value, calm (.returned value)
  fails : ∀ fault, fault.isOrdinary = true → fault.isDepth = false →
    calm (.failed ⟨.eval fault, none⟩)

/-- The complaints of a plain answer are calm. -/
theorem Calm.plain {α : Type} {calm : Stop → Prop} (isCalm : Calm calm) {x : Except EvalFault α}
    (plain : Eval.Plain x) (fault : EvalFault) (same : x = .error fault) :
    calm (.failed ⟨.eval fault, none⟩) :=
  isCalm.fails fault (plain fault same).1 (plain fault same).2

namespace Course
variable {ι : Type} {α β : Type}

/-- The members are in states that are seen as one frame. -/
structure At (course : Course ι) (frame : Frame) (states : ι → Machine) : Prop where
  frames : ∀ i, course.sight.frames frame (states i).frame
  consoles : course.alike fun i => (states i).console

/-- The members come to results, and the frame moves. -/
def Completes (course : Course ι) (manner : Manner) (start : Frame) (act : ι → Eval α)
    (result : α → (ι → α) → Frame → Prop) (states : ι → Machine) : Prop :=
  ∃ (a : α) (as : ι → α) (after : Frame) (states' : ι → Machine),
    (∀ᶠ i in course.most, act i (states i) = (.ok (as i), states' i)) ∧ course.At after states' ∧
      start.Moves course.regime manner after ∧ result a as after

/-- How a frame is left when evaluation stops. -/
structure Leaves (course : Course ι) (calm : Stop → Prop) (manner : Manner) (start after : Frame)
    (reason : Stop) : Prop where
  evolves : start.Evolves course.regime after
  calm : calm reason
  back : ∀ value, reason = .returned value → manner = .body ∧ start.Settles after

/-- The members stop, for one reason as far as it is seen. -/
def Breaks (course : Course ι) (calm : Stop → Prop) (manner : Manner) (start : Frame)
    (act : ι → Eval α) (states : ι → Machine) : Prop :=
  ∃ (reason : Stop) (reasons : ι → Stop) (after : Frame) (states' : ι → Machine),
    (∀ᶠ i in course.most, act i (states i) = (.error (reasons i), states' i)) ∧
      course.At after states' ∧ (∀ i, Seen course.sight.exact Stop.unplaced reason (reasons i)) ∧
        course.Leaves calm manner start after reason

/-- Started in the given frame, the actions keep to the course. -/
def Keeps (course : Course ι) (calm : Stop → Prop) (manner : Manner) (start : Frame)
    (act : ι → Eval α) (result : α → (ι → α) → Frame → Prop) : Prop :=
  ∀ states, course.At start states →
    course.Completes manner start act result states ∨
      course.Breaks calm manner start act states ∨
        course.parted fun i => Eval.ended (act i (states i))

/-- No lack of room is among the ways in which the members part. -/
def PartsInRoom (course : Course ι) : Prop :=
  ∀ {ends ends'}, course.parted ends → (∀ i, (ends i).1 ≠ some .outOfRoom → ends' i = ends i) →
    course.parted ends'

/-- All members have the same result. -/
def Same : α → (ι → α) → Frame → Prop := fun a as _ => as = fun _ => a

section Actions
variable {course : Course ι} {calm calmer : Stop → Prop} {manner wider : Manner}
  {start after : Frame} {act : ι → Eval α} {result : α → (ι → α) → Frame → Prop}

private theorem Leaves.mono {reason : Stop}
    (leaves : course.Leaves calmer manner start after reason)
    (weaker : ∀ reason, calmer reason → calm reason) (within : manner.Within wider) :
    course.Leaves calm wider start after reason where
  evolves := leaves.evolves
  calm := weaker reason leaves.calm
  back value same := ⟨within.body (leaves.back value same).1, (leaves.back value same).2⟩

private theorem Leaves.after_moves {reason : Stop} {middle : Frame}
    (moves : start.Moves course.regime manner middle)
    (leaves : course.Leaves calm manner middle after reason) :
    course.Leaves calm manner start after reason where
  evolves := moves.evolves.trans leaves.evolves
  calm := leaves.calm
  back value same := ⟨(leaves.back value same).1, moves.settles.trans (leaves.back value same).2⟩

/-- Members that have parted go on as they have ended. -/
theorem parted_through {act' : ι → Eval β} {states states' : ι → Machine}
    (parted : course.parted fun i => Eval.ended (act i (states i)))
    (passes : ∀ i reason, reason.isFinal = true →
      act i (states i) = (.error reason, (act i (states i)).2) →
        Eval.ended (act' i (states' i)) = (some reason, (act i (states i)).2.console)) :
    course.parted fun i => Eval.ended (act' i (states' i)) := by
  refine course.parts parted (.of_forall fun i reason final stopped => ?_)
  exact (passes i reason final (Eval.eq_of_ended stopped)).trans
    (congrArg Eval.ended (Eval.eq_of_ended stopped)).symm

private theorem keeps_of_ok {a : α} {as : ι → α} {next : ι → Machine → Machine}
    (ok : ∀ i m, act i m = (.ok (as i), next i m))
    (at' : ∀ states, course.At start states → course.At after fun i => next i (states i))
    (moves : start.Moves course.regime manner after) (holds : result a as after) :
    course.Keeps calm manner start act result :=
  fun states here => .inl ⟨a, as, after, _, .of_forall fun i => ok i (states i), at' states here,
    moves, holds⟩

/-- Results that are there at once. -/
theorem keeps_pure {a : α} {as : ι → α} (holds : result a as start) :
    course.Keeps calm manner start (fun i => pure (as i)) result :=
  keeps_of_ok (fun _ _ => rfl) (fun _ here => here) (.refl start) holds

/-- The same result for all members. -/
theorem keeps_done (a : α) : course.Keeps calm manner start (fun _ => pure a) Same :=
  keeps_pure rfl

/-- Stopping for one reason, as far as it is seen. -/
theorem keeps_stop {reason : Stop} {reasons : ι → Stop}
    (seen : ∀ i, Seen course.sight.exact Stop.unplaced reason (reasons i)) (fine : calm reason)
    (back : ∀ value, reason = .returned value → manner = .body) :
    course.Keeps calm manner start (fun i => Eval.stop (reasons i)) result :=
  fun states here => .inr (.inl ⟨reason, reasons, start, states, .of_forall fun _ => rfl, here,
    seen, .refl start, fine, fun value same => ⟨back value same, .refl start⟩⟩)

/-- Stopping for a reason that is no return. -/
theorem keeps_stopped {reason : Stop} (fine : calm reason)
    (other : reason.isReturn = false) :
    course.Keeps calm manner start (fun _ => (Eval.stop reason : Eval α)) result := by
  refine keeps_stop (fun _ => .refl reason) fine fun value same => ?_
  rw [same] at other
  cases other

/-- An ordinary complaint. -/
theorem keeps_fail (isCalm : Calm calm) {fault : EvalFault} (ordinary : fault.isOrdinary = true)
    (shallow : fault.isDepth = false) :
    course.Keeps calm manner start (fun _ => (Eval.fail fault : Eval α)) result :=
  keeps_stopped (isCalm.fails fault ordinary shallow) rfl

/-- An answer that is the same for all members. -/
theorem keeps_lift (isCalm : Calm calm) {x : Except EvalFault α} (plain : Eval.Plain x) :
    course.Keeps calm manner start (fun _ => Eval.lift x) Same := by
  cases x with
  | ok a => exact keeps_done a
  | error fault => exact keeps_stopped (isCalm.plain plain fault rfl) rfl

/-- What arithmetic makes of the same numbers. -/
theorem keeps_ofArithmetic (x : Except Number.Undefined α)
    (undefined : ∀ cause, calm (.undefined cause)) :
    course.Keeps calm manner start (fun _ => Eval.ofArithmetic x) Same := by
  cases x with
  | ok a => exact keeps_done a
  | error cause => exact keeps_stopped (undefined cause) rfl

/-- Writing the same. -/
theorem keeps_write (text : String) :
    course.Keeps calm manner start (fun _ => Eval.write text) Same :=
  keeps_of_ok (fun _ _ => rfl)
    (fun _ here => ⟨here.frames, course.alike_write text here.consoles⟩) (.refl start) rfl

/-- Noting what is seen as one event. -/
theorem keeps_note {events : ι → Event} (event : Event)
    (same : ∀ i, course.sight.exact → events i = event) :
    course.Keeps calm manner start (fun i => Eval.note (events i)) Same :=
  keeps_of_ok (fun _ _ => rfl)
    (fun _ here => ⟨here.frames, course.alike_note event same here.consoles⟩) (.refl start) rfl

/-- Frames that are seen as one take the place of the others. -/
theorem keeps_setFrame {frames : ι → Frame} (seen : ∀ i, course.sight.frames after (frames i))
    (moves : start.Moves course.regime manner after) :
    course.Keeps calm manner start (fun i => Eval.setFrame (frames i))
      (fun _ _ frame => frame = after) :=
  @keeps_of_ok _ _ _ _ _ _ _ _ _ () (fun _ => ()) _ (fun _ _ => rfl)
    (fun _ here => ⟨seen, here.consoles⟩) moves rfl

end Actions

namespace Keeps
variable {course : Course ι} {calm calmer : Stop → Prop} {manner wider : Manner}
  {start : Frame} {act act' : ι → Eval α} {result middle : α → (ι → α) → Frame → Prop}

/-- What most of the actions do where they are started is all that matters. -/
theorem congr_most (keeps : course.Keeps calm manner start act result)
    (same : ∀ states, course.At start states →
      ∀ᶠ i in course.most, act' i (states i) = act i (states i)) :
    course.Keeps calm manner start act' result := by
  intro states here
  have same := same states here
  rcases keeps states here with ⟨a, as, after, states', ran, rest⟩ |
    ⟨reason, reasons, after, states', ran, rest⟩ | parted
  · refine .inl ⟨a, as, after, states', ?_, rest⟩
    filter_upwards [same, ran] with i one two
    exact one.trans two
  · refine .inr (.inl ⟨reason, reasons, after, states', ?_, rest⟩)
    filter_upwards [same, ran] with i one two
    exact one.trans two
  · refine .inr (.inr (course.parts parted ?_))
    filter_upwards [same] with i one _ _ _
    rw [one]

/-- What the actions do where they are started is all that matters. -/
theorem congr (keeps : course.Keeps calm manner start act result)
    (same : ∀ states, course.At start states → ∀ i, act' i (states i) = act i (states i)) :
    course.Keeps calm manner start act' result :=
  keeps.congr_most fun states here => .of_forall (same states here)

/-- Less is said of the result, of the reasons to stop and of the manner. -/
theorem mono (keeps : course.Keeps calmer manner start act middle)
    (holds : ∀ a as after, start.Moves course.regime manner after → middle a as after →
      result a as after)
    (weaker : ∀ reason, calmer reason → calm reason) (within : manner.Within wider) :
    course.Keeps calm wider start act result := by
  intro states here
  rcases keeps states here with ⟨a, as, after, states', ran, there, moves, found⟩ |
    ⟨reason, reasons, after, states', ran, there, seen, leaves⟩ | parted
  · exact .inl ⟨a, as, after, states', ran, there, moves.mono within, holds a as after moves found⟩
  · exact .inr (.inl ⟨reason, reasons, after, states', ran, there, seen,
      leaves.mono weaker within⟩)
  · exact .inr (.inr parted)

/-- Less is said of the result. -/
theorem weaken (keeps : course.Keeps calm manner start act middle)
    (holds : ∀ a as after, start.Moves course.regime manner after → middle a as after →
      result a as after) : course.Keeps calm manner start act result :=
  keeps.mono holds (fun _ => id) (.refl manner)

/-- What is evaluated for its value may be evaluated in any manner. -/
theorem anyhow (keeps : course.Keeps calm .value start act result) :
    course.Keeps calm manner start act result :=
  keeps.mono (fun _ _ _ _ => id) (fun _ => id) (.ofValue manner)

/-- One action after another: what the first achieves is known to the second. -/
theorem bind {next : ι → α → Eval β} {result : β → (ι → β) → Frame → Prop}
    (first : course.Keeps calm manner start act middle)
    (rest : ∀ a as after, start.Moves course.regime manner after → middle a as after →
      course.Keeps calm manner after (fun i => next i (as i)) result) :
    course.Keeps calm manner start (fun i => act i >>= next i) result := by
  intro states here
  rcases first states here with ⟨a, as, after, states', ran, there, moves, found⟩ |
    ⟨reason, reasons, after, states', ran, there, seen, leaves⟩ | parted
  · have goesOn : ∀ᶠ i in course.most,
        (act i >>= next i) (states i) = next i (as i) (states' i) :=
      ran.mono fun i ok => Eval.bind_of_ok ok
    rcases rest a as after moves found states' there with
      ⟨b, bs, last, states'', went, then', further, holds⟩ |
      ⟨reason, reasons, last, states'', went, then', seen, leaves⟩ | parted
    · refine .inl ⟨b, bs, last, states'', ?_, then', moves.trans further, holds⟩
      filter_upwards [goesOn, went] with i one two
      exact one.trans two
    · refine .inr (.inl ⟨reason, reasons, last, states'', ?_, then', seen,
        leaves.after_moves moves⟩)
      filter_upwards [goesOn, went] with i one two
      exact one.trans two
    · refine .inr (.inr (course.parts parted ?_))
      filter_upwards [goesOn] with i one reason _ _
      rw [one]
  · refine .inr (.inl ⟨reason, reasons, after, states', ?_, there, seen, leaves⟩)
    exact ran.mono fun i stopped => Eval.bind_of_error stopped
  · -- A reason to part is final, so what comes next is left out.
    refine .inr (.inr (parted_through parted fun i reason _ stopped => ?_))
    exact congrArg Eval.ended (Eval.bind_of_error stopped)

/-- The members look at their frames. -/
theorem frame_bind {next : ι → Frame → Eval α}
    (rest : ∀ frames : ι → Frame, (∀ i, course.sight.frames start (frames i)) →
      course.Keeps calm manner start (fun i => next i (frames i)) result) :
    course.Keeps calm manner start (fun i => Eval.frame >>= next i) result :=
  fun states here => rest (fun i => (states i).frame) here.frames states here

/-- The members go on with answers that are seen as one. -/
theorem lift_bind {x : Except EvalFault α} {xs : ι → Except EvalFault α} {related : α → α → Prop}
    {next : ι → α → Eval β} {result : β → (ι → β) → Frame → Prop}
    (answers : ∀ i, Answers related x (xs i))
    (fails : ∀ fault, x = .error fault → calm (.failed ⟨.eval fault, none⟩))
    (rest : ∀ a (as : ι → α), x = .ok a → (∀ i, related a (as i)) →
      course.Keeps calm manner start (fun i => next i (as i)) result) :
    course.Keeps calm manner start (fun i => Eval.lift (xs i) >>= next i) result := by
  cases x with
  | ok a =>
    have each : ∀ i, ∃ a', xs i = .ok a' ∧ related a a' := by
      intro i
      have answer := answers i
      generalize xs i = x' at answer
      cases answer with
      | ok holds => exact ⟨_, rfl, holds⟩
    choose as same holds using each
    refine (rest a as rfl holds).congr fun states _ i => ?_
    rw [same i]
    rfl
  | error fault =>
    refine (keeps_stopped (fails fault rfl) rfl).congr fun states _ i => ?_
    have answer := answers i
    generalize xs i = x' at answer
    cases answer
    rfl

/-- One answer for all members. -/
theorem lift_same {x : Except EvalFault α} {next : ι → α → Eval β}
    {result : β → (ι → β) → Frame → Prop}
    (fails : ∀ fault, x = .error fault → calm (.failed ⟨.eval fault, none⟩))
    (rest : ∀ a, x = .ok a → course.Keeps calm manner start (fun i => next i a) result) :
    course.Keeps calm manner start (fun i => Eval.lift x >>= next i) result := by
  cases x with
  | ok a => exact rest a rfl
  | error fault => exact keeps_stopped (fails fault rfl) rfl

/-- The members go on in other frames. -/
theorem setFrame_bind {after : Frame} {frames : ι → Frame} {next : ι → Unit → Eval α}
    (seen : ∀ i, course.sight.frames after (frames i))
    (moves : start.Moves course.regime manner after)
    (rest : course.Keeps calm manner after (fun i => next i ()) result) :
    course.Keeps calm manner start (fun i => Eval.setFrame (frames i) >>= next i) result := by
  refine (keeps_setFrame seen moves).bind fun _ _ frame _ same => ?_
  rw [same]
  exact rest

-- An action that only looks at how another ended, and leaves the state as that did.
private theorem outcome_map {act' : ι → Eval β} {result' : β → (ι → β) → Frame → Prop}
    {outcome : ι → Except Stop α → Except Stop β}
    (keeps : course.Keeps calmer manner start act result)
    (same : ∀ i m, act' i m = (outcome i (act i m).1, (act i m).2))
    (parts : ∀ states : ι → Machine, (course.parted fun i => Eval.ended (act i (states i))) →
      course.parted fun i => Eval.ended (act' i (states i)))
    (completes : ∀ a as after, start.Moves course.regime manner after → result a as after →
      ∃ (b : β) (bs : ι → β), (∀ i, outcome i (.ok (as i)) = .ok (bs i)) ∧
        start.Moves course.regime wider after ∧ result' b bs after)
    (breaks : ∀ reason (reasons : ι → Stop) after,
      (∀ i, Seen course.sight.exact Stop.unplaced reason (reasons i)) →
      course.Leaves calmer manner start after reason →
      (∃ (b : β) (bs : ι → β), (∀ i, outcome i (.error (reasons i)) = .ok (bs i)) ∧
        start.Moves course.regime wider after ∧ result' b bs after) ∨
      ∃ (reason' : Stop) (reasons' : ι → Stop),
        (∀ i, outcome i (.error (reasons i)) = .error (reasons' i)) ∧
        (∀ i, Seen course.sight.exact Stop.unplaced reason' (reasons' i)) ∧
          course.Leaves calm wider start after reason') :
    course.Keeps calm wider start act' result' := by
  intro states here
  rcases keeps states here with ⟨a, as, after, states', ran, there, moves, found⟩ |
    ⟨reason, reasons, after, states', ran, there, seen, leaves⟩ | parted
  · obtain ⟨b, bs, gives, moves, holds⟩ := completes a as after moves found
    refine .inl ⟨b, bs, after, states', ran.mono fun i ok => ?_, there, moves, holds⟩
    rw [same, ok, gives]
  · rcases breaks reason reasons after seen leaves with
      ⟨b, bs, gives, moves, holds⟩ | ⟨reason', reasons', gives, seen, leaves⟩
    · refine .inl ⟨b, bs, after, states', ran.mono fun i stopped => ?_, there, moves, holds⟩
      rw [same, stopped, gives]
    · refine .inr (.inl ⟨reason', reasons', after, states', ran.mono fun i stopped => ?_, there,
        seen, leaves⟩)
      rw [same, stopped, gives]
  · exact .inr (.inr (parts states parted))

/-- A body, from outside of which no return is seen. -/
theorem catchReturn {act : ι → Eval Unit} {result : Unit → (ι → Unit) → Frame → Prop}
    (keeps : course.Keeps calm .body start act result) :
    course.Keeps calm .work start (fun i => Eval.catchReturn (act i)) Same := by
  refine outcome_map keeps (fun i m => Eval.catchReturn_eq (act i) m) ?_ ?_ ?_
  · refine fun states parted => parted_through parted fun i reason final stopped => ?_
    rw [Eval.catchReturn_eq, stopped]
    cases reason <;> first | rfl | cases final
  · intro _ as after moves _
    exact ⟨none, fun _ => none, fun _ => rfl, .working moves.evolves moves.settles, rfl⟩
  · intro reason reasons after seen leaves
    cases reason with
    | returned value =>
      refine .inl ⟨some value, fun _ => some value, fun i => ?_,
        .working leaves.evolves (leaves.back value rfl).2, rfl⟩
      rw [(seen i).eq_of_stop rfl]
      rfl
    | failed failure =>
      refine .inr ⟨.failed failure, reasons, fun i => ?_, seen, leaves.evolves, leaves.calm, nofun⟩
      obtain ⟨loc, same, -⟩ := (seen i).failed
      rw [same]
      rfl
    | _ =>
      refine .inr ⟨_, reasons, fun i => ?_, seen, leaves.evolves, leaves.calm, nofun⟩
      rw [(seen i).eq_of_stop rfl]
      rfl

/-- A place is supplied. -/
theorem located {loc : Loc} {locs : ι → Loc}
    (keeps : course.Keeps calmer manner start act result)
    (places : ∀ i, course.sight.exact → locs i = loc)
    (weaker : ∀ reason, reason.isFailure = false → calmer reason → calm reason)
    (locates : ∀ failure, calmer (.failed failure) → calm (.failed (failure.locate loc))) :
    course.Keeps calm manner start (fun i => Eval.located (locs i) (act i)) result := by
  refine outcome_map keeps (fun i m => Eval.located_eq (locs i) (act i) m) ?_ ?_ ?_
  · refine fun states parted => parted_through parted fun i reason final stopped => ?_
    rw [Eval.located_eq, stopped]
    cases reason with
    | failed failure =>
      obtain ⟨fault, place⟩ := failure
      obtain ⟨place, rfl⟩ := Option.isSome_iff_exists.mp final
      rfl
    | _ => rfl
  · intro a as after moves holds
    exact ⟨a, as, fun _ => rfl, moves, holds⟩
  · intro reason reasons after seen leaves
    cases reason with
    | failed failure =>
      have each : ∀ i, ∃ place, reasons i = .failed ⟨failure.fault, place⟩ ∧
        (course.sight.exact → place = failure.loc) := fun i => (seen i).failed
      choose locs' same sharp using each
      refine .inr ⟨.failed (failure.locate loc),
        fun i => .failed (Failure.locate ⟨failure.fault, locs' i⟩ (locs i)), fun i => ?_,
        fun i => ⟨?_, fun exact => ?_⟩, leaves.evolves, locates failure leaves.calm, nofun⟩
      · rw [same i]
        rfl
      · rfl
      · dsimp only
        rw [sharp i exact, places i exact]
    | _ =>
      refine .inr ⟨_, reasons, fun i => ?_, seen, leaves.evolves, weaker _ rfl leaves.calm,
        leaves.back⟩
      rw [(seen i).eq_of_stop rfl]
      rfl

/-- One place is supplied to all members. -/
theorem locatedAt (keeps : course.Keeps calmer manner start act result) (loc : Loc)
    (weaker : ∀ reason, reason.isFailure = false → calmer reason → calm reason)
    (locates : ∀ failure, calmer (.failed failure) → calm (.failed (failure.locate loc))) :
    course.Keeps calm manner start (fun i => Eval.located loc (act i)) result :=
  keeps.located (fun _ _ => rfl) weaker locates

/-- A lack of room is reported. -/
theorem reportingRoom {loc : Loc} {locs : ι → Loc} (apart : course.PartsInRoom)
    (keeps : course.Keeps calmer manner start act result)
    (places : ∀ i, course.sight.exact → locs i = loc)
    (weaker : ∀ reason, reason ≠ .outOfRoom → calmer reason → calm reason)
    (reports : calmer .outOfRoom → calm (.failed ⟨.eval .nestingTooDeep, some loc⟩)) :
    course.Keeps calm manner start (fun i => Eval.reportingRoom (locs i) (act i)) result := by
  refine outcome_map keeps (fun i m => Eval.reportingRoom_eq (locs i) (act i) m) ?_ ?_ ?_
  · intro states parted
    refine apart parted fun i roomy => ?_
    rw [Eval.reportingRoom_eq]
    revert roomy
    rcases act i (states i) with ⟨outcome, m⟩
    intro roomy
    cases outcome with
    | ok a => rfl
    | error reason =>
      cases reason with
      | outOfRoom => exact absurd rfl roomy
      | _ => rfl
  · intro a as after moves holds
    exact ⟨a, as, fun _ => rfl, moves, holds⟩
  · intro reason reasons after seen leaves
    cases reason with
    | outOfRoom =>
      refine .inr ⟨_, fun i => .failed ⟨.eval .nestingTooDeep, some (locs i)⟩, fun i => ?_,
        fun i => ⟨rfl, fun exact => ?_⟩, leaves.evolves, reports leaves.calm, nofun⟩
      · rw [(seen i).eq_of_stop rfl]
        rfl
      · dsimp only
        rw [places i exact]
    | failed failure =>
      refine .inr ⟨.failed failure, reasons, fun i => ?_, seen, leaves.evolves,
        weaker _ nofun leaves.calm, nofun⟩
      obtain ⟨place, same, -⟩ := (seen i).failed
      rw [same]
      rfl
    | _ =>
      refine .inr ⟨_, reasons, fun i => ?_, seen, leaves.evolves, weaker _ nofun leaves.calm,
        leaves.back⟩
      rw [(seen i).eq_of_stop rfl]
      rfl

/-- Work in another frame. The frame from before moves if it does so by what is
taken over from the other one. -/
theorem inFrame {inner : Frame} {inners : ι → Frame} {merge : Frame → Frame → Frame}
    {result : α → (ι → α) → Frame → Prop}
    (keeps : course.Keeps calm wider inner act middle)
    (enters : ∀ i, course.sight.frames inner (inners i))
    (merges : ∀ {frame after after'}, course.sight.frames start frame →
      course.sight.frames after after' →
        course.sight.frames (merge start after) (merge frame after'))
    (completes : ∀ a as after, inner.Moves course.regime wider after → middle a as after →
      start.Moves course.regime manner (merge start after) ∧ result a as (merge start after))
    (breaks : ∀ after reason, course.Leaves calm wider inner after reason →
      course.Leaves calm manner start (merge start after) reason) :
    course.Keeps calm manner start (fun i => Eval.inFrame (inners i) merge (act i)) result := by
  intro states here
  have entered : course.At inner fun i => ⟨inners i, (states i).console⟩ :=
    ⟨enters, here.consoles⟩
  have leaves : ∀ {after : Frame} {states' : ι → Machine}, course.At after states' →
      course.At (merge start after) fun i =>
        ⟨merge (states i).frame (states' i).frame, (states' i).console⟩ :=
    fun there => ⟨fun i => merges (here.frames i) (there.frames i), there.consoles⟩
  rcases keeps _ entered with ⟨a, as, after, states', ran, there, moves, found⟩ |
    ⟨reason, reasons, after, states', ran, there, seen, left⟩ | parted
  · obtain ⟨moves, holds⟩ := completes a as after moves found
    refine .inl ⟨a, as, _, _, ran.mono fun i ok => ?_, leaves there, moves, holds⟩
    simp only [Eval.inFrame, ok]
  · refine .inr (.inl ⟨reason, reasons, _, _, ran.mono fun i stopped => ?_, leaves there, seen,
      breaks after reason left⟩)
    simp only [Eval.inFrame, stopped]
  · refine .inr (.inr (parted_through parted fun i reason _ stopped => ?_))
    have passed : Eval.inFrame (inners i) merge (act i) (states i) = (.error reason,
        ⟨merge (states i).frame (act i ⟨inners i, (states i).console⟩).2.frame,
          (act i ⟨inners i, (states i).console⟩).2.console⟩) := by
      rw [Eval.inFrame, stopped]
    exact congrArg Eval.ended passed

/-- Work in a copy, of which only what was bound before comes back. -/
theorem inCopy (keeps : course.Keeps calm .body start act result) :
    course.Keeps calm .body start (fun i => Eval.inCopy (act i))
      (fun a as _ => ∃ after, result a as after) := by
  intro states here
  have merged : ∀ after, start.Settles after → start.Settles (start.mergeExisting after) :=
    fun after settles => Frame.settles_mergeExisting fun path bound _ found =>
      settles.settled path bound found
  have ran : course.Keeps calm .body start
      (fun i => Eval.inFrame (states i).frame Frame.mergeExisting (act i))
      (fun a as _ => ∃ after, result a as after) := by
    refine keeps.inFrame here.frames course.sight.mergeExisting ?_ ?_
    · intro a as after moves holds
      exact ⟨⟨.copy moves.evolves, merged after moves.settles, nofun⟩, after, holds⟩
    · intro after reason leaves
      exact ⟨.copy leaves.evolves, leaves.calm,
        fun value same => ⟨rfl, merged after (leaves.back value same).2⟩⟩
  exact ran states here

/-- Work in a frame of its own, which is given back. -/
theorem inOwnFrame {own : Frame} {owns : ι → Frame} (keeps : course.Keeps calm .work own act middle)
    (enters : ∀ i, course.sight.frames own (owns i)) :
    course.Keeps calm manner start (fun i => Eval.inOwnFrame (owns i) (act i))
      (fun found founds _ => own.Moves course.regime .work found.2 ∧
        ∀ i, course.sight.frames found.2 (founds i).2) := by
  intro states here
  have entered : course.At own fun i => ⟨owns i, (states i).console⟩ := ⟨enters, here.consoles⟩
  have returns : ∀ {after : Frame} {states' : ι → Machine}, course.At after states' →
      course.At start fun i => ⟨(states i).frame, (states' i).console⟩ :=
    fun there => ⟨here.frames, there.consoles⟩
  rcases keeps _ entered with ⟨a, as, after, states', ran, there, moves, -⟩ |
    ⟨reason, reasons, after, states', ran, there, seen, left⟩ | parted
  · refine .inl ⟨(a, after), fun i => (as i, (states' i).frame), start, _,
      ran.mono fun i ok => ?_, returns there, .refl start, moves, there.frames⟩
    simp only [Eval.inOwnFrame, ok]
  · refine .inr (.inl ⟨reason, reasons, start, _, ran.mono fun i stopped => ?_, returns there, seen,
      .refl start, left.calm, fun value same => ?_⟩)
    · simp only [Eval.inOwnFrame, stopped]
    · cases (left.back value same).1
  · refine .inr (.inr (parted_through parted fun i reason _ stopped => ?_))
    have passed : Eval.inOwnFrame (owns i) (act i) (states i) = (.error reason,
        ⟨(states i).frame, (act i ⟨owns i, (states i).console⟩).2.console⟩) := by
      rw [Eval.inOwnFrame, stopped]
    exact congrArg Eval.ended passed

end Keeps

section Loops
variable {course : Course ι} {calm : Stop → Prop} {manner : Manner} {start : Frame}

/-- Actions in a row, on things that are seen as the same. What each of them
achieves is there in the end if it outlasts the moves of the frame. -/
theorem keeps_forEach {τ : Type} {exact : Prop} {view : τ → τ} {act : ι → τ → Eval β}
    {done : τ → Frame → Prop} {items : List τ} {itemss : ι → List τ}
    (seen : ∀ i, Seen exact (List.map view) items (itemss i))
    (each : ∀ t ∈ items, ∀ ts : ι → τ, (∀ i, Seen exact view t (ts i)) → ∀ after,
      start.Moves course.regime manner after →
        course.Keeps calm manner after (fun i => act i (ts i)) (fun _ _ frame => done t frame))
    (lasts : ∀ t after last, done t after → after.Moves course.regime manner last → done t last) :
    course.Keeps calm manner start (fun i => Eval.forEach (act i) (itemss i))
      (fun _ _ frame => ∀ t ∈ items, done t frame) := by
  induction items generalizing start itemss with
  | nil =>
    have empty : itemss = fun _ => [] := funext fun i => (seen i).eq_nil
    rw [empty]
    exact @keeps_pure _ _ _ _ _ _ _ () (fun _ => ()) (by simp)
  | cons first rest ih =>
    choose ts rests forms seenFirst seenRest using fun i => (seen i).eq_cons
    obtain rfl : itemss = fun i => ts i :: rests i := funext forms
    simp only [Eval.forEach_cons]
    refine (each first List.mem_cons_self ts seenFirst start (.refl start)).bind
      fun _ _ after moves achieved => ?_
    have later := ih seenRest fun t member ts seen last further =>
      each t (List.mem_cons_of_mem _ member) ts seen last (moves.trans further)
    refine later.weaken fun _ _ last further others t member => ?_
    rcases List.mem_cons.mp member with rfl | member
    · exact lasts t after last achieved further
    · exact others t member

/-- The rounds of a counting loop, one after the other. -/
theorem keeps_countUp {act : ι → Int → Eval Unit} (count : Nat) (first : Int)
    (each : ∀ k after, start.Moves course.regime manner after →
      course.Keeps calm manner after (fun i => act i k) Same) :
    course.Keeps calm manner start (fun i => Eval.countUp (act i) count first) Same := by
  induction count generalizing start first with
  | zero => exact keeps_done ()
  | succ count ih =>
    simp only [Eval.countUp_succ]
    refine (each first start (.refl start)).bind fun _ _ after moves _ => ?_
    exact ih (first + 1) fun k last further => each k last (moves.trans further)

/-- The rounds of a loop without a bound, as long as there is patience. -/
theorem keeps_whileHolds {test : ι → Eval Bool} {act : ι → Eval Unit} (rounds : Nat)
    (impatient : calm .outOfPatience)
    (tests : ∀ after, start.Moves course.regime manner after →
      course.Keeps calm manner after test Same)
    (acts : ∀ after, start.Moves course.regime manner after →
      course.Keeps calm manner after act Same) :
    course.Keeps calm manner start (fun i => Eval.whileHolds (test i) (act i) rounds) Same := by
  induction rounds generalizing start with
  | zero => exact keeps_stopped impatient rfl
  | succ rounds ih =>
    simp only [Eval.whileHolds_succ]
    refine (tests start (.refl start)).bind ?_
    rintro holds _ after moves rfl
    cases holds with
    | false => exact keeps_done ()
    | true =>
      refine (acts after moves).bind fun _ _ last further _ => ?_
      have sofar := moves.trans further
      exact ih (fun next more => tests next (sofar.trans more))
        fun next more => acts next (sofar.trans more)

end Loops

/-- These members work on the same tree. -/
def sharply (sight : Sight) (sharp : sight.exact) (regime : Regime) (alike : (ι → Console) → Prop)
    (parted : (ι → Option Stop × Console) → Prop)
    (steps : ∀ {consoles} (step : Console → Console), alike consoles →
      alike fun i => step (consoles i))
    (parts : ∀ {ends ends'}, parted ends → (∀ i reason, reason.isFinal = true →
      (ends i).1 = some reason → ends' i = ends i) → parted ends') : Course ι where
  sight := sight
  regime := regime
  most := ⊤
  alike := alike
  parted := parted
  alike_write text := steps fun console => { console with out := console.out ++ text }
  alike_note event same here := by
    simp only [same _ sharp]
    exact steps (fun console => { console with log := console.log.push event }) here
  parts parted passes := parts parted (Filter.eventually_top.mp passes)

/-- Two members with one console write and note the same. -/
theorem one_console {consoles : Bool → Console} (step : Console → Console)
    (same : consoles true = consoles false) : step (consoles true) = step (consoles false) :=
  congrArg step same

/-- Of these members nothing is hidden: they work on the same tree, in the same
frame. -/
def plainly (regime : Regime) (alike : (ι → Console) → Prop)
    (parted : (ι → Option Stop × Console) → Prop)
    (steps : ∀ {consoles} (step : Console → Console), alike consoles →
      alike fun i => step (consoles i))
    (parts : ∀ {ends ends'}, parted ends → (∀ i reason, reason.isFinal = true →
      (ends i).1 = some reason → ends' i = ends i) → parted ends') : Course ι :=
  .sharply .plain trivial regime alike parted steps parts

/-- What is said of all members, once it is known how they started. -/
theorem Keeps.cases {course : Course ι} {calm : Stop → Prop} {manner : Manner} {start : Frame}
    {act : ι → Eval α} {result : α → (ι → α) → Frame → Prop} {states : ι → Machine}
    (keeps : course.Keeps calm manner start act result) (every : course.most = ⊤)
    (here : course.At start states) :
    (∃ (a : α) (as : ι → α) (after : Frame) (states' : ι → Machine),
      (∀ i, act i (states i) = (.ok (as i), states' i)) ∧ course.At after states' ∧
        start.Moves course.regime manner after ∧ result a as after) ∨
    (∃ (reason : Stop) (reasons : ι → Stop) (after : Frame) (states' : ι → Machine),
      (∀ i, act i (states i) = (.error (reasons i), states' i)) ∧ course.At after states' ∧
        (∀ i, Seen course.sight.exact Stop.unplaced reason (reasons i)) ∧
          course.Leaves calm manner start after reason) ∨
    course.parted fun i => Eval.ended (act i (states i)) := by
  have held := keeps states here
  unfold Completes Breaks at held
  simpa only [every, Filter.eventually_top] using held

/-- How evaluation that started in a frame has ended under a regime. -/
structure Conforms (regime : Regime) (calm : Stop → Prop) (manner : Manner) (start : Frame)
    (result : α → Frame → Prop) (outcome : Except Stop α) (after : Frame) : Prop where
  evolves : start.Evolves regime after
  value : ∀ a, outcome = .ok a → start.Moves regime manner after ∧ result a after
  stops : ∀ reason, outcome = .error reason → calm reason
  back : ∀ value, outcome = .error (.returned value) → manner = .body ∧ start.Settles after

/-- Nothing is hidden of the members, and it is said of all of them. -/
structure IsPlain (course : Course ι) : Prop where
  sight : course.sight = .plain
  most : course.most = ⊤

section Plain
variable {course : Course ι} {calm : Stop → Prop} {manner : Manner} {start : Frame}
  {act : ι → Eval α} {middle : α → (ι → α) → Frame → Prop} {result : α → Frame → Prop}

private theorem IsPlain.sees (plain : course.IsPlain) {frame frame' : Frame}
    (seen : course.sight.frames frame frame') : frame' = frame := by
  rw [plain.sight] at seen
  exact seen.symm

private theorem IsPlain.refl (plain : course.IsPlain) (frame : Frame) :
    course.sight.frames frame frame := by
  rw [plain.sight]
  rfl

private theorem IsPlain.exact (plain : course.IsPlain) : course.sight.exact := by
  rw [plain.sight]
  trivial

/-- The members do the same and conform to the regime, or they part. -/
theorem Keeps.conforms (plain : course.IsPlain) (keeps : course.Keeps calm manner start act middle)
    (same : ∀ a as after, middle a as after → Same a as after ∧ result a after)
    (consoles : ι → Console) (alike : course.alike consoles) :
    (∃ outcome after consoles', course.alike consoles' ∧
      (∀ i, act i ⟨start, consoles i⟩ = (outcome, ⟨after, consoles' i⟩)) ∧
        Conforms course.regime calm manner start result outcome after) ∨
      course.parted fun i => Eval.ended (act i ⟨start, consoles i⟩) := by
  have whole : ∀ {after : Frame} {states : ι → Machine}, course.At after states → ∀ i,
      states i = ⟨after, (states i).console⟩ := fun there i =>
    congrArg (Machine.mk · _) (plain.sees (there.frames i))
  have here : course.At start fun i => ⟨start, consoles i⟩ := ⟨fun _ => plain.refl start, alike⟩
  rcases keeps.cases plain.most here with
    ⟨a, as, after, states, ran, there, moves, found⟩ |
    ⟨reason, reasons, after, states, ran, there, seen, leaves⟩ | parted
  · obtain ⟨rfl, holds⟩ := same a as after found
    refine .inl ⟨.ok a, after, fun i => (states i).console, there.consoles, fun i => ?_,
      moves.evolves, fun b done => ?_, nofun, nofun⟩
    · exact (ran i).trans (congrArg _ (whole there i))
    · cases done
      exact ⟨moves, holds⟩
  · refine .inl ⟨.error reason, after, fun i => (states i).console, there.consoles, fun i => ?_,
      leaves.evolves, nofun, fun other stopped => ?_, fun value returned => leaves.back value ?_⟩
    · rw [ran i, ← (seen i).same plain.exact]
      exact congrArg _ (whole there i)
    · cases stopped
      exact leaves.calm
    · exact Except.error.inj returned
  · exact .inr parted

end Plain

end Course

end BasilLang
