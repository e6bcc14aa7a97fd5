import BasilLang.Proofs.Returning

/-! What evaluation does, exactly. An action is given as a function of the
meanings that it works with. It yields an outcome and a frame if, with enough
room, it ends so, whatever the room and the patience are beyond that and
whatever has been written, to which it adds nothing. There is a rule for each
kind of statement, so that the body of a proc can be followed from statement to
statement; a counting loop is followed by an invariant, and a call by following
the body in the frame in which the parameters are bound. -/
namespace BasilLang

open Eval (placed)
open Evaluation (paramPaths calleeFrame)
open Binding (HasValue boundTo)

variable {α β : Type}

/-- What an operator makes of two numbers, if it always makes something of
them. -/
def BinaryOp.onNumbers? : BinaryOp → Option (Float → Float → Value)
  | .less => some fun x y => .ordering (x < y)
  | .lessEq => some fun x y => .ordering (x ≤ y)
  | .greater => some fun x y => .ordering (x > y)
  | .greaterEq => some fun x y => .ordering (x ≥ y)
  | .add => some fun x y => .ofNumber (x + y)
  | .subtract => some fun x y => .ofNumber (x - y)
  | .multiply => some fun x y => .ofNumber (x * y)
  | .or | .and | .is | .isnt | .divide | .modulo => none

namespace Frame

/-- Started in the frame, the action ends so and leaves the other frame, as soon
as there is enough room. -/
def Yields (frame : Frame) (act : Meaning → Eval α) (outcome : Except Stop α) (after : Frame) :
    Prop :=
  ∃ enough, ∀ room ≥ enough, ∀ patience console,
    act (interpreter patience room) ⟨frame, console⟩ = (outcome, ⟨after, console⟩)

/-- Evaluating the expression gives the value, as soon as there is enough
room. -/
def Gives (frame : Frame) (e : Expr) (value : Value) : Prop :=
  ∃ after, frame.Yields (fun inside => inside.expr e) (.ok value) after

section Actions
variable {frame middle last : Frame} {act : Meaning → Eval α} {a : α} {reason : Stop}
  {outcome : Except Stop α}

private theorem yields_pure (frame : Frame) (a : α) :
    frame.Yields (fun _ => pure a) (.ok a) frame :=
  ⟨0, fun _ _ _ _ => rfl⟩

private theorem yields_frame (frame : Frame) :
    frame.Yields (fun _ => Eval.frame) (.ok frame) frame :=
  ⟨0, fun _ _ _ _ => rfl⟩

private theorem yields_stop (frame : Frame) (reason : Stop) :
    frame.Yields (fun _ => (Eval.stop reason : Eval α)) (.error reason) frame :=
  ⟨0, fun _ _ _ _ => rfl⟩

/-- What an expression comes to, it yields, and the frame stays as it is. -/
theorem ComesTo.yields {e : Expr} {outcome : Except Stop Value} (comes : frame.ComesTo e outcome) :
    frame.Yields (fun inside => inside.expr e) outcome frame :=
  comes.2

namespace Yields

private theorem bind {next : Meaning → α → Eval β} {outcome : Except Stop β}
    (first : frame.Yields act (.ok a) middle)
    (rest : middle.Yields (fun inside => next inside a) outcome last) :
    frame.Yields (fun inside => act inside >>= next inside) outcome last := by
  obtain ⟨enough, ran⟩ := first
  obtain ⟨much, went⟩ := rest
  refine ⟨max enough much, fun room more patience console => ?_⟩
  exact (Eval.bind_of_ok (ran room (by omega) patience console)).trans
    (went room (by omega) patience console)

private theorem bind_error {next : Meaning → α → Eval β}
    (first : frame.Yields act (.error reason) last) :
    frame.Yields (fun inside => act inside >>= next inside) (.error reason) last := by
  obtain ⟨enough, ran⟩ := first
  exact ⟨enough, fun room more patience console =>
    Eval.bind_of_error (ran room more patience console)⟩

private theorem lift_bind {x : Except EvalFault α} {next : Meaning → α → Eval β}
    {outcome : Except Stop β} (ok : x = .ok a)
    (rest : frame.Yields (fun inside => next inside a) outcome last) :
    frame.Yields (fun inside => Eval.lift x >>= next inside) outcome last := by
  subst ok
  exact rest

/-- Less room is only a matter of having more to begin with. -/
theorem after (yields : frame.Yields act outcome last) (units : Nat) :
    frame.Yields (fun inside => act (inside.after units)) outcome last := by
  obtain ⟨enough, ran⟩ := yields
  refine ⟨enough + units, fun room more patience console => ?_⟩
  dsimp only
  rw [interpreter_after]
  exact ran (room - units) (by omega) patience console

private theorem require {next : Meaning → Unit → Eval α} (before units : Nat)
    (rest : frame.Yields (fun inside => next inside ()) outcome last) :
    frame.Yields (fun inside => (inside.after before).require units >>= next inside) outcome
      last := by
  obtain ⟨enough, ran⟩ := rest
  refine ⟨max (before + units) enough, fun room more patience console => ?_⟩
  have left : units ≤ ((interpreter patience room).after before).left := by
    change units ≤ room - before
    omega
  exact ((Eval.steady_require left).bind_apply _ console).trans
    (ran room (by omega) patience console)

private theorem located (yields : frame.Yields act outcome last) (loc : Loc) :
    frame.Yields (fun inside => (act inside).located loc) (placed loc outcome) last := by
  obtain ⟨enough, ran⟩ := yields
  refine ⟨enough, fun room more patience console => ?_⟩
  dsimp only
  rw [Eval.located_eq, ran room more patience console]

private theorem catchReturn {act : Meaning → Eval Unit} {value : Value}
    (yields : frame.Yields act (.error (.returned value)) last) :
    frame.Yields (fun inside => (act inside).catchReturn) (.ok (some value)) last := by
  obtain ⟨enough, ran⟩ := yields
  refine ⟨enough, fun room more patience console => ?_⟩
  dsimp only [Eval.catchReturn]
  rw [ran room more patience console]

/-- Work in another frame ends as it ends there. -/
theorem inFrame {inner : Frame} (yields : inner.Yields act outcome last)
    (merge : Frame → Frame → Frame) :
    frame.Yields (fun inside => (act inside).inFrame inner merge) outcome (merge frame last) := by
  obtain ⟨enough, ran⟩ := yields
  exact ⟨enough, fun room more patience console =>
    Returning.inFrame_eq (m := ⟨frame, console⟩) (ran room more patience console)⟩

private theorem inCopy (yields : frame.Yields act outcome last) :
    frame.Yields (fun inside => (act inside).inCopy) outcome (frame.mergeExisting last) :=
  yields.inFrame mergeExisting

/-- Actions in a row: the first, and then the others. -/
theorem forEach_cons {act : Meaning → α → Eval β} {item : α} {items : List α} {b : β}
    {outcome : Except Stop Unit}
    (first : frame.Yields (fun inside => act inside item) (.ok b) middle)
    (rest : middle.Yields (fun inside => Eval.forEach (act inside) items) outcome last) :
    frame.Yields (fun inside => Eval.forEach (act inside) (item :: items)) outcome last := by
  simp only [Eval.forEach_cons]
  exact first.bind rest

private theorem forEach_stop {act : Meaning → α → Eval β} {item : α} {items : List α}
    (first : frame.Yields (fun inside => act inside item) (.error reason) last) :
    frame.Yields (fun inside => Eval.forEach (act inside) (item :: items)) (.error reason)
      last := by
  simp only [Eval.forEach_cons]
  exact first.bind_error

end Yields

end Actions

section Counting
variable {frame : Frame} {holds : Nat → Frame → Prop} {act : Meaning → Int → Eval Unit}
  {first : Int} {count : Nat}

/-- What holds at the beginning and is kept up by every round holds after the
last one. The induction is on the rounds that are left. -/
theorem yields_countUp
    (round : ∀ done < count, ∀ frame, holds done frame → ∃ after,
      frame.Yields (fun inside => act inside (first + done)) (.ok ()) after ∧
        holds (done + 1) after)
    {left done : Nat} (split : done + left = count) (begins : holds done frame) :
    ∃ after, frame.Yields (fun inside => Eval.countUp (act inside) left (first + done)) (.ok ())
      after ∧ holds count after := by
  induction left generalizing done frame with
  | zero =>
    obtain rfl : done = count := by omega
    exact ⟨frame, yields_pure frame (), begins⟩
  | succ left ih =>
    obtain ⟨middle, ran, kept⟩ := round done (by omega) frame begins
    obtain ⟨after, went, ends⟩ := ih (by omega) kept
    have next : first + done + 1 = first + (done + 1 : Nat) := by omega
    simp only [Eval.countUp_succ, next]
    exact ⟨after, ran.bind went, ends⟩

end Counting

section Merging

/-- Copying a frame back into itself changes nothing. -/
theorem mergeExisting_self (frame : Frame) : frame.mergeExisting frame = frame := by
  have same : (frame.bindings.replace fun path bound => (frame.lookup path).getD bound) =
      frame.bindings := by
    unfold Bindings.replace
    conv_rhs => rw [← List.map_id frame.bindings]
    apply List.map_congr_left
    rintro ⟨path, bound⟩ member
    simp [lookup_eq_some_iff.mpr member]
  simp only [mergeExisting, same]

end Merging

section Statements
variable {frame middle inner after : Frame} {e condition start stop : Expr} {body rest : List Stmt}
  {s : Stmt} {name : Name} {loc bodyLoc : Loc} {value : Value} {outcome : Except Stop Unit}
  {reason : Stop}

/-- A node yields what its rule does. -/
theorem Yields.node {act : Meaning → Eval Value} {outcome : Except Stop Value}
    (yields : frame.Yields act outcome after)
    (rule : ∀ patience inside, Evaluation.stmt patience inside s = act inside) :
    frame.Yields (fun inside => inside.stmt s) (placed s.loc outcome) after := by
  obtain ⟨enough, ran⟩ := (yields.after s.units).located s.loc
  refine ⟨enough + Room.work + 1, fun room more patience console => ?_⟩
  obtain ⟨room, rfl⟩ : ∃ inner, room = inner + 1 := ⟨room - 1, by omega⟩
  change interpret patience (room + 1) 0 s ⟨frame, console⟩ = _
  rw [Binding.interpret_succ (by omega), rule]
  exact ran room (by omega) patience console

theorem yields_body_nil (frame : Frame) :
    frame.Yields (fun inside => inside.body []) (.ok ()) frame :=
  yields_pure frame ()

/-- A statement that goes well is followed by the others. -/
theorem Yields.body_cons (first : frame.Yields (fun inside => inside.stmt s) (.ok value) middle)
    (others : middle.Yields (fun inside => inside.body rest) outcome after) :
    frame.Yields (fun inside => inside.body (s :: rest)) outcome after := by
  obtain ⟨enough, ran⟩ := others
  have later : middle.Yields (fun inside => Eval.forEach (inside.after Room.body).stmt rest) outcome
      after := ⟨enough, ran⟩
  exact (first.after Room.body).forEach_cons later

/-- A body is left where one of its statements has no result. -/
theorem Yields.body_stop
    (first : frame.Yields (fun inside => inside.stmt s) (.error reason) after) :
    frame.Yields (fun inside => inside.body (s :: rest)) (.error reason) after :=
  (first.after Room.body).forEach_stop

/-- A return yields the value of its expression. -/
theorem Yields.returning (yields : frame.Yields (fun inside => inside.expr e) (.ok value) after)
    (loc : Loc) :
    frame.Yields (fun inside => inside.stmt (.returning e loc)) (.error (.returned value))
      after := by
  have rule : frame.Yields (fun inside => do
      Eval.stop (.returned (← inside.expr e)) : Meaning → Eval Value) (.error (.returned value))
      after :=
    yields.bind (yields_stop after (.returned value))
  exact rule.node (s := .returning e loc) fun _ _ => rfl

private theorem yields_lift {x : Except EvalFault α} {a : α} (frame : Frame) (ok : x = .ok a) :
    frame.Yields (fun _ => Eval.lift x) (.ok a) frame := by
  subst ok
  exact yields_pure frame a

private theorem yields_holds {flag : Bool} (comes : frame.ComesTo condition (.ok value))
    (truth : value.truth = .ok flag) :
    frame.Yields (fun inside => inside.holds condition) (.ok flag) frame :=
  comes.yields.bind (yields_lift frame truth)

/-- A branch that is taken is left by the return in its body. -/
theorem Yields.branch_returned {result : Value} (comes : frame.ComesTo condition (.ok value))
    (truth : value.truth = .ok true)
    (yields : frame.Yields (fun inside => inside.body body) (.error (.returned result)) inner)
    (bodyLoc loc : Loc) :
    frame.Yields (fun inside => inside.stmt (.ifThen condition body bodyLoc loc))
      (.error (.returned result)) (frame.mergeExisting inner) := by
  have left : frame.Yields (fun inside => do
      Eval.inCopy (inside.body body)
      return Value.null) (.error (.returned result)) (frame.mergeExisting inner) :=
    yields.inCopy.bind_error
  have rule : frame.Yields (fun inside => do
      if ← inside.holds condition then Eval.inCopy (inside.body body)
      return Value.null) (.error (.returned result)) (frame.mergeExisting inner) :=
    (yields_holds comes truth).bind left
  exact rule.node (s := .ifThen condition body bodyLoc loc) fun _ _ => rfl

/-- If the condition does not hold, nothing is done. -/
theorem yields_branch_skipped (comes : frame.ComesTo condition (.ok value))
    (truth : value.truth = .ok false) (body : List Stmt) (bodyLoc loc : Loc) :
    frame.Yields (fun inside => inside.stmt (.ifThen condition body bodyLoc loc)) (.ok .null)
      frame := by
  have rule : frame.Yields (fun inside => do
      if ← inside.holds condition then Eval.inCopy (inside.body body)
      return Value.null) (.ok .null) frame :=
    (yields_holds comes truth).bind (yields_pure frame Value.null)
  exact rule.node (s := .ifThen condition body bodyLoc loc) fun _ _ => rfl

/-- Something other than a proc is stored as its value. -/
theorem yields_bindable (comes : frame.ComesTo e (.ok value))
    (noProc : frame.procNamed? e = none) :
    frame.Yields (fun inside => Evaluation.bindable inside e) (.ok (.ofValue value e.loc))
      frame := by
  apply Yields.require Room.binding
  refine (yields_frame frame).bind ?_
  rw [noProc]
  exact (comes.yields.after Room.binding).bind (yields_pure frame _)

private theorem assignable_of_assign {path : Path} {bound : Bound}
    (assigned : frame.assign path bound = .ok after) : frame.requireAssignable path = .ok () := by
  unfold assign at assigned
  cases required : frame.requireAssignable path with
  | ok => rfl
  | error fault =>
    rw [required] at assigned
    cases assigned

/-- An assignment of something other than a proc stores its value. -/
theorem yields_set (comes : frame.ComesTo e (.ok value)) (noProc : frame.procNamed? e = none)
    (assigned : frame.assign name.path (.ofValue value e.loc) = .ok after) :
    frame.Yields (fun inside => inside.stmt (.set name e)) (.ok value) after := by
  have stores : frame.Yields (fun _ => do
      Eval.setFrame (← Eval.lift (frame.assign name.path (.ofValue value e.loc)))
      return value) (.ok value) after :=
    Yields.lift_bind assigned (yields_pure after value)
  have rule : frame.Yields (fun inside => Evaluation.assign inside name.path e) (.ok value)
      after := by
    unfold Evaluation.assign
    refine (yields_frame frame).bind (Yields.lift_bind (assignable_of_assign assigned) ?_)
    exact (yields_bindable comes noProc).bind stores
  exact rule.node (s := .set name e) fun _ _ => rfl

theorem unbound_of_declare {path : Path} {bound : Bound} {constant : Bool}
    (declared : frame.declare path bound constant = .ok after) :
    frame.requireUnbound path = .ok () := by
  unfold declare at declared
  cases required : frame.requireUnbound path with
  | ok => rfl
  | error fault =>
    rw [required] at declared
    cases declared

/-- The rounds of a counting loop keep up what each of them does. -/
theorem yields_rounds (holds : Nat → Frame → Prop) {low high : Int} (begins : holds 0 frame)
    (round : ∀ done < (high - low).toNat, ∀ frame, holds done frame → ∃ inner,
      (frame.bind name.path (.ofValue (.ofNumber (Number.ofInt (low + done))) loc)).Yields
        (fun inside => inside.body body) (.ok ()) inner ∧
      holds (done + 1) (frame.mergeExisting inner)) :
    ∃ after, frame.Yields (fun inside => Evaluation.rounds inside name.path low high body loc)
      (.ok ()) after ∧ holds (high - low).toNat after := by
  have each : ∀ done < (high - low).toNat, ∀ frame, holds done frame → ∃ after,
      frame.Yields (fun inside => Returning.round inside name.path body loc (low + done)) (.ok ())
        after ∧ holds (done + 1) after := by
    intro done fewer frame sofar
    obtain ⟨inner, ran, kept⟩ := round done fewer frame sofar
    have inside : frame.Yields (fun inside => do
        let value := Value.ofNumber (Number.ofInt (low + done))
        Eval.setFrame ((← Eval.frame).bind name.path (.ofValue value loc))
        inside.body body) (.ok ()) inner := ran
    exact ⟨_, inside.inCopy, kept⟩
  obtain ⟨after, counted, ends⟩ := yields_countUp each (Nat.zero_add _) begins
  rw [Int.natCast_zero, Int.add_zero] at counted
  exact ⟨after, counted, ends⟩

/-- A counting loop keeps up what each of its rounds does. -/
theorem yields_forRange (holds : Nat → Frame → Prop) {first final : Value} {x y : Float}
    {low high : Int} (starts : frame.ComesTo start (.ok first))
    (stops : frame.ComesTo stop (.ok final)) (firstKind : first.kind = .number)
    (finalKind : final.kind = .number) (firstNumber : first.number = .ok x)
    (finalNumber : final.number = .ok y) (floors : Number.floor? x = some low)
    (floors' : Number.floor? y = some high) (begins : holds 0 frame)
    (round : ∀ done < (high - low).toNat, ∀ frame, holds done frame → ∃ inner,
      (frame.bind name.path (.ofValue (.ofNumber (Number.ofInt (low + done))) loc)).Yields
        (fun inside => inside.body body) (.ok ()) inner ∧
      holds (done + 1) (frame.mergeExisting inner)) :
    ∃ after, frame.Yields (fun inside =>
        inside.stmt (.forRange name start stop body bodyLoc loc)) (.ok .null) after ∧
      holds (high - low).toNat after := by
  obtain ⟨after, counted, ends⟩ := yields_rounds holds begins round
  have looped : frame.Yields (fun inside =>
      Evaluation.rounds inside name.path low high body loc >>= fun _ => pure Value.null)
      (.ok .null) after :=
    counted.bind (yields_pure after Value.null)
  obtain ⟨enough, bounds⟩ := starts.2
  obtain ⟨enough', bounds'⟩ := stops.2
  obtain ⟨much, ran⟩ := looped
  have rule : frame.Yields (fun inside =>
      Evaluation.forRange inside name.path start stop body loc) (.ok .null) after := by
    refine ⟨max (max enough enough') much, fun room more patience console => ?_⟩
    have counts : Returning.Counts (interpreter patience room) start stop ⟨frame, console⟩ low high
        ⟨frame, console⟩ :=
      ⟨first, final, x, y, _, bounds room (by omega) patience console,
        bounds' room (by omega) patience console, firstKind, finalKind, firstNumber, finalNumber,
        floors, floors'⟩
    exact (counts.forRange name.path loc).trans (ran room (by omega) patience console)
  exact ⟨after, rule.node (s := .forRange name start stop body bodyLoc loc) fun _ _ => rfl, ends⟩

end Statements

section Operators
variable {frame : Frame} {left right e : Expr} {value other : Value} {x y : Float}

private theorem yields_numbers (first : frame.ComesTo left (.ok value))
    (second : frame.ComesTo right (.ok other)) (number : value.number = .ok x)
    (number' : other.number = .ok y) :
    frame.Yields (fun inside => Evaluation.numbers inside left right) (.ok (x, y)) frame := by
  have operands : frame.Yields (fun inside => Evaluation.operands inside left right)
      (.ok (value, other)) frame :=
    first.yields.bind (second.yields.bind (yields_pure frame _))
  exact operands.bind (Yields.lift_bind number (Yields.lift_bind number' (yields_pure frame _)))

/-- An expression that names nothing new comes to what its rule yields. -/
theorem Yields.comesTo (yields : frame.Yields (fun inside => Evaluation.expr inside e) (.ok value)
    frame) : frame.ComesTo e (.ok value) :=
  ⟨trivial, yields.node (s := .expr e) fun _ _ => rfl⟩

/-- The operators on numbers that always have a result come to that. -/
theorem comesTo_binary {op : BinaryOp} {apply : Float → Float → Value}
    (does : op.onNumbers? = some apply) (first : frame.ComesTo left (.ok value))
    (second : frame.ComesTo right (.ok other)) (number : value.number = .ok x)
    (number' : other.number = .ok y) (mark : Mark) :
    frame.ComesTo (.binary left op mark right) (.ok (apply x y)) := by
  have numbers := yields_numbers first second number number'
  apply Yields.comesTo
  cases op with
  | less | lessEq | greater | greaterEq | add | subtract | multiply =>
    cases does
    exact numbers.bind (yields_pure frame _)
  | or | and | is | isnt | divide | modulo => cases does

/-- The negative of a number. -/
theorem comesTo_negate (operand : frame.ComesTo e (.ok value)) (number : value.number = .ok x)
    (mark : Mark) : frame.ComesTo (.unary .negate mark e) (.ok (.ofNumber (-x))) := by
  apply Yields.comesTo
  exact operand.yields.bind (Yields.lift_bind number (yields_pure frame _))

end Operators

section Settling
variable {frame caller : Frame} {path : Path} {e : Expr} {value : Value} {params : List Path}

/-- What a path is still to be read through. -/
def unresolvedAt (frame : Frame) (path : Path) : Option Expr :=
  frame.lookup path >>= Bound.unresolved?

private theorem settle_eq (inside : Meaning) (console : Console) :
    Evaluation.settle inside caller path ⟨frame, console⟩ =
      (if caller.has path then
        match frame.unresolvedAt path with
        | some e => do
          let value ← (inside.after Room.settling).expr e
          Eval.setFrame ((← Eval.frame).bind path (.ofValue value e.loc))
        | none => pure ()
      else pure () : Eval Unit) ⟨frame, console⟩ := by
  change (if caller.has path then _ else _ : Eval Unit) _ = _
  split
  · rfl
  · rfl

/-- A path that is resolved, or that the caller does not have, is left alone. -/
theorem yields_settle_none (none : caller.has path = true → frame.unresolvedAt path = none) :
    frame.Yields (fun inside => Evaluation.settle inside caller path) (.ok ()) frame := by
  refine ⟨0, fun room _ patience console => (settle_eq _ _).trans ?_⟩
  by_cases has : caller.has path = true
  · rw [if_pos has, none has]
    rfl
  · rw [if_neg has]
    rfl

private theorem yields_settle_some (has : caller.has path = true)
    (found : frame.unresolvedAt path = some e)
    (comes : frame.ComesTo e (.ok value)) :
    frame.Yields (fun inside => Evaluation.settle inside caller path) (.ok ())
      (frame.bind path (.ofValue value e.loc)) := by
  have binds : frame.Yields (fun inside => do
      let value ← (inside.after Room.settling).expr e
      Eval.setFrame ((← Eval.frame).bind path (.ofValue value e.loc))) (.ok ())
      (frame.bind path (.ofValue value e.loc)) := by
    apply (comes.yields.after Room.settling).bind
    exact ⟨0, fun _ _ _ _ => rfl⟩
  obtain ⟨enough, ran⟩ := binds
  refine ⟨enough, fun room more patience console => (settle_eq _ _).trans ?_⟩
  rw [if_pos has, found]
  exact ran room more patience console

/-- Whatever of the parameters is unresolved comes to a value, whatever the
parameters are bound to meanwhile. -/
def Settleable (params : List Path) (frame : Frame) : Prop :=
  ∀ path ∈ params, ∀ e, frame.unresolvedAt path = some e → ∃ value, ∀ other : Frame,
    (∀ path, path ∉ params → other.lookup path = frame.lookup path) → other.ComesTo e (.ok value)

private theorem Settleable.bind (settleable : Settleable params frame) (param : path ∈ params)
    (value : Value) (loc : Loc) : Settleable params (frame.bind path (.ofValue value loc)) := by
  intro other member e unresolved
  have differs : other ≠ path := by
    rintro rfl
    simp [unresolvedAt, Bound.ofValue, Bound.unresolved?] at unresolved
  have before : frame.unresolvedAt other = some e := by
    rwa [unresolvedAt, lookup_bind, if_neg differs] at unresolved
  obtain ⟨value, comes⟩ := settleable other member e before
  refine ⟨value, fun frame' same => comes frame' fun elsewhere apart => ?_⟩
  have clear : elsewhere ≠ path := fun clash => apart (clash ▸ param)
  rw [same elsewhere apart, lookup_bind, if_neg clear]

/-- Parameters of which none needs to be resolved any more. -/
theorem yields_settled {paths : List Path}
    (resolved : ∀ path ∈ paths, frame.unresolvedAt path = none) (caller : Frame) :
    frame.Yields (fun inside => Eval.forEach (Evaluation.settle inside caller) paths) (.ok ())
      frame := by
  induction paths with
  | nil => exact yields_pure frame ()
  | cons path paths ih =>
    have here := yields_settle_none fun _ : caller.has path = true =>
      resolved path List.mem_cons_self
    exact here.forEach_cons (ih fun other member => resolved other (List.mem_cons_of_mem _ member))

/-- The end of a call: each parameter is resolved in turn. -/
theorem Settleable.yields (settleable : Settleable params frame) (caller : Frame)
    {paths : List Path} (among : ∀ path ∈ paths, path ∈ params) :
    ∃ after, frame.Yields (fun inside => Eval.forEach (Evaluation.settle inside caller) paths)
      (.ok ()) after := by
  induction paths generalizing frame with
  | nil => exact ⟨frame, yields_pure frame ()⟩
  | cons path paths ih =>
    have later := fun other member => among other (List.mem_cons_of_mem _ member)
    have param := among path List.mem_cons_self
    by_cases has : caller.has path = true
    · cases unresolved : frame.unresolvedAt path with
      | none =>
        obtain ⟨after, rest⟩ := ih settleable later
        exact ⟨after, (yields_settle_none fun _ => unresolved).forEach_cons rest⟩
      | some e =>
        obtain ⟨value, comes⟩ := settleable path param e unresolved
        obtain ⟨after, rest⟩ := ih (settleable.bind param value e.loc) later
        exact ⟨after, (yields_settle_some has unresolved (comes frame fun _ _ => rfl)).forEach_cons
          rest⟩
    · obtain ⟨after, rest⟩ := ih settleable later
      exact ⟨after, (yields_settle_none fun held => absurd held has).forEach_cons rest⟩

end Settling

section Storing
variable {frame inner : Frame} {path other : Path} {value : Value}

/-- The path is bound to the value itself. -/
def Stores (frame : Frame) (path : Path) (value : Value) : Prop :=
  ∃ loc, frame.lookup path = some (.ofValue value loc)

/-- A name has the value that is stored there. -/
theorem Stores.comesTo (stores : frame.Stores path value) (loc : Loc) :
    frame.ComesTo (.identifier ⟨path, loc⟩) (.ok value) := by
  obtain ⟨loc', found⟩ := stores
  exact Binding.comesTo_of_bound found nofun (Binding.comesTo_literal frame value loc')

theorem Stores.resolved (stores : frame.Stores path value) : frame.unresolvedAt path = none := by
  obtain ⟨loc, found⟩ := stores
  rw [unresolvedAt, found]
  rfl

theorem stores_put (frame : Frame) (path : Path) (value : Value) (loc : Loc) :
    (frame.put path (.ofValue value loc)).Stores path value :=
  ⟨loc, by rw [lookup_put, if_pos rfl]⟩

/-- Binding another path changes nothing. -/
theorem Stores.put (stores : frame.Stores path value) (differs : path ≠ other) (bound : Bound) :
    (frame.put other bound).Stores path value := by
  obtain ⟨loc, found⟩ := stores
  exact ⟨loc, by rw [lookup_put, if_neg differs, found]⟩

/-- What a copy stores is copied back. -/
theorem Stores.mergeExisting (stores : inner.Stores path value) (has : frame.has path = true) :
    (frame.mergeExisting inner).Stores path value := by
  obtain ⟨loc, found⟩ := stores
  obtain ⟨bound, held⟩ := Option.isSome_iff_exists.mp has
  exact ⟨loc, by rw [lookup_mergeExisting, held, found]; rfl⟩

theorem Stores.has (stores : frame.Stores path value) : frame.has path = true := by
  obtain ⟨loc, found⟩ := stores
  rw [Frame.has, found]
  rfl

end Storing

section Levels
variable {frame : Frame} {levels : Nat}

/-- So many levels are left in the frame. -/
def HasLevels (frame : Frame) (levels : Nat) : Prop :=
  ∀ limit, frame.maxDepth = some limit → (frame.depth + levels : Nat) ≤ limit

/-- A call can be entered if there is a level left. -/
theorem HasLevels.deeper (left : frame.HasLevels (levels + 1)) :
    ∃ copy, frame.deeper = .ok copy ∧ copy.HasLevels levels := by
  cases limited : frame.maxDepth with
  | none =>
    exact ⟨{ frame with depth := frame.depth + 1 }, by simp [Frame.deeper, limited],
      by simp [HasLevels, limited]⟩
  | some limit =>
    have enough := left limit limited
    have allowed : ¬ limit < (frame.depth + 1 : Nat) := by omega
    refine ⟨{ frame with depth := frame.depth + 1 }, ?_, ?_⟩
    · simp only [Frame.deeper, limited, if_neg allowed]
    · intro other same
      cases limited.symm.trans same
      change (frame.depth + 1 + levels : Nat) ≤ limit
      omega

end Levels

end Frame

/-- A proc can be called by a path from a frame in which there is a level left:
it has different parameters, and for each of them there is an argument without
calls that has a value. -/
structure Ready (frame copy : Frame) (path : Path) (proc : Proc) (args : List Expr)
    (values : List Value) : Prop where
  tidy : frame.Tidy
  user : path.head? ≠ some Evaluation.builtinScope
  held : ∃ bound, frame.lookup path = some bound ∧ bound.proc? = some proc
  deeper : frame.deeper = .ok copy
  different : (proc.params.map Mark.text).Nodup
  count : args.length = proc.params.length
  callFree : ∀ e ∈ args, e.isCallFree = true
  valued : List.Forall₂ (HasValue frame) args values

/-- The frame in which the body of the proc works. -/
def entered (frame copy : Frame) (path : Path) (proc : Proc) (args : List Expr)
    (values : List Value) : Frame :=
  calleeFrame copy proc path (List.zipWith (boundTo frame (paramPaths proc)) args values)

theorem Frame.HasLevels.entered {copy : Frame} {levels : Nat} (left : copy.HasLevels levels)
    (frame : Frame) (path : Path) (proc : Proc) (args : List Expr) (values : List Value) :
    (BasilLang.entered frame copy path proc args values).HasLevels levels := by
  obtain ⟨depth, maxDepth⟩ := Frame.bindAll_depth (copy.within path) (paramPaths proc)
    (List.zipWith (boundTo frame (paramPaths proc)) args values)
  unfold HasLevels BasilLang.entered calleeFrame
  rw [depth, maxDepth]
  exact left

namespace Ready
variable {frame copy last settled : Frame} {path : Path} {proc : Proc} {args : List Expr}
  {values : List Value} {value : Value}

/-- Inside the proc, a parameter is bound to what its argument comes to. -/
theorem lookup_param (ready : Ready frame copy path proc args values) {i : Nat} {mark : Mark}
    (here : proc.params[i]? = some mark) (given : values[i]? = some value) :
    ∃ e ∈ args, HasValue frame e value ∧
      (entered frame copy path proc args values).lookup [mark.text] =
        some (boundTo frame (paramPaths proc) e value) :=
  Binding.lookup_param ready.different ready.valued copy path here given

theorem has_param (ready : Ready frame copy path proc args values) (i : Nat) {mark : Mark}
    (here : proc.params[i]? = some mark) (given : values[i]? = some value) :
    (entered frame copy path proc args values).has [mark.text] = true := by
  obtain ⟨_, -, -, bound⟩ := ready.lookup_param here given
  rw [Frame.has, bound]
  rfl

/-- Inside the proc, all but the parameters is bound as outside. -/
theorem lookup_other (ready : Ready frame copy path proc args values) {other : Path}
    (apart : other ∉ paramPaths proc) :
    (entered frame copy path proc args values).lookup other = frame.lookup other :=
  Binding.lookup_callee ready.deeper path _ apart

/-- A parameter comes to the value of its argument. -/
theorem param_comesTo (ready : Ready frame copy path proc args values) (i : Nat) {mark : Mark}
    (here : proc.params[i]? = some mark) (given : values[i]? = some value) (loc : Loc) :
    (entered frame copy path proc args values).ComesTo (.identifier ⟨[mark.text], loc⟩)
      (.ok value) := by
  obtain ⟨e, member, valued, bound⟩ := ready.lookup_param here given
  exact Binding.param_comesTo ready.tidy.plain ready.deeper path (ready.callFree e member) valued
    bound

/-- What a parameter is bound to leads to no parameter, so it can be resolved at
the end, whatever has become of the others. -/
theorem settleable (ready : Ready frame copy path proc args values) :
    Frame.Settleable (paramPaths proc) (entered frame copy path proc args values) := by
  intro param member e unresolved
  obtain ⟨mark, listed, rfl⟩ := List.mem_map.mp member
  obtain ⟨i, here⟩ := List.mem_iff_getElem?.mp listed
  obtain ⟨inRange, -⟩ := List.getElem?_eq_some_iff.mp here
  have longEnough : i < values.length := by
    rw [← ready.valued.length_eq, ready.count]
    exact inRange
  obtain ⟨argument, given, valued, bound⟩ :=
    ready.lookup_param here (List.getElem?_eq_getElem longEnough)
  rw [Frame.unresolvedAt, bound] at unresolved
  have same := Bound.eq_of_unresolved unresolved
  refine ⟨values[i], fun other alike => ?_⟩
  apply (Binding.boundTo_comesTo ready.tidy.plain (ready.callFree argument given) valued same _).1
  intro read apart
  rw [alike read apart, ready.lookup_other apart]

/-- The frame that the body works in is tidy, too. -/
theorem tidy_entered (ready : Ready frame copy path proc args values) :
    (entered frame copy path proc args values).Tidy := by
  have settles : frame.Settles (copy.within path) :=
    .of_lookup fun other => Frame.lookup_deeper ready.deeper other
  apply (ready.tidy.settles settles).bindAll
  · simp [paramPaths, ← ready.valued.length_eq, ready.count]
  · intro bound member
    obtain ⟨i, found⟩ := List.mem_iff_getElem?.mp member
    rw [List.getElem?_zipWith] at found
    obtain ⟨e, value, rfl⟩ : ∃ e value, boundTo frame (paramPaths proc) e value = bound := by
      split at found
      · cases found
        exact ⟨_, _, rfl⟩
      · cases found
    exact (Binding.apart_boundTo frame (paramPaths proc) e value).settles settles

/-- A call gives what the body returns, once the parameters are resolved. -/
theorem yields (ready : Ready frame copy path proc args values)
    (body : (entered frame copy path proc args values).Yields (fun inside => inside.body proc.body)
      (.error (.returned value)) last)
    (settles : last.Yields (fun inside =>
      Eval.forEach (Evaluation.settle inside frame) (paramPaths proc)) (.ok ()) settled)
    (loc argsLoc : Loc) :
    frame.Yields (fun inside => inside.expr (.call ⟨path, loc⟩ args argsLoc)) (.ok value)
      (frame.mergeExisting settled) := by
  have ran : (entered frame copy path proc args values).Yields
      (fun inside => Evaluation.runBody inside frame proc) (.ok value) settled :=
    (body.after Room.call).catchReturn.bind (settles.bind (Frame.yields_pure settled value))
  have back : frame.Yields (fun inside => Eval.inFrame (entered frame copy path proc args values)
      Frame.mergeExisting (Evaluation.runBody inside frame proc)) (.ok value)
      (frame.mergeExisting settled) :=
    ran.inFrame Frame.mergeExisting
  obtain ⟨much, went⟩ := (back.after Room.node).located loc
  obtain ⟨bound, held, isProc⟩ := ready.held
  obtain ⟨enough, steady⟩ :=
    Binding.steady_arguments ready.tidy.plain ready.callFree ready.valued (paramPaths proc)
  have counted : (List.zipWith (boundTo frame (paramPaths proc)) args values).length =
      (paramPaths proc).length := by
    simp [paramPaths, ← ready.valued.length_eq, ready.count]
  refine ⟨max much enough + Room.work + Room.node + Room.entering + 1,
    fun room more patience console => ?_⟩
  obtain ⟨room, rfl⟩ : ∃ inner, room = inner + 1 := ⟨room - 1, by omega⟩
  have called := Binding.interpret_call ready.user held isProc ready.deeper counted (by omega)
    (steady room (by omega) patience) console loc argsLoc
  exact called.trans (went room (by omega) patience console)

/-- A body that returns and leaves its frame as it is. -/
theorem gives (ready : Ready frame copy path proc args values)
    (body : (entered frame copy path proc args values).Yields (fun inside => inside.body proc.body)
      (.error (.returned value)) (entered frame copy path proc args values)) (loc argsLoc : Loc) :
    frame.Gives (.call ⟨path, loc⟩ args argsLoc) value := by
  obtain ⟨settled, settles⟩ := ready.settleable.yields frame fun _ member => member
  exact ⟨_, ready.yields body settles loc argsLoc⟩

end Ready

end BasilLang
