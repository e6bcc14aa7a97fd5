import BasilLang.Proofs.Binding
import BasilLang.Proofs.Resolution

/-! Where a `return` goes. It leaves the bodies of branches, loops and
namespaces that stand around it, each of which still copies back what it has
to, and it ends the call of the proc that it stands in; what would have come
later is not run. Expressions and assignments know no return, and a program or
a library catches the one that stands outside of all procs. -/
namespace BasilLang.Returning

open Eval (bind_of_ok bind_of_error)

variable {α β : Type}

/-- Wherever it starts, the action does not end in a return. -/
def NeverReturns (act : Eval α) : Prop :=
  ∀ m value, (act m).1 ≠ .error (.returned value)

section Actions
variable {act : Eval α} {next : α → Eval β} {m after : Machine} {value : Value}

/-- What is not evaluated in the manner of a body does not return. -/
theorem never_of_keeps {manner : Manner} {result : α → (Bool → α) → Frame → Prop}
    (keeps : ∀ frame, Regime.free.beside.Keeps Regime.free.stops manner frame (fun _ => act) result)
    (closed : manner.mayReturn = false) : NeverReturns act := by
  intro m value returned
  have here : Regime.free.beside.At m.frame fun _ => m := ⟨fun _ => rfl, rfl⟩
  rcases (keeps m.frame).cases rfl here with ⟨_, as, _, states, ran, -⟩ |
    ⟨reason, reasons, _, states, ran, -, seen, leaves⟩ | ⟨parting, -⟩
  · have ran : act m = (.ok (as true), states true) := ran true
    rw [ran] at returned
    cases returned
  · have ran : act m = (.error (reasons true), states true) := ran true
    rw [ran, ← (seen true).same trivial] at returned
    rw [(leaves.back value (Except.error.inj returned)).1] at closed
    cases closed
  · exact parting

private theorem never_pure (a : α) : NeverReturns (pure a) :=
  fun _ _ => nofun

private theorem never_frame : NeverReturns Eval.frame :=
  fun _ _ => nofun

private theorem never_stop {reason : Stop} (other : ∀ value, reason ≠ .returned value) :
    NeverReturns (Eval.stop reason : Eval α) :=
  fun _ value same => other value (Except.error.inj same)

private theorem never_lift (x : Except EvalFault α) : NeverReturns (Eval.lift x) := by
  cases x with
  | ok a => exact never_pure a
  | error fault => exact never_stop fun _ => nofun

private theorem of_lift_ok {x : Except EvalFault α} {a : α} (ran : Eval.lift x m = (.ok a, after)) :
    x = .ok a ∧ after = m := by
  cases x with
  | ok b =>
    cases ran
    exact ⟨rfl, rfl⟩
  | error fault => cases ran

private theorem never_require (inside : Meaning) (units : Nat) :
    NeverReturns (inside.require units) := by
  unfold Meaning.require
  split
  · exact never_pure ()
  · exact never_stop fun _ => nofun

/-- A return out of two actions in a row comes from the first, or from the
second after the first had a result. -/
theorem bind_returned (returned : (act >>= next) m = (.error (.returned value), after)) :
    act m = (.error (.returned value), after) ∨
      ∃ a middle, act m = (.ok a, middle) ∧ next a middle = (.error (.returned value), after) := by
  rcases Eval.bind_cases act next m with ⟨a, middle, ran, goesOn⟩ | ⟨reason, last, ran, stops⟩
  · exact .inr ⟨a, middle, ran, goesOn.symm.trans returned⟩
  · cases stops.symm.trans returned
    exact .inl ran

private theorem NeverReturns.bind (first : NeverReturns act) (rest : ∀ a, NeverReturns (next a)) :
    NeverReturns (act >>= next) := by
  intro m value returned
  rcases bind_returned (Prod.ext returned rfl) with early | ⟨a, middle, -, late⟩
  · exact first m value (congrArg Prod.fst early)
  · exact rest a middle value (congrArg Prod.fst late)

/-- After an action that does not return, a return comes from what follows. -/
theorem NeverReturns.bind_returned (first : NeverReturns act)
    (returned : (act >>= next) m = (.error (.returned value), after)) :
    ∃ a middle, act m = (.ok a, middle) ∧ next a middle = (.error (.returned value), after) := by
  rcases Returning.bind_returned returned with early | late
  · exact absurd (congrArg Prod.fst early) (first m value)
  · exact late

/-- Before something that does not return, a return comes from what went
before. -/
theorem returned_first (rest : ∀ a, NeverReturns (next a))
    (returned : (act >>= next) m = (.error (.returned value), after)) :
    act m = (.error (.returned value), after) := by
  rcases bind_returned returned with early | ⟨a, middle, -, late⟩
  · exact early
  · exact absurd (congrArg Prod.fst late) (rest a middle value)

private theorem never_catchReturn (act : Eval Unit) : NeverReturns act.catchReturn := by
  intro m value returned
  unfold Eval.catchReturn at returned
  split at returned
  · cases returned
  · cases returned
  · next other _ =>
    cases returned
    exact other value rfl

private theorem NeverReturns.reportingRoom (never : NeverReturns act) (loc : Loc) :
    NeverReturns (act.reportingRoom loc) := by
  intro m value returned
  unfold Eval.reportingRoom at returned
  split at returned
  · cases returned
  · exact never m value returned

/-- Naming a place changes nothing about a return. -/
theorem located_returned {loc : Loc} :
    act.located loc m = (.error (.returned value), after) ↔
      act m = (.error (.returned value), after) := by
  unfold Eval.located
  split
  · next failure _ failed =>
    rw [failed]
    constructor
    · nofun
    · nofun
  · rfl

/-- Work in another frame ends as it ends there. -/
theorem inFrame_eq {inner : Frame} {merge : Frame → Frame → Frame} {outcome : Except Stop α}
    {last : Machine} (ran : act ⟨inner, m.console⟩ = (outcome, last)) :
    act.inFrame inner merge m = (outcome, ⟨merge m.frame last.frame, last.console⟩) := by
  unfold Eval.inFrame
  rw [ran]

private theorem inFrame_returned {inner : Frame} {merge : Frame → Frame → Frame}
    (returned : act.inFrame inner merge m = (.error (.returned value), after)) :
    ∃ last, act ⟨inner, m.console⟩ = (.error (.returned value), last) ∧
      after = ⟨merge m.frame last.frame, last.console⟩ := by
  rcases ran : act ⟨inner, m.console⟩ with ⟨outcome, last⟩
  rw [inFrame_eq ran] at returned
  cases returned
  exact ⟨last, rfl, rfl⟩

end Actions

section Rows
variable {m middle after : Machine} {value : Value}

/-- A row of actions returns where one of them does, the ones before it having
been run and the ones after it not. -/
theorem forEach_returned_iff {act : α → Eval β} {items : List α} :
    Eval.forEach act items m = (.error (.returned value), after) ↔
      ∃ before a later middle, items = before ++ a :: later ∧
        Eval.forEach act before m = (.ok (), middle) ∧
        act a middle = (.error (.returned value), after) := by
  induction items generalizing m with
  | nil =>
    constructor
    · nofun
    · rintro ⟨before, a, later, -, split, -⟩
      cases before <;> cases split
  | cons first rest ih =>
    rw [Eval.forEach_cons]
    constructor
    · intro returned
      rcases bind_returned returned with early | ⟨b, next, ran, late⟩
      · exact ⟨[], first, rest, m, rfl, rfl, early⟩
      · obtain ⟨before, a, later, middle, rfl, passed, ends⟩ := ih.mp late
        refine ⟨first :: before, a, later, middle, rfl, ?_, ends⟩
        rw [Eval.forEach_cons, bind_of_ok ran, passed]
    · rintro ⟨before, a, later, middle, split, passed, ends⟩
      cases before with
      | nil =>
        cases split
        cases passed
        exact bind_of_error ends
      | cons head before =>
        cases split
        rw [Eval.forEach_cons] at passed
        rcases ran : act first m with ⟨outcome, next⟩
        cases outcome with
        | ok b =>
          rw [bind_of_ok ran] at passed ⊢
          exact ih.mpr ⟨before, a, later, middle, rfl, passed, ends⟩
        | error reason =>
          rw [bind_of_error ran] at passed
          cases passed

/-- A counting loop returns in one of its rounds. -/
theorem countUp_returned_iff {act : Int → Eval Unit} {count : Nat} {first : Int} :
    Eval.countUp act count first m = (.error (.returned value), after) ↔
      ∃ rounds middle, rounds < count ∧ Eval.countUp act rounds first m = (.ok (), middle) ∧
        act (first + rounds) middle = (.error (.returned value), after) := by
  induction count generalizing first m with
  | zero =>
    constructor
    · nofun
    · rintro ⟨rounds, -, impossible, -⟩
      exact absurd impossible (Nat.not_lt_zero rounds)
  | succ count ih =>
    rw [Eval.countUp_succ]
    constructor
    · intro returned
      rcases bind_returned returned with early | ⟨_, next, ran, late⟩
      · exact ⟨0, m, Nat.succ_pos count, rfl, by simpa using early⟩
      · obtain ⟨rounds, middle, fewer, passed, ends⟩ := ih.mp late
        refine ⟨rounds + 1, middle, Nat.succ_lt_succ fewer, ?_, ?_⟩
        · rw [Eval.countUp_succ, bind_of_ok ran, passed]
        · rw [← ends]
          congr 1
          push_cast
          omega
    · rintro ⟨rounds, middle, fewer, passed, ends⟩
      cases rounds with
      | zero =>
        cases passed
        exact bind_of_error (by simpa using ends)
      | succ rounds =>
        rw [Eval.countUp_succ] at passed
        rcases ran : act first m with ⟨outcome, next⟩
        cases outcome with
        | ok b =>
          rw [bind_of_ok ran] at passed ⊢
          refine ih.mpr ⟨rounds, middle, Nat.lt_of_succ_lt_succ fewer, passed, ?_⟩
          rw [← ends]
          congr 1
          push_cast
          omega
        | error reason =>
          rw [bind_of_error ran] at passed
          cases passed

/-- So many rounds of a loop pass: each time the test holds and the action has
a result. -/
inductive Passes (test : Eval Bool) (act : Eval Unit) : Nat → Machine → Machine → Prop where
  | none (m : Machine) : Passes test act 0 m m
  | round {rounds : Nat} {m tested next last : Machine} (holds : test m = (.ok true, tested))
      (ran : act tested = (.ok (), next)) (rest : Passes test act rounds next last) :
      Passes test act (rounds + 1) m last

/-- A loop without a bound returns in one of its rounds. -/
theorem whileHolds_returned_iff {test : Eval Bool} {act : Eval Unit} {count : Nat}
    (never : NeverReturns test) :
    Eval.whileHolds test act count m = (.error (.returned value), after) ↔
      ∃ rounds middle tested, rounds < count ∧ Passes test act rounds m middle ∧
        test middle = (.ok true, tested) ∧ act tested = (.error (.returned value), after) := by
  induction count generalizing m with
  | zero =>
    constructor
    · nofun
    · rintro ⟨rounds, -, -, impossible, -⟩
      exact absurd impossible (Nat.not_lt_zero rounds)
  | succ count ih =>
    rw [Eval.whileHolds_succ]
    constructor
    · intro returned
      obtain ⟨holds, tested, tests, round⟩ := never.bind_returned returned
      cases holds with
      | false => cases round
      | true =>
        rcases bind_returned round with early | ⟨_, next, ran, late⟩
        · exact ⟨0, m, tested, Nat.succ_pos count, .none m, tests, early⟩
        · obtain ⟨rounds, middle, again, fewer, passes, ends⟩ := ih.mp late
          exact ⟨rounds + 1, middle, again, Nat.succ_lt_succ fewer, .round tests ran passes, ends⟩
    · rintro ⟨rounds, middle, again, fewer, passes, holds, ends⟩
      cases passes with
      | none =>
        rw [bind_of_ok holds]
        exact bind_of_error ends
      | round tests ran passes =>
        rw [bind_of_ok tests]
        change (act >>= _) _ = _
        rw [bind_of_ok ran]
        exact ih.mpr ⟨_, middle, again, Nat.lt_of_succ_lt_succ fewer, passes, holds, ends⟩

end Rows

/-- The state after work in a copy of the frame: what was bound before is
copied back. -/
def copiedBack (m inner : Machine) : Machine :=
  ⟨m.frame.mergeExisting inner.frame, inner.console⟩

/-- A round of a counting loop. -/
def round (inside : Meaning) (path : Path) (body : List Stmt) (loc : Loc) (i : Int) : Eval Unit :=
  Eval.inCopy do
    Eval.setFrame ((← Eval.frame).bind path (.ofValue (.ofNumber (Number.ofInt i)) loc))
    inside.body body

/-- The bounds of a counting loop come to numbers, which are rounded down. -/
def Counts (inside : Meaning) (start stop : Expr) (m : Machine) (low high : Int)
    (after : Machine) : Prop :=
  ∃ first last x y middle, inside.expr start m = (.ok first, middle) ∧
    inside.expr stop middle = (.ok last, after) ∧ first.kind = .number ∧ last.kind = .number ∧
    first.number = .ok x ∧ last.number = .ok y ∧ Number.floor? x = some low ∧
    Number.floor? y = some high

/-- The statement comes to run a body from a state, and when the body is left,
it is left with what is made of the state there: a branch that is taken, a
namespace, or a round of a loop after others that have passed. -/
inductive Enters (patience : Nat) (inside : Meaning) :
    Stmt → Machine → List Stmt → Machine → (Machine → Machine) → Prop where
  | branch {condition : Expr} {body : List Stmt} {bodyLoc loc : Loc} {m start : Machine}
      (holds : inside.holds condition m = (.ok true, start)) :
      Enters patience inside (.ifThen condition body bodyLoc loc) m body start (copiedBack start)
  | scope {name : Name} {body : List Stmt} {bodyLoc loc : Loc} {m : Machine} :
      Enters patience inside (.inNamespace name body bodyLoc loc) m body
        ⟨m.frame.within (m.frame.qualify name.path), m.console⟩ fun inner =>
        ⟨m.frame.mergeUnder inner.frame (m.frame.qualify name.path), inner.console⟩
  | counted {name : Name} {start stop : Expr} {body : List Stmt} {bodyLoc loc : Loc}
      {m bounded middle : Machine} {low high : Int} {rounds : Nat}
      (counts : Counts inside start stop m low high bounded) (more : rounds < (high - low).toNat)
      (earlier : Eval.countUp (round inside name.path body loc) rounds low bounded =
        (.ok (), middle)) :
      Enters patience inside (.forRange name start stop body bodyLoc loc) m body
        ⟨middle.frame.bind name.path (.ofValue (.ofNumber (Number.ofInt (low + rounds))) loc),
          middle.console⟩ (copiedBack middle)
  | repeated {condition : Expr} {body : List Stmt} {bodyLoc loc : Loc} {m middle start : Machine}
      {rounds : Nat} (more : rounds < patience)
      (earlier : Passes (inside.holds condition) (Eval.inCopy (inside.body body)) rounds m middle)
      (holds : inside.holds condition middle = (.ok true, start)) :
      Enters patience inside (.whileTrue condition body bodyLoc loc) m body start (copiedBack start)

section Statements
variable {patience : Nat} {inside : Meaning} {s : Stmt} {body : List Stmt}
  {m start last after : Machine} {back : Machine → Machine} {value : Value}

private theorem inCopy_eq {act : Eval α} {outcome : Except Stop α} (ran : act m = (outcome, last)) :
    act.inCopy m = (outcome, copiedBack m last) :=
  inFrame_eq ran

/-- A counting loop whose bounds are known is its rounds. -/
theorem Counts.forRange {start stop : Expr} {low high : Int}
    (counts : Counts inside start stop m low high after) (path : Path) (loc : Loc) :
    Evaluation.forRange inside path start stop body loc m =
      (Evaluation.rounds inside path low high body loc >>= fun _ => pure Value.null) after := by
  obtain ⟨first, final, x, y, middle, starts, stops, firstKind, lastKind, reads, reads', floors,
    floors'⟩ := counts
  have read : Eval.lift first.number after = (.ok x, after) := by rw [reads]; rfl
  have read' : Eval.lift final.number after = (.ok y, after) := by rw [reads']; rfl
  have numbers : ¬ (decide (first.kind ≠ .number) || decide (final.kind ≠ .number)) = true := by
    simp [firstKind, lastKind]
  rw [Evaluation.forRange, bind_of_ok starts, bind_of_ok stops, if_neg numbers, bind_of_ok read,
    bind_of_ok read', floors, floors']

section Agreement
variable (freely : Freely fun _ => inside)
include freely

private theorem never_expr (e : Expr) : NeverReturns (inside.expr e) :=
  never_of_keeps (fun _ => freely.near.node 0 trivial trivial fun _ => .refl (Stmt.expr e)) rfl

private theorem never_holds (condition : Expr) : NeverReturns (inside.holds condition) :=
  (never_expr freely condition).bind fun _ => never_lift _

/-- A statement returns when the body that it runs does. -/
theorem Enters.returned (enters : Enters patience inside s m body start back)
    (returned : inside.body body start = (.error (.returned value), last)) :
    Evaluation.stmt patience inside s m = (.error (.returned value), back last) := by
  cases enters with
  | branch holds =>
    rw [Evaluation.stmt, bind_of_ok holds]
    exact bind_of_error (inCopy_eq returned)
  | @scope name =>
    change (Eval.inFrame (m.frame.within (m.frame.qualify name.path))
      (·.mergeUnder · (m.frame.qualify name.path)) (inside.body body) >>= fun _ =>
        pure Value.null) m = _
    exact bind_of_error (inFrame_eq returned)
  | counted counts more earlier =>
    rw [Evaluation.stmt, counts.forRange]
    exact bind_of_error (countUp_returned_iff.mpr ⟨_, _, more, earlier, inCopy_eq returned⟩)
  | repeated more earlier holds =>
    exact bind_of_error ((whileHolds_returned_iff (never_holds freely _)).mpr
      ⟨_, _, _, more, earlier, holds, inCopy_eq returned⟩)

/-- A return out of a counting loop comes from one of its rounds. -/
theorem forRange_returned {path : Path} {first last : Expr} {loc : Loc}
    (returned : Evaluation.forRange inside path first last body loc m =
      (.error (.returned value), after)) :
    ∃ low high bounded, Counts inside first last m low high bounded ∧
      Evaluation.rounds inside path low high body loc bounded =
        (.error (.returned value), after) := by
  obtain ⟨start, middle, starts, looped⟩ := (never_expr freely first).bind_returned returned
  obtain ⟨stop, bounded, stops, counted⟩ := (never_expr freely last).bind_returned looped
  by_cases others : (start.kind ≠ .number || stop.kind ≠ .number) = true
  · rw [if_pos others] at counted
    obtain ⟨_, _, -, noted⟩ := (never_require _ _).bind_returned counted
    cases noted
  · rw [if_neg others] at counted
    obtain ⟨x, _, reads, stopRead⟩ := (never_lift _).bind_returned counted
    obtain ⟨startNumber, rfl⟩ := of_lift_ok reads
    obtain ⟨y, _, reads', rounds⟩ := (never_lift _).bind_returned stopRead
    obtain ⟨stopNumber, rfl⟩ := of_lift_ok reads'
    rcases floors : Number.floor? x with _ | low
    · rw [floors] at rounds
      cases rounds
    rcases floors' : Number.floor? y with _ | high
    · rw [floors, floors'] at rounds
      cases rounds
    rw [floors, floors'] at rounds
    simp only [Bool.or_eq_true, decide_eq_true_eq, not_or, ne_eq, not_not] at others
    exact ⟨low, high, _, ⟨start, stop, x, y, middle, starts, stops, others.1, others.2,
      startNumber, stopNumber, floors, floors'⟩, returned_first (fun _ => never_pure _) rounds⟩

/-- The rule for a statement returns at a `return`, or where the body that the
statement runs does. -/
theorem rule_returned
    (returned : Evaluation.stmt patience inside s m = (.error (.returned value), after)) :
    (∃ e loc, s = .returning e loc ∧ inside.expr e m = (.ok value, after)) ∨
      ∃ body start back last, Enters patience inside s m body start back ∧
        inside.body body start = (.error (.returned value), last) ∧ after = back last := by
  have done : ∀ v : Value, ∀ _ : Unit, NeverReturns (pure v) := fun v _ => never_pure v
  have otherwise : s.manner.mayReturn = false → False := fun closed => by
    have keeps : ∀ start, Regime.free.beside.Keeps Regime.free.stops s.manner start
        (fun _ => Evaluation.stmt patience inside s) Course.Same := by
      intro start
      rw [← Nesting.stmt_same]
      exact freely.statement trivial trivial (Regime.admits trivial (Regime.free_allows start s))
        (fun _ _ => trivial) (fun _ => .refl s) patience
    exact never_of_keeps keeps closed m value (congrArg Prod.fst returned)
  cases s with
  | returning e loc =>
    obtain ⟨v, middle, valued, stopped⟩ := (never_expr freely e).bind_returned returned
    cases stopped
    exact .inl ⟨e, loc, rfl, valued⟩
  | ifThen condition body =>
    obtain ⟨holds, start, tests, branch⟩ := (never_holds freely condition).bind_returned returned
    cases holds with
    | false => cases branch
    | true =>
      obtain ⟨last, left, rfl⟩ := inFrame_returned (returned_first (done _) branch)
      exact .inr ⟨body, start, _, last, .branch tests, left, rfl⟩
  | inNamespace name body =>
    obtain ⟨last, left, rfl⟩ := inFrame_returned (returned_first (done _) returned)
    exact .inr ⟨body, _, _, last, .scope, left, rfl⟩
  | forRange name first final body bodyLoc loc =>
    obtain ⟨low, high, bounded, counts, rounds⟩ := forRange_returned freely returned
    obtain ⟨k, middle, more, earlier, round⟩ := countUp_returned_iff.mp rounds
    obtain ⟨last, left, rfl⟩ := inFrame_returned round
    exact .inr ⟨body, _, _, last, .counted counts more earlier, left, rfl⟩
  | whileTrue condition body =>
    obtain ⟨k, middle, start, more, earlier, holds, round⟩ :=
      (whileHolds_returned_iff (never_holds freely condition)).mp (returned_first (done _) returned)
    obtain ⟨last, left, rfl⟩ := inFrame_returned round
    exact .inr ⟨body, start, _, last, .repeated more earlier holds, left, rfl⟩
  | expr | importLibrary | importRelative | letDecl | constDecl | set | procDecl =>
    exact (otherwise rfl).elim

end Agreement

end Statements

/-- The evaluation of a statement comes upon a `return` with a value: it is the
statement itself, or it is in the body that the statement runs, where the ones
before it have been run. The last state is the one that the statement is left
with. -/
inductive Returns (patience : Nat) : Nat → Stmt → Machine → Value → Machine → Prop where
  | here {room : Nat} {e : Expr} {loc : Loc} {m after : Machine} {value : Value}
      (enough : Room.work ≤ room)
      (valued : (interpreter patience (room - Room.node)).expr e m = (.ok value, after)) :
      Returns patience (room + 1) (.returning e loc) m value after
  | within {room : Nat} {s inner : Stmt} {body before later : List Stmt}
      {m start middle last : Machine} {value : Value} {back : Machine → Machine}
      (enough : Room.work ≤ room)
      (enters : Enters patience (interpreter patience (room - s.units)) s m body start back)
      (split : body = before ++ inner :: later)
      (passed : (interpreter patience (room - s.units)).body before start = (.ok (), middle))
      (returns : Returns patience (room - s.units - Room.body) inner middle value last) :
      Returns patience (room + 1) s m value (back last)

section Interpreter
variable {patience room : Nat} {s : Stmt} {m after : Machine} {value : Value}

private theorem body_eq (stmts : List Stmt) :
    (interpreter patience room).body stmts =
      Eval.forEach (interpret patience (room - Room.body) 0) stmts := by
  rw [Meaning.body, interpreter_after]
  rfl

/-- A node ends in a return where it comes upon a `return`, and only there. -/
theorem returned_iff :
    interpret patience room 0 s m = (.error (.returned value), after) ↔
      Returns patience room s m value after := by
  constructor
  · intro returned
    induction room using Nat.strongRecOn generalizing s m after with
    | ind room ih =>
      cases room with
      | zero => cases returned
      | succ room =>
        by_cases enough : Room.work ≤ room
        · rw [Binding.interpret_succ enough, located_returned, interpreter_after] at returned
          rcases rule_returned (freely_interpreter _ _) returned with
            ⟨e, loc, rfl, valued⟩ | ⟨body, start, back, last, enters, left, rfl⟩
          · exact .here enough valued
          · rw [body_eq] at left
            obtain ⟨before, inner, later, middle, split, passed, ends⟩ :=
              forEach_returned_iff.mp left
            exact .within enough enters split (body_eq before ▸ passed) (ih _ (by omega) ends)
        · rw [interpret, if_pos (Nat.lt_of_not_le enough)] at returned
          cases returned
  · intro returns
    induction returns with
    | here enough valued =>
      rw [Binding.interpret_succ enough, located_returned, interpreter_after]
      exact bind_of_ok valued
    | within enough enters split passed _ ends =>
      rw [Binding.interpret_succ enough, located_returned, interpreter_after]
      refine enters.returned (freely_interpreter _ _) ?_
      rw [body_eq] at passed ⊢
      exact forEach_returned_iff.mpr ⟨_, _, _, _, split, passed, ends⟩

/-- A body is left at the first of its statements that comes upon a `return`,
whatever stands after it. -/
theorem body_returned {before later stmts : List Stmt} {middle : Machine}
    (split : stmts = before ++ s :: later)
    (passed : (interpreter patience room).body before m = (.ok (), middle))
    (returns : Returns patience (room - Room.body) s middle value after) :
    (interpreter patience room).body stmts m = (.error (.returned value), after) := by
  rw [body_eq] at passed ⊢
  exact forEach_returned_iff.mpr ⟨before, s, later, middle, split, passed, returned_iff.mpr returns⟩

/-- Only a `return`, or a node that runs a body, ends in a return. -/
theorem never_node (closed : s.manner.mayReturn = false) (units : Nat) :
    NeverReturns (interpret patience room units s) := by
  have freely := freely_interpreter patience room
  exact never_of_keeps (fun _ => freely.near.node units trivial trivial fun _ => .refl s) closed

end Interpreter

section Calls
variable {inside : Meaning} {proc : Proc} {path : Path} {args : List Bound} {m last after : Machine}
  {copy : Frame} {value : Value}

/-- A return ends the call with its value, once the parameters that the caller
will get back are resolved. -/
theorem invoke_returned (counted : args.length = (Evaluation.paramPaths proc).length)
    (enough : Room.entering ≤ inside.left) (deeper : m.frame.deeper = .ok copy)
    (returned : (inside.after Room.call).body proc.body
      ⟨Evaluation.calleeFrame copy proc path args, m.console⟩ = (.error (.returned value), last))
    {outcome : Except Stop Unit}
    (settled : Eval.forEach (Evaluation.settle inside m.frame) (Evaluation.paramPaths proc) last =
      (outcome, after)) :
    Evaluation.invoke inside proc path args m =
      (outcome.map fun _ => value, copiedBack m after) := by
  have caught : Eval.catchReturn ((inside.after Room.call).body proc.body)
      ⟨Evaluation.calleeFrame copy proc path args, m.console⟩ = (.ok (some value), last) := by
    rw [Eval.catchReturn, returned]
  have ran : Evaluation.runBody inside m.frame proc
      ⟨Evaluation.calleeFrame copy proc path args, m.console⟩ =
        (outcome.map fun _ => value, after) := by
    rw [Evaluation.runBody, bind_of_ok caught]
    cases outcome with
    | ok => rw [bind_of_ok settled]; rfl
    | error reason => exact bind_of_error settled
  rw [Evaluation.invoke_of_counted counted enough, deeper]
  exact inFrame_eq ran

private theorem NeverReturns.inFrame {act : Eval α} (never : NeverReturns act) (inner : Frame)
    (merge : Frame → Frame → Frame) : NeverReturns (act.inFrame inner merge) := by
  intro m value returned
  obtain ⟨last, left, -⟩ := inFrame_returned (Prod.ext returned rfl)
  exact never _ value (congrArg Prod.fst left)

private theorem never_forEach {act : α → Eval β} {items : List α}
    (each : ∀ a ∈ items, NeverReturns (act a)) : NeverReturns (Eval.forEach act items) := by
  intro m value returned
  obtain ⟨_, a, _, middle, rfl, -, ends⟩ := forEach_returned_iff.mp (Prod.ext returned rfl)
  exact each a (by simp) middle value (congrArg Prod.fst ends)

variable (freely : Freely fun _ => inside)
include freely

/-- Resolving parameters comes upon no return. -/
theorem never_settle (caller : Frame) (proc : Proc) :
    NeverReturns (Eval.forEach (Evaluation.settle inside caller) (Evaluation.paramPaths proc)) :=
  never_forEach fun _ param => never_of_keeps
    (fun _ => freely.near.settle trivial trivial (fun _ => rfl) trivial param) rfl

/-- A return does not go beyond the call. -/
theorem never_invoke (proc : Proc) (path : Path) (args : List Bound) :
    NeverReturns (Evaluation.invoke inside proc path args) := by
  unfold Evaluation.invoke
  dsimp only
  split
  · exact never_stop fun _ => nofun
  · have runs : ∀ caller, NeverReturns (Evaluation.runBody inside caller proc) := fun caller =>
      (never_catchReturn _).bind fun _ => (never_settle freely caller proc).bind fun _ => never_pure _
    exact (never_require _ _).bind fun _ => never_frame.bind fun caller =>
      (never_lift _).bind fun _ => (runs caller).inFrame _ _

private theorem never_callMain (loc : Option Loc) : NeverReturns (Program.callMain inside loc) := by
  refine never_frame.bind fun frame => ?_
  cases frame.lookup Program.mainPath with
  | none => exact never_stop fun _ => nofun
  | some bound =>
    dsimp only
    cases bound.proc? with
    | none => exact never_stop fun _ => nofun
    | some proc => exact never_invoke freely proc _ _

/-- What stands outside of all procs returns no further than to the program. -/
theorem never_run (part : Part) (withMain : Bool) : NeverReturns (part.run inside withMain) := by
  refine ((never_catchReturn _).bind fun result => ?_).reportingRoom _
  cases withMain with
  | false => exact never_pure result
  | true => exact (never_callMain freely _).bind fun _ => never_pure _

end Calls

section Sources

private theorem never_parsing (source file : String) : NeverReturns (Eval.parsing source file) := by
  unfold Eval.parsing
  split
  · exact never_pure _
  · exact never_stop fun _ => nofun

private theorem never_meaningFor {next : Meaning → Eval α}
    (rest : ∀ room, NeverReturns (next (interpreter patience room))) (maxDepth : Int) :
    NeverReturns (Eval.meaningFor maxDepth >>= next) := by
  unfold Eval.meaningFor
  cases Room.forCalls? maxDepth with
  | none => exact fun _ _ => nofun
  | some room => exact rest room

/-- No return gets out of a program. -/
theorem never_eval (patience room : Nat) (program : Program) (withMain : Bool) :
    NeverReturns (program.eval (interpreter patience room) withMain) :=
  never_of_keeps (fun _ => (freely_interpreter patience room).program program withMain) rfl

private theorem never_runSource (source file : String) (withMain : Bool) (maxDepth : Int) :
    NeverReturns (runSource source file withMain maxDepth) :=
  (never_parsing source file).bind fun program => never_meaningFor (fun room =>
    (never_eval patience room program withMain).bind fun _ => never_pure _) maxDepth

/-- A statement whose value is shown is one that does not return. -/
theorem never_echoed {s : Stmt} (echoed : s.isEchoed = true) (patience room units : Nat) :
    NeverReturns (interpret patience room units s) := by
  cases s with
  | expr | set => exact never_node rfl units
  | _ => cases echoed

private theorem never_submit (text : String) (maxDepth : Int) :
    NeverReturns (Session.submit text maxDepth) := by
  refine (never_parsing text Session.file).bind fun program => never_meaningFor (fun room => ?_) _
  have whole : NeverReturns (do
      return (⟨(← program.eval (interpreter patience room) false).getD .null, false⟩ : Reply)) :=
    (never_eval patience room program false).bind fun _ => never_pure _
  unfold Session.reply
  split
  · next s _ =>
    by_cases echoed : s.isEchoed = true
    · rw [if_pos echoed]
      exact ((never_echoed echoed patience room 0).reportingRoom _).bind fun _ => never_pure _
    · rw [if_neg echoed]
      exact whole
  · exact whole

end Sources

/-- A return never goes beyond a call, and no further than to the program.
Expressions and assignments do not return. A statement does where it comes upon
a `return`, however deep in the bodies that it runs, and the call of the proc
that it stands in ends then: with the value, once the parameters that the
caller has too are resolved, or with what kept them from being resolved. -/
theorem return_ends_its_call (patience room : Nat) :
    (∀ units e, NeverReturns (interpret patience room units (.expr e))) ∧
    (∀ units name e, NeverReturns (interpret patience room units (.set name e))) ∧
    (∀ s m value after, interpret patience room 0 s m = (.error (.returned value), after) ↔
      Returns patience room s m value after) ∧
    (∀ proc path args m copy before s later middle value last,
      args.length = (Evaluation.paramPaths proc).length → Room.entering ≤ room →
      m.frame.deeper = .ok copy → proc.body = before ++ s :: later →
      (interpreter patience (room - Room.call)).body before
        ⟨Evaluation.calleeFrame copy proc path args, m.console⟩ = (.ok (), middle) →
      Returns patience (room - Room.call - Room.body) s middle value last →
      ∃ outcome after,
        Eval.forEach (Evaluation.settle (interpreter patience room) m.frame)
          (Evaluation.paramPaths proc) last = (outcome, after) ∧
        (∀ v, outcome ≠ .error (.returned v)) ∧
        Evaluation.invoke (interpreter patience room) proc path args m =
          (outcome.map fun _ => value, copiedBack m after)) ∧
    (∀ proc path args,
      NeverReturns (Evaluation.invoke (interpreter patience room) proc path args)) ∧
    (∀ source file withMain maxDepth, NeverReturns (runSource source file withMain maxDepth)) ∧
    (∀ text maxDepth, NeverReturns (Session.submit text maxDepth)) ∧
    (∀ program withMain, NeverReturns (Program.eval (interpreter patience room) program withMain)) ∧
    (∀ part withMain, NeverReturns (Part.run (interpreter patience room) part withMain)) ∧
    ∀ units target loc,
      NeverReturns (interpret patience room units (.importLibrary target loc)) := by
  have freely := freely_interpreter patience room
  refine ⟨fun units e => never_node rfl units,
    fun units name e => never_node rfl units, fun s m value after => returned_iff, ?_,
    never_invoke freely, never_runSource, never_submit, never_eval patience room,
    never_run freely, fun units target loc => never_node rfl units⟩
  intro proc path args m copy before s later middle value last counted enough deeper split passed
    returns
  have returned := body_returned split passed returns
  rw [← interpreter_after] at returned
  exact ⟨_, _, rfl, never_settle freely _ _ last,
    invoke_returned counted enough deeper returned rfl⟩

/-- A loop whose body returns `y` from a namespace inside a branch. -/
def returnsFromDepth : Stmt :=
  let y : Expr := .identifier ⟨["y"], default⟩
  .whileTrue y [.ifThen y [.inNamespace ⟨["n"], default⟩ [.returning y default] default default]
    default default] default default

/-- A proc that sets `y` to its parameter `x` and runs the loop, which is not
the end of its body. -/
def looping : Proc :=
  .mk default [⟨"x", default⟩] default
    [.letDecl ⟨["y"], default⟩ (.identifier ⟨["x"], default⟩) default, returnsFromDepth,
      .returning (.literal ⟨.number, "2"⟩ default) default] default

/-- A state in which `x` is bound, to 0. -/
def boundX : Machine where
  frame := { bindings := [(["x"], .ofValue ⟨.number, "0"⟩ default)], distinct := by decide }

/-- The state in which the body of the proc is run with 1 for `x`. -/
def inLooping : Machine :=
  ⟨Evaluation.calleeFrame { boundX.frame with depth := 1 } looping ["f"]
    [.ofValue ⟨.number, "1"⟩ default], {}⟩

theorem return_from_depth_ends_call :
    ∃ middle last after, (interpreter 3 59).body (looping.body.take 1) inLooping =
        (.ok (), middle) ∧
      Returns 3 57 returnsFromDepth middle ⟨.number, "1"⟩ last ∧
      Evaluation.invoke (interpreter 3 60) looping ["f"] [.ofValue ⟨.number, "1"⟩ default] boundX =
        (.ok ⟨.number, "1"⟩, copiedBack boundX after) := by
  let middle := ((interpreter 3 59).body (looping.body.take 1) inLooping).2
  have passed : (interpreter 3 59).body (looping.body.take 1) inLooping = (.ok (), middle) :=
    Prod.ext (by decide +kernel) rfl
  have returns : Returns 3 57 returnsFromDepth middle ⟨.number, "1"⟩
      (interpret 3 57 0 returnsFromDepth middle).2 :=
    returned_iff.mp (Prod.ext (by decide +kernel) rfl)
  obtain ⟨outcome, after, settled, -, ended⟩ := (return_ends_its_call 3 60).2.2.2.1 looping ["f"]
    [.ofValue ⟨.number, "1"⟩ default] boundX _ _ returnsFromDepth _ middle _ _ rfl (by decide) rfl
    rfl passed returns
  have resolved : outcome = .ok () := (congrArg Prod.fst settled).symm.trans (by decide +kernel)
  rw [resolved] at ended
  exact ⟨middle, _, after, passed, returns, ended⟩

/-- A proc that returns 1, whatever it is called with. -/
def returnsOne : Proc :=
  .mk default [⟨"x", default⟩] default [.returning (.literal ⟨.number, "1"⟩ default) default]
    default

/-- A quotient that there is not. -/
def byZero : Expr :=
  .binary (.literal ⟨.number, "1"⟩ default) .divide ⟨"/", default⟩ (.literal ⟨.number, "0"⟩ default)

/-- Where the caller has the parameter too, an argument that has no value
outweighs the return. -/
theorem unresolvable_parameter_outweighs_return :
    ¬ ∀ patience room proc path args m copy before s later middle value last,
      args.length = (Evaluation.paramPaths proc).length → Room.entering ≤ room →
      m.frame.deeper = .ok copy → proc.body = before ++ s :: later →
      (interpreter patience (room - Room.call)).body before
        ⟨Evaluation.calleeFrame copy proc path args, m.console⟩ = (.ok (), middle) →
      Returns patience (room - Room.call - Room.body) s middle value last →
      ∃ after, Evaluation.invoke (interpreter patience room) proc path args m =
        (.ok value, after) := by
  intro gives
  obtain ⟨after, ended⟩ := gives 0 60 returnsOne ["f"] [.expr byZero] boundX _ [] _ [] _
    ⟨.number, "1"⟩ _ rfl (by decide) rfl rfl rfl
    (returned_iff.mp (Prod.ext (by decide +kernel) rfl))
  have failed : (Evaluation.invoke (interpreter 0 60) returnsOne ["f"] [.expr byZero] boundX).1 ≠
      .ok ⟨.number, "1"⟩ := by decide +kernel
  exact failed (congrArg Prod.fst ended)

end BasilLang.Returning
