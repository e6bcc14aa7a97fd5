import BasilLang.Proofs.Reading
import BasilLang.Session

/-! The actions of evaluation and what they complain about. Actions in a row are
the first, and the others after it if there is a result; what supplies a place,
reports a lack of room or catches a return looks at the outcome alone. -/
namespace BasilLang

/-- Whether a fault is one that a rule finds with a program: not the lack of
room, and not a part that is no node. -/
def EvalFault.isOrdinary : EvalFault → Bool
  | .nestingTooDeep | .notEvaluable _ => false
  | _ => true

/-- Whether a fault is that calls and imports nest too deep. -/
def EvalFault.isDepth : EvalFault → Bool
  | .callsTooDeep _ | .importTooDeep _ _ => true
  | _ => false

/-- Depth is not a lack of room. -/
theorem EvalFault.ne_nestingTooDeep {fault : EvalFault} (tooDeep : fault.isDepth = true) :
    Fault.eval fault ≠ .eval .nestingTooDeep := by
  rintro ⟨⟩
  cases tooDeep

namespace Eval

variable {α β : Type}

/-- A complaint, if there is one, is an ordinary one and not about depth. -/
def Plain (x : Except EvalFault α) : Prop :=
  ∀ fault, x = .error fault → fault.isOrdinary = true ∧ fault.isDepth = false

section Complaints
variable {frame : Frame} {path : Path}

private theorem plain_ok (a : α) : Plain (.ok a) := by
  rintro fault ⟨⟩

private theorem plain_error {fault : EvalFault} (ordinary : fault.isOrdinary = true)
    (shallow : fault.isDepth = false) : Plain (.error fault : Except EvalFault α) := by
  rintro _ ⟨⟩
  exact ⟨ordinary, shallow⟩

/-- That nothing is bound to a path is an ordinary complaint. -/
theorem plain_get : Plain (frame.get path) := by
  unfold Frame.get
  split
  · exact plain_ok _
  · exact plain_error rfl rfl

/-- That a path is taken is an ordinary complaint. -/
theorem plain_requireUnbound : Plain (frame.requireUnbound path) := by
  unfold Frame.requireUnbound
  split
  · exact plain_error rfl rfl
  · exact plain_ok _

/-- That a path cannot be assigned to is an ordinary complaint. -/
theorem plain_requireAssignable : Plain (frame.requireAssignable path) := by
  unfold Frame.requireAssignable
  split
  · exact plain_error rfl rfl
  · split
    · exact plain_error rfl rfl
    · exact plain_ok _

private theorem Plain.map {x : Except EvalFault α} (plain : Plain x) (f : α → β) :
    Plain (x >>= fun a => pure (f a)) := by
  cases x with
  | ok a => exact plain_ok _
  | error fault =>
    obtain ⟨ordinary, shallow⟩ := plain fault rfl
    exact plain_error ordinary shallow

theorem plain_declare {bound : Bound} {constant : Bool} :
    Plain (frame.declare path bound constant) :=
  plain_requireUnbound.map _

theorem plain_assign {bound : Bound} : Plain (frame.assign path bound) :=
  plain_requireAssignable.map _

/-- That a value is no number is an ordinary complaint. -/
theorem plain_number (value : Value) : Plain value.number := by
  unfold Value.number
  split
  · exact plain_error rfl rfl
  · split
    · exact plain_ok _
    · split
      · exact plain_ok _
      · split
        · exact plain_ok _
        · exact plain_error rfl rfl

/-- That a value has no truth is an ordinary complaint. -/
theorem plain_truth (value : Value) : Plain value.truth := by
  unfold Value.truth
  split
  · exact plain_ok _
  · exact (plain_number value).map _

/-- What a call is refused for is its depth. -/
theorem isDepth_of_deeper {fault : EvalFault} (refused : frame.deeper = .error fault) :
    fault.isDepth = true := by
  unfold Frame.deeper at refused
  dsimp only at refused
  split at refused
  · split at refused
    · cases refused
      rfl
    · cases refused
  · cases refused

end Complaints

/-- One action after another, started in a state. -/
theorem bind_apply (act : Eval α) (next : α → Eval β) (m : Machine) :
    (act >>= next) m = Eval.bind act next m := rfl

/-- An action with a result is followed by what comes next. -/
theorem bind_of_ok {act : Eval α} {next : α → Eval β} {m after : Machine} {a : α}
    (ok : act m = (.ok a, after)) : (act >>= next) m = next a after := by
  change Eval.bind act next m = _
  rw [Eval.bind, ok]

/-- What comes next is left out if there is no result. -/
theorem bind_of_error {act : Eval α} {next : α → Eval β} {m after : Machine}
    {reason : Stop} (stopped : act m = (.error reason, after)) :
    (act >>= next) m = (.error reason, after) := by
  change Eval.bind act next m = _
  rw [Eval.bind, stopped]

instance : LawfulMonad Eval := by
  refine LawfulMonad.mk' Eval (fun act => ?_) (fun _ _ => rfl) fun act next last => ?_
  · funext m
    change Eval.bind act (fun a => Eval.pure (id a)) m = act m
    rw [Eval.bind]
    cases act m with
    | mk outcome m => cases outcome <;> rfl
  · funext m
    change Eval.bind (Eval.bind act next) last m =
      Eval.bind act (fun a => Eval.bind (next a) last) m
    rw [Eval.bind, Eval.bind, Eval.bind]
    cases act m with
    | mk outcome m => cases outcome <;> rfl

/-- Two actions in a row end with the second, unless the first has no result. -/
theorem bind_cases (act : Eval α) (next : α → Eval β) (m : Machine) :
    (∃ a middle, act m = (.ok a, middle) ∧ (act >>= next) m = next a middle) ∨
      ∃ reason after, act m = (.error reason, after) ∧
        (act >>= next) m = (.error reason, after) := by
  rcases ran : act m with ⟨outcome, middle⟩
  cases outcome with
  | ok a => exact .inl ⟨a, middle, rfl, bind_of_ok ran⟩
  | error reason => exact .inr ⟨reason, middle, rfl, bind_of_error ran⟩

/-- Two actions in a row stop where one of them does. -/
theorem stopped_of_bind {act : Eval α} {next : α → Eval β} {m : Machine} {reason : Stop}
    (stopped : ((act >>= next) m).1 = .error reason) :
    (act m).1 = .error reason ∨
      ∃ a middle, act m = (.ok a, middle) ∧ (next a middle).1 = .error reason := by
  rcases bind_cases act next m with ⟨a, middle, ran, goesOn⟩ | ⟨other, after, ran, stops⟩
  · rw [goesOn] at stopped
    exact .inr ⟨a, middle, ran, stopped⟩
  · rw [stops] at stopped
    cases stopped
    exact .inl (congrArg Prod.fst ran)

/-- The outcome with the place of a failure supplied. -/
def placed (loc : Loc) : Except Stop α → Except Stop α
  | .error (.failed failure) => .error (.failed (failure.locate loc))
  | outcome => outcome

/-- A place is supplied to the outcome, and the state is not touched. -/
theorem located_eq (loc : Loc) (act : Eval α) (m : Machine) :
    act.located loc m = (placed loc (act m).1, (act m).2) := by
  rw [Eval.located]
  rcases act m with ⟨outcome, after⟩
  cases outcome with
  | ok => rfl
  | error reason => cases reason <;> rfl

/-- The outcome with a lack of room reported. -/
def roomReported (loc : Loc) : Except Stop α → Except Stop α
  | .error .outOfRoom => .error (.failed ⟨.eval .nestingTooDeep, some loc⟩)
  | outcome => outcome

/-- A lack of room is reported in the outcome, and the state is not touched. -/
theorem reportingRoom_eq (loc : Loc) (act : Eval α) (m : Machine) :
    act.reportingRoom loc m = (roomReported loc (act m).1, (act m).2) := by
  rw [Eval.reportingRoom]
  rcases act m with ⟨outcome, after⟩
  cases outcome with
  | ok => rfl
  | error reason => cases reason <;> rfl

/-- The outcome with a return caught. -/
def returnCaught : Except Stop Unit → Except Stop (Option Value)
  | .ok () => .ok none
  | .error (.returned value) => .ok (some value)
  | .error reason => .error reason

/-- A return is caught in the outcome, and the state is not touched. -/
theorem catchReturn_eq (act : Eval Unit) (m : Machine) :
    act.catchReturn m = (returnCaught (act m).1, (act m).2) := by
  rw [Eval.catchReturn]
  rcases act m with ⟨outcome, after⟩
  cases outcome with
  | ok => rfl
  | error reason => cases reason <;> rfl

/-- The first action of a row comes before the others. -/
theorem forEach_cons (act : α → Eval β) (a : α) (rest : List α) :
    forEach act (a :: rest) = act a >>= fun _ => forEach act rest := by
  funext m
  rw [bind_apply, forEach, Eval.bind]

/-- The first round of a counting loop comes before the others. -/
theorem countUp_succ (act : Int → Eval Unit) (count : Nat) (i : Int) :
    countUp act (count + 1) i = act i >>= fun _ => countUp act count (i + 1) := by
  funext m
  simp only [bind_apply, countUp, Eval.bind]
  match act i m with
  | (.ok _, _) | (.error _, _) => rfl

/-- A loop tests, and goes on if the test holds. -/
theorem whileHolds_succ (test : Eval Bool) (act : Eval Unit) (rounds : Nat) :
    whileHolds test act (rounds + 1) =
      test >>= fun holds => if holds then act >>= fun _ => whileHolds test act rounds
        else pure () := by
  funext m
  simp only [bind_apply, whileHolds, Eval.bind]
  match test m with
  | (.ok true, m) =>
    simp only [↓reduceIte, bind_apply, Eval.bind]
    match act m with
    | (.ok _, _) | (.error _, _) => rfl
  | (.ok false, _) | (.error _, _) => rfl

end Eval

private theorem Meaning.require_ok {inside : Meaning} {units : Nat} (enough : units ≤ inside.left)
    (m : Machine) : inside.require units m = (.ok (), m) := by
  rw [require, if_pos enough]
  rfl

/-- A call with the right number of arguments goes one level deeper, if it may,
and runs the body there. -/
theorem Evaluation.invoke_of_counted {inside : Meaning} {proc : Proc} {args : List Bound}
    (counted : args.length = (paramPaths proc).length) (enough : Room.entering ≤ inside.left)
    (path : Path) (m : Machine) :
    invoke inside proc path args m = (Eval.lift m.frame.deeper >>= fun copy =>
      Eval.inFrame (calleeFrame copy proc path args) Frame.mergeExisting
        (runBody inside m.frame proc)) m := by
  have found : Eval.frame m = (.ok m.frame, m) := rfl
  rw [invoke]
  simp only [ne_eq, counted, not_true_eq_false, if_false]
  rw [Eval.bind_of_ok (Meaning.require_ok enough m), Eval.bind_of_ok found]

end BasilLang
