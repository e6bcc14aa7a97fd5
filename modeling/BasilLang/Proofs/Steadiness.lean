import BasilLang.Proofs.Visiting
import Mathlib.Order.WellFoundedSet

/-! Reading without calling. An expression without calls changes nothing, and
what it comes to depends only on the bindings that reading it leads to: not on
the other bindings, not on what has been written, and not on the room either,
once there is enough of it. In a tidy frame there is such an amount of room,
since no binding leads back to itself. -/
namespace BasilLang

namespace Eval
variable {α β : Type}

/-- Started in the given frame, the action ends so, whatever has been written,
and changes nothing. -/
def Steady (frame : Frame) (act : Eval α) (outcome : Except Stop α) : Prop :=
  ∀ console, act ⟨frame, console⟩ = (outcome, ⟨frame, console⟩)

/-- Evaluation came to a value or found a fault. -/
def Concluded : Except Stop α → Prop
  | .ok _ | .error (.failed _) | .error (.undefined _) => True
  | .error _ => False

/-- The first action changes nothing in its frame, and the other does and
comes to the same in its own. If room is scarce, the first may run out of
it instead. -/
def Echoes (scarce : Prop) (frame frame' : Frame) (act other : Eval α) : Prop :=
  ∃ outcome, Steady frame act outcome ∧
    (scarce ∧ outcome = .error .outOfRoom ∨ Concluded outcome ∧ Steady frame' other outcome)

section Echoes
variable {scarce : Prop} {frame frame' : Frame}

private theorem Steady.unique {act : Eval α} {outcome outcome' : Except Stop α}
    (steady : Steady frame act outcome) (steady' : Steady frame act outcome') :
    outcome = outcome' :=
  congrArg Prod.fst ((steady {}).symm.trans (steady' {}))

theorem steady_frame : Steady frame Eval.frame (.ok frame) :=
  fun _ => rfl

theorem steady_lift {x : Except EvalFault α} {a : α} (ok : x = .ok a) :
    Steady frame (lift x) (.ok a) := by
  subst ok
  exact fun _ => rfl

/-- Enough room is enough in every state. -/
theorem steady_require {inside : Meaning} {units : Nat} (enough : units ≤ inside.left) :
    Steady frame (inside.require units) (.ok ()) := by
  rw [Meaning.require, if_pos enough]
  exact fun _ => rfl

/-- What follows a steady action starts where that one did. -/
theorem Steady.bind_apply {act : Eval α} {a : α} (first : Steady frame act (.ok a))
    (next : α → Eval β) (console : Console) :
    (act >>= next) ⟨frame, console⟩ = next a ⟨frame, console⟩ := by
  change Eval.bind act next ⟨frame, console⟩ = _
  rw [Eval.bind, first console]

/-- Steady actions, one after the other. -/
theorem Steady.bind_ok {act : Eval α} {next : α → Eval β} {a : α} {outcome : Except Stop β}
    (first : Steady frame act (.ok a)) (rest : Steady frame (next a) outcome) :
    Steady frame (act >>= next) outcome :=
  fun console => (first.bind_apply next console).trans (rest console)

private theorem Steady.bind_error {act : Eval α} {next : α → Eval β} {reason : Stop}
    (first : Steady frame act (.error reason)) :
    Steady frame (act >>= next) (.error reason) := by
  intro console
  change Eval.bind act next ⟨frame, console⟩ = _
  rw [Eval.bind, first console]

private theorem echoes_pure (a : α) : Echoes scarce frame frame' (pure a) (pure a) :=
  ⟨.ok a, fun _ => rfl, .inr ⟨trivial, fun _ => rfl⟩⟩

private theorem echoes_fail (fault : EvalFault) :
    Echoes scarce frame frame' (fail fault : Eval α) (fail fault) :=
  ⟨.error (.failed ⟨.eval fault, none⟩), fun _ => rfl, .inr ⟨trivial, fun _ => rfl⟩⟩

private theorem echoes_lift (x : Except EvalFault α) :
    Echoes scarce frame frame' (lift x) (lift x) := by
  cases x with
  | ok a => exact echoes_pure a
  | error fault => exact echoes_fail fault

private theorem echoes_ofArithmetic (x : Except Number.Undefined α) :
    Echoes scarce frame frame' (ofArithmetic x) (ofArithmetic x) := by
  cases x with
  | ok a => exact echoes_pure a
  | error cause => exact ⟨.error (.undefined cause), fun _ => rfl, .inr ⟨trivial, fun _ => rfl⟩⟩

private theorem Echoes.bind {act other : Eval α} {next next' : α → Eval β}
    (first : Echoes scarce frame frame' act other)
    (rest : ∀ a, Echoes scarce frame frame' (next a) (next' a)) :
    Echoes scarce frame frame' (act >>= next) (other >>= next') := by
  obtain ⟨outcome, steady, ⟨short, rfl⟩ | ⟨concluded, echo⟩⟩ := first
  · exact ⟨_, steady.bind_error, .inl ⟨short, rfl⟩⟩
  · cases outcome with
    | ok a =>
      obtain ⟨outcome, steady', ⟨short, rfl⟩ | ⟨concluded, echo'⟩⟩ := rest a
      · exact ⟨_, steady.bind_ok steady', .inl ⟨short, rfl⟩⟩
      · exact ⟨outcome, steady.bind_ok steady', .inr ⟨concluded, echo.bind_ok echo'⟩⟩
    | error reason =>
      refine ⟨.error reason, steady.bind_error, .inr ⟨?_, echo.bind_error⟩⟩
      cases reason with
      | failed | undefined => trivial
      | returned | outOfRoom | tooMuchRoom | outOfPatience => exact concluded

private theorem Echoes.congr {act act' other other' : Eval α}
    (first : ∀ console, act ⟨frame, console⟩ = act' ⟨frame, console⟩)
    (second : ∀ console, other ⟨frame', console⟩ = other' ⟨frame', console⟩)
    (echoes : Echoes scarce frame frame' act' other') :
    Echoes scarce frame frame' act other := by
  obtain ⟨outcome, steady, short | ⟨concluded, echo⟩⟩ := echoes
  · exact ⟨outcome, fun console => (first console).trans (steady console), .inl short⟩
  · exact ⟨outcome, fun console => (first console).trans (steady console),
      .inr ⟨concluded, fun console => (second console).trans (echo console)⟩⟩

private theorem Echoes.lift_bind {x : Except EvalFault α} {next next' : α → Eval β}
    (rest : ∀ a, x = .ok a → Echoes scarce frame frame' (next a) (next' a)) :
    Echoes scarce frame frame' (lift x >>= next) (lift x >>= next') := by
  cases x with
  | ok a => exact rest a rfl
  | error fault => exact echoes_fail fault

private theorem Echoes.frame_bind {next next' : Frame → Eval α}
    (rest : Echoes scarce frame frame' (next frame) (next' frame')) :
    Echoes scarce frame frame' (Eval.frame >>= next) (Eval.frame >>= next') :=
  rest

/-- Two actions that echo each other come to the same, also when they run out
of room. -/
theorem Echoes.same {act other : Eval α} (there : Echoes True frame frame act other)
    (back : Echoes True frame frame other act) :
    ∃ outcome, Steady frame act outcome ∧ Steady frame other outcome := by
  obtain ⟨outcome, steady, ⟨-, rfl⟩ | ⟨-, echo⟩⟩ := there
  · obtain ⟨outcome', steady', ⟨-, rfl⟩ | ⟨concluded, echo⟩⟩ := back
    · exact ⟨_, steady, steady'⟩
    · rw [echo.unique steady] at concluded
      cases concluded
  · exact ⟨outcome, steady, echo⟩

/-- A place is supplied to a steady outcome. -/
theorem Steady.located {act : Eval α} {outcome : Except Stop α} (loc : Loc)
    (steady : Steady frame act outcome) : Steady frame (act.located loc) (placed loc outcome) := by
  intro console
  rw [located_eq, steady console]

private theorem Echoes.located {act other : Eval α} (loc : Loc)
    (echoes : Echoes scarce frame frame' act other) :
    Echoes scarce frame frame' (act.located loc) (other.located loc) := by
  obtain ⟨outcome, steady, ⟨short, rfl⟩ | ⟨concluded, echo⟩⟩ := echoes
  · exact ⟨_, steady.located loc, .inl ⟨short, rfl⟩⟩
  · refine ⟨_, steady.located loc, .inr ⟨?_, echo.located loc⟩⟩
    cases outcome with
    | ok => trivial
    | error reason =>
      cases reason with
      | failed | undefined => trivial
      | returned | outOfRoom | tooMuchRoom | outOfPatience => exact concluded

end Echoes

end Eval

open Eval (Steady Concluded Echoes echoes_pure echoes_fail echoes_lift echoes_ofArithmetic)

/-- Whether an expression holds no call, leaving the bodies of procs aside. -/
def Expr.isCallFree : Expr → Bool
  | .literal _ _ => true
  | .identifier _ => true
  | .group inner _ => inner.isCallFree
  | .unary _ _ operand => operand.isCallFree
  | .binary left _ _ right => left.isCallFree && right.isCallFree
  | .call _ _ _ => false
  | .proc _ => true

private theorem Expr.isCallFree_of_isPlain {e : Expr} (plain : e.isPlain = true) :
    e.isCallFree = true := by
  induction e using Expr.isPlain.induct with
  | case1 | case2 => rfl
  | case3 inner _ ih => exact ih plain
  | case4 _ _ operand ih => exact ih plain
  | case5 left _ _ right ihLeft ihRight =>
    simp only [isPlain, isCallFree, Bool.and_eq_true] at plain ⊢
    exact ⟨ihLeft plain.1, ihRight plain.2⟩
  | case6 | case7 => cases plain

/-- The expressions that evaluating an expression without calls turns to next:
its parts, or what its name is bound to. -/
inductive Frame.Turns (frame : Frame) : Expr → Expr → Prop
  | bound {name e} (held : frame.lookup name.path = some (.expr e)) (value : ∀ p, e ≠ .proc p) :
    frame.Turns (.identifier name) e
  | group {inner loc} : frame.Turns (.group inner loc) inner
  | operand {op mark operand} : frame.Turns (.unary op mark operand) operand
  | left {left op mark right} : frame.Turns (.binary left op mark right) left
  | right {left op mark right} : frame.Turns (.binary left op mark right) right

section Rules
variable {scarce : Prop} {frame frame' : Frame} {inside other : Meaning}

private theorem echoes_operands {left right : Expr}
    (first : Echoes scarce frame frame' (inside.expr left) (other.expr left))
    (second : Echoes scarce frame frame' (inside.expr right) (other.expr right)) :
    Echoes scarce frame frame' (Evaluation.operands inside left right)
      (Evaluation.operands other left right) :=
  first.bind fun _ => second.bind fun _ => echoes_pure _

private theorem echoes_numbers {left right : Expr}
    (first : Echoes scarce frame frame' (inside.expr left) (other.expr left))
    (second : Echoes scarce frame frame' (inside.expr right) (other.expr right)) :
    Echoes scarce frame frame' (Evaluation.numbers inside left right)
      (Evaluation.numbers other left right) :=
  (echoes_operands first second).bind fun _ =>
    (echoes_lift _).bind fun _ => (echoes_lift _).bind fun _ => echoes_pure _

private theorem echoes_logical {settled : Bool} {left right : Expr}
    (inner : ∀ e ∈ [left, right], ∀ units ≤ Room.logical, Echoes scarce frame frame'
      (inside.node units (.expr e)) (other.node units (.expr e))) :
    Echoes scarce frame frame' (Evaluation.logical inside settled left right)
      (Evaluation.logical other settled left right) := by
  have truth : ∀ e ∈ [left, right], Echoes scarce frame frame'
      ((inside.after Room.logical).holds e) ((other.after Room.logical).holds e) :=
    fun e member => (inner e member Room.logical le_rfl).bind fun _ => echoes_lift _
  refine (truth left (by simp)).bind fun first => ?_
  split
  · exact echoes_pure _
  · exact (truth right (by simp)).bind fun _ => echoes_pure _

private theorem echoes_binary {left right : Expr} (op : BinaryOp)
    (inner : ∀ e ∈ [left, right], ∀ units ≤ Room.logical, Echoes scarce frame frame'
      (inside.node units (.expr e)) (other.node units (.expr e))) :
    Echoes scarce frame frame' (Evaluation.binary inside left op right)
      (Evaluation.binary other left op right) := by
  have first := inner left (by simp) 0 (Nat.zero_le _)
  have second := inner right (by simp) 0 (Nat.zero_le _)
  have values := echoes_operands first second
  have numbers := echoes_numbers first second
  cases op with
  | or | and => exact echoes_logical inner
  | is | isnt => exact values.bind fun _ => echoes_pure _
  | less | lessEq | greater | greaterEq | add | subtract | multiply =>
    exact numbers.bind fun _ => echoes_pure _
  | divide =>
    refine numbers.bind fun _ => ?_
    dsimp only [Eval.quotient]
    split
    · exact echoes_fail _
    · exact echoes_pure _
  | modulo =>
    refine numbers.bind fun _ => ?_
    dsimp only [Eval.remainder]
    split
    · exact echoes_fail _
    · exact (echoes_ofArithmetic _).bind fun _ => echoes_pure _

/-- One step: an expression without calls echoes if all that it turns to next
does, and the two frames bind its name to the same. -/
theorem echoes_expr {e : Expr} (callFree : e.isCallFree = true)
    (same : ∀ path ∈ e.mentions, frame'.lookup path = frame.lookup path)
    (inner : ∀ next, frame.Turns e next → ∀ units ≤ Room.logical, Echoes scarce frame frame'
      (inside.node units (.expr next)) (other.node units (.expr next))) :
    Echoes scarce frame frame' (Evaluation.expr inside e) (Evaluation.expr other e) := by
  cases e with
  | literal value => exact echoes_pure value
  | identifier name =>
    have found : frame'.get name.path = frame.get name.path := by
      rw [Frame.get, Frame.get, same name.path (by simp [Expr.mentions])]
    refine .frame_bind ?_
    rw [found]
    refine .lift_bind fun bound got => ?_
    have held : frame.lookup name.path = some bound := by
      unfold Frame.get at got
      split at got <;> cases got
      assumption
    split
    · exact echoes_fail _
    · exact echoes_fail _
    · next e value => exact inner e (.bound held value) 0 (Nat.zero_le _)
  | group nested => exact inner nested .group 0 (Nat.zero_le _)
  | unary op mark operand =>
    refine (inner operand .operand 0 (Nat.zero_le _)).bind fun value => ?_
    refine (echoes_lift _).bind fun x => ?_
    cases op with
    | negate => exact echoes_pure _
    | not => exact (echoes_ofArithmetic _).bind fun _ => echoes_pure _
  | binary left op mark right =>
    refine echoes_binary op fun e member => ?_
    rcases List.mem_cons.mp member with rfl | member
    · exact inner e .left
    · rw [List.mem_singleton.mp member]
      exact inner right .right
  | call => cases callFree
  | proc => exact echoes_fail _

end Rules

section Reading
variable {frame frame' : Frame}

private theorem unresolved_or_literal {e : Expr} (value : ∀ p, e ≠ .proc p) :
    (Bound.expr e).unresolved? = some e ∨ ∃ v loc, e = .literal v loc := by
  cases e with
  | literal v loc => exact .inr ⟨v, loc, rfl⟩
  | proc p => exact absurd rfl (value p)
  | identifier | group | unary | binary | call => exact .inl rfl

/-- No unresolved binding holds a call or a proc. -/
def Frame.AllPlain (frame : Frame) : Prop :=
  ∀ path bound e, frame.lookup path = some bound → bound.unresolved? = some e → e.isPlain = true

private theorem Frame.Turns.isCallFree {e next : Expr} (turns : frame.Turns e next)
    (plain : frame.AllPlain) (callFree : e.isCallFree = true) : next.isCallFree = true := by
  cases turns with
  | bound held value =>
    rcases unresolved_or_literal value with unresolved | ⟨v, loc, rfl⟩
    · exact Expr.isCallFree_of_isPlain (plain _ _ _ held unresolved)
    · rfl
  | group => exact callFree
  | operand => exact callFree
  | left => exact (Bool.and_eq_true_iff.mp callFree).1
  | right => exact (Bool.and_eq_true_iff.mp callFree).2

private theorem Frame.Turns.reaches {e next : Expr} {path : Path} (turns : frame.Turns e next)
    (reaches : frame.Reaches next path) : frame.Reaches e path := by
  obtain ⟨first, mentioned, leads⟩ := reaches
  cases turns with
  | @bound name _ held value =>
    rcases unresolved_or_literal value with unresolved | ⟨v, loc, rfl⟩
    · exact ⟨name.path, List.mem_singleton.mpr rfl,
        .head ⟨_, next, held, unresolved, mentioned⟩ leads⟩
    · cases mentioned
  | group => exact ⟨first, mentioned, leads⟩
  | operand => exact ⟨first, mentioned, leads⟩
  | left => exact ⟨first, List.mem_append_left _ mentioned, leads⟩
  | right => exact ⟨first, List.mem_append_right _ mentioned, leads⟩

namespace Diversion

theorem interpret_units (diversion : Diversion) (patience room units : Nat) (s : Stmt) :
    diversion.interpret patience room units s =
      diversion.interpret patience (room - units) 0 s := by
  induction units generalizing room with
  | zero => rfl
  | succ units ih =>
    cases room with
    | zero => rw [Nat.zero_sub]; rfl
    | succ room => rw [Nat.succ_sub_succ]; exact ih room

private theorem interpreter_after (diversion : Diversion) (patience room units : Nat) :
    (diversion.interpreter patience room).after units =
      diversion.interpreter patience (room - units) := by
  have nodes : (fun more => diversion.interpret patience room (more + units)) =
      diversion.interpret patience (room - units) := by
    funext more s
    rw [interpret_units, interpret_units diversion patience (room - units), Nat.sub_sub,
      Nat.add_comm units more]
  exact congrArg (Meaning.mk (room - units)) nodes

private theorem interpret_succ {diversion : Diversion} {e : Expr}
    (apart : diversion.spots (.expr e) frame = false) (patience room : Nat) (console : Console) :
    diversion.interpret patience (room + 1) 0 (.expr e) ⟨frame, console⟩ =
      if room < Room.work then (.error .outOfRoom, ⟨frame, console⟩)
      else Eval.located e.loc (Evaluation.expr
        ((diversion.interpreter patience room).after (Stmt.expr e).units) e) ⟨frame, console⟩ := by
  simp only [interpret, apart]
  rfl

private theorem units_le (s : Stmt) : s.units ≤ Room.node := by
  unfold Stmt.units
  split
  · decide
  · exact le_rfl

/-- A node echoes if what it turns to does, in the room that it leaves. -/
theorem echoes_node {scarce : Prop} {diversion diversion' : Diversion} {e : Expr}
    (clear : diversion.spots (.expr e) frame = false)
    (clear' : diversion'.spots (.expr e) frame' = false)
    (callFree : e.isCallFree = true)
    (same : ∀ path ∈ e.mentions, frame'.lookup path = frame.lookup path)
    {patience patience' room room' : Nat} (enough : Room.work ≤ room) (more : room ≤ room')
    (inner : ∀ next, frame.Turns e next → ∀ units ≤ Room.logical + Room.node,
      Echoes scarce frame frame' (diversion.interpret patience (room - units) 0 (.expr next))
        (diversion'.interpret patience' (room' - units) 0 (.expr next))) :
    Echoes scarce frame frame' (diversion.interpret patience (room + 1) 0 (.expr e))
      (diversion'.interpret patience' (room' + 1) 0 (.expr e)) := by
  have step : Echoes scarce frame frame'
      (Evaluation.expr ((diversion.interpreter patience room).after (Stmt.expr e).units) e)
      (Evaluation.expr ((diversion'.interpreter patience' room').after (Stmt.expr e).units) e) := by
    refine echoes_expr callFree same fun next turns units few => ?_
    have taken := units_le (.expr e)
    have below := inner next turns (units + (Stmt.expr e).units) (by omega)
    rwa [← interpret_units, ← interpret_units diversion'] at below
  refine (step.located e.loc).congr (fun console => ?_) fun console => ?_
  · rw [interpret_succ clear, if_neg (by omega)]
  · rw [interpret_succ clear', if_neg (by omega)]

/-- What an expression without calls comes to depends only on the bindings it
reads, and on the room only in that there has to be enough. -/
theorem echoes_interpret {diversion diversion' : Diversion}
    (clear : ∀ e frame, e.isCallFree = true → diversion.spots (.expr e) frame = false)
    (clear' : ∀ e frame, e.isCallFree = true → diversion'.spots (.expr e) frame = false)
    (plain : frame.AllPlain) {e : Expr} (callFree : e.isCallFree = true)
    (same : ∀ path, frame.Reaches e path → frame'.lookup path = frame.lookup path)
    (patience patience' : Nat) {room room' : Nat} (more : room ≤ room') :
    Echoes True frame frame' (diversion.interpret patience room 0 (.expr e))
      (diversion'.interpret patience' room' 0 (.expr e)) := by
  induction room using Nat.strong_induction_on generalizing e room' with
  | _ room ih =>
    match room, room', more with
    | 0, _, _ => exact ⟨_, fun _ => rfl, .inl ⟨trivial, rfl⟩⟩
    | room + 1, room' + 1, more =>
      by_cases short : room < Room.work
      · refine ⟨.error .outOfRoom, fun console => ?_, .inl ⟨trivial, rfl⟩⟩
        rw [interpret_succ (clear e frame callFree), if_pos short]
      · refine echoes_node (clear e frame callFree) (clear' e frame' callFree) callFree
          (fun path mentioned => same path ⟨path, mentioned, .refl⟩) (by omega) (by omega)
          fun next turns units _ => ?_
        exact ih _ (by omega) (turns.isCallFree plain callFree)
          (fun path reaches => same path (turns.reaches reaches)) (by omega)

end Diversion

/-- Units that are used up are taken from the room. -/
theorem interpreter_after (patience room units : Nat) :
    (interpreter patience room).after units = interpreter patience (room - units) := by
  rw [← Diversion.never_interpreter, Diversion.interpreter_after, Diversion.never_interpreter]

/-- What an expression comes to in a frame: with enough room, it ends so and
changes nothing. -/
def Frame.ComesTo (frame : Frame) (e : Expr) (outcome : Except Stop Value) : Prop :=
  Concluded outcome ∧ ∃ enough, ∀ room ≥ enough, ∀ patience,
    Steady frame (interpret patience room 0 (.expr e)) outcome

private theorem never_clear (e : Expr) (frame : Frame) (_ : e.isCallFree = true) :
    Diversion.never.spots (.expr e) frame = false := rfl

/-- An expression without calls changes nothing, whatever the room, and a
diversion that leaves such expressions alone makes no difference. -/
theorem Frame.AllPlain.steady (plain : frame.AllPlain) {e : Expr} (callFree : e.isCallFree = true)
    (patience room : Nat) :
    ∃ outcome, Steady frame (interpret patience room 0 (.expr e)) outcome ∧
      ∀ diversion : Diversion,
        (∀ e frame, e.isCallFree = true → diversion.spots (.expr e) frame = false) →
        Steady frame (diversion.interpret patience room 0 (.expr e)) outcome := by
  have both : ∀ diversion : Diversion,
      (∀ e frame, e.isCallFree = true → diversion.spots (.expr e) frame = false) →
      ∃ outcome, Steady frame (interpret patience room 0 (.expr e)) outcome ∧
        Steady frame (diversion.interpret patience room 0 (.expr e)) outcome := by
    intro diversion clear
    rw [← Diversion.never_interpret]
    exact Echoes.same
      (Diversion.echoes_interpret never_clear clear plain callFree (fun _ _ => rfl) _ _ le_rfl)
      (Diversion.echoes_interpret clear never_clear plain callFree (fun _ _ => rfl) _ _ le_rfl)
  obtain ⟨outcome, steady, -⟩ := both .never never_clear
  refine ⟨outcome, steady, fun diversion clear => ?_⟩
  obtain ⟨outcome', steady', diverted⟩ := both diversion clear
  rwa [steady.unique steady']

/-- What an expression without calls comes to in one frame, it comes to in
every other that binds what it reads to the same. -/
theorem Frame.AllPlain.comesTo (plain : frame.AllPlain) {e : Expr} (callFree : e.isCallFree = true)
    (same : ∀ path, frame.Reaches e path → frame'.lookup path = frame.lookup path)
    {patience room : Nat} {console : Console} {outcome : Except Stop Value} {after : Machine}
    (ran : interpret patience room 0 (.expr e) ⟨frame, console⟩ = (outcome, after))
    (concluded : Concluded outcome) : frame'.ComesTo e outcome := by
  refine ⟨concluded, room, fun room' more patience' => ?_⟩
  have echoes := Diversion.echoes_interpret never_clear never_clear plain callFree same patience
    patience' more
  rw [Diversion.never_interpret, Diversion.never_interpret] at echoes
  obtain ⟨outcome', steady, rest⟩ := echoes
  obtain ⟨rfl, -⟩ := Prod.mk.inj ((steady console).symm.trans ran)
  rcases rest with ⟨-, rfl⟩ | ⟨-, echo⟩
  · cases concluded
  · exact echo

end Reading

section Ending
variable {frame : Frame}

private theorem turns_listed (frame : Frame) (e : Expr) :
    ∃ nexts : List Expr, ∀ next, frame.Turns e next → next ∈ nexts := by
  cases e with
  | literal | call | proc => exact ⟨[], nofun⟩
  | identifier name =>
    cases held : frame.lookup name.path with
    | none =>
      refine ⟨[], fun next turns => ?_⟩
      cases turns with
      | bound found => simp [held] at found
    | some bound =>
      cases bound with
      | declared =>
        refine ⟨[], fun next turns => ?_⟩
        cases turns with
        | bound found => simp [held] at found
      | expr e =>
        refine ⟨[e], fun next turns => ?_⟩
        cases turns with
        | bound found =>
          rw [held] at found
          cases found
          exact List.mem_singleton.mpr rfl
  | group inner =>
    exact ⟨[inner], fun next turns => by cases turns; exact List.mem_singleton.mpr rfl⟩
  | unary op mark operand =>
    exact ⟨[operand], fun next turns => by cases turns; exact List.mem_singleton.mpr rfl⟩
  | binary left op mark right =>
    exact ⟨[left, right], fun next turns => by cases turns <;> simp⟩

private theorem common_bound {holds : Expr → Nat → Prop} (es : List Expr)
    (each : ∀ e ∈ es, ∃ enough, ∀ room ≥ enough, holds e room) :
    ∃ enough, ∀ e ∈ es, ∀ room ≥ enough, holds e room := by
  induction es with
  | nil => exact ⟨0, by simp⟩
  | cons first rest ih =>
    obtain ⟨one, here⟩ := each first List.mem_cons_self
    obtain ⟨others, there⟩ := ih fun e member => each e (List.mem_cons_of_mem _ member)
    refine ⟨max one others, fun e member room more => ?_⟩
    rcases List.mem_cons.mp member with rfl | member
    · exact here room (le_trans (le_max_left _ _) more)
    · exact there e member room (le_trans (le_max_right _ _) more)

private theorem comesTo_of_turns (plain : frame.AllPlain) {e : Expr}
    (callFree : e.isCallFree = true)
    (inner : ∀ next, frame.Turns e next → ∃ outcome, frame.ComesTo next outcome) :
    ∃ outcome, frame.ComesTo e outcome := by
  obtain ⟨nexts, listed⟩ := turns_listed frame e
  obtain ⟨enough, below⟩ : ∃ enough, ∀ next ∈ nexts, ∀ room ≥ enough, frame.Turns e next →
      Echoes False frame frame (interpret 0 room 0 (.expr next))
        (interpret 0 room 0 (.expr next)) := by
    refine common_bound nexts fun next _ => ?_
    by_cases turns : frame.Turns e next
    · obtain ⟨outcome, concluded, enough, steady⟩ := inner next turns
      exact ⟨enough, fun room more _ =>
        ⟨outcome, steady room more 0, .inr ⟨concluded, steady room more 0⟩⟩⟩
    · exact ⟨0, fun _ _ turns' => absurd turns' turns⟩
  have node : Echoes False frame frame
      (Diversion.never.interpret 0 (enough + Room.logical + Room.node + Room.work + 1) 0 (.expr e))
      (Diversion.never.interpret 0 (enough + Room.logical + Room.node + Room.work + 1) 0
        (.expr e)) := by
    refine Diversion.echoes_node rfl rfl callFree (fun _ _ => rfl) (by omega) le_rfl
      fun next turns units few => ?_
    rw [Diversion.never_interpret]
    exact below next (listed next turns) _ (by omega) turns
  rw [Diversion.never_interpret] at node
  obtain ⟨outcome, steady, ⟨impossible, -⟩ | ⟨concluded, -⟩⟩ := node
  · exact impossible.elim
  · exact ⟨outcome, plain.comesTo callFree (fun _ _ => rfl) (steady {}) concluded⟩

private theorem comesTo_of_mentions (plain : frame.AllPlain) {e : Expr}
    (callFree : e.isCallFree = true)
    (names : ∀ name : Name, name.path ∈ e.mentions →
      ∃ outcome, frame.ComesTo (.identifier name) outcome) :
    ∃ outcome, frame.ComesTo e outcome := by
  induction e using Expr.mentions.induct with
  | case1 | case7 => exact comesTo_of_turns plain callFree nofun
  | case2 name => exact names name (List.mem_singleton.mpr rfl)
  | case3 inner loc ih =>
    refine comesTo_of_turns plain callFree fun next turns => ?_
    cases turns
    exact ih callFree names
  | case4 op mark operand ih =>
    refine comesTo_of_turns plain callFree fun next turns => ?_
    cases turns
    exact ih callFree names
  | case5 left op mark right ihLeft ihRight =>
    obtain ⟨freeLeft, freeRight⟩ := Bool.and_eq_true_iff.mp callFree
    refine comesTo_of_turns plain callFree fun next turns => ?_
    cases turns with
    | left => exact ihLeft freeLeft fun name member => names name (List.mem_append_left _ member)
    | right =>
      exact ihRight freeRight fun name member => names name (List.mem_append_right _ member)
  | case6 => cases callFree

/-- In a tidy frame the ways from path to path are finite: whatever leads on is
bound, and nothing leads back to itself. -/
theorem Frame.Tidy.founded (tidy : frame.Tidy) :
    WellFounded fun next path => frame.LeadsTo path next := by
  let bound : Set Path := {path | path ∈ frame.bindings.paths}
  have order : IsStrictOrder Path fun next path => Relation.TransGen frame.LeadsTo path next :=
    { irrefl := tidy.acyclic, trans := fun _ _ _ first second => second.trans first }
  have founded : bound.WellFoundedOn fun next path => Relation.TransGen frame.LeadsTo path next :=
    (List.finite_toSet frame.bindings.paths).wellFoundedOn
  have listed : ∀ {path held}, frame.lookup path = some held → path ∈ bound := fun found =>
    List.mem_map.mpr ⟨_, Frame.lookup_eq_some_iff.mp found, rfl⟩
  have onward : ∀ path ∈ bound, Acc (fun next path => frame.LeadsTo path next) path := by
    intro path member
    refine founded.induction member fun path _ later => ⟨path, fun next leads => ?_⟩
    obtain ⟨held, found⟩ := Frame.has_iff.mp (tidy.known path next leads)
    exact later next (listed found) (.single leads)
  refine ⟨fun path => ⟨path, fun next leads => onward next ?_⟩⟩
  obtain ⟨held, found⟩ := Frame.has_iff.mp (tidy.known path next leads)
  exact listed found

/-- In a tidy frame every name comes to something: what it leads to is bound,
and is further from the ends of the chains. -/
theorem Frame.Tidy.name_comesTo (tidy : frame.Tidy) (name : Name) :
    ∃ outcome, frame.ComesTo (.identifier name) outcome := by
  have onward : ∀ path, (∀ next, frame.LeadsTo path next → ∀ name : Name, name.path = next →
      ∃ outcome, frame.ComesTo (.identifier name) outcome) → ∀ name : Name, name.path = path →
      ∃ outcome, frame.ComesTo (.identifier name) outcome := by
    rintro path later name rfl
    refine comesTo_of_turns tidy.plain rfl fun next turns => ?_
    obtain ⟨held, value⟩ : frame.lookup name.path = some (.expr next) ∧ ∀ p, next ≠ .proc p := by
      cases turns with
      | bound held value => exact ⟨held, value⟩
    rcases unresolved_or_literal value with unresolved | ⟨v, loc, rfl⟩
    · refine comesTo_of_mentions tidy.plain
        (Expr.isCallFree_of_isPlain (tidy.plain _ _ _ held unresolved)) fun inner mentioned => ?_
      exact later inner.path ⟨_, next, held, unresolved, mentioned⟩ inner rfl
    · exact comesTo_of_turns tidy.plain rfl nofun
  exact tidy.founded.induction (C := fun path => ∀ name : Name, name.path = path →
    ∃ outcome, frame.ComesTo (.identifier name) outcome) name.path onward name rfl

end Ending

end BasilLang
