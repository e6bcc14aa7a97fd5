import BasilLang.Proofs.Steadiness

/-! Wherever a run evaluates anything, reading names is safe. Frames are tidy
from the beginning of a run on: no unresolved binding leads to a call, to an
unbound path or back to itself. So a name always comes to a value or a fault,
no call is made on the way, and nothing changes. -/
namespace BasilLang

/-- Whether a node is a call. -/
def Stmt.isCall : Stmt → Bool
  | .expr (.call _ _ _) => true
  | _ => false

namespace Acyclicity

open Eval (Echoes)

/-- Tidiness outlasts everything that evaluation does. -/
theorem lasting_tidy : Lasting Frame.Tidy where
  empty frame fresh := by
    refine Frame.tidy_of_resolved fun path bound held => ?_
    rw [Frame.lookup, fresh] at held
    cases held
  settles _ _ tidy settles := tidy.settles settles
  bindAll _ _ _ tidy count apart := tidy.bindAll count apart

private theorem not_call {e : Expr} (callFree : e.isCallFree = true) :
    (Stmt.expr e).isCall = false := by
  cases e with
  | call => cases callFree
  | literal | identifier | group | unary | binary | proc => rfl

/-- Every frame in which a run evaluates a node is tidy. Hence a name comes to
something there, and whatever the room, evaluating it changes nothing and does
not depend on what calls mean. -/
theorem unresolved_bindings_never_cycle (run : Run) {s : Stmt} {frame : Frame}
    (evaluates : run.Evaluates s frame) :
    frame.Tidy ∧ ∀ name : Name,
      (∃ outcome, frame.ComesTo (.identifier name) outcome) ∧
      ∀ patience room console, ∃ outcome,
        interpret patience room 0 (.expr (.identifier name)) ⟨frame, console⟩ =
          (outcome, ⟨frame, console⟩) ∧
        ∀ instead, Diversion.interpret ⟨fun s _ => s.isCall, instead⟩ patience room 0
          (.expr (.identifier name)) ⟨frame, console⟩ = (outcome, ⟨frame, console⟩) := by
  have tidy : frame.Tidy := run.holds_of_evaluates lasting_tidy evaluates
  refine ⟨tidy, fun name => ⟨tidy.name_comesTo name, fun patience room console => ?_⟩⟩
  have callFree : (Expr.identifier name).isCallFree = true := rfl
  obtain ⟨outcome, steady, diverted⟩ :=
    Frame.AllPlain.steady tidy.plain callFree patience room
  exact ⟨outcome, steady console, fun instead =>
    diverted ⟨fun s _ => s.isCall, instead⟩ (fun _ _ => not_call) console⟩

/-- A name of one segment as an expression. -/
def nameOf (text : String) : Expr :=
  .identifier ⟨[text], default⟩

def returnZ : Stmt :=
  .returning (nameOf "z") default

/-- `proc inner(z) then return z end` -/
def inner : Proc :=
  .mk default [⟨"z", default⟩] default [returnZ] default

/-- `proc outer(x) then inner(x) end` -/
def outer : Proc :=
  .mk default [⟨"x", default⟩] default
    [.expr (.call ⟨["inner"], default⟩ [nameOf "x"] default)] default

/-- A run in which a name is handed on twice: `outer` is called with `y`, and
calls `inner` with its parameter. -/
def handingOn : Run :=
  .ofBody [.procDecl ⟨["inner"], default⟩ inner, .procDecl ⟨["outer"], default⟩ outer,
    .letDecl ⟨["y"], default⟩ (.literal ⟨.number, "2"⟩ default) default,
    .expr (.call ⟨["outer"], default⟩ [nameOf "y"] default)] 100

/-- The frame in which the body of `inner` runs: `z` leads to `x`, and `x` to
`y`. -/
def handedOn : Frame where
  bindings := [(["inner"], .declared ⟨["inner"], default⟩ inner),
    (["outer"], .declared ⟨["outer"], default⟩ outer),
    (["y"], .ofValue ⟨.number, "2"⟩ default), (["x"], .expr (nameOf "y")),
    (["z"], .expr (nameOf "x"))]
  distinct := by decide
  scope := ["inner"]
  depth := 2

/-- Where the run is broken off. -/
def isReturn : Stmt → Bool
  | .returning .. => true
  | _ => false

theorem handed_on_name_is_read :
    handingOn.Evaluates returnZ handedOn ∧
    handedOn.LeadsTo ["z"] ["x"] ∧ handedOn.LeadsTo ["x"] ["y"] ∧
    handedOn.Tidy ∧ ∃ outcome, handedOn.ComesTo (nameOf "z") outcome := by
  have evaluates : handingOn.Evaluates returnZ handedOn :=
    ⟨fun s _ => isReturn s, fun _ => rfl⟩
  obtain ⟨tidy, names⟩ := unresolved_bindings_never_cycle handingOn evaluates
  exact ⟨evaluates, ⟨_, nameOf "x", rfl, rfl, List.mem_singleton.mpr rfl⟩,
    ⟨_, nameOf "y", rfl, rfl, List.mem_singleton.mpr rfl⟩, tidy, (names ⟨["z"], default⟩).1⟩

end Acyclicity

end BasilLang
