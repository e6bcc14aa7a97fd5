import BasilLang.Evaluation.Part
import BasilLang.Proofs.Visiting

/-! What evaluation leaves behind. Parameters are bound to unresolved
arguments, and calls, loops and namespaces copy bindings back; still, whatever
ends with a value or a return leaves every path bound to a literal, to a proc,
or to what it was bound to before. After a run that began without bindings
there is nothing unresolved at all. -/
namespace BasilLang.Resolution

/-- A literal or a proc is bound. -/
def Resolved (bound : Bound) : Prop :=
  (∃ value loc, bound = .expr (.literal value loc)) ∨ ∃ proc, bound.proc? = some proc

/-- Evaluation came to a value or to a return. -/
def Completed {α : Type} (outcome : Except Stop α) : Prop :=
  (∃ a, outcome = .ok a) ∨ ∃ value, outcome = .error (.returned value)

/-- What is resolved has nothing left to resolve. -/
theorem resolved_iff {bound : Bound} : Resolved bound ↔ bound.unresolved? = none := by
  constructor
  · rintro (⟨value, loc, rfl⟩ | ⟨proc, isProc⟩)
    · rfl
    · exact Bound.unresolved_of_proc (by rw [isProc]; rfl)
  · intro resolved
    cases bound with
    | declared name proc => exact .inr ⟨proc, rfl⟩
    | expr e =>
      cases e with
      | literal value loc => exact .inl ⟨value, loc, rfl⟩
      | proc proc => exact .inr ⟨proc, rfl⟩
      | identifier | group | unary | binary | call => cases resolved

/-- Evaluation that has completed has let the frame settle. -/
theorem settles_of_completed {α : Type} {manner : Manner} {start : Frame} {act : Eval α}
    {console : Console} {outcome : Except Stop α} {after : Machine}
    (keeps : Regime.free.beside.Keeps Regime.free.stops manner start (fun _ => act) Course.Same)
    (ran : act ⟨start, console⟩ = (outcome, after)) (completed : Completed outcome) :
    start.Settles after.frame := by
  have ends := (Regime.conforms_of_keeps keeps (fun _ _ _ same => ⟨same, trivial⟩) console
    False.elim).2
  rw [ran] at ends
  rcases completed with ⟨a, done⟩ | ⟨value, returned⟩
  · exact (ends.value a done).1.settles
  · exact (ends.back value returned).2

/-- Evaluation that ends with a value or a return leaves nothing unresolved
behind that was not there before, and a run from a frame without bindings that
ends without an error leaves nothing unresolved. -/
theorem completion_leaves_nothing_unresolved (patience room : Nat) :
    (∀ (part : Part) (m after : Machine) (outcome : Except Stop Value),
      part.eval (interpreter patience room) m = (outcome, after) → Completed outcome →
      ∀ path bound, (path, bound) ∈ after.frame.bindings →
        Resolved bound ∨ (path, bound) ∈ m.frame.bindings) ∧
    ∀ (program : Program) (withMain : Bool) (m after : Machine) (result : Option Value),
      m.frame.bindings = [] →
      program.eval (interpreter patience room) withMain m = (.ok result, after) →
      ∀ path bound, (path, bound) ∈ after.frame.bindings → Resolved bound := by
  have freely := freely_interpreter patience room
  have found : ∀ {before after : Frame}, before.Settles after → ∀ path bound,
      (path, bound) ∈ after.bindings → Resolved bound ∨ (path, bound) ∈ before.bindings := by
    intro before after settles path bound member
    rw [resolved_iff, ← Frame.lookup_eq_some_iff]
    exact settles.settled path bound (Frame.lookup_eq_some_iff.mpr member)
  constructor
  · intro part m after outcome ran completed
    have keeps : Regime.free.beside.Keeps Regime.free.stops .body m.frame _ _ :=
      freely.near.part trivial (fun _ => trivial) (fun _ => trivial) part
    exact found (settles_of_completed keeps ran completed)
  · intro program withMain m after result fresh ran path bound member
    have settles := settles_of_completed (freely.program program withMain) ran (.inl ⟨result, rfl⟩)
    rcases found settles path bound member with resolved | before
    · exact resolved
    · rw [fresh] at before
      cases before

/-- A proc that returns its parameter, which is named `x`. -/
def giveBack : Proc :=
  .mk default [⟨"x", default⟩] default [.returning (.identifier ⟨["x"], default⟩) default] default

/-- A call of it with a name for the argument. -/
def giveBackY : Expr :=
  .call ⟨["f"], default⟩ [.identifier ⟨["y"], default⟩] default

/-- A frame that binds `x`, and binds `z` to a name. -/
def sharingX : Frame where
  bindings := [(["x"], .ofValue ⟨.number, "1"⟩ default), (["y"], .ofValue ⟨.number, "2"⟩ default),
    (["z"], .expr (.identifier ⟨["y"], default⟩)), (["f"], .declared ⟨["f"], default⟩ giveBack)]
  distinct := by decide

/-- A program that calls the proc where `x` is bound. -/
def sharesX : Program :=
  ⟨"", [.letDecl ⟨["x"], default⟩ (.literal ⟨.number, "1"⟩ default) default,
    .letDecl ⟨["y"], default⟩ (.literal ⟨.number, "2"⟩ default) default,
    .procDecl ⟨["f"], default⟩ giveBack, .expr giveBackY]⟩

theorem shared_parameter_is_resolved :
    (∃ after, (Part.expr giveBackY).eval (interpreter 0 60) ⟨sharingX, {}⟩ =
        (.ok ⟨.number, "2"⟩, after) ∧
      after.frame.lookup ["x"] = some (.ofValue ⟨.number, "2"⟩ default) ∧
      ∀ path bound, (path, bound) ∈ after.frame.bindings →
        Resolved bound ∨ (path, bound) ∈ sharingX.bindings) ∧
    ∃ after, sharesX.eval (interpreter 0 60) false ⟨{}, {}⟩ = (.ok none, after) ∧
      ∀ path bound, (path, bound) ∈ after.frame.bindings → Resolved bound := by
  refine ⟨⟨_, rfl, rfl, ?_⟩, _, rfl, ?_⟩
  · exact (completion_leaves_nothing_unresolved 0 60).1 (.expr giveBackY) ⟨sharingX, {}⟩ _ _ rfl
      (.inl ⟨_, rfl⟩)
  · exact (completion_leaves_nothing_unresolved 0 60).2 sharesX false ⟨{}, {}⟩ _ _ rfl rfl

end BasilLang.Resolution
