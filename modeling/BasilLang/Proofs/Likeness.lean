import BasilLang.Proofs.Shape
import BasilLang.Proofs.Viewing

/-! Frames without their places. Forgetting places is a view of what is bound,
and what is done with frames depends on paths, texts and the shape of trees
alone. So frames that differ in nothing but places answer every question in the
same way, and stay so under every operation. -/
namespace BasilLang

section Trees

private theorem groups_unplaced (e : Expr) : e.unplaced.groups = e.groups := by
  induction e using Expr.groups.induct with
  | case1 inner loc ih => simp only [Expr.unplaced, Expr.groups, ih]
  | case2 e notGroup =>
    cases e with
    | group inner loc => exact absurd rfl (notGroup inner loc)
    | literal | identifier | unary | binary | call | proc => rfl

private theorem names_unplaced (e : Expr) : e.unplaced.names? = e.names? := by
  induction e using Expr.names?.induct with
  | case1 | case2 | case6 | case7 => rfl
  | case3 inner loc ih => simpa only [Expr.unplaced, Expr.names?] using ih
  | case4 op mark operand ih => simpa only [Expr.unplaced, Expr.names?] using ih
  | case5 left op mark right ih ih' => simp only [Expr.unplaced, Expr.names?, ih, ih']

variable {e e' : Expr} {s s' : Stmt} {p p' : Proc}

theorem Expr.Alike.dump (alike : e.Alike e') : e.dump = e'.dump := by
  rw [← e.told_unplaced.1, alike, e'.told_unplaced.1]

theorem Expr.Alike.depth (alike : e.Alike e') : e.depth = e'.depth := by
  rw [← e.told_unplaced.2.2, alike, e'.told_unplaced.2.2]

theorem Expr.Alike.groups (alike : e.Alike e') : e.groups = e'.groups := by
  rw [← groups_unplaced e, alike, groups_unplaced]

theorem Stmt.Alike.units (alike : s.Alike s') : s.units = s'.units := by
  have unplaced : ∀ s : Stmt, s.unplaced.units = s.units := by
    intro s
    cases s with
    | expr e =>
      cases e with
      | literal | identifier | group | unary | binary | call | proc => rfl
    | importLibrary | importRelative | inNamespace | letDecl | constDecl | set | ifThen
    | forRange | whileTrue | returning | procDecl => rfl
  rw [← unplaced s, alike, unplaced]

theorem Proc.Alike.body (alike : p.Alike p') : AlikeStmts p.body p'.body := by
  cases p
  cases p'
  simp only [Proc.Alike, Proc.unplaced, Proc.mk.injEq] at alike
  exact alike.2.2.2.1

theorem Proc.Alike.paramPaths (alike : p.Alike p') :
    Evaluation.paramPaths p = Evaluation.paramPaths p' := by
  have unplaced : ∀ p : Proc, Evaluation.paramPaths p.unplaced = Evaluation.paramPaths p := by
    intro p
    cases p
    simp [Evaluation.paramPaths, Proc.params, Mark.unplaced]
  rw [← unplaced p, alike, unplaced]

end Trees

/-- The binding without its places. -/
def Bound.unplaced : Bound → Bound
  | .expr e => .expr e.unplaced
  | .declared name p => .declared name.unplaced p.unplaced

/-- Bindings that differ in their places only. -/
def Bound.Alike (b b' : Bound) : Prop := b.unplaced = b'.unplaced

/-- What is bound, without its places. -/
abbrev Bindings.unplaced (bindings : Bindings) : Bindings :=
  bindings.viewed Bound.unplaced

/-- The frame without the places of what is bound. -/
abbrev Frame.unplaced (frame : Frame) : Frame :=
  frame.viewed Bound.unplaced

/-- Frames that differ in nothing but the places of what is bound. -/
def Frame.Alike (frame frame' : Frame) : Prop := frame.unplaced = frame'.unplaced

/-- Of what may be missing, both are there or none is. -/
theorem both_or_none {α γ : Type} {view : α → γ} {x x' : Option α}
    (same : x.map view = x'.map view) :
    (x = none ∧ x' = none) ∨ ∃ a a', x = some a ∧ x' = some a' ∧ view a = view a' := by
  cases x with
  | none =>
    cases x' with
    | none => exact .inl ⟨rfl, rfl⟩
    | some a' => cases same
  | some a =>
    cases x' with
    | none => cases same
    | some a' => exact .inr ⟨a, a', rfl, rfl, Option.some.inj same⟩

namespace Bound

theorem proc?_unplaced (b : Bound) : b.unplaced.proc? = b.proc?.map Proc.unplaced := by
  cases b with
  | declared name p => rfl
  | expr e =>
    cases e with
    | literal | identifier | group | unary | binary | call | proc => rfl

theorem unresolved?_unplaced (b : Bound) :
    b.unplaced.unresolved? = b.unresolved?.map Expr.unplaced := by
  cases b with
  | declared name p => rfl
  | expr e =>
    cases e with
    | literal | identifier | group | unary | binary | call | proc => rfl

end Bound

namespace Frame

section Expressions
variable (frame : Frame)

private theorem reads?_unplaced (e : Expr) : frame.unplaced.reads? e.unplaced = frame.reads? e := by
  have same : ∀ path bound, frame.lookup path = some bound →
      Readable.names? bound.unplaced = Readable.names? bound := by
    intro _ bound _
    simp only [Readable.names?, Bound.names?, Bound.unresolved?_unplaced]
    cases bound.unresolved? with
    | none => rfl
    | some e => exact names_unplaced e
  have length : frame.unplaced.bindings.length = frame.bindings.length := List.length_map _
  simp only [reads?, names_unplaced, length, follow_viewed same]

end Expressions

namespace Alike
variable {frame frame' inner inner' : Frame} {bound bound' : Bound} {e e' : Expr}

/-- All that a frame holds beside what is bound. -/
theorem place (alike : frame.Alike frame') : frame.constants = frame'.constants ∧
    frame.scope = frame'.scope ∧ frame.depth = frame'.depth ∧ frame.maxDepth = frame'.maxDepth := by
  simp only [Frame.Alike, viewed, mk.injEq] at alike
  exact alike.2

theorem bindings (alike : frame.Alike frame') :
    frame.bindings.unplaced = frame'.bindings.unplaced :=
  congrArg Frame.bindings alike

theorem paths (alike : frame.Alike frame') : frame.bindings.paths = frame'.bindings.paths := by
  simpa only [Bindings.paths_viewed] using congrArg Bindings.paths alike.bindings

private theorem has (alike : frame.Alike frame') (path : Path) :
    frame.has path = frame'.has path := by
  simpa only [has_viewed] using congrArg (Frame.has · path) alike

theorem lookup (alike : frame.Alike frame') (path : Path) :
    (frame.lookup path).map Bound.unplaced = (frame'.lookup path).map Bound.unplaced := by
  simpa only [lookup_viewed] using congrArg (Frame.lookup · path) alike

theorem put (alike : frame.Alike frame') (bounds : bound.Alike bound') (path : Path) :
    (frame.put path bound).Alike (frame'.put path bound') := by
  have same := congr (congrArg (Frame.put · path) alike) bounds
  rwa [put_viewed, put_viewed] at same

theorem bind (alike : frame.Alike frame') (bounds : bound.Alike bound') (path : Path) :
    (frame.bind path bound).Alike (frame'.bind path bound') := by
  have same := congr (congrArg (Frame.bind · path) alike) bounds
  rwa [bind_viewed, bind_viewed] at same

theorem deeper (alike : frame.Alike frame') :
    frame.deeper.map Frame.unplaced = frame'.deeper.map Frame.unplaced := by
  simpa only [deeper_viewed] using congrArg Frame.deeper alike

theorem within (alike : frame.Alike frame') (scope : Path) :
    (frame.within scope).Alike (frame'.within scope) :=
  congrArg (Frame.within · scope) alike

theorem mergeExisting (alike : frame.Alike frame') (inners : inner.Alike inner') :
    (frame.mergeExisting inner).Alike (frame'.mergeExisting inner') := by
  have same := congr (congrArg Frame.mergeExisting alike) inners
  rwa [mergeExisting_viewed, mergeExisting_viewed] at same

theorem mergeUnder (alike : frame.Alike frame') (inners : inner.Alike inner') (top : Path) :
    (frame.mergeUnder inner top).Alike (frame'.mergeUnder inner' top) := by
  have same := congr (congrArg (Frame.mergeUnder · · top) alike) inners
  rwa [mergeUnder_viewed, mergeUnder_viewed] at same

theorem addLibrary {library library' : Frame} (alike : frame.Alike frame')
    (libraries : library.Alike library') :
    (Evaluation.addLibrary frame library).Alike (Evaluation.addLibrary frame' library') := by
  have same := congr (congrArg Evaluation.addLibrary alike) libraries
  rwa [addLibrary_viewed, addLibrary_viewed] at same

theorem reads? (alike : frame.Alike frame') (exprs : e.Alike e') :
    frame.reads? e = frame'.reads? e' := by
  rw [← reads?_unplaced, alike, exprs, reads?_unplaced]

end Alike

end Frame

end BasilLang
