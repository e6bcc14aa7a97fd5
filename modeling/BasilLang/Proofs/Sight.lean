import BasilLang.Proofs.Likeness
import BasilLang.Proofs.Discipline

/-! How one evaluation is seen from another. The trees of the two may differ in
their places, and the frames in more than that; what matters is that every
question that a rule asks of a frame has the same answer on both sides, and that
frames stay as they are seen under all that the rules do to them. A sight says
which frames are seen as which, and which questions may be asked at all. Two
evaluations of one tree in one frame are the simplest case. -/
namespace BasilLang

/-- The second is seen as the first: they have the same view, and are the same
if sight is exact. -/
structure Seen {τ : Type} (exact : Prop) (view : τ → τ) (t t' : τ) : Prop where
  alike : view t = view t'
  same : exact → t = t'

attribute [local grind] Seen
attribute [local grind cases] Seen
attribute [local grind =] unplacedExprs_eq_map unplacedStmts_eq_map

namespace Seen
variable {τ : Type} {exact : Prop} {view : τ → τ}

theorem refl (t : τ) : Seen exact view t t :=
  ⟨rfl, fun _ => rfl⟩

/-- What a thing may have is there on both sides or on none. -/
theorem option {σ : Type} {view' : σ → σ} {part : τ → Option σ} {t t' : τ}
    (natural : ∀ t, part (view t) = (part t).map view') (seen : Seen exact view t t') :
    Option.Rel (Seen exact view') (part t) (part t') := by
  have same : (part t).map view' = (part t').map view' := by
    rw [← natural, seen.alike, natural]
  rcases both_or_none same with ⟨none, none'⟩ | ⟨a, a', found, found', alike⟩
  · rw [none, none']
    exact .none
  · rw [found, found']
    refine .some ⟨alike, fun sharp => ?_⟩
    rw [← seen.same sharp, found] at found'
    exact Option.some.inj found'

section Lists
variable {t : τ} {ts ts' : List τ}

theorem cons {t' : τ} (first : Seen exact view t t') (rest : Seen exact (List.map view) ts ts') :
    Seen exact (List.map view) (t :: ts) (t' :: ts') where
  alike := by rw [List.map_cons, List.map_cons, first.alike, rest.alike]
  same sharp := by rw [first.same sharp, rest.same sharp]

theorem eq_nil (seen : Seen exact (List.map view) [] ts') : ts' = [] :=
  List.map_eq_nil_iff.mp seen.alike.symm

theorem eq_cons (seen : Seen exact (List.map view) (t :: ts) ts') :
    ∃ t' rest, ts' = t' :: rest ∧ Seen exact view t t' ∧ Seen exact (List.map view) ts rest := by
  obtain ⟨alike, same⟩ := seen
  cases ts' with
  | nil => cases alike
  | cons t' rest =>
    obtain ⟨first, others⟩ := List.cons.inj alike
    exact ⟨t', rest, rfl, ⟨first, fun sharp => (List.cons.inj (same sharp)).1⟩,
      ⟨others, fun sharp => (List.cons.inj (same sharp)).2⟩⟩

theorem length (seen : Seen exact (List.map view) ts ts') : ts'.length = ts.length := by
  simpa using (congrArg List.length seen.alike).symm

end Lists

/-! What is seen as a tree has the form of that tree. -/

section Expressions
variable {e' inner operand left right : Expr} {args : List Expr} {name : Name} {mark : Mark}
  {loc : Loc}

theorem literal {v : Value} (seen : Seen exact Expr.unplaced (.literal v loc) e') :
    ∃ loc', e' = .literal v loc' := by
  obtain ⟨alike, same⟩ := seen
  cases e' <;> grind [Expr.unplaced]

theorem identifier (seen : Seen exact Expr.unplaced (.identifier name) e') :
    ∃ name' : Name, e' = .identifier name' ∧ name'.path = name.path := by
  obtain ⟨alike, same⟩ := seen
  cases e' <;> grind [Expr.unplaced, Name.unplaced]

theorem group (seen : Seen exact Expr.unplaced (.group inner loc) e') :
    ∃ inner' loc', e' = .group inner' loc' ∧ Seen exact Expr.unplaced inner inner' := by
  obtain ⟨alike, same⟩ := seen
  cases e' <;> grind [Expr.unplaced]

theorem unary {op : UnaryOp} (seen : Seen exact Expr.unplaced (.unary op mark operand) e') :
    ∃ mark' operand', e' = .unary op mark' operand' ∧
      Seen exact Expr.unplaced operand operand' := by
  obtain ⟨alike, same⟩ := seen
  cases e' <;> grind [Expr.unplaced]

theorem binary {op : BinaryOp} (seen : Seen exact Expr.unplaced (.binary left op mark right) e') :
    ∃ left' mark' right', e' = .binary left' op mark' right' ∧
      Seen exact Expr.unplaced left left' ∧ Seen exact Expr.unplaced right right' := by
  obtain ⟨alike, same⟩ := seen
  cases e' <;> grind [Expr.unplaced]

theorem call (seen : Seen exact Expr.unplaced (.call name args loc) e') :
    ∃ name' args' loc', e' = .call name' args' loc' ∧ name'.path = name.path ∧
      Seen exact (List.map Expr.unplaced) args args' := by
  obtain ⟨alike, same⟩ := seen
  cases e' <;> grind [Expr.unplaced, Name.unplaced]

theorem proc {p : Proc} (seen : Seen exact Expr.unplaced (.proc p) e') :
    ∃ p', e' = .proc p' ∧ Seen exact Proc.unplaced p p' := by
  obtain ⟨alike, same⟩ := seen
  cases e' <;> grind [Expr.unplaced]

end Expressions

section Statements
variable {s' : Stmt} {e value condition start stop : Expr} {body : List Stmt} {name : Name}
  {mark : Mark} {loc bodyLoc : Loc}

theorem expr (seen : Seen exact Stmt.unplaced (.expr e) s') :
    ∃ e', s' = .expr e' ∧ Seen exact Expr.unplaced e e' := by
  obtain ⟨alike, same⟩ := seen
  cases s' <;> grind [Stmt.unplaced]

theorem importLibrary (seen : Seen exact Stmt.unplaced (.importLibrary mark loc) s') :
    ∃ mark' loc', s' = .importLibrary mark' loc' ∧ mark'.text = mark.text := by
  obtain ⟨alike, same⟩ := seen
  cases s' <;> grind [Stmt.unplaced, Mark.unplaced]

theorem importRelative (seen : Seen exact Stmt.unplaced (.importRelative mark loc) s') :
    ∃ mark' loc', s' = .importRelative mark' loc' ∧
      (exact → mark' = mark ∧ loc' = loc) := by
  obtain ⟨alike, same⟩ := seen
  cases s' <;> grind [Stmt.unplaced]

theorem inNamespace (seen : Seen exact Stmt.unplaced (.inNamespace name body bodyLoc loc) s') :
    ∃ name' body' bodyLoc' loc', s' = .inNamespace name' body' bodyLoc' loc' ∧
      name'.path = name.path ∧ Seen exact (List.map Stmt.unplaced) body body' := by
  obtain ⟨alike, same⟩ := seen
  cases s' <;> grind [Stmt.unplaced, Name.unplaced]

theorem letDecl (seen : Seen exact Stmt.unplaced (.letDecl name value loc) s') :
    ∃ name' value' loc', s' = .letDecl name' value' loc' ∧ name'.path = name.path ∧
      Seen exact Expr.unplaced value value' := by
  obtain ⟨alike, same⟩ := seen
  cases s' <;> grind [Stmt.unplaced, Name.unplaced]

theorem constDecl (seen : Seen exact Stmt.unplaced (.constDecl name value loc) s') :
    ∃ name' value' loc', s' = .constDecl name' value' loc' ∧ name'.path = name.path ∧
      Seen exact Expr.unplaced value value' := by
  obtain ⟨alike, same⟩ := seen
  cases s' <;> grind [Stmt.unplaced, Name.unplaced]

theorem set (seen : Seen exact Stmt.unplaced (.set name value) s') :
    ∃ name' value', s' = .set name' value' ∧ name'.path = name.path ∧
      Seen exact Expr.unplaced value value' := by
  obtain ⟨alike, same⟩ := seen
  cases s' <;> grind [Stmt.unplaced, Name.unplaced]

theorem ifThen (seen : Seen exact Stmt.unplaced (.ifThen condition body bodyLoc loc) s') :
    ∃ condition' body' bodyLoc' loc', s' = .ifThen condition' body' bodyLoc' loc' ∧
      Seen exact Expr.unplaced condition condition' ∧
        Seen exact (List.map Stmt.unplaced) body body' := by
  obtain ⟨alike, same⟩ := seen
  cases s' <;> grind [Stmt.unplaced]

theorem forRange (seen : Seen exact Stmt.unplaced (.forRange name start stop body bodyLoc loc) s') :
    ∃ name' start' stop' body' bodyLoc' loc',
      s' = .forRange name' start' stop' body' bodyLoc' loc' ∧ name'.path = name.path ∧
        Seen exact Expr.unplaced start start' ∧ Seen exact Expr.unplaced stop stop' ∧
          Seen exact (List.map Stmt.unplaced) body body' ∧ (exact → loc' = loc) := by
  obtain ⟨alike, same⟩ := seen
  cases s' <;> grind [Stmt.unplaced, Name.unplaced]

theorem whileTrue (seen : Seen exact Stmt.unplaced (.whileTrue condition body bodyLoc loc) s') :
    ∃ condition' body' bodyLoc' loc', s' = .whileTrue condition' body' bodyLoc' loc' ∧
      Seen exact Expr.unplaced condition condition' ∧
        Seen exact (List.map Stmt.unplaced) body body' := by
  obtain ⟨alike, same⟩ := seen
  cases s' <;> grind [Stmt.unplaced]

theorem returning (seen : Seen exact Stmt.unplaced (.returning value loc) s') :
    ∃ value' loc', s' = .returning value' loc' ∧ Seen exact Expr.unplaced value value' := by
  obtain ⟨alike, same⟩ := seen
  cases s' <;> grind [Stmt.unplaced]

theorem procDecl {p : Proc} (seen : Seen exact Stmt.unplaced (.procDecl name p) s') :
    ∃ name' p', s' = .procDecl name' p' ∧ name'.path = name.path ∧
      Seen exact Bound.unplaced (.declared name p) (.declared name' p') := by
  obtain ⟨alike, same⟩ := seen
  cases s' <;> grind [Stmt.unplaced, Name.unplaced, Bound.unplaced]

end Statements

end Seen

/-- Two answers: results that are related, or the same complaint. -/
inductive Answers {α : Type} (related : α → α → Prop) :
    Except EvalFault α → Except EvalFault α → Prop where
  | ok {a a' : α} (holds : related a a') : Answers related (.ok a) (.ok a')
  | error (fault : EvalFault) : Answers related (.error fault) (.error fault)

private theorem Answers.of_eq {α : Type} {related : α → α → Prop} (holds : ∀ a, related a a)
    {x x' : Except EvalFault α} (same : x = x') : Answers related x x' := by
  subst same
  cases x with
  | ok a => exact .ok (holds a)
  | error fault => exact .error fault

/-- Two answers of which one cannot be told from the other in some view. -/
theorem Answers.of_map {α γ : Type} {view : α → γ} {x x' : Except EvalFault α}
    (same : x.map view = x'.map view) : Answers (fun a a' => view a = view a') x x' := by
  cases x with
  | ok a =>
    cases x' with
    | ok a' => exact .ok (Except.ok.inj same)
    | error => cases same
  | error fault =>
    cases x' with
    | ok => cases same
    | error fault' =>
      cases same
      exact .error fault

/-- What holds of frames that are seen as a whole: nothing tells them apart but
places, if sight is not exact. -/
structure SeenWhole (exact : Prop) (frames : Frame → Frame → Prop) : Prop where
  refl : ∀ frame, frames frame frame
  place : ∀ {frame frame'}, frames frame frame' →
    frame.scope = frame'.scope ∧ frame.depth = frame'.depth ∧ frame.maxDepth = frame'.maxDepth
  paths : ∀ {frame frame'}, frames frame frame' → frame.bindings.paths = frame'.bindings.paths
  reads : ∀ {frame frame' e e'}, frames frame frame' → Seen exact Expr.unplaced e e' →
    frame.reads? e = frame'.reads? e'
  markConstant : ∀ {frame frame'} path, frames frame frame' →
    frames (frame.markConstant path) (frame'.markConstant path)
  within : ∀ {frame frame'} scope, frames frame frame' →
    frames (frame.within scope) (frame'.within scope)
  deeper : ∀ {frame frame'}, frames frame frame' → Answers frames frame.deeper frame'.deeper
  mergeUnder : ∀ {frame frame' inner inner'} top, frames frame frame' → frames inner inner' →
    frames (frame.mergeUnder inner top) (frame'.mergeUnder inner' top)
  addLibrary : ∀ {frame frame' library library'}, frames frame frame' → frames library library' →
    frames (Evaluation.addLibrary frame library) (Evaluation.addLibrary frame' library')

/-- Which frames are seen as which, and what may be asked of them. -/
structure Sight where
  /-- Whether the places in trees are seen. -/
  exact : Prop
  /-- Whether frames are seen as a whole, or just where some paths lead. -/
  whole : Prop
  /-- The paths that may be looked up. -/
  names : Path → Prop
  /-- What may be bound to such a path. -/
  stores : Bound → Prop
  /-- The second frame is seen as the first. -/
  frames : Frame → Frame → Prop
  all : whole → SeenWhole exact frames
  names_whole : whole → ∀ path, names path
  stores_whole : whole → ∀ bound, stores bound
  stores_value : ∀ value loc, stores (.ofValue value loc)
  lookup : ∀ {frame frame' path}, frames frame frame' → names path →
    Option.Rel (fun bound bound' => stores bound ∧ Seen exact Bound.unplaced bound bound')
      (frame.lookup path) (frame'.lookup path)
  isConstant : ∀ {frame frame' path}, frames frame frame' → names path →
    frame.isConstant path = frame'.isConstant path
  put : ∀ {frame frame' bound bound'} path, frames frame frame' → stores bound →
    Seen exact Bound.unplaced bound bound' → frames (frame.put path bound) (frame'.put path bound')
  bind : ∀ {frame frame' bound bound'} path, frames frame frame' → stores bound →
    Seen exact Bound.unplaced bound bound' →
      frames (frame.bind path bound) (frame'.bind path bound')
  mergeExisting : ∀ {frame frame' inner inner'}, frames frame frame' → frames inner inner' →
    frames (frame.mergeExisting inner) (frame'.mergeExisting inner')

namespace Sight
variable {sight : Sight} {frame frame' : Frame} {path : Path} {bound bound' : Bound}

/-- The second binding is seen as the first, and such things may be bound. -/
abbrev Bounds (sight : Sight) (bound bound' : Bound) : Prop :=
  sight.stores bound ∧ Seen sight.exact Bound.unplaced bound bound'

theorem has (seen : sight.frames frame frame') (named : sight.names path) :
    frame.has path = frame'.has path := by
  have bounds := sight.lookup seen named
  unfold Frame.has
  revert bounds
  generalize frame.lookup path = held
  generalize frame'.lookup path = held'
  rintro (_ | _) <;> rfl

theorem get (seen : sight.frames frame frame') (named : sight.names path) :
    Answers sight.Bounds (frame.get path) (frame'.get path) := by
  have bounds := sight.lookup seen named
  unfold Frame.get
  revert bounds
  generalize frame.lookup path = held
  generalize frame'.lookup path = held'
  rintro (⟨holds⟩ | _)
  · exact .ok holds
  · exact .error _

theorem requireUnbound (seen : sight.frames frame frame') (named : sight.names path) :
    frame.requireUnbound path = frame'.requireUnbound path := by
  rw [Frame.requireUnbound, Frame.requireUnbound, has seen named]

theorem requireAssignable (seen : sight.frames frame frame') (named : sight.names path) :
    frame.requireAssignable path = frame'.requireAssignable path := by
  rw [Frame.requireAssignable, Frame.requireAssignable, has seen named,
    sight.isConstant seen named]

theorem declare (whole : sight.whole) (constant : Bool) (seen : sight.frames frame frame')
    (bounds : sight.Bounds bound bound') :
    Answers sight.frames (frame.declare path bound constant)
      (frame'.declare path bound' constant) := by
  have puts := sight.put path seen bounds.1 bounds.2
  unfold Frame.declare
  rw [requireUnbound seen (sight.names_whole whole path)]
  cases frame'.requireUnbound path with
  | error fault => exact .error fault
  | ok =>
    cases constant with
    | false => exact .ok puts
    | true => exact .ok ((sight.all whole).markConstant path puts)

theorem assign (seen : sight.frames frame frame') (named : sight.names path)
    (bounds : sight.Bounds bound bound') :
    Answers sight.frames (frame.assign path bound) (frame'.assign path bound') := by
  unfold Frame.assign
  rw [requireAssignable seen named]
  cases frame'.requireAssignable path with
  | error fault => exact .error fault
  | ok => exact .ok (sight.put path seen bounds.1 bounds.2)

theorem qualify (whole : sight.whole) (seen : sight.frames frame frame') :
    frame.qualify = frame'.qualify := by
  funext path
  rw [Frame.qualify, Frame.qualify, ((sight.all whole).place seen).1]

private theorem bindAll (whole : sight.whole) {bounds bounds' : List Bound} (paths : List Path)
    (seen : sight.frames frame frame')
    (args : Seen sight.exact (List.map Bound.unplaced) bounds bounds') :
    sight.frames (frame.bindAll paths bounds) (frame'.bindAll paths bounds') := by
  induction paths generalizing frame frame' bounds bounds' with
  | nil => exact seen
  | cons path paths ih =>
    cases bounds with
    | nil =>
      rw [args.eq_nil]
      exact seen
    | cons bound bounds =>
      obtain ⟨bound', bounds', rfl, first, rest⟩ := args.eq_cons
      exact ih (sight.bind path seen (sight.stores_whole whole bound) first) rest

/-- The frames that a proc's body works in are seen as the frames of the callers
are. -/
theorem callee (whole : sight.whole) {proc proc' : Proc} {args args' : List Bound}
    (seen : sight.frames frame frame') (procs : Seen sight.exact Proc.unplaced proc proc')
    (bounds : Seen sight.exact (List.map Bound.unplaced) args args') (path : Path) :
    sight.frames (Evaluation.calleeFrame frame proc path args)
      (Evaluation.calleeFrame frame' proc' path args') := by
  have params : Evaluation.paramPaths proc = Evaluation.paramPaths proc' :=
    Proc.Alike.paramPaths procs.alike
  unfold Evaluation.calleeFrame
  rw [params]
  exact bindAll whole _ ((sight.all whole).within path seen) bounds

/-- Everything is seen as itself alone. -/
def plain : Sight where
  exact := True
  whole := True
  names _ := True
  stores _ := True
  frames := Eq
  all _ := {
    refl := fun _ => rfl
    place := fun same => by rw [same]; exact ⟨rfl, rfl, rfl⟩
    paths := fun same => by rw [same]
    reads := fun same seen => by rw [same, seen.same trivial]
    markConstant := fun _ same => by rw [same]
    within := fun _ same => by rw [same]
    deeper := fun same => .of_eq (fun _ => rfl) (by rw [same])
    mergeUnder := fun _ same inners => by rw [same, inners]
    addLibrary := fun same libraries => by rw [same, libraries] }
  names_whole _ _ := trivial
  stores_whole _ _ := trivial
  stores_value _ _ := trivial
  lookup := by
    rintro frame _ path rfl _
    cases frame.lookup path with
    | none => exact .none
    | some bound => exact .some ⟨trivial, .refl bound⟩
  isConstant same _ := by rw [same]
  put path same _ bounds := by rw [same, bounds.same trivial]
  bind path same _ bounds := by rw [same, bounds.same trivial]
  mergeExisting same inners := by rw [same, inners]

end Sight

end BasilLang
