import BasilLang.Frame.Reads
import BasilLang.Proofs.Settling
import Mathlib.Logic.Relation

/-! What reading a name leads to. An unresolved binding is read by reading the
paths it names, so bindings lead from path to path. A frame is tidy when that
never leads to a call, to a path that is not bound, or back to where it
began; it stays tidy while its bindings settle, and when parameters are bound
to arguments that lead to none of them. -/
namespace BasilLang

/-- Whether an expression holds no call and no proc. -/
def Expr.isPlain : Expr → Bool
  | .literal _ _ => true
  | .identifier _ => true
  | .group inner _ => inner.isPlain
  | .unary _ _ operand => operand.isPlain
  | .binary left _ _ right => left.isPlain && right.isPlain
  | .call _ _ _ => false
  | .proc _ => false

/-- The paths that an expression names outside of calls and procs. -/
def Expr.mentions : Expr → List Path
  | .literal _ _ => []
  | .identifier name => [name.path]
  | .group inner _ => inner.mentions
  | .unary _ _ operand => operand.mentions
  | .binary left _ _ right => left.mentions ++ right.mentions
  | .call _ _ _ => []
  | .proc _ => []

/-- The names of an expression are known if it is plain. -/
theorem Expr.names?_eq (e : Expr) : e.names? = if e.isPlain then some e.mentions else none := by
  induction e using Expr.names?.induct with
  | case1 | case2 | case6 | case7 => rfl
  | case3 inner _ ih => exact ih
  | case4 _ _ operand ih => exact ih
  | case5 left _ _ right ihLeft ihRight =>
    rw [names?, ihLeft, ihRight, isPlain, mentions]
    cases left.isPlain <;> cases right.isPlain <;> rfl

theorem Bound.eq_of_unresolved {bound : Bound} {e : Expr}
    (unresolved : bound.unresolved? = some e) : bound = .expr e := by
  unfold Bound.unresolved? at unresolved
  split at unresolved
  · cases unresolved
  · cases unresolved
  · cases unresolved
  · cases unresolved
    rfl

namespace Frame

/-- Whether a path is bound to an unresolved expression that names another. -/
def LeadsTo (frame : Frame) (path next : Path) : Prop :=
  ∃ bound e, frame.lookup path = some bound ∧ bound.unresolved? = some e ∧ next ∈ e.mentions

/-- Whether reading an expression leads to a path. -/
def Reaches (frame : Frame) (e : Expr) (path : Path) : Prop :=
  ∃ first ∈ e.mentions, Relation.ReflTransGen frame.LeadsTo first path

/-- Reading a name never leads to a call, to a path that is not bound, or back
to the name. -/
structure Tidy (frame : Frame) : Prop where
  /-- Unresolved bindings hold no call and no proc. -/
  plain : ∀ path bound e, frame.lookup path = some bound → bound.unresolved? = some e →
    e.isPlain = true
  /-- They name bound paths only. -/
  known : ∀ path next, frame.LeadsTo path next → frame.has next = true
  /-- They do not lead from a path to itself. -/
  acyclic : ∀ path, ¬ Relation.TransGen frame.LeadsTo path path

/-- Whether a parameter may be bound to this: it is resolved, or it leads to
bound paths only, none of which is a parameter. -/
def Apart (frame : Frame) (params : List Path) (bound : Bound) : Prop :=
  ∀ e, bound.unresolved? = some e → e.isPlain = true ∧
    ∀ path, frame.Reaches e path → frame.has path = true ∧ path ∉ params

section Closure
variable {frame : Frame}

/-- Whether following the path is possible and stays inside the list. -/
private def Enclosed (frame : Frame) (paths : List Path) (path : Path) : Prop :=
  ∃ names, frame.namesBehind? path = some names ∧ ∀ name ∈ names, name ∈ paths

/-- Only what is bound has names behind it. -/
theorem has_of_namesBehind {path : Path} {names : List Path}
    (behind : frame.namesBehind? path = some names) : frame.has path = true := by
  unfold namesBehind? at behind
  cases found : frame.lookup path with
  | none => simp [found] at behind
  | some bound => simp [has, found]

private theorem Enclosed.mono {paths more : List Path} {path : Path}
    (enclosed : Enclosed frame paths path) (within : ∀ name ∈ paths, name ∈ more) :
    Enclosed frame more path := by
  obtain ⟨names, behind, inside⟩ := enclosed
  exact ⟨names, behind, fun name member => within name (inside name member)⟩

private theorem enclosed_of_mapM {frontier : List Path} {behind : List (List Path)}
    (followed : frontier.mapM frame.namesBehind? = some behind) :
    ∀ path ∈ frontier, Enclosed frame behind.flatten path := by
  induction frontier generalizing behind with
  | nil => simp
  | cons first frontier ih =>
    rw [List.mapM_cons] at followed
    obtain ⟨names, here, followed⟩ := Option.bind_eq_some_iff.mp followed
    obtain ⟨rest, later, made⟩ := Option.bind_eq_some_iff.mp followed
    cases made
    rw [List.flatten_cons]
    intro path member
    rcases List.mem_cons.mp member with rfl | member
    · exact ⟨names, here, fun name inside => List.mem_append_left _ inside⟩
    · exact (ih later path member).mono fun name inside => List.mem_append_right _ inside

private theorem follow_enclosed {rounds : Nat} {seen frontier paths : List Path}
    (sofar : ∀ path ∈ seen, Enclosed frame (frontier ++ seen) path)
    (found : frame.follow rounds seen frontier = some paths) :
    (∀ path ∈ frontier ++ seen, path ∈ paths) ∧ ∀ path ∈ paths, Enclosed frame paths path := by
  induction rounds generalizing seen frontier with
  | zero =>
    cases frontier with
    | nil =>
      cases found
      exact ⟨fun path member => member, sofar⟩
    | cons => cases found
  | succ rounds ih =>
    cases frontier with
    | nil =>
      cases found
      exact ⟨fun path member => member, sofar⟩
    | cons first others =>
      obtain ⟨behind, followed, found⟩ := Option.bind_eq_some_iff.mp found
      -- The next frontier is what is behind this one and has not been reached.
      have reached : ∀ path ∈ first :: others ++ seen, Enclosed frame
          ((behind.flatten.filter (!(first :: others ++ seen).contains ·)).eraseDups ++
            (first :: others ++ seen)) path := by
        intro path member
        rcases List.mem_append.mp member with here | before
        · refine (enclosed_of_mapM followed path here).mono fun name inside => ?_
          by_cases old : name ∈ first :: others ++ seen
          · exact List.mem_append_right _ old
          · refine List.mem_append_left _ (List.mem_eraseDups.mpr ?_)
            exact List.mem_filter.mpr ⟨inside, by simpa using old⟩
        · exact (sofar path before).mono fun name inside => List.mem_append_right _ inside
      obtain ⟨kept, enclosed⟩ := ih reached found
      exact ⟨fun path member => kept path (List.mem_append_right _ member), enclosed⟩

/-- The paths that an expression reads are among those found, and each of them
can be followed. -/
theorem reads?_followed {e : Expr} {paths : List Path} (found : frame.reads? e = some paths) :
    e.isPlain = true ∧ ∀ path, frame.Reaches e path →
      (∃ names, frame.namesBehind? path = some names) ∧ path ∈ paths := by
  obtain ⟨names, named, found⟩ := Option.bind_eq_some_iff.mp found
  rw [Expr.names?_eq] at named
  split at named
  · next plain =>
    cases named
    obtain ⟨kept, enclosed⟩ := follow_enclosed (by simp) found
    refine ⟨plain, fun path reached => ?_⟩
    obtain ⟨first, mentioned, leads⟩ := reached
    have member : path ∈ paths := by
      induction leads with
      | refl => exact kept first (by simpa using mentioned)
      | tail _ step inside =>
        obtain ⟨bound, e', held, unresolved, next⟩ := step
        obtain ⟨names, behind, within⟩ := enclosed _ inside
        simp only [namesBehind?, held, Readable.names?, Bound.names?, unresolved, Expr.names?_eq]
          at behind
        split at behind
        · cases behind
          exact within _ next
        · cases behind
    obtain ⟨names, behind, -⟩ := enclosed path member
    exact ⟨⟨names, behind⟩, member⟩
  · cases named

/-- The paths that an expression reads are among those found, and all of them
are bound. -/
theorem reads?_sound {e : Expr} {paths : List Path} (found : frame.reads? e = some paths) :
    e.isPlain = true ∧ ∀ path, frame.Reaches e path → frame.has path = true ∧ path ∈ paths := by
  obtain ⟨plain, followed⟩ := reads?_followed found
  refine ⟨plain, fun path reached => ?_⟩
  obtain ⟨⟨names, behind⟩, member⟩ := followed path reached
  exact ⟨has_of_namesBehind behind, member⟩

/-- An expression whose paths are known and are no parameters may be bound to
one as it stands. -/
theorem apart_of_reads {e : Expr} {params paths : List Path} (reads : frame.reads? e = some paths)
    (beside : ¬ paths.any params.contains = true) : frame.Apart params (.expr e) := by
  intro e' unresolved
  obtain ⟨plain, reached⟩ := reads?_sound reads
  cases Bound.eq_of_unresolved unresolved
  refine ⟨plain, fun path leads => ?_⟩
  obtain ⟨held, member⟩ := reached path leads
  exact ⟨held, fun param => beside
    (List.any_eq_true.mpr ⟨path, member, List.contains_iff_mem.mpr param⟩)⟩

end Closure

section Settling
variable {before after : Frame}

private theorem LeadsTo.of_settles (settles : before.Settles after) {path next : Path}
    (leads : after.LeadsTo path next) : before.LeadsTo path next := by
  obtain ⟨bound, e, held, unresolved, mentioned⟩ := leads
  rcases settles.settled path bound held with resolved | held
  · rw [resolved] at unresolved
    cases unresolved
  · exact ⟨bound, e, held, unresolved, mentioned⟩

private theorem Reaches.of_settles (settles : before.Settles after) {e : Expr} {path : Path}
    (reaches : after.Reaches e path) : before.Reaches e path := by
  obtain ⟨first, mentioned, leads⟩ := reaches
  exact ⟨first, mentioned, .mono (fun _ _ => LeadsTo.of_settles settles) _ _ leads⟩

/-- An argument stays apart from the parameters while the frame settles. -/
theorem Apart.settles {params : List Path} {bound : Bound} (apart : before.Apart params bound)
    (settles : before.Settles after) : after.Apart params bound := by
  intro e unresolved
  obtain ⟨plain, beside⟩ := apart e unresolved
  refine ⟨plain, fun path reaches => ?_⟩
  obtain ⟨held, apart⟩ := beside path (reaches.of_settles settles)
  exact ⟨settles.kept path held, apart⟩

/-- A tidy frame stays tidy while it settles. -/
theorem Tidy.settles (tidy : before.Tidy) (settles : before.Settles after) : after.Tidy where
  plain path bound e held unresolved := by
    rcases settles.settled path bound held with resolved | held
    · rw [resolved] at unresolved
      cases unresolved
    · exact tidy.plain path bound e held unresolved
  known path next leads :=
    settles.kept next (tidy.known path next (leads.of_settles settles))
  acyclic path cycle :=
    tidy.acyclic path (.mono (fun _ _ => LeadsTo.of_settles settles) _ _ cycle)

end Settling

/-- A frame with nothing unresolved is tidy. -/
theorem tidy_of_resolved {frame : Frame}
    (resolved : ∀ path bound, frame.lookup path = some bound → bound.unresolved? = none) :
    frame.Tidy := by
  have nowhere : ∀ path next, ¬ frame.LeadsTo path next := by
    intro path next leads
    obtain ⟨bound, e, held, unresolved, -⟩ := leads
    rw [resolved path bound held] at unresolved
    cases unresolved
  refine ⟨fun path bound e held unresolved => ?_, fun path next leads => ?_, fun path cycle => ?_⟩
  · rw [resolved path bound held] at unresolved
    cases unresolved
  · exact absurd leads (nowhere path next)
  · obtain ⟨next, leads, -⟩ := Relation.TransGen.head'_iff.mp cycle
    exact nowhere path next leads

section Parameters
variable {frame : Frame} {params : List Path} {args : List Bound}

/-- Whether a path and all that it leads to are no parameters. -/
private def Clear (frame : Frame) (params : List Path) (path : Path) : Prop :=
  ∀ next, Relation.ReflTransGen frame.LeadsTo path next → next ∉ params

private theorem Clear.leadsTo {path next : Path} (clear : Clear frame params path)
    (leads : (frame.bindAll params args).LeadsTo path next) : frame.LeadsTo path next := by
  obtain ⟨bound, e, held, rest⟩ := leads
  rw [lookup_bindAll_of_not_mem frame (clear path .refl)] at held
  exact ⟨bound, e, held, rest⟩

private theorem Clear.transGen {path next : Path} (clear : Clear frame params path)
    (leads : Relation.TransGen (frame.bindAll params args).LeadsTo path next) :
    Relation.TransGen frame.LeadsTo path next := by
  have further : ∀ {middle}, Relation.ReflTransGen frame.LeadsTo path middle →
      Clear frame params middle := fun leads next more => clear next (leads.trans more)
  induction leads with
  | single step => exact .single (clear.leadsTo step)
  | tail _ step sofar => exact sofar.tail ((further sofar.to_reflTransGen).leadsTo step)

private theorem old_way_or_clear (apart : ∀ bound ∈ args, frame.Apart params bound)
    {path next : Path}
    (leads : Relation.TransGen (frame.bindAll params args).LeadsTo path next) :
    Relation.TransGen frame.LeadsTo path next ∨ ∃ clear, Clear frame params clear ∧
      Relation.TransGen (frame.bindAll params args).LeadsTo path clear ∧
      Relation.ReflTransGen (frame.bindAll params args).LeadsTo clear next := by
  have one : ∀ {a b}, (frame.bindAll params args).LeadsTo a b →
      frame.LeadsTo a b ∨ Clear frame params b := by
    rintro a b ⟨bound, e, held, unresolved, mentioned⟩
    rcases mem_of_lookup_bindAll frame held with member | held
    · exact .inr fun next leads =>
        (((apart bound member) e unresolved).2 next ⟨b, mentioned, leads⟩).2
    · exact .inl ⟨bound, e, held, unresolved, mentioned⟩
  induction leads with
  | single step =>
    rcases one step with old | clear
    · exact .inl (.single old)
    · exact .inr ⟨_, clear, .single step, .refl⟩
  | tail way step sofar =>
    rcases one step with old | clear
    · rcases sofar with earlier | ⟨middle, clear, first, rest⟩
      · exact .inl (earlier.tail old)
      · exact .inr ⟨middle, clear, first, rest.tail step⟩
    · exact .inr ⟨_, clear, way.tail step, .refl⟩

/-- Binding parameters to arguments that lead to none of them keeps a frame
tidy, whatever was bound to the parameters before. -/
theorem Tidy.bindAll (tidy : frame.Tidy) (count : params.length = args.length)
    (apart : ∀ bound ∈ args, frame.Apart params bound) : (frame.bindAll params args).Tidy where
  plain path bound e held unresolved := by
    rcases mem_of_lookup_bindAll frame held with member | held
    · exact (apart bound member e unresolved).1
    · exact tidy.plain path bound e held unresolved
  known path next leads := by
    refine has_bindAll frame count (.inr ?_)
    obtain ⟨bound, e, held, unresolved, mentioned⟩ := leads
    rcases mem_of_lookup_bindAll frame held with member | held
    · exact ((apart bound member e unresolved).2 next ⟨next, mentioned, .refl⟩).1
    · exact tidy.known path next ⟨bound, e, held, unresolved, mentioned⟩
  acyclic path cycle := by
    rcases old_way_or_clear apart cycle with old | ⟨middle, clear, there, back⟩
    · exact tidy.acyclic path old
    · exact tidy.acyclic middle (clear.transGen (.trans_right back there))

end Parameters

end Frame

end BasilLang
