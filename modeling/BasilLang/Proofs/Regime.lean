import BasilLang.Proofs.Discipline
import BasilLang.Syntax.Part

/-! What evaluation can do to a frame, said once. A frame changes through
declarations, assignments and imports, through what copies bring back, and
through the settling of parameters; an error does not undo any of it. A regime
says which nodes, loop variables, calls and stops are to be expected, and a
frame evolves under it by these changes alone. What every evolution keeps is
then kept by evaluation, however it ends. -/
namespace BasilLang

/-- What is bound, as a part of a tree. -/
def Bound.part : Bound → Part
  | .expr e => .expr e
  | .declared name proc => .stmt (.procDecl name proc)

/-- Whether the operator of a node can be undefined: there is no remainder of an
infinity, and no `not` of what is no finite number. -/
def Stmt.isPartial : Stmt → Bool
  | .expr (.unary .not _ _) | .expr (.binary _ .modulo _ _) => true
  | _ => false

/-- What evaluation keeps to. -/
structure Regime where
  /-- The nodes that it comes upon, in the program, in a frame or in a
  library. -/
  node : Part → Prop
  /-- The variables of its counting loops. -/
  loops : Path → Prop
  /-- The procs that it calls from a frame. -/
  calls : Frame → Proc → Prop
  /-- The libraries that it imports. -/
  imports : String → Prop := fun _ => True
  /-- The reasons for which it has no value. -/
  stops : Stop → Prop
  /-- Whether two runs may part where one of them is broken off. -/
  parting : Prop
  /-- It comes upon all that stands inside a node. -/
  inside : ∀ {part child}, node part → child ∈ part.children → node child
  /-- Any value may be stored at the place of a node. -/
  resolved : ∀ {s} value, node (.ofStmt s) → node (.expr (.literal value s.loc))
  /-- It comes upon the libraries that it imports. -/
  libraries : ∀ {name source room program}, imports name → Library.source? name = some source →
    Program.parseWithin room source (Library.file name) = .ok program → node (.program program)
  /-- Whether a call is to be expected depends on the keys of the frame. -/
  calls_sameKeys : ∀ {frame after proc}, frame.SameKeys after → calls frame proc → calls after proc
  returns : ∀ value, stops (.returned value)
  outOfRoom : stops .outOfRoom
  outOfPatience : stops .outOfPatience
  /-- What a rule finds wrong has no place yet. -/
  fails : ∀ fault, fault.isOrdinary = true → stops (.failed ⟨.eval fault, none⟩)
  /-- A node supplies its place. -/
  locates : ∀ {failure s}, stops (.failed failure) → node (.ofStmt s) →
    stops (.failed (failure.locate s.loc))
  /-- A library may be unreadable. -/
  unreadable : ∀ {name source room failure}, Library.source? name = some source →
    Program.parseWithin room source (Library.file name) = .error failure → stops (.failed failure)
  /-- Only some operators can be undefined. -/
  undefined : ∀ {s} cause, node (.ofStmt s) → s.isPartial = true → stops (.undefined cause)

/-- A regime that watches over loops and calls alone. -/
def Regime.unguarded (loops : Path → Prop) (calls : Frame → Proc → Prop)
    (stable : ∀ {frame after proc}, frame.SameKeys after → calls frame proc → calls after proc) :
    Regime where
  node _ := True
  loops := loops
  calls := calls
  stops _ := True
  parting := True
  inside _ _ := trivial
  resolved _ _ := trivial
  libraries _ _ _ := trivial
  calls_sameKeys := stable
  returns _ := trivial
  outOfRoom := trivial
  outOfPatience := trivial
  fails _ _ := trivial
  locates _ _ := trivial
  unreadable _ _ := trivial
  undefined _ _ _ := trivial

namespace Frame

/-- Everything that is bound is a node of the regime. -/
def Under (regime : Regime) (frame : Frame) : Prop :=
  frame.Binds fun _ bound => regime.node bound.part

/-- A frame without bindings binds no other nodes. -/
theorem under_of_fresh {regime : Regime} {frame : Frame} (fresh : frame.bindings = []) :
    frame.Under regime := by
  intro path bound found
  rw [lookup, fresh] at found
  cases found

/-- How a frame changes under a regime, step by step. -/
inductive Evolves (regime : Regime) : Frame → Frame → Prop where
  | refl (frame : Frame) : Evolves regime frame frame
  | trans {before middle after : Frame} (first : Evolves regime before middle)
      (second : Evolves regime middle after) : Evolves regime before after
  | declare {frame after : Frame} {path : Path} {bound : Bound} {constant : Bool}
      (resolved : bound.unresolved? = none) (node : regime.node bound.part)
      (declared : frame.declare path bound constant = .ok after) : Evolves regime frame after
  | assign {frame after : Frame} {path : Path} {bound : Bound}
      (resolved : bound.unresolved? = none) (node : regime.node bound.part)
      (assigned : frame.assign path bound = .ok after) : Evolves regime frame after
  /-- What a copy brings back. -/
  | copy {frame inner : Frame} (ran : Evolves regime frame inner) :
      Evolves regime frame (frame.mergeExisting inner)
  /-- What a round of a counting loop brings back. -/
  | round {frame inner : Frame} {path : Path} {value : Value} {loc : Loc}
      (counts : regime.loops path) (node : regime.node (.expr (.literal value loc)))
      (ran : Evolves regime (frame.bind path (.ofValue value loc)) inner) :
      Evolves regime frame (frame.mergeExisting inner)
  /-- What a call brings back. -/
  | call {frame copy inner : Frame} {proc : Proc} {path : Path} {args : List Bound}
      (called : regime.calls frame proc) (deeper : frame.deeper = .ok copy)
      (nodes : ∀ bound ∈ args, regime.node bound.part)
      (ran : Evolves regime (Evaluation.calleeFrame copy proc path args) inner) :
      Evolves regime frame (frame.mergeExisting inner)
  /-- A parameter is resolved at the end of a call. -/
  | settle {frame caller : Frame} {proc : Proc} {path : Path} {value : Value} {loc : Loc}
      (called : regime.calls caller proc) (param : path ∈ Evaluation.paramPaths proc)
      (has : caller.has path = true) (node : regime.node (.expr (.literal value loc))) :
      Evolves regime frame (frame.bind path (.ofValue value loc))
  /-- What a namespace brings back. -/
  | inNamespace {frame inner : Frame} {scope : Path}
      (ran : Evolves regime (frame.within scope) inner) :
      Evolves regime frame (frame.mergeUnder inner scope)
  /-- A library, once it has run in a frame of its own. -/
  | addLibrary {frame own library : Frame} (fresh : own.bindings = [])
      (ran : Evolves regime own library)
      (resolved : library.Binds fun _ bound => bound.unresolved? = none)
      (free : ∀ entry ∈ library.bindings, frame.has (frame.qualify entry.1) = false) :
      Evolves regime frame (Evaluation.addLibrary frame library)

section Evolution
variable {regime : Regime} {frame before after : Frame} {path : Path} {bound : Bound}

/-- A declaration binds a path that was free. -/
theorem eq_of_declare {constant : Bool} (declared : frame.declare path bound constant = .ok after) :
    frame.has path = false ∧
      after =
        if constant then (frame.put path bound).markConstant path else frame.put path bound := by
  unfold declare requireUnbound at declared
  by_cases held : frame.has path = true
  · rw [if_pos held] at declared
    cases declared
  · rw [if_neg held] at declared
    cases declared
    exact ⟨Bool.not_eq_true _ ▸ held, rfl⟩

/-- An assignment binds a path that is no constant. -/
theorem eq_of_assign (assigned : frame.assign path bound = .ok after) :
    frame.isConstant path = false ∧ after = frame.put path bound := by
  unfold assign requireAssignable at assigned
  split at assigned
  · cases assigned
  · by_cases constant : frame.isConstant path = true
    · rw [if_pos constant] at assigned
      cases assigned
    · rw [if_neg constant] at assigned
      cases assigned
      exact ⟨Bool.not_eq_true _ ▸ constant, rfl⟩

/-- A frame that binds only nodes of the regime comes to bind no others. -/
theorem Evolves.under (evolves : before.Evolves regime after) (under : before.Under regime) :
    after.Under regime := by
  induction evolves with
  | refl => exact under
  | trans _ _ first second => exact second (first under)
  | declare _ node declared =>
    obtain ⟨-, rfl⟩ := eq_of_declare declared
    split
    · exact Binds.put under node
    · exact Binds.put under node
  | assign _ node assigned =>
    obtain ⟨-, rfl⟩ := eq_of_assign assigned
    exact Binds.put under node
  | copy _ inner => exact Binds.mergeExisting under (inner under)
  | round _ node _ inner => exact Binds.mergeExisting under (inner (Binds.put under node))
  | call _ deeper nodes _ inner =>
    refine Binds.mergeExisting under (inner (Binds.bindAll ?_ fun _ _ => nodes))
    intro path bound found
    rw [lookup_within, lookup_deeper deeper] at found
    exact under path bound found
  | settle _ _ _ node => exact Binds.put under node
  | inNamespace _ inner => exact Binds.mergeUnder under (inner under) _
  | addLibrary fresh _ _ _ inner =>
    exact Binds.addLibrary under (inner (under_of_fresh fresh))

private theorem has_foldl {step : Frame → Path × Bound → Frame}
    (keeps : ∀ frame entry, frame.has path = true → (step frame entry).has path = true)
    (entries : Bindings) (held : frame.has path = true) :
    (entries.foldl step frame).has path = true := by
  induction entries generalizing frame with
  | nil => exact held
  | cons entry rest ih => exact ih (keeps frame entry held)

/-- What is bound stays bound. -/
theorem Evolves.has (evolves : before.Evolves regime after) (held : before.has path = true) :
    after.has path = true := by
  have put : ∀ (frame : Frame) other bound, frame.has path = true →
      (frame.put other bound).has path = true := by
    intro frame other bound held
    rw [has_put, held, Bool.or_true]
  have merged : ∀ frame inner : Frame, frame.has path = true →
      (frame.mergeExisting inner).has path = true := by
    intro frame inner held
    simpa [Frame.has] using held
  induction evolves with
  | refl => exact held
  | trans _ _ first second => exact second (first held)
  | declare _ _ declared =>
    obtain ⟨-, rfl⟩ := eq_of_declare declared
    split
    · exact put _ _ _ held
    · exact put _ _ _ held
  | assign _ _ assigned =>
    obtain ⟨-, rfl⟩ := eq_of_assign assigned
    exact put _ _ _ held
  | copy | round | call => exact merged _ _ held
  | settle => exact put _ _ _ held
  | inNamespace =>
    refine has_foldl (fun frame entry held => ?_) _ held
    dsimp only
    split
    · split
      · exact put _ _ _ held
      · exact put _ _ _ held
    · exact held
  | addLibrary =>
    refine has_foldl (fun frame entry held => ?_) _ held
    dsimp only
    split
    · exact put _ _ _ held
    · exact put _ _ _ held

/-- Binding parameters does not change the depth. -/
theorem bindAll_depth (frame : Frame) (paths : List Path) (bounds : List Bound) :
    (frame.bindAll paths bounds).depth = frame.depth ∧
      (frame.bindAll paths bounds).maxDepth = frame.maxDepth :=
  List.foldlRecOn (motive := fun bound : Frame =>
    bound.depth = frame.depth ∧ bound.maxDepth = frame.maxDepth) (paths.zip bounds) _ ⟨rfl, rfl⟩
    fun _ sofar _ _ => sofar

/-- What a namespace brings back does not change the depth. -/
theorem mergeUnder_depth (frame inner : Frame) (top : Path) :
    (frame.mergeUnder inner top).depth = frame.depth ∧
      (frame.mergeUnder inner top).maxDepth = frame.maxDepth := by
  refine List.foldlRecOn (motive := fun merged : Frame =>
    merged.depth = frame.depth ∧ merged.maxDepth = frame.maxDepth)
    inner.bindings _ ⟨rfl, rfl⟩ fun merged sofar entry _ => ?_
  dsimp only
  split
  · split
    · exact sofar
    · exact sofar
  · exact sofar

/-- A library that is added does not change the depth. -/
theorem addLibrary_depth (frame library : Frame) :
    (Evaluation.addLibrary frame library).depth = frame.depth ∧
      (Evaluation.addLibrary frame library).maxDepth = frame.maxDepth := by
  refine List.foldlRecOn (motive := fun added : Frame =>
    added.depth = frame.depth ∧ added.maxDepth = frame.maxDepth)
    library.bindings _ ⟨rfl, rfl⟩ fun added sofar entry _ => ?_
  dsimp only
  split
  · exact sofar
  · exact sofar

/-- A frame stays as deep as it is, and so does its limit. -/
theorem Evolves.depth (evolves : before.Evolves regime after) :
    after.depth = before.depth ∧ after.maxDepth = before.maxDepth := by
  induction evolves with
  | refl | copy | round | call | settle => exact ⟨rfl, rfl⟩
  | trans _ _ first second => exact ⟨second.1.trans first.1, second.2.trans first.2⟩
  | declare _ _ declared =>
    obtain ⟨-, rfl⟩ := eq_of_declare declared
    split
    · exact ⟨rfl, rfl⟩
    · exact ⟨rfl, rfl⟩
  | assign _ _ assigned =>
    obtain ⟨-, rfl⟩ := eq_of_assign assigned
    exact ⟨rfl, rfl⟩
  | inNamespace => exact mergeUnder_depth _ _ _
  | addLibrary => exact addLibrary_depth _ _

end Evolution

end Frame

/-- The proc that a node calls in a frame. -/
def Stmt.callee? (frame : Frame) : Stmt → Option Proc
  | .expr (.call callee _ _) =>
    if callee.path.head? = some Evaluation.builtinScope then none
    else (frame.lookup callee.path).bind Bound.proc?
  | _ => none

/-- The variable of a counting loop. -/
def Stmt.counter? : Stmt → Option Path
  | .forRange name .. => some name.path
  | _ => none

/-- The library that a node imports. -/
def Stmt.imported? : Stmt → Option String
  | .importLibrary target _ => some target.text
  | _ => none

namespace Regime
variable (regime : Regime)

/-- What the regime asks of a node besides being expected: that it calls, counts
and imports as expected. -/
structure Allows (frame : Frame) (s : Stmt) : Prop where
  call : ∀ proc, s.callee? frame = some proc → regime.calls frame proc
  loop : ∀ path, s.counter? = some path → regime.loops path
  library : ∀ name, s.imported? = some name → regime.imports name

variable {regime} {part : Part} {frame : Frame}

/-- The statements of a body inside a node. -/
theorem body_nodes {body : List Stmt} (loc : Loc) (node : regime.node part)
    (member : .block body loc ∈ part.children) : ∀ s ∈ body, regime.node (.ofStmt s) :=
  fun _ inBody => regime.inside (regime.inside node member) (List.mem_map_of_mem inBody)

/-- The body of a proc that is bound. -/
theorem proc_nodes {bound : Bound} {proc : Proc} (node : regime.node bound.part)
    (found : bound.proc? = some proc) : ∀ s ∈ proc.body, regime.node (.ofStmt s) := by
  have member : .block proc.body proc.bodyLoc ∈ bound.part.children := by
    unfold Bound.proc? at found
    split at found
    · cases found
      simp [Bound.part, Part.children, Part.stmtChildren, Part.procChildren]
    · cases found
      simp [Bound.part, Part.children, Part.exprChildren, Part.procChildren]
    · cases found
  exact body_nodes proc.bodyLoc node member

/-- A proc that is named directly is a node. -/
theorem named_node {e : Expr} {bound : Bound} (under : frame.Under regime)
    (node : regime.node (.expr e)) (named : frame.procNamed? e = some bound) :
    regime.node bound.part := by
  fun_induction frame.procNamed? e with
  | case1 p =>
    cases named
    exact node
  | case2 inner loc ih => exact ih (regime.inside node (List.mem_singleton_self _)) named
  | case3 name held found isProc =>
    cases named
    exact under name.path bound found
  | case4 | case5 | case6 => cases named

end Regime

end BasilLang
