import BasilLang.Proofs.Binding

/-! A proc that names nothing but its parameters does the same wherever it is
called. Two frames agree on the parameters if they bind them to the same values;
nothing that such a body does can tell the two apart, so it writes the same, ends
the same way and leaves frames that agree again. What the frames hold beyond the
parameters, and the path by which the proc was called, does not matter. -/
namespace BasilLang

open Evaluation (builtinScope paramPaths calleeFrame)

mutual

/-- Whether an expression names only the given paths and calls only what is
built in. -/
def Expr.isLocal (paths : List Path) : Expr → Bool
  | .literal _ _ => true
  | .identifier name => paths.contains name.path
  | .group inner _ => inner.isLocal paths
  | .unary _ _ operand => operand.isLocal paths
  | .binary left _ _ right => left.isLocal paths && right.isLocal paths
  | .call callee args _ => callee.path.head? == some builtinScope && areLocal paths args
  | .proc _ => false

/-- Whether all of the expressions do. -/
def areLocal (paths : List Path) : List Expr → Bool
  | [] => true
  | e :: rest => e.isLocal paths && areLocal paths rest

end

mutual

/-- Whether a statement names and assigns to only the given paths, its own loop
variables apart, and declares nothing. -/
def Stmt.isLocal (paths : List Path) : Stmt → Bool
  | .expr e => e.isLocal paths
  | .set name value => paths.contains name.path && value.isLocal paths
  | .ifThen condition body _ _ => condition.isLocal paths && bodyIsLocal paths body
  | .forRange _ start stop body _ _ =>
    start.isLocal paths && stop.isLocal paths && bodyIsLocal paths body
  | .whileTrue condition body _ _ => condition.isLocal paths && bodyIsLocal paths body
  | .returning value _ => value.isLocal paths
  | .importRelative _ _ => true
  | .importLibrary .. | .inNamespace .. | .letDecl .. | .constDecl .. | .procDecl .. => false

/-- Whether all statements of a body do. -/
def bodyIsLocal (paths : List Path) : List Stmt → Bool
  | [] => true
  | s :: rest => s.isLocal paths && bodyIsLocal paths rest

end

/-- Whether a proc names nothing but its parameters. -/
def Proc.isLocal (proc : Proc) : Bool :=
  bodyIsLocal (paramPaths proc) proc.body

private theorem bodyIsLocal_iff {paths : List Path} {ss : List Stmt} :
    bodyIsLocal paths ss = true ↔ ∀ s ∈ ss, s.isLocal paths = true := by
  induction ss with
  | nil => simp [bodyIsLocal]
  | cons s ss ih => simp [bodyIsLocal, ih]

private theorem areLocal_iff {paths : List Path} {es : List Expr} :
    areLocal paths es = true ↔ ∀ e ∈ es, e.isLocal paths = true := by
  induction es with
  | nil => simp [areLocal]
  | cons e es ih => simp [areLocal, ih]

namespace Part
variable {paths : List Path}

/-- Whether a part names only the given paths. -/
def isLocal (paths : List Path) : Part → Bool
  | .program p => bodyIsLocal paths p.body
  | .stmt s => s.isLocal paths
  | .expr e => e.isLocal paths
  | .argList es _ => areLocal paths es
  | .block ss _ => bodyIsLocal paths ss
  | .paramList .. | .token .. => true

private theorem isLocal_ofStmt (s : Stmt) : (ofStmt s).isLocal paths = s.isLocal paths := by
  cases s <;> rfl

private theorem local_exprChildren {e : Expr} (isLocal : e.isLocal paths = true) :
    ∀ child ∈ exprChildren e, child.isLocal paths = true := by
  cases e with
  | literal | identifier => simp [exprChildren, Part.isLocal, ofName]
  | group | unary =>
    simp only [Expr.isLocal] at isLocal
    simpa [exprChildren, Part.isLocal] using isLocal
  | binary => simpa [exprChildren, Part.isLocal] using Bool.and_eq_true_iff.mp isLocal
  | call =>
    simpa [exprChildren, Part.isLocal, ofName] using (Bool.and_eq_true_iff.mp isLocal).2
  | proc => cases isLocal

private theorem local_stmtChildren {s : Stmt} (isLocal : s.isLocal paths = true) :
    ∀ child ∈ stmtChildren s, child.isLocal paths = true := by
  cases s with
  | expr e => exact local_exprChildren isLocal
  | importRelative => simp [stmtChildren, Part.isLocal]
  | set => simpa [stmtChildren, Part.isLocal, ofName] using (Bool.and_eq_true_iff.mp isLocal).2
  | returning =>
    simp only [Stmt.isLocal] at isLocal
    simpa [stmtChildren, Part.isLocal] using isLocal
  | ifThen | whileTrue =>
    simpa [stmtChildren, Part.isLocal] using Bool.and_eq_true_iff.mp isLocal
  | forRange =>
    obtain ⟨bounds, body⟩ := Bool.and_eq_true_iff.mp isLocal
    obtain ⟨first, last⟩ := Bool.and_eq_true_iff.mp bounds
    simpa [stmtChildren, Part.isLocal, ofName] using And.intro first ⟨last, body⟩
  | importLibrary | inNamespace | letDecl | constDecl | procDecl => cases isLocal

/-- What stands inside names no other paths. -/
theorem children_local {part : Part} (isLocal : part.isLocal paths = true) :
    ∀ child ∈ part.children, child.isLocal paths = true := by
  cases part with
  | stmt s => exact local_stmtChildren isLocal
  | expr e => exact local_exprChildren isLocal
  | program p => simpa [children, isLocal_ofStmt] using bodyIsLocal_iff.mp isLocal
  | block ss => simpa [children, isLocal_ofStmt] using bodyIsLocal_iff.mp isLocal
  | argList es => simpa [children, Part.isLocal] using areLocal_iff.mp isLocal
  | paramList | token => simp [children, Part.isLocal]

end Part

namespace Frame
variable {paths : List Path} {frame frame' inner inner' : Frame} {path : Path}

/-- The frames bind the paths to the same values, or not at all. -/
structure AgreesOn (paths : List Path) (frame frame' : Frame) : Prop where
  lookup : ∀ path ∈ paths, frame.lookup path = frame'.lookup path
  constant : ∀ path ∈ paths, frame.isConstant path = frame'.isConstant path
  resolved : ∀ path ∈ paths, ∀ bound, frame.lookup path = some bound →
    ∃ value loc, bound = .ofValue value loc

namespace AgreesOn

private theorem put (agrees : AgreesOn paths frame frame') (path : Path) (value : Value)
    (loc : Loc) :
    AgreesOn paths (frame.put path (.ofValue value loc))
      (frame'.put path (.ofValue value loc)) := by
  constructor
  · intro other member
    rw [lookup_put, lookup_put, agrees.lookup other member]
  · exact agrees.constant
  · intro other member bound found
    rw [lookup_put] at found
    split at found
    · cases found
      exact ⟨value, loc, rfl⟩
    · exact agrees.resolved other member bound found

private theorem bind (agrees : AgreesOn paths frame frame') (path : Path) (value : Value)
    (loc : Loc) :
    AgreesOn paths (frame.bind path (.ofValue value loc))
      (frame'.bind path (.ofValue value loc)) := by
  have put := agrees.put path value loc
  constructor
  · exact put.lookup
  · intro other member
    rw [isConstant_bind, isConstant_bind, agrees.constant other member]
  · exact put.resolved

private theorem mergeExisting (agrees : AgreesOn paths frame frame')
    (inners : AgreesOn paths inner inner') :
    AgreesOn paths (frame.mergeExisting inner) (frame'.mergeExisting inner') := by
  constructor
  · intro path member
    rw [lookup_mergeExisting, lookup_mergeExisting, agrees.lookup path member,
      inners.lookup path member]
  · exact agrees.constant
  · intro path member bound found
    rw [lookup_mergeExisting] at found
    obtain ⟨before, held, rfl⟩ := Option.map_eq_some_iff.mp found
    cases now : inner.lookup path with
    | none => exact agrees.resolved path member before held
    | some bound => exact inners.resolved path member bound now

end AgreesOn

end Frame

/-- Of a frame nothing is seen but what some paths are bound to, and these are
bound to values alone. -/
def Sight.onPaths (paths : List Path) : Sight where
  exact := True
  whole := False
  names path := path ∈ paths
  stores bound := ∃ value loc, bound = .ofValue value loc
  frames := Frame.AgreesOn paths
  all := False.elim
  names_whole := False.elim
  stores_whole := False.elim
  stores_value value loc := ⟨value, loc, rfl⟩
  lookup {frame _ path} agrees named := by
    rw [← agrees.lookup path named]
    cases held : frame.lookup path with
    | none => exact .none
    | some bound => exact .some ⟨agrees.resolved path named bound held, .refl bound⟩
  isConstant agrees named := agrees.constant _ named
  put path agrees stores bounds := by
    obtain ⟨value, loc, rfl⟩ := stores
    rw [← bounds.same trivial]
    exact agrees.put path value loc
  bind path agrees stores bounds := by
    obtain ⟨value, loc, rfl⟩ := stores
    rw [← bounds.same trivial]
    exact agrees.bind path value loc
  mergeExisting agrees inners := agrees.mergeExisting inners

namespace Locality
open Evaluation

/-- The regime of what names only the given paths. Nothing is imported. -/
def localTo (paths : List Path) : Regime where
  node part := part.isLocal paths = true
  loops _ := True
  calls _ _ := True
  imports _ := False
  stops _ := True
  parting := False
  inside isLocal member := Part.children_local isLocal _ member
  resolved _ _ := rfl
  libraries imported := imported.elim
  calls_sameKeys _ _ := trivial
  returns _ := trivial
  outOfRoom := trivial
  outOfPatience := trivial
  fails _ _ := trivial
  locates _ _ := trivial
  unreadable _ _ := trivial
  undefined _ _ _ := trivial

/-- Two runs of what names only the given paths. -/
def course (paths : List Path) : Course Bool :=
  .sharply (.onPaths paths) trivial (localTo paths) (fun consoles => consoles true = consoles false)
    (fun _ => False) @Course.one_console False.elim

section Nodes
variable {paths : List Path} {patience room : Nat} {s : Stmt}

private theorem course_sees (paths : List Path) : (course paths).Sees where
  named {s path} node named := by
    have isLocal : s.isLocal paths = true := Part.isLocal_ofStmt s ▸ node
    change path ∈ paths
    unfold Stmt.named? at named
    split at named
    · cases named
      simpa [Stmt.isLocal, Expr.isLocal] using isLocal
    · cases named
      simpa using (Bool.and_eq_true_iff.mp isLocal).1
    · cases named
  whole {s} node around := by
    have isLocal : s.isLocal paths = true := Part.isLocal_ofStmt s ▸ node
    unfold Stmt.looksAround at around
    split at around
    · obtain ⟨builtin, -⟩ := Bool.and_eq_true_iff.mp isLocal
      simp [beq_iff_eq.mp builtin] at around
    all_goals first | cases isLocal | cases around

private theorem local_admits (node : (localTo paths).node (.ofStmt s)) (frame : Frame) :
    (course paths).Admits (fun _ => True) frame s where
  call _ _ := trivial
  loop _ _ := trivial
  library name imported := by
    unfold Stmt.imported? at imported
    split at imported
    · cases node
    · cases imported
  undefined _ _ := trivial
  impatient _ := trivial
  refuses _ _ _ := trivial

/-- Both runs are of the same meaning. -/
private abbrev Unaware (paths : List Path) (inside : Meaning) : Prop :=
  (course paths).Walks (fun _ => True) (Frame.Under (localTo paths)) (Frame.Under (localTo paths))
    (fun s => (localTo paths).node (.ofStmt s)) (fun _ => inside) fun _ => inside

private theorem unaware_of_nodes
    (nodes : ∀ units s start, start.Under (localTo paths) → (localTo paths).node (.ofStmt s) →
      (course paths).Keeps (fun _ => True) s.manner start
        (fun _ => interpret patience room units s) Course.Same) :
    Unaware paths (interpreter patience room) := by
  have minds : (course paths).Minds (fun _ => True) (Frame.Under (localTo paths))
      (fun s => (localTo paths).node (.ofStmt s)) (fun _ => interpreter patience room) := by
    refine ⟨course_sees paths, ⟨fun _ => trivial, fun _ _ _ => trivial⟩,
      (course paths).lasts_under, id, ?_,
      fun units more {start} => Course.keeps_require (fun _ => rfl) trivial units more,
      fun units {name source start} imported => imported.elim⟩
    intro units s start ss under node seen
    obtain rfl : ss = fun _ => s := funext fun i => ((seen i).same trivial).symm
    exact nodes units s start under node
  exact ⟨minds, minds, (course paths).enters_under⟩

private theorem node_keeps (units : Nat) (s : Stmt) (start : Frame)
    (under : start.Under (localTo paths)) (node : (localTo paths).node (.ofStmt s)) :
    (course paths).Keeps (fun _ => True) s.manner start
      (fun _ => interpret patience room units s) Course.Same := by
  induction room generalizing units s start with
  | zero => exact Course.keeps_stopped trivial rfl
  | succ room ih =>
    cases units with
    | succ units => exact ih units s start under node
    | zero =>
      by_cases enough : Room.work ≤ room
      · have step := ((unaware_of_nodes ih).after s.units s.units).statement under node
          (local_admits node start) (Regime.inner_nodes under node) (fun _ => .refl s) patience
        rw [Binding.interpret_succ enough]
        simp only [Nesting.stmt_same] at step
        exact step.locatedAt s.loc (fun _ _ => id) fun _ _ => trivial
      · rw [interpret, if_pos (Nat.not_le.mp enough)]
        exact Course.keeps_stopped trivial rfl

private theorem unaware_interpreter (paths : List Path) (patience room : Nat) :
    Unaware paths (interpreter patience room) :=
  unaware_of_nodes node_keeps

private theorem settle_keeps {path : Path} (member : path ∈ paths) (inside : Meaning)
    (callers : Bool → Frame) (start : Frame) :
    (course paths).Keeps (fun _ => True) .work start
      (fun i => settle inside (callers i) path) (fun _ _ _ => True) := by
  have done : (course paths).Keeps (fun _ => True) .work start (fun _ => pure ())
      (fun _ _ _ => True) := @Course.keeps_pure _ _ _ _ _ _ _ () (fun _ => ()) trivial
  refine done.congr fun states there i => ?_
  -- A parameter that has its value is left alone, whatever the caller has.
  have resolved : ((states i).frame.lookup path >>= Bound.unresolved?) = none := by
    rw [← (there.frames i).lookup path member]
    cases found : start.lookup path with
    | none => rfl
    | some bound =>
      obtain ⟨value, loc, rfl⟩ := (there.frames i).resolved path member bound found
      rfl
  have current : Eval.frame (states i) = (.ok (states i).frame, states i) := rfl
  rw [settle, Eval.bind_of_ok current, resolved, ite_self]

private theorem runBody_keeps {proc : Proc} (isLocal : proc.isLocal = true)
    (callers : Bool → Frame) {start : Frame} (under : start.Under (localTo (paramPaths proc))) :
    (course (paramPaths proc)).Keeps (fun _ => True) .work start
      (fun i => runBody (interpreter patience room) (callers i) proc) Course.Same := by
  have unaware := unaware_interpreter (paramPaths proc) patience room
  have nodes : ∀ s ∈ proc.body, (localTo (paramPaths proc)).node (.ofStmt s) := fun s member =>
    (Part.isLocal_ofStmt s).trans (bodyIsLocal_iff.mp isLocal s member)
  refine ((unaware.near.after Room.call).body under nodes fun _ => .refl proc.body).catchReturn.bind
    ?_
  rintro result _ after moves rfl
  have each := @Course.keeps_forEach _ _ (course (paramPaths proc)) (fun _ => True) .work after _
    True id (fun i => settle (interpreter patience room) (callers i)) (fun _ _ => True)
    (paramPaths proc) (fun _ => paramPaths proc) (fun _ => .refl _)
    (fun path param paths same next further => ?_) fun _ _ _ _ _ => trivial
  · exact each.bind fun _ _ _ _ _ => Course.keeps_done _
  · obtain rfl : paths = fun _ => path := funext fun i => ((same i).same trivial).symm
    exact settle_keeps param _ callers next

end Nodes

section Calls
variable {inside : Meaning} {proc : Proc} {values : List Value} {caller caller' : Frame} {loc : Loc}

/-- Values bound to paths are bound to them in every frame. -/
theorem agreesOn_bindAll {done paths : List Path} {frame frame' : Frame}
    (agrees : frame.AgreesOn done frame') (count : paths.length = values.length) :
    (frame.bindAll paths (values.map (.ofValue · loc))).AgreesOn (done ++ paths)
      (frame'.bindAll paths (values.map (.ofValue · loc))) := by
  induction paths generalizing done values frame frame' with
  | nil => simpa [Frame.bindAll] using agrees
  | cons path paths ih =>
    cases values with
    | nil => cases count
    | cons value values =>
      have bound : (frame.bind path (.ofValue value loc)).AgreesOn (done ++ [path])
          (frame'.bind path (.ofValue value loc)) := by
        have before := agrees.bind path value loc
        refine ⟨?_, ?_, ?_⟩
        · refine List.forall_mem_append.mpr ⟨before.lookup, ?_⟩
          simp
        · refine List.forall_mem_append.mpr ⟨before.constant, ?_⟩
          simp [Frame.isConstant_bind]
        · refine List.forall_mem_append.mpr ⟨before.resolved, ?_⟩
          simp
      have rest := ih bound (Nat.succ.inj count)
      rwa [List.append_assoc] at rest

/-- A frame that holds the parameters and nothing else. -/
private def parameters (proc : Proc) (values : List Value) (loc : Loc) : Frame :=
  ({} : Frame).bindAll (paramPaths proc) (values.map (.ofValue · loc))

private theorem under_parameters (proc : Proc) (values : List Value) (loc : Loc) :
    (parameters proc values loc).Under (localTo (paramPaths proc)) := by
  refine Frame.Binds.bindAll (Frame.under_of_fresh rfl) fun _ _ bound member => ?_
  obtain ⟨value, -, rfl⟩ := List.mem_map.mp member
  rfl

private theorem entered_agrees (copy : Frame) (path : Path)
    (count : values.length = proc.params.length) :
    (parameters proc values loc).AgreesOn (paramPaths proc)
      (calleeFrame copy proc path (values.map (.ofValue · loc))) := by
  have nothing : ({} : Frame).AgreesOn [] (copy.within path) := ⟨nofun, nofun, nofun⟩
  exact agreesOn_bindAll nothing (by simp [count])

/-- Literals are bound as they stand, if there is room to look at them. -/
theorem arguments_literals {inside : Meaning}
    (enough : Room.naming 0 ≤ (inside.after Room.argument).left) (params : List Path)
    (values : List Value) (loc : Loc) (m : Machine) :
    arguments inside params (values.map (.literal · loc)) m =
      (.ok (values.map (.ofValue · loc)), m) := by
  induction values with
  | nil => rfl
  | cons value values ih =>
    have here : argument inside params (.literal value loc) m = (.ok (.ofValue value loc), m) := by
      change ((inside.after Room.argument).require (Room.naming 0) >>= fun _ => _) m = _
      rw [Meaning.require, if_pos enough]
      rfl
    exact (Eval.bind_of_ok here).trans (Eval.bind_of_ok ih)

private theorem arguments_in_any_room (inside : Meaning) (params : List Path)
    (values : List Value) (loc : Loc) :
    (∀ m, arguments inside params (values.map (.literal · loc)) m =
      (.ok (values.map (.ofValue · loc)), m)) ∨
    ∀ m, arguments inside params (values.map (.literal · loc)) m = (.error .outOfRoom, m) := by
  by_cases enough : Room.naming 0 ≤ (inside.after Room.argument).left
  · exact .inl (arguments_literals enough params values loc)
  · cases values with
    | nil => exact .inl fun _ => rfl
    | cons value values =>
      refine .inr fun m => ?_
      have here : argument inside params (.literal value loc) m = (.error .outOfRoom, m) := by
        change ((inside.after Room.argument).require (Room.naming 0) >>= fun _ => _) m = _
        rw [Meaning.require, if_neg enough]
        rfl
      exact Eval.bind_of_error here

/-- Two ways of ending are the same for everyone who does not look at the
frame. -/
structure EndsAlike {α : Type} (ran ran' : Except Stop α × Machine) : Prop where
  outcome : ran.1 = ran'.1
  console : ran.2.console = ran'.2.console

private theorem runBody_alike {patience room : Nat} {start inner inner' : Frame}
    (isLocal : proc.isLocal = true) (caller caller' : Frame)
    (agrees : start.AgreesOn (paramPaths proc) inner)
    (agrees' : start.AgreesOn (paramPaths proc) inner')
    (under : start.Under (localTo (paramPaths proc))) {console : Console} :
    EndsAlike (runBody (interpreter patience room) caller proc ⟨inner, console⟩)
      (runBody (interpreter patience room) caller' proc ⟨inner', console⟩) := by
  have here : (course (paramPaths proc)).At start fun i => ⟨cond i inner inner', console⟩ :=
    ⟨fun i => by cases i <;> assumption, rfl⟩
  have keeps := @runBody_keeps patience room proc isLocal (fun i => cond i caller caller') _ under
  rcases keeps.cases rfl here with
    ⟨value, values, after, states, ran, there, -, same⟩ |
    ⟨reason, reasons, after, states, ran, there, seen, -⟩ | impossible
  · have done : runBody _ caller proc ⟨inner, console⟩ = _ := ran true
    have done' : runBody _ caller' proc ⟨inner', console⟩ = _ := ran false
    rw [done, done', same]
    exact ⟨rfl, there.consoles⟩
  · have stopped : runBody _ caller proc ⟨inner, console⟩ = _ := ran true
    have stopped' : runBody _ caller' proc ⟨inner', console⟩ = _ := ran false
    rw [stopped, stopped', ← (seen true).same trivial, ← (seen false).same trivial]
    exact ⟨rfl, there.consoles⟩
  · exact impossible.elim

private theorem deeper_alike (depth : caller.depth = caller'.depth)
    (limit : caller.maxDepth = caller'.maxDepth) :
    (∃ fault, caller.deeper = .error fault ∧ caller'.deeper = .error fault) ∨
      ∃ copy copy', caller.deeper = .ok copy ∧ caller'.deeper = .ok copy' := by
  unfold Frame.deeper
  rw [limit, depth]
  cases caller'.maxDepth with
  | none => exact .inr ⟨_, _, rfl, rfl⟩
  | some limit =>
    dsimp only
    split
    · exact .inl ⟨_, rfl, rfl⟩
    · exact .inr ⟨_, _, rfl, rfl⟩

/-- A proc that is given all its arguments is entered. -/
theorem invoke_eq {args : List Bound} (count : args.length = proc.params.length)
    (inside : Meaning) (path : Path) :
    invoke inside proc path args = (do
      inside.require Room.entering
      let caller ← Eval.frame
      let copy ← Eval.lift caller.deeper
      Eval.inFrame (calleeFrame copy proc path args) Frame.mergeExisting
        (runBody inside caller proc)) := by
  rw [invoke, if_neg]
  simp [paramPaths, count]

private theorem endsAlike_invoke (patience room : Nat) (isLocal : proc.isLocal = true)
    (count : values.length = proc.params.length) (depth : caller.depth = caller'.depth)
    (limit : caller.maxDepth = caller'.maxDepth) (path path' : Path) (console : Console) :
    EndsAlike
      (invoke (interpreter patience room) proc path (values.map (.ofValue · loc))
        ⟨caller, console⟩)
      (invoke (interpreter patience room) proc path' (values.map (.ofValue · loc))
        ⟨caller', console⟩) := by
  rw [invoke_eq (by simpa using count), invoke_eq (by simpa using count)]
  unfold Meaning.require
  split
  · change EndsAlike
      ((Eval.lift caller.deeper >>= fun copy => Eval.inFrame (calleeFrame copy proc path _)
        Frame.mergeExisting (runBody (interpreter patience room) caller proc)) _)
      ((Eval.lift caller'.deeper >>= fun copy => Eval.inFrame (calleeFrame copy proc path' _)
        Frame.mergeExisting (runBody (interpreter patience room) caller' proc)) _)
    rcases deeper_alike depth limit with ⟨fault, refused, refused'⟩ | ⟨copy, copy', entry, entry'⟩
    · rw [refused, refused']
      exact ⟨rfl, rfl⟩
    · rw [entry, entry']
      have ends := @runBody_alike proc patience room _ _ _ isLocal caller caller'
        (entered_agrees copy path count) (entered_agrees copy' path' count)
        (under_parameters proc values loc) console
      exact ⟨ends.outcome, ends.console⟩
  · exact ⟨rfl, rfl⟩

/-- A call of a proc binds the arguments and enters the proc. -/
theorem call_eq {path : Path} {bound : Bound} (user : path.head? ≠ some builtinScope)
    (held : caller.lookup path = some bound) (declared : bound.proc? = some proc)
    (inside : Meaning) (args : List Expr) (console : Console) :
    call inside path args ⟨caller, console⟩ =
      (arguments inside (paramPaths proc) args >>= invoke inside proc path) ⟨caller, console⟩ := by
  have current : Eval.frame ⟨caller, console⟩ = (.ok caller, ⟨caller, console⟩) := rfl
  have read : Eval.lift (caller.get path) ⟨caller, console⟩ = (.ok bound, ⟨caller, console⟩) := by
    rw [Frame.get, held]
    rfl
  rw [call, if_neg user, Eval.bind_of_ok current, Eval.bind_of_ok read, declared]

/-- A local proc can be called from everywhere and by every path. -/
theorem endsAlike_call {path path' : Path} {bound bound' : Bound} (patience room : Nat)
    (isLocal : proc.isLocal = true) (user : path.head? ≠ some builtinScope)
    (user' : path'.head? ≠ some builtinScope) (held : caller.lookup path = some bound)
    (held' : caller'.lookup path' = some bound') (declared : bound.proc? = some proc)
    (declared' : bound'.proc? = some proc) (count : values.length = proc.params.length)
    (depth : caller.depth = caller'.depth) (limit : caller.maxDepth = caller'.maxDepth)
    (console : Console) :
    EndsAlike
      (call (interpreter patience room) path (values.map (.literal · loc)) ⟨caller, console⟩)
      (call (interpreter patience room) path' (values.map (.literal · loc))
        ⟨caller', console⟩) := by
  rw [call_eq user held declared, call_eq user' held' declared']
  rcases arguments_in_any_room (interpreter patience room) (paramPaths proc) values loc with
    bound | lacks
  · rw [Eval.bind_of_ok (bound _), Eval.bind_of_ok (bound _)]
    exact endsAlike_invoke patience room isLocal count depth limit path path' console
  · rw [Eval.bind_of_error (lacks _), Eval.bind_of_error (lacks _)]
    exact ⟨rfl, rfl⟩

/-- A call of the path on values. -/
def callOn (path : Path) (values : List Value) (loc : Loc) : Expr :=
  .call ⟨path, loc⟩ (values.map (.literal · loc)) loc

/-- With enough room, a call on values is carried out. -/
theorem callOn_eq {room : Nat} (enough : Room.work ≤ room) (patience : Nat) (path : Path)
    (m : Machine) :
    (interpreter patience (room + 1)).expr (callOn path values loc) m =
      (call (interpreter patience (room - Room.node)) path
        (values.map (.literal · loc))).located loc m := by
  change interpret patience (room + 1) 0 _ m = _
  rw [Binding.interpret_succ enough, interpreter_after]
  rfl

/-- A call of a local proc on values ends alike from everywhere. -/
theorem endsAlike_callOn {path path' : Path} {bound bound' : Bound} {room : Nat}
    (enough : Room.work ≤ room) (patience : Nat) (isLocal : proc.isLocal = true)
    (user : path.head? ≠ some builtinScope) (user' : path'.head? ≠ some builtinScope)
    (held : caller.lookup path = some bound) (held' : caller'.lookup path' = some bound')
    (declared : bound.proc? = some proc) (declared' : bound'.proc? = some proc)
    (count : values.length = proc.params.length) (depth : caller.depth = caller'.depth)
    (limit : caller.maxDepth = caller'.maxDepth) (console : Console) :
    EndsAlike
      ((interpreter patience (room + 1)).expr (callOn path values loc) ⟨caller, console⟩)
      ((interpreter patience (room + 1)).expr (callOn path' values loc) ⟨caller', console⟩) := by
  obtain ⟨outcome, written⟩ := @endsAlike_call proc values caller caller' loc path path' bound
    bound' patience (room - Room.node) isLocal user user' held held' declared declared' count
    depth limit console
  rw [callOn_eq enough, callOn_eq enough, Eval.located_eq, Eval.located_eq]
  exact ⟨congrArg (Eval.placed loc) outcome, written⟩

end Calls

end Locality

end BasilLang
