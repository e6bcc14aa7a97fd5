import BasilLang.Proofs.Blame
import BasilLang.Proofs.Nesting

/-! The limit on calls and imports that nest. A frame is as deep as there are
procs and libraries that have been entered, never deeper than the limit, and a
call or an import is refused exactly where the limit has been reached. -/
namespace BasilLang.Depth

open Blame (Raises)
open Nesting (Proper)

variable {level limit : Nat}

/-- Nothing is found to be too deep, unless at a place that is known already. -/
def Quiet (reason : Stop) : Prop :=
  ∀ fault, reason = .failed ⟨.eval fault, none⟩ → fault.isDepth = false

private theorem quiet_isCalm : Calm Quiet where
  returned _ := nofun
  fails fault _ shallow other same := by
    cases same
    exact shallow

/-- A node has supplied a place to whatever went wrong inside. -/
theorem node_quiet (patience room units : Nat) (s : Stmt) (frame : Frame) :
    Regime.free.beside.Keeps Quiet s.manner frame (fun _ => interpret patience room units s)
      Course.Same := by
  intro states there
  rcases (freely_interpreter patience room).near.node units trivial trivial (fun _ => .refl s)
    states there with done | ⟨reason, reasons, after, states', ran, at', seen, leaves⟩ | parted
  · exact .inl done
  · refine .inr (.inl ⟨reason, reasons, after, states', ran, at', seen, leaves.evolves, ?_,
      leaves.back⟩)
    rintro fault rfl
    have stopped := Filter.eventually_top.mp ran true
    rw [← (seen true).same trivial] at stopped
    have placed := Blame.failure_placed patience room units s _ _ (congrArg Prod.fst stopped)
    cases placed
  · exact .inr (.inr parted)

/-- What a rule puts together of such nodes is quiet, too. -/
theorem quietly (patience room : Nat) : Regime.free.beside.Walks Quiet (fun _ => True)
    (fun _ => True) (fun s => Regime.free.node (.ofStmt s)) (fun _ => interpreter patience room)
    (fun _ => interpreter patience room) := by
  have minds : Regime.free.beside.Minds Quiet (fun _ => True)
      (fun s => Regime.free.node (.ofStmt s)) (fun _ => interpreter patience room) := by
    refine ⟨Regime.free.beside_sees, quiet_isCalm, lasting_trivial.lasts fun _ => trivial, id, ?_,
      fun units more {start} => Course.keeps_require (fun _ => rfl) nofun units more, ?_⟩
    · intro units s start ss _ _ seen
      obtain rfl : ss = fun _ => s := funext fun i => ((seen i).same trivial).symm
      exact node_quiet patience room units s start
    · intro units name source start _ known
      exact (Course.keeps_readLibrary (fun _ => rfl) nofun (fun unread other =>
        absurd (Library.lacks_room_of_unread known unread) other) units).weaken
          fun _ _ _ _ read => ⟨read.1, fun _ _ => trivial⟩
  exact ⟨minds, minds, lasting_trivial.enters⟩

section Readings
variable {α : Type} {act : Eval α} {manner : Manner} {m : Machine}
  {middle : α → (Bool → α) → Frame → Prop}

private theorem no_complaint {fault : EvalFault}
    (keeps : Regime.free.beside.Keeps Quiet manner m.frame (fun _ => act) middle)
    (failed : (act m).1 = .error (.failed ⟨.eval fault, none⟩)) : fault.isDepth = false := by
  have here : Regime.free.beside.At m.frame fun _ => m := ⟨fun _ => rfl, rfl⟩
  rcases keeps.cases rfl here with ⟨a, as, after, states, ran, -⟩ |
    ⟨reason, reasons, after, states, ran, -, seen, leaves⟩ | ⟨parting, -⟩
  · have ok : act m = _ := ran true
    rw [ok] at failed
    cases failed
  · have stopped : act m = _ := ran true
    rw [stopped, ← (seen true).same trivial] at failed
    exact leaves.calm fault (Except.error.inj failed)
  · exact parting.elim

private theorem still {a : α} {last : Machine} (placed : m.frame.IsAt level limit)
    (keeps : Regime.free.beside.Keeps Quiet manner m.frame (fun _ => act) middle)
    (ran : act m = (.ok a, last)) : last.frame.IsAt level limit := by
  have here : Regime.free.beside.At m.frame fun _ => m := ⟨fun _ => rfl, rfl⟩
  rcases keeps.cases rfl here with ⟨b, bs, after, states, done, there, moves, -⟩ |
    ⟨reason, reasons, after, states, done, -⟩ | ⟨parting, -⟩
  · cases ran.symm.trans (done true)
    obtain ⟨depth, maxDepth⟩ := moves.evolves.depth
    have same : after = (states true).frame := there.frames true
    rw [← same]
    exact ⟨depth.trans placed.depth, maxDepth.trans placed.maxDepth⟩
  · cases ran.symm.trans (done true)
  · exact parting.elim

end Readings

/-- The node calls a proc with as many arguments as it has parameters. They are
bound, and there is room to enter the proc. -/
def Invokes (patience : Nat) (s : Stmt) (frame : Frame) : Prop :=
  ∃ callee args loc proc, s = .expr (.call callee args loc) ∧ s.callee? frame = some proc ∧
    args.length = proc.params.length ∧ ∃ room console bounds after, Room.entering ≤ room ∧
      Evaluation.arguments (interpreter patience room) (Evaluation.paramPaths proc) args
        ⟨frame, console⟩ = (.ok bounds, after)

section Refusal
variable {frame copy : Frame} {fault : EvalFault}

private theorem deeper_at_limit (placed : frame.IsAt limit limit) :
    frame.deeper = .error (.callsTooDeep limit) := by
  have beyond : (limit : Int) < ((limit + 1 : Nat) : Int) := by omega
  simp only [Frame.deeper, placed.depth, placed.maxDepth, if_pos beyond]

private theorem of_deeper_refused (placed : frame.IsAt level limit)
    (refused : frame.deeper = .error fault) : limit ≤ level ∧ fault = .callsTooDeep limit := by
  simp only [Frame.deeper, placed.depth, placed.maxDepth] at refused
  split at refused
  · next beyond =>
    cases refused
    exact ⟨by omega, rfl⟩
  · cases refused

variable {inside : Meaning} {patience room : Nat} {proc : Proc} {path : Path}
  {args : List Bound} {m : Machine}

/-- At the limit a proc is not entered. -/
theorem invoke_at_limit (counted : args.length = (Evaluation.paramPaths proc).length)
    (enough : Room.entering ≤ inside.left) (placed : m.frame.IsAt limit limit) :
    Evaluation.invoke inside proc path args m =
      (.error (.failed ⟨.eval (.callsTooDeep limit), none⟩), m) := by
  rw [Evaluation.invoke_of_counted counted enough, deeper_at_limit placed]
  rfl

/-- A call is refused for its depth only once its arguments have been counted,
and only at the limit. -/
theorem of_invoke_refused (placed : m.frame.IsAt level limit) (tooDeep : fault.isDepth = true)
    (failed : (Evaluation.invoke (interpreter patience room) proc path args m).1 =
      .error (.failed ⟨.eval fault, none⟩)) :
    args.length = (Evaluation.paramPaths proc).length ∧ Room.entering ≤ room ∧
      limit ≤ level ∧ fault = .callsTooDeep limit := by
  by_cases counted : args.length = (Evaluation.paramPaths proc).length
  · by_cases enough : Room.entering ≤ (interpreter patience room).left
    · rw [Evaluation.invoke_of_counted counted enough] at failed
      cases entered : m.frame.deeper with
      | error other =>
        rw [entered] at failed
        cases failed
        exact ⟨counted, enough, of_deeper_refused placed entered⟩
      | ok copy =>
        -- Inside the proc nothing is too deep without a place.
        rw [entered] at failed
        have keeps : Regime.free.beside.Keeps Quiet .work
            (Evaluation.calleeFrame copy proc path args)
            (fun _ => Evaluation.runBody (interpreter patience room) m.frame proc) _ :=
          (quietly patience room).near.runBody trivial trivial (fun _ => rfl) trivial
            (fun _ _ => trivial) fun _ => .refl proc
        rw [no_complaint (m := ⟨_, m.console⟩) keeps failed] at tooDeep
        cases tooDeep
    · have lacks :
          (interpreter patience room).require Room.entering m = (.error .outOfRoom, m) := by
        rw [Meaning.require, if_neg enough]
        rfl
      rw [Evaluation.invoke] at failed
      simp only [ne_eq, counted, not_true_eq_false, if_false] at failed
      rw [Eval.bind_of_error lacks] at failed
      cases failed
  · rw [Evaluation.invoke] at failed
    simp only [ne_eq, counted, not_false_eq_true, if_true] at failed
    cases failed
    cases tooDeep

variable {name source : String}

/-- At the limit a library is not read. -/
theorem import_at_limit (known : Library.source? name = some source)
    (placed : m.frame.IsAt limit limit) :
    Evaluation.importLibrary inside name m =
      (.error (.failed ⟨.eval (.importTooDeep limit name), none⟩), m) := by
  have beyond : (limit : Int) < ((limit + 1 : Nat) : Int) := by omega
  have refused : Evaluation.libraryFrame inside name source m =
      (.error (.failed ⟨.eval (.importTooDeep limit name), none⟩), m) := by
    have found : Eval.frame m = (.ok m.frame, m) := rfl
    rw [Evaluation.libraryFrame, Eval.bind_of_ok found]
    simp only [placed.depth, placed.maxDepth, Option.filter_some, decide_eq_true beyond, if_true]
    rfl
  rw [Evaluation.importLibrary, known]
  exact Eval.bind_of_error refused

private theorem of_libraryFrame_refused (known : Library.source? name = some source)
    (placed : m.frame.IsAt level limit) (tooDeep : fault.isDepth = true)
    (failed : (Evaluation.libraryFrame (interpreter patience room) name source m).1 =
      .error (.failed ⟨.eval fault, none⟩)) :
    limit ≤ level ∧ fault = .importTooDeep limit name := by
  have found : Eval.frame m = (.ok m.frame, m) := rfl
  rw [Evaluation.libraryFrame, Eval.bind_of_ok found] at failed
  by_cases allowed : level < limit
  · have within : ¬ (limit : Int) < ((level + 1 : Nat) : Int) := by omega
    have keeps : Regime.free.beside.Keeps Quiet .value m.frame _ _ :=
      @Course.Minds.ownFrame _ _ _ _ _ _ _
        { depth := level + 1, maxDepth := some (limit : Int) } _ _ (quietly patience room).near
        trivial rfl trivial trivial known
    simp only [placed.depth, placed.maxDepth, Option.filter_some, decide_eq_false within,
      Bool.false_eq_true, if_false] at failed
    rw [no_complaint keeps failed] at tooDeep
    cases tooDeep
  · have beyond : (limit : Int) < ((level + 1 : Nat) : Int) := by omega
    simp only [placed.depth, placed.maxDepth, Option.filter_some, decide_eq_true beyond,
      if_true] at failed
    cases failed
    exact ⟨by omega, rfl⟩

/-- An import is refused for its depth only if there is such a library, and only
at the limit. -/
theorem of_import_refused (placed : m.frame.IsAt level limit) (tooDeep : fault.isDepth = true)
    (failed : (Evaluation.importLibrary (interpreter patience room) name m).1 =
      .error (.failed ⟨.eval fault, none⟩)) :
    (Library.source? name).isSome = true ∧ limit ≤ level ∧ fault = .importTooDeep limit name := by
  unfold Evaluation.importLibrary at failed
  cases known : Library.source? name with
  | none =>
    rw [known] at failed
    cases failed
    cases tooDeep
  | some source =>
    rw [known] at failed
    rcases Eval.stopped_of_bind failed with refused | ⟨library, middle, -, added⟩
    · exact ⟨rfl, of_libraryFrame_refused known placed tooDeep refused⟩
    · have found : Eval.frame middle = (.ok middle.frame, middle) := rfl
      rw [Eval.bind_of_ok found] at added
      split at added
      · cases added
      · cases added
        cases tooDeep

/-- Nothing is found to be too deep where arguments are bound. -/
theorem arguments_quiet (patience room : Nat) (params : List Path) (es : List Expr)
    (frame : Frame) : Regime.free.beside.Keeps Quiet .value frame
      (fun _ => Evaluation.arguments (interpreter patience room) params es) (fun _ _ _ => True) :=
  ((quietly patience room).near.arguments trivial trivial (fun _ _ => trivial)
    (fun _ => .refl es) params).weaken fun _ _ _ _ _ => trivial

/-- There is a binding for each argument. -/
theorem arguments_length {params : List Path} {es : List Expr} {bounds : List Bound}
    {after : Machine} (bound : Evaluation.arguments inside params es m = (.ok bounds, after)) :
    bounds.length = es.length := by
  induction es generalizing m bounds with
  | nil =>
    cases bound
    rfl
  | cons e es ih =>
    rcases Eval.bind_cases (Evaluation.argument inside params e) (fun first => do
        return first :: (← Evaluation.arguments inside params es)) m with
      ⟨first, middle, -, goesOn⟩ | ⟨reason, last, -, stops⟩
    · rcases Eval.bind_cases (Evaluation.arguments inside params es)
          (fun rest => pure (first :: rest)) middle with
        ⟨rest, last, ran, ends⟩ | ⟨reason, last, -, stops⟩
      · cases (goesOn.trans ends).symm.trans bound
        simp only [List.length_cons, ih ran]
      · cases (goesOn.trans stops).symm.trans bound
    · cases stops.symm.trans bound

/-- A call of a proc, once the arguments are bound, is the invocation. -/
theorem call_eq {args : List Expr} {bounds : List Bound} {bound : Bound} {after : Machine}
    (other : path.head? ≠ some Evaluation.builtinScope)
    (found : m.frame.lookup path = some bound) (isProc : bound.proc? = some proc)
    (ran : Evaluation.arguments inside (Evaluation.paramPaths proc) args m = (.ok bounds, after)) :
    Evaluation.call inside path args m = Evaluation.invoke inside proc path bounds after := by
  have read : Eval.lift (m.frame.get path) m = (.ok bound, m) := by
    rw [Frame.get, found]
    rfl
  have current : Eval.frame m = (.ok m.frame, m) := rfl
  rw [Evaluation.call, if_neg other, Eval.bind_of_ok current, Eval.bind_of_ok read, isProc]
  exact Eval.bind_of_ok ran

/-- A call is refused for its depth only if it calls a proc with the right
number of arguments, and only at the limit. -/
theorem of_call_refused {args : List Expr} (placed : m.frame.IsAt level limit)
    (tooDeep : fault.isDepth = true)
    (failed : (Evaluation.call (interpreter patience room) path args m).1 =
      .error (.failed ⟨.eval fault, none⟩)) :
    path.head? ≠ some Evaluation.builtinScope ∧ ∃ bound proc bounds after,
      m.frame.lookup path = some bound ∧ bound.proc? = some proc ∧
      Evaluation.arguments (interpreter patience room) (Evaluation.paramPaths proc) args m =
        (.ok bounds, after) ∧
      args.length = (Evaluation.paramPaths proc).length ∧ Room.entering ≤ room ∧
      limit ≤ level ∧ fault = .callsTooDeep limit := by
  have impossible : ∀ {P : Prop}, fault.isDepth = false → P := fun shallow =>
    absurd (shallow.symm.trans tooDeep) Bool.false_ne_true
  by_cases builtin : path.head? = some Evaluation.builtinScope
  · rw [Evaluation.call, if_pos builtin] at failed
    have keeps : Regime.free.beside.Keeps Quiet .value m.frame
        (fun _ => Evaluation.callBuiltin (interpreter patience room) path args) Course.Same :=
      (quietly patience room).near.callBuiltin trivial (fun _ _ => trivial) (fun _ => .refl args)
        path
    exact impossible (no_complaint keeps failed)
  · have current : Eval.frame m = (.ok m.frame, m) := rfl
    rw [Evaluation.call, if_neg builtin, Eval.bind_of_ok current] at failed
    cases found : m.frame.lookup path with
    | none =>
      rw [Frame.get, found] at failed
      cases failed
      cases tooDeep
    | some bound =>
      have read : Eval.lift (m.frame.get path) m = (.ok bound, m) := by
        rw [Frame.get, found]
        rfl
      rw [Eval.bind_of_ok read] at failed
      cases isProc : bound.proc? with
      | none =>
        rw [isProc] at failed
        cases failed
        cases tooDeep
      | some proc =>
        rw [isProc] at failed
        have keeps := arguments_quiet patience room (Evaluation.paramPaths proc) args m.frame
        rcases Eval.stopped_of_bind failed with early | ⟨bounds, after, ran, late⟩
        · exact impossible (no_complaint keeps early)
        · obtain ⟨counted, enough, atLimit, same⟩ :=
            of_invoke_refused (still placed keeps ran) tooDeep late
          exact ⟨builtin, bound, proc, bounds, after, rfl, isProc, ran,
            (arguments_length ran).symm.trans counted, enough, atLimit, same⟩

end Refusal

section Raising
variable {patience : Nat} {pending : List Pending} {s : Stmt} {frame : Frame}

private theorem at_limit (proper : Proper limit pending frame)
    (beyond : limit ≤ Pending.active pending) :
    frame.depth = limit := by
  have allowed := proper.allowed
  rw [proper.placed.depth]
  omega

private theorem paramPaths_length (proc : Proc) :
    (Evaluation.paramPaths proc).length = proc.params.length :=
  List.length_map _

private theorem callee_iff {callee : Name} {args : List Expr} {loc : Loc} {proc : Proc} :
    Stmt.callee? frame (.expr (.call callee args loc)) = some proc ↔
      callee.path.head? ≠ some Evaluation.builtinScope ∧ ∃ bound,
        frame.lookup callee.path = some bound ∧ bound.proc? = some proc := by
  unfold Stmt.callee?
  by_cases builtin : callee.path.head? = some Evaluation.builtinScope
  · simp [builtin]
  · simp [builtin, Option.bind_eq_some_iff]

/-- A node that enters nothing finds nothing too deep. -/
theorem raises_may_enter {fault : EvalFault} (tooDeep : fault.isDepth = true)
    (raises : Raises patience s frame (.eval fault)) : s.mayEnter = true := by
  obtain ⟨room, console, failed⟩ := raises
  by_contra stays
  have admits : Regime.free.beside.Admits Quiet frame s :=
    ⟨Regime.free_allows frame s, fun _ _ => nofun, fun _ => nofun,
      fun enters => absurd enters stays⟩
  have keeps := (quietly patience room).statement trivial trivial admits (fun _ _ => trivial)
    (fun _ => .refl s) patience
  simp only [Nesting.stmt_same] at keeps
  rw [no_complaint (m := ⟨frame, console⟩) keeps failed] at tooDeep
  cases tooDeep

/-- A proc is found to be too deep exactly where it is called at the limit. -/
theorem raises_callsTooDeep_iff (proper : Proper limit pending frame) {n : Int} :
    Raises patience s frame (.eval (.callsTooDeep n)) ↔
      n = limit ∧ frame.depth = limit ∧ Invokes patience s frame := by
  constructor
  · intro raises
    have enters := raises_may_enter rfl raises
    obtain ⟨room, console, failed⟩ := raises
    unfold Stmt.mayEnter at enters
    split at enters
    · next callee args loc =>
      obtain ⟨other, bound, proc, bounds, after, found, isProc, ran, counted, enough, beyond,
        same⟩ := of_call_refused proper.placed rfl failed
      cases same
      have called : Stmt.callee? frame (.expr (.call callee args loc)) = some proc :=
        callee_iff.mpr ⟨other, bound, found, isProc⟩
      exact ⟨rfl, at_limit proper beyond, callee, args, loc, proc, rfl, called,
        counted.trans (paramPaths_length proc), room, console, bounds, after, enough, ran⟩
    · next target loc =>
      obtain ⟨-, -, same⟩ := of_import_refused proper.placed rfl failed
      cases same
    · cases enters
  · rintro ⟨rfl, atLimit, callee, args, loc, proc, rfl, called, counted, room, console, bounds,
      after, enough, ran⟩
    obtain ⟨other, bound, found, isProc⟩ := callee_iff.mp called
    have placed : frame.IsAt limit limit := ⟨atLimit, proper.placed.maxDepth⟩
    have still := still (m := ⟨frame, console⟩) placed
      (arguments_quiet patience room (Evaluation.paramPaths proc) args frame) ran
    have bound' : bounds.length = (Evaluation.paramPaths proc).length :=
      (arguments_length ran).trans (counted.trans (paramPaths_length proc).symm)
    refine ⟨room, console, ?_⟩
    change (Evaluation.call _ callee.path args ⟨frame, console⟩).1 = _
    rw [call_eq other found isProc ran, invoke_at_limit bound' enough still]

/-- A library is found to be too deep exactly where it is imported at the
limit. -/
theorem raises_importTooDeep_iff (proper : Proper limit pending frame) {n : Int} {name : String} :
    Raises patience s frame (.eval (.importTooDeep n name)) ↔
      n = limit ∧ frame.depth = limit ∧ s.imported? = some name ∧
        (Library.source? name).isSome = true := by
  constructor
  · intro raises
    have enters := raises_may_enter rfl raises
    obtain ⟨room, console, failed⟩ := raises
    unfold Stmt.mayEnter at enters
    split at enters
    · obtain ⟨-, -, -, -, -, -, -, -, -, -, -, same⟩ := of_call_refused proper.placed rfl failed
      cases same
    · next target loc =>
      obtain ⟨known, beyond, same⟩ := of_import_refused proper.placed rfl failed
      cases same
      exact ⟨rfl, at_limit proper beyond, rfl, known⟩
    · cases enters
  · rintro ⟨rfl, atLimit, imports, known⟩
    obtain ⟨source, known⟩ := Option.isSome_iff_exists.mp known
    have placed : frame.IsAt limit limit := ⟨atLimit, proper.placed.maxDepth⟩
    unfold Stmt.imported? at imports
    split at imports
    · next target loc =>
      cases imports
      refine ⟨0, {}, ?_⟩
      change (Evaluation.importLibrary _ target.text ⟨frame, {}⟩).1 = _
      rw [import_at_limit known placed]
    · cases imports

end Raising

section Main
variable {run : Run} {fault : EvalFault} {inside : Meaning} {m : Machine} {loc : Option Loc}

/-- The run comes to call a main proc without parameters, with room to enter
it. -/
def InvokesMain (run : Run) : Prop :=
  run.withMain = true ∧ Room.entering ≤ run.room ∧ ∃ result m bound proc,
    Eval.catchReturn ((interpreter run.patience run.room).body run.program.body)
      ⟨run.start, run.console⟩ = (.ok result, m) ∧
    m.frame.lookup Program.mainPath = some bound ∧ bound.proc? = some proc ∧ proc.params = []

private theorem callMain_eq {bound : Bound} {proc : Proc}
    (found : m.frame.lookup Program.mainPath = some bound) (isProc : bound.proc? = some proc) :
    Program.callMain inside loc m = Evaluation.invoke inside proc Program.mainPath [] m := by
  have current : Eval.frame m = (.ok m.frame, m) := rfl
  rw [Program.callMain, Eval.bind_of_ok current, found]
  simp only [isProc]

private theorem of_callMain_refused {patience room : Nat} (placed : m.frame.IsAt level limit)
    (tooDeep : fault.isDepth = true)
    (failed : (Program.callMain (interpreter patience room) loc m).1 =
      .error (.failed ⟨.eval fault, none⟩)) :
    Room.entering ≤ room ∧ limit ≤ level ∧ fault = .callsTooDeep limit ∧
      ∃ bound proc, m.frame.lookup Program.mainPath = some bound ∧ bound.proc? = some proc ∧
        proc.params = [] := by
  have current : Eval.frame m = (.ok m.frame, m) := rfl
  cases found : m.frame.lookup Program.mainPath with
  | none =>
    rw [Program.callMain, Eval.bind_of_ok current, found] at failed
    cases failed
    cases tooDeep
  | some bound =>
    cases isProc : bound.proc? with
    | none =>
      rw [Program.callMain, Eval.bind_of_ok current, found] at failed
      simp only [isProc] at failed
      cases failed
    | some proc =>
      rw [callMain_eq found isProc] at failed
      obtain ⟨counted, enough, beyond, same⟩ := of_invoke_refused placed tooDeep failed
      rw [paramPaths_length] at counted
      exact ⟨enough, beyond, same, bound, proc, rfl, isProc,
        List.length_eq_zero_iff.mp counted.symm⟩

/-- The body of a program leaves the frame at its level. -/
theorem body_still (placed : run.start.IsAt 0 limit) {result : Option Value}
    (ran : Eval.catchReturn ((interpreter run.patience run.room).body run.program.body)
      ⟨run.start, run.console⟩ = (.ok result, m)) : m.frame.IsAt 0 limit := by
  have body : Regime.free.beside.Keeps Quiet .body run.start
      (fun _ => (interpreter run.patience run.room).body run.program.body) Course.Same :=
    (quietly run.patience run.room).near.body trivial (fun _ _ => trivial) fun _ => .refl _
  exact still (m := ⟨run.start, run.console⟩) placed body.catchReturn ran

/-- A run complains of depth without a place exactly where the main proc is
called although no calls are allowed. -/
theorem refused_main_iff (placed : run.start.IsAt 0 limit) (tooDeep : fault.isDepth = true) :
    run.outcome.1 = .error (.failed ⟨.eval fault, none⟩) ↔
      fault = .callsTooDeep limit ∧ limit = 0 ∧ InvokesMain run := by
  constructor
  · intro failed
    rcases Blame.broken_off_or_main failed (EvalFault.ne_nestingTooDeep tooDeep) with
      ⟨s, frame, -, -, place⟩ | ⟨withMain, -, result, m, ran, called⟩
    · cases place
    · obtain ⟨enough, beyond, same, bound, proc, found, isProc, none⟩ :=
        of_callMain_refused (body_still placed ran) tooDeep called
      exact ⟨same, Nat.le_zero.mp beyond, withMain, enough, result, m, bound, proc, ran, found,
        isProc, none⟩
  · rintro ⟨rfl, rfl, withMain, enough, result, m, bound, proc, ran, found, isProc, none⟩
    have counted : ([] : List Bound).length = (Evaluation.paramPaths proc).length := by
      rw [paramPaths_length, none]
      rfl
    have called : Program.callMain (interpreter run.patience run.room) run.program.loc m =
        (.error (.failed ⟨.eval (.callsTooDeep (0 : Nat)), .none⟩), m) := by
      rw [callMain_eq found isProc]
      exact invoke_at_limit counted enough (body_still placed ran)
    rw [Run.outcome, Program.eval, Eval.reportingRoom, Eval.bind_of_ok ran, if_pos withMain,
      Eval.bind_of_error called]

end Main

/-- Call depth is exact and bounded. Whatever a run evaluates, it evaluates in a
frame whose depth is the number of procs and libraries that have been entered,
which is at most the limit; and next to a node the depth grows only where that
node enters something. A call or an import is found to be too deep exactly at
the limit, if the call has the right number of arguments and the library is
there, and a run that ends so does for such a node, or for its main proc. -/
theorem call_depth_is_exact {run : Run} {limit : Nat} (outermost : run.start.depth = 0)
    (limited : run.start.maxDepth = some (limit : Int)) :
    (∀ s frame, run.Evaluates s frame → ∃ pending, run.Reaches pending s frame) ∧
    (∀ pending s frame, run.Reaches pending s frame →
      frame.depth = Pending.active pending ∧ frame.depth ≤ limit ∧
      ∀ p rest, pending = p :: rest →
        frame.depth = p.frame.depth + if p.isActive then 1 else 0) ∧
    (∀ s frame, run.Evaluates s frame →
      (∀ n, Raises run.patience s frame (.eval (.callsTooDeep n)) ↔
        n = limit ∧ frame.depth = limit ∧ Invokes run.patience s frame) ∧
      ∀ n name, Raises run.patience s frame (.eval (.importTooDeep n name)) ↔
        n = limit ∧ frame.depth = limit ∧ s.imported? = some name ∧
          (Library.source? name).isSome = true) ∧
    ∀ fault, fault.isDepth = true →
      (∀ loc, run.outcome.1 = .error (.failed ⟨.eval fault, some loc⟩) →
        ∃ s frame, run.Evaluates s frame ∧ Raises run.patience s frame (.eval fault) ∧
          s.loc = loc) ∧
      (run.outcome.1 = .error (.failed ⟨.eval fault, none⟩) ↔
        fault = .callsTooDeep limit ∧ limit = 0 ∧ InvokesMain run) := by
  have placed : run.start.IsAt 0 limit := ⟨outermost, limited⟩
  refine ⟨fun s frame => Run.reaches_of_evaluates placed, ?_, ?_, ?_⟩
  · intro pending s frame reaches
    obtain ⟨nested, at', allowed⟩ := Run.proper_of_reaches placed reaches
    refine ⟨at'.depth, at'.depth ▸ allowed, ?_⟩
    rintro p rest rfl
    rw [nested.1]
    exact at'.depth
  · intro s frame evaluates
    obtain ⟨pending, reaches⟩ := Run.reaches_of_evaluates placed evaluates
    have proper := Run.proper_of_reaches placed reaches
    exact ⟨fun n => raises_callsTooDeep_iff proper, fun n name => raises_importTooDeep_iff proper⟩
  · intro fault tooDeep
    refine ⟨fun loc failed => ?_, refused_main_iff placed tooDeep⟩
    rcases Blame.broken_off_or_main failed (EvalFault.ne_nestingTooDeep tooDeep) with
      ⟨s, frame, reported, raises, place⟩ | ⟨-, ofMain, -⟩
    · exact ⟨s, frame, ⟨Blame.isSpot run, reported⟩, raises, (Option.some.inj place).symm⟩
    · rcases ofMain _ rfl with unplaced | same | same
      · cases unplaced
      · cases same
        cases tooDeep
      · cases same
        cases tooDeep

/-- A proc that calls itself with its parameter. -/
def descending : Proc :=
  .mk default [⟨"n", default⟩] default
    [.returning (.call ⟨["f"], default⟩ [.identifier ⟨["n"], default⟩] default) default] default

/-- A run that calls it where two calls may nest. -/
def descent : Run where
  program := ⟨"", [.procDecl ⟨["f"], default⟩ descending,
    .expr (.call ⟨["f"], default⟩ [.literal ⟨.number, "1"⟩ default] default)]⟩
  withMain := false
  patience := 0
  room := 100
  start := { maxDepth := some 2 }
  console := {}
  fresh := rfl

theorem third_call_is_refused :
    ∃ s frame pending, descent.Evaluates s frame ∧ descent.Reaches pending s frame ∧
      Pending.active pending = 2 ∧ Raises 0 s frame (.eval (.callsTooDeep 2)) ∧
      Invokes 0 s frame := by
  obtain ⟨all, exact', refused, ended⟩ := @call_depth_is_exact descent 2 rfl rfl
  have failed : descent.outcome.1 = .error (.failed ⟨.eval (.callsTooDeep 2), some default⟩) := by
    decide +kernel
  obtain ⟨s, frame, evaluates, raises, -⟩ := (ended (.callsTooDeep 2) rfl).1 default failed
  obtain ⟨-, depth, invokes⟩ := ((refused s frame evaluates).1 2).mp raises
  obtain ⟨pending, reaches⟩ := all s frame evaluates
  exact ⟨s, frame, pending, evaluates, reaches,
    (exact' pending s frame reaches).1.symm.trans depth, raises, invokes⟩

end BasilLang.Depth
