import BasilLang.Evaluation.Part
import BasilLang.Proofs.Course

/-! What the rules of evaluation keep, rule by rule. The rules are written over
the meanings of what stands inside, and so are the statements here: if a family
of meanings keeps to a course on the inner nodes, wherever a frame has some
property, then so do the meanings that a rule makes of them. What is entered, a
proc or a library, may have other meanings than what stands inside, since it
works in another frame. Everything that is said of all evaluation is said by
naming a course, so that each rule is gone through here alone. -/
namespace BasilLang

private theorem Meaning.after_after (inside : Meaning) (units more : Nat) :
    (inside.after units).after more = inside.after (units + more) := by
  have left : inside.left - units - more = inside.left - (units + more) := by omega
  have node : (fun further => inside.node (further + more + units)) =
      fun further => inside.node (further + (units + more)) := by
    funext further
    rw [Nat.add_assoc, Nat.add_comm more units]
  simp only [Meaning.after, left, node]

namespace Nesting

/-- The call of a proc, its arguments evaluated with one meaning and its body
with another. -/
def call (here deeper : Meaning) (path : Path) (args : List Expr) : Eval Value := do
  if path.head? = some Evaluation.builtinScope then Evaluation.callBuiltin here path args
  else
    let bound ← Eval.lift ((← Eval.frame).get path)
    match bound.proc? with
    | none => Eval.fail (.notAProc path)
    | some proc =>
      let args ← Evaluation.arguments here (Evaluation.paramPaths proc) args
      Evaluation.invoke deeper proc path args

/-- The meaning of a statement, where what is entered has another meaning than
what stands inside. -/
def stmt (patience : Nat) (here deeper : Meaning) : Stmt → Eval Value
  | .expr (.call callee args _) => call here deeper callee.path args
  | .importLibrary target _ => Evaluation.importLibrary deeper target.text
  | s => Evaluation.stmt patience here s

/-- With one meaning for both, this is the meaning of a statement. -/
theorem stmt_same (patience : Nat) (inside : Meaning) (s : Stmt) :
    stmt patience inside inside s = Evaluation.stmt patience inside s := by
  unfold stmt
  split <;> rfl

end Nesting

/-- The path that a node looks up by itself. -/
def Stmt.named? : Stmt → Option Path
  | .expr (.identifier name) | .set name _ => some name.path
  | _ => none

/-- Whether more of a frame matters to a node than what some paths are bound
to. -/
def Stmt.looksAround : Stmt → Bool
  | .expr (.call callee _ _) => callee.path.head? != some Evaluation.builtinScope
  | .expr (.proc _) | .importLibrary .. | .inNamespace .. | .letDecl .. | .constDecl ..
  | .procDecl .. => true
  | _ => false

/-- Whether a node may enter a proc or a library. -/
def Stmt.mayEnter : Stmt → Bool
  | .expr (.call ..) | .importLibrary .. => true
  | _ => false

/-- Whether a node is a loop without a bound. -/
def Stmt.isWhile : Stmt → Bool
  | .whileTrue .. => true
  | _ => false

/-- The expressions that the rule for an expression evaluates, before it enters
anything. -/
def Expr.inner (frame : Frame) : Expr → List Expr
  | .identifier name =>
    match frame.lookup name.path with
    | some (.expr e) => [e]
    | _ => []
  | .group inner _ => [inner]
  | .unary _ _ operand => [operand]
  | .binary left _ _ right => [left, right]
  | .call _ args _ => args
  | .literal .. | .proc _ => []

/-- The nodes that the rule for a node evaluates, before it enters anything. -/
def Stmt.inner (frame : Frame) : Stmt → List Stmt
  | .expr e => (e.inner frame).map .expr
  | .inNamespace _ body _ _ => body
  | .letDecl _ value _ | .constDecl _ value _ | .set _ value | .returning value _ => [.expr value]
  | .ifThen condition body _ _ | .whileTrue condition body _ _ => .expr condition :: body
  | .forRange _ start stop body _ _ => .expr start :: .expr stop :: body
  | .importLibrary .. | .importRelative .. | .procDecl .. => []

/-- A regime comes upon all that its nodes evaluate. -/
theorem Regime.inner_nodes {regime : Regime} {frame : Frame} {s : Stmt}
    (under : frame.Under regime) (node : regime.node (.ofStmt s)) :
    ∀ inner ∈ s.inner frame, regime.node (.ofStmt inner) := by
  have bodies : ∀ {body : List Stmt} (loc : Loc), .block body loc ∈ (Part.ofStmt s).children →
      ∀ inner ∈ body, regime.node (.ofStmt inner) :=
    fun loc member => Regime.body_nodes loc node member
  have exprs : ∀ {e : Expr}, .expr e ∈ (Part.ofStmt s).children → regime.node (.expr e) :=
    fun member => regime.inside node member
  cases s with
  | expr e =>
    cases e with
    | identifier name =>
      simp only [Stmt.inner, Expr.inner]
      split
      · next e held => exact List.forall_mem_singleton.mpr (under name.path _ held)
      · simp
    | call callee args loc =>
      have listed : regime.node (.argList args loc) := regime.inside node (by
        simp [Part.ofStmt, Part.children, Part.exprChildren])
      simp only [Stmt.inner, Expr.inner, List.forall_mem_map]
      exact fun e member => regime.inside listed (List.mem_map_of_mem member)
    | literal | proc => simp [Stmt.inner, Expr.inner]
    | group | unary =>
      refine List.forall_mem_singleton.mpr (exprs ?_)
      simp [Part.ofStmt, Part.children, Part.exprChildren]
    | binary =>
      refine List.forall_mem_cons.mpr ⟨exprs ?_, List.forall_mem_singleton.mpr (exprs ?_)⟩
      · simp [Part.ofStmt, Part.children, Part.exprChildren]
      · simp [Part.ofStmt, Part.children, Part.exprChildren]
  | inNamespace name body bodyLoc loc =>
    have member : .block body bodyLoc ∈
        (Part.ofStmt (.inNamespace name body bodyLoc loc)).children := by
      simp [Part.ofStmt, Part.children, Part.stmtChildren]
    exact bodies bodyLoc member
  | letDecl | constDecl | set | returning =>
    simp only [Stmt.inner, List.forall_mem_singleton]
    exact exprs (by simp [Part.ofStmt, Part.children, Part.stmtChildren])
  | ifThen condition body bodyLoc loc | whileTrue condition body bodyLoc loc =>
    refine List.forall_mem_cons.mpr ⟨exprs ?_, bodies bodyLoc ?_⟩
    · simp [Part.ofStmt, Part.children, Part.stmtChildren]
    · simp [Part.ofStmt, Part.children, Part.stmtChildren]
  | forRange name start stop body bodyLoc loc =>
    refine List.forall_mem_cons.mpr ⟨exprs ?_, List.forall_mem_cons.mpr ⟨exprs ?_,
      bodies bodyLoc ?_⟩⟩
    · simp [Part.ofStmt, Part.children, Part.stmtChildren]
    · simp [Part.ofStmt, Part.children, Part.stmtChildren]
    · simp [Part.ofStmt, Part.children, Part.stmtChildren]
  | importLibrary | importRelative | procDecl => simp [Stmt.inner]

/-- A proc is resolved. -/
theorem Bound.unresolved_of_proc {bound : Bound} (isProc : bound.proc?.isSome = true) :
    bound.unresolved? = none := by
  unfold Bound.proc? at isProc
  split at isProc
  · rfl
  · rfl
  · cases isProc

/-- The value of an assignment of what is bound. -/
def Bound.assigned : Bound → Value
  | .expr (.literal value _) => value
  | _ => .null

private theorem Bound.assigned_unplaced (b : Bound) : b.unplaced.assigned = b.assigned := by
  cases b with
  | declared => rfl
  | expr e => cases e <;> rfl

/-- What an expression names as a proc is resolved. -/
theorem Frame.resolved_of_procNamed {frame : Frame} {e : Expr} {bound : Bound}
    (named : frame.procNamed? e = some bound) : bound.unresolved? = none := by
  fun_induction frame.procNamed? e with
  | case1 p =>
    cases named
    rfl
  | case2 inner _ ih => exact ih named
  | case3 name held _ isProc =>
    cases named
    exact Bound.unresolved_of_proc isProc
  | case4 | case5 | case6 => cases named

/-- What is resolved is apart from all parameters. -/
theorem Frame.apart_of_resolved {frame : Frame} {params : List Path} {bound : Bound}
    (resolved : bound.unresolved? = none) : frame.Apart params bound := by
  intro e unresolved
  rw [resolved] at unresolved
  cases unresolved

private theorem rel_family {ι α β : Type} {related : α → β → Prop} {x : Option α}
    {xs : ι → Option β} (rel : ∀ i, Option.Rel related x (xs i)) :
    (x = none ∧ ∀ i, xs i = none) ∨
      ∃ (a : α) (as : ι → β), x = some a ∧ (∀ i, xs i = some (as i)) ∧ ∀ i, related a (as i) := by
  cases x with
  | none =>
    refine .inl ⟨rfl, fun i => ?_⟩
    have here := rel i
    generalize xs i = x' at here
    cases here
    rfl
  | some a =>
    have each : ∀ i, ∃ a', xs i = some a' ∧ related a a' := by
      intro i
      have here := rel i
      generalize xs i = x' at here
      cases here with
      | some holds => exact ⟨_, rfl, holds⟩
    choose as same holds using each
    exact .inr ⟨a, as, rfl, same, holds⟩

namespace Seen
variable {exact : Prop}

private theorem ofExpr {e e' : Expr} (seen : Seen exact Expr.unplaced e e') :
    Seen exact Stmt.unplaced (.expr e) (.expr e') :=
  ⟨congrArg Stmt.expr seen.alike, fun sharp => congrArg Stmt.expr (seen.same sharp)⟩

private theorem bound {e e' : Expr} (seen : Seen exact Expr.unplaced e e') :
    Seen exact Bound.unplaced (.expr e) (.expr e') :=
  ⟨congrArg Bound.expr seen.alike, fun sharp => congrArg Bound.expr (seen.same sharp)⟩

/-- An expression that is bound is seen as one. -/
theorem boundExpr {e : Expr} {b' : Bound} (seen : Seen exact Bound.unplaced (.expr e) b') :
    ∃ e', b' = .expr e' ∧ Seen exact Expr.unplaced e e' := by
  obtain ⟨alike, same⟩ := seen
  cases b' with
  | declared => cases alike
  | expr e' =>
    exact ⟨e', rfl, Bound.expr.inj alike, fun sharp => Bound.expr.inj (same sharp)⟩

/-- A proc that is declared is seen as one. -/
theorem declared {name : Name} {p : Proc} {b' : Bound}
    (seen : Seen exact Bound.unplaced (.declared name p) b') :
    ∃ name' p', b' = .declared name' p' := by
  cases b' with
  | declared name' p' => exact ⟨name', p', rfl⟩
  | expr => cases seen.alike

/-- What is seen as no proc is none. -/
theorem not_proc {e e' : Expr} (seen : Seen exact Expr.unplaced e e')
    (value : ∀ p, e ≠ .proc p) : ∀ p, e' ≠ .proc p := by
  rintro p rfl
  have back : Seen False Expr.unplaced (.proc p) e := ⟨seen.alike.symm, False.elim⟩
  obtain ⟨p', same, -⟩ := back.proc
  exact value p' same

private theorem ofValue (value : Value) {loc loc' : Loc} (places : exact → loc' = loc) :
    Seen exact Bound.unplaced (.ofValue value loc) (.ofValue value loc') :=
  ⟨rfl, fun sharp => by rw [places sharp]⟩

private theorem procBody {p p' : Proc} (seen : Seen exact Proc.unplaced p p') :
    Seen exact (List.map Stmt.unplaced) p.body p'.body where
  alike := by simpa [AlikeStmts, unplacedStmts_eq_map] using Proc.Alike.body seen.alike
  same sharp := by rw [seen.same sharp]

private theorem unresolved? {b b' : Bound} (seen : Seen exact Bound.unplaced b b') :
    Option.Rel (Seen exact Expr.unplaced) b.unresolved? b'.unresolved? :=
  seen.option Bound.unresolved?_unplaced

private theorem proc? {b b' : Bound} (seen : Seen exact Bound.unplaced b b') :
    Option.Rel (Seen exact Proc.unplaced) b.proc? b'.proc? :=
  seen.option Bound.proc?_unplaced

end Seen

namespace Course
variable {ι : Type}

/-- The nodes of a course ask nothing of a frame that is not seen. -/
structure Sees (course : Course ι) : Prop where
  named : ∀ {s path}, course.regime.node (.ofStmt s) → s.named? = some path →
    course.sight.names path
  whole : ∀ {s}, course.regime.node (.ofStmt s) → s.looksAround = true → course.sight.whole

private theorem Sees.procNamed {course : Course ι} (sees : course.Sees) {frame frame' : Frame}
    {e e' : Expr} (seen : course.sight.frames frame frame') (node : course.regime.node (.expr e))
    (exprs : Seen course.sight.exact Expr.unplaced e e') :
    Option.Rel course.sight.Bounds (frame.procNamed? e) (frame'.procNamed? e') := by
  cases e with
  | proc p =>
    obtain ⟨p', rfl, procs⟩ := exprs.proc
    have whole : course.sight.whole := @sees.whole (.expr (.proc p)) node rfl
    exact .some ⟨course.sight.stores_whole whole _, exprs.bound⟩
  | group inner loc =>
    obtain ⟨inner', loc', rfl, inners⟩ := exprs.group
    have within : course.regime.node (.expr inner) :=
      course.regime.inside node (List.mem_singleton_self _)
    have named := sees.procNamed seen within inners
    exact named
  | identifier name =>
    obtain ⟨name', rfl, path⟩ := exprs.identifier
    have bounds := course.sight.lookup seen (@sees.named (.expr (.identifier name)) _ node rfl)
    simp only [Frame.procNamed?, path]
    revert bounds
    generalize frame.lookup name.path = held
    generalize frame'.lookup name.path = held'
    rintro (⟨stores, same⟩ | _)
    · next bound bound' =>
      have both : bound.proc?.isSome = bound'.proc?.isSome := by
        have procs := same.proc?
        revert procs
        generalize bound.proc? = p
        generalize bound'.proc? = p'
        rintro (_ | _) <;> rfl
      simp only [both]
      split
      · exact .some ⟨stores, same⟩
      · exact .none
    · exact .none
  | literal value loc =>
    obtain ⟨loc', rfl⟩ := exprs.literal
    exact .none
  | unary op mark operand =>
    obtain ⟨mark', operand', rfl, -⟩ := exprs.unary
    exact .none
  | binary left op mark right =>
    obtain ⟨left', mark', right', rfl, -⟩ := exprs.binary
    exact .none
  | call callee args loc =>
    obtain ⟨callee', args', loc', rfl, -⟩ := exprs.call
    exact .none

/-- A property of frames that lasts on a course. -/
structure Lasts (course : Course ι) (P : Frame → Prop) : Prop where
  under : ∀ {frame}, P frame → frame.Under course.regime
  moves : ∀ {manner before after}, P before → before.Moves course.regime manner after → P after
  within : ∀ {frame} scope, P frame → P (frame.within scope)
  counts : ∀ {frame value loc} path, P frame → course.regime.node (.expr (.literal value loc)) →
    P (frame.bind path (.ofValue value loc))

/-- A property that the frames of procs and libraries have if they are entered
from frames with another one. -/
structure Enters (course : Course ι) (P Q : Frame → Prop) : Prop where
  callee : ∀ {frame copy proc args} path, P frame → frame.deeper = .ok copy →
    (Evaluation.paramPaths proc).length = args.length →
    (∀ bound ∈ args, frame.Apart (Evaluation.paramPaths proc) bound ∧
      course.regime.node bound.part) → Q (Evaluation.calleeFrame copy proc path args)
  own : ∀ {frame}, P frame →
    (frame.maxDepth.filter fun (limit : Int) => limit < (frame.depth + 1 : Nat)) = none →
      Q { depth := frame.depth + 1, maxDepth := frame.maxDepth }

/-- What is bound to nodes of the regime stays so. -/
theorem lasts_under (course : Course ι) : course.Lasts (Frame.Under course.regime) where
  under := id
  moves under moves := moves.evolves.under under
  within _ under := under
  counts _ under node := Frame.Binds.put under node

/-- What is bound in procs and libraries is of the regime if it is outside. -/
theorem enters_under (course : Course ι) :
    course.Enters (Frame.Under course.regime) (Frame.Under course.regime) where
  callee path under deeper _ fine := by
    refine Frame.Binds.bindAll (fun path bound found => ?_) fun _ _ bound member =>
      (fine bound member).2
    rw [Frame.lookup_within, Frame.lookup_deeper deeper] at found
    exact under path bound found
  own _ _ := nofun

end Course

/-- A property of frames that evaluation keeps: it holds of a frame without
bindings, outlasts settling, and outlasts the binding of parameters that the
arguments do not lead to. -/
structure Lasting (P : Frame → Prop) : Prop where
  empty : ∀ frame : Frame, frame.bindings = [] → P frame
  settles : ∀ before after : Frame, P before → before.Settles after → P after
  bindAll : ∀ (frame : Frame) (params : List Path) (args : List Bound), P frame →
    params.length = args.length → (∀ bound ∈ args, frame.Apart params bound) →
    P (frame.bindAll params args)

/-- What holds of every frame lasts. -/
theorem lasting_trivial : Lasting fun _ => True :=
  ⟨fun _ _ => trivial, fun _ _ _ _ => trivial, fun _ _ _ _ _ _ => trivial⟩

namespace Lasting
variable {ι : Type} {P : Frame → Prop} {course : Course ι}

/-- What outlasts settling lasts on a course that comes upon everything. -/
theorem lasts (lasting : Lasting P) (anything : ∀ part, course.regime.node part) :
    course.Lasts P where
  under _ _ _ _ := anything _
  moves holds moves := lasting.settles _ _ holds moves.settles
  within _ holds := lasting.settles _ _ holds (.of_lookup fun _ => rfl)
  counts _ holds _ := lasting.settles _ _ holds ((Frame.Settles.refl _).bind rfl)

/-- It holds in procs and libraries as well. -/
theorem enters (lasting : Lasting P) : course.Enters P P where
  callee {frame copy _ _} path holds deeper count fine := by
    have same : frame.Settles (copy.within path) :=
      .of_lookup fun path => Frame.lookup_deeper deeper path
    exact lasting.bindAll _ _ _ (lasting.settles _ _ holds same) count
      fun bound member => (fine bound member).1.settles same
  own _ _ := lasting.empty _ rfl

end Lasting

namespace Course
variable {ι : Type}

/-- A body, statement by statement. -/
theorem keeps_body {course : Course ι} {calm : Stop → Prop} {start : Frame}
    {inside : ι → Meaning} {stmts : List Stmt} {stmtss : ι → List Stmt}
    (seen : ∀ i, Seen course.sight.exact (List.map Stmt.unplaced) stmts (stmtss i))
    (each : ∀ s ∈ stmts, ∀ ss : ι → Stmt, (∀ i, Seen course.sight.exact Stmt.unplaced s (ss i)) →
      ∀ after, start.Moves course.regime .body after → course.Keeps calm .body after
        (fun i => ((inside i).after Room.body).stmt (ss i)) Same) :
    course.Keeps calm .body start (fun i => (inside i).body (stmtss i)) Same := by
  have ran := @keeps_forEach _ _ course calm .body start _ course.sight.exact Stmt.unplaced
    (fun i => ((inside i).after Room.body).stmt) (fun _ _ => True) stmts stmtss seen
    (fun s member ss seen after moves =>
      (each s member ss seen after moves).weaken fun _ _ _ _ _ => trivial) fun _ _ _ _ _ => trivial
  exact ran.weaken fun _ _ _ _ _ => rfl

section SameRoom
variable {course : Course ι} {calm : Stop → Prop} {manner : Manner} {start : Frame}
  {inside : ι → Meaning} {room : Nat}

/-- Meanings with the same room agree on whether there is room for some units
more. -/
theorem keeps_require (left : ∀ i, (inside i).left = room) (lacks : calm .outOfRoom)
    (units more : Nat) :
    course.Keeps calm manner start (fun i => ((inside i).after units).require more) Same := by
  simp only [Meaning.require, Meaning.after, left]
  by_cases enough : more ≤ room - units
  · simp only [if_pos enough]
    exact keeps_done ()
  · simp only [if_neg enough]
    exact keeps_stopped lacks rfl

/-- They agree on what is read from a library as well. -/
theorem keeps_readLibrary {name source : String} (left : ∀ i, (inside i).left = room)
    (lacks : calm .outOfRoom)
    (unreadable : ∀ {room failure},
      Program.parseWithin room source (Library.file name) = .error failure →
        failure.fault ≠ .parse .tooDeep → calm (.failed failure))
    (units : Nat) :
    course.Keeps calm manner start
      (fun i => Evaluation.readLibrary ((inside i).after units) name source)
      (fun program programs after => Same program programs after ∧
        ∃ room, Program.parseWithin room source (Library.file name) = .ok program) := by
  simp only [Evaluation.readLibrary, Meaning.after, left]
  cases parsed : Program.parseWithin (room - units - Room.reading) source (Library.file name) with
  | ok program => exact keeps_pure ⟨rfl, _, parsed⟩
  | error failure =>
    refine keeps_stopped ?_ ?_
    · split
      · exact lacks
      · next other => exact unreadable parsed other
    · split <;> rfl

end SameRoom

/-- A family of meanings keeps to a course on some nodes, in every frame with a
property that lasts. -/
structure Minds (course : Course ι) (calm : Stop → Prop) (P : Frame → Prop) (here : Stmt → Prop)
    (inside : ι → Meaning) : Prop where
  sees : course.Sees
  isCalm : Calm calm
  lasts : course.Lasts P
  nodes : ∀ {s}, here s → course.regime.node (.ofStmt s)
  node : ∀ units {s start} {ss : ι → Stmt}, P start → here s →
    (∀ i, Seen course.sight.exact Stmt.unplaced s (ss i)) →
      course.Keeps calm s.manner start (fun i => (inside i).node units (ss i)) Same
  /-- Whether there is room for some units more, wherever that is asked. -/
  room : ∀ units more {start}, course.Keeps calm .value start
    (fun i => ((inside i).after units).require more) Same
  /-- What is read from a library, wherever it is imported. -/
  library : ∀ units {name source start}, course.regime.imports name →
    Library.source? name = some source → course.Keeps calm .value start
      (fun i => Evaluation.readLibrary ((inside i).after units) name source)
      (fun program programs after => Same program programs after ∧
        ∀ s ∈ program.body, course.regime.node (.ofStmt s))

namespace Minds
variable {course : Course ι} {calm : Stop → Prop} {P : Frame → Prop} {here : Stmt → Prop}
  {inside : ι → Meaning} {manner : Manner} {start : Frame} {α : Type}

theorem after (minds : course.Minds calm P here inside) (units : Nat) :
    course.Minds calm P here fun i => (inside i).after units where
  sees := minds.sees
  isCalm := minds.isCalm
  lasts := minds.lasts
  nodes := minds.nodes
  node more := minds.node (more + units)
  room more further := by
    simp only [Meaning.after_after]
    exact minds.room (units + more) further
  library more := by
    simp only [Meaning.after_after]
    exact minds.library (units + more)

/-- A statement, in the room that is left. -/
theorem stmt {s : Stmt} {ss : ι → Stmt} (minds : course.Minds calm P here inside) (holds : P start)
    (ready : here s) (seen : ∀ i, Seen course.sight.exact Stmt.unplaced s (ss i)) :
    course.Keeps calm .body start (fun i => (inside i).stmt (ss i)) Same :=
  (minds.node 0 holds ready seen).mono (fun _ _ _ _ => id) (fun _ => id) (.inBody s.manner)

/-- An expression, in the room that is left. -/
theorem expr {e : Expr} {es : ι → Expr} (minds : course.Minds calm P here inside)
    (holds : P start) (ready : here (.expr e))
    (seen : ∀ i, Seen course.sight.exact Expr.unplaced e (es i)) :
    course.Keeps calm manner start (fun i => (inside i).expr (es i)) Same :=
  (minds.node 0 holds ready fun i => (seen i).ofExpr).anyhow

private theorem require {result : α → (ι → α) → Frame → Prop} {next : ι → Unit → Eval α}
    (minds : course.Minds calm P here inside) (holds : P start) (units : Nat)
    (rest : ∀ after, P after → start.Moves course.regime manner after →
      course.Keeps calm manner after (fun i => next i ()) result) :
    course.Keeps calm manner start (fun i => (inside i).require units >>= next i) result :=
  (minds.room 0 units).anyhow.bind fun _ _ after moves _ =>
    rest after (minds.lasts.moves holds moves) moves

theorem body {stmts : List Stmt} {stmtss : ι → List Stmt}
    (minds : course.Minds calm P here inside) (holds : P start) (ready : ∀ s ∈ stmts, here s)
    (seen : ∀ i, Seen course.sight.exact (List.map Stmt.unplaced) stmts (stmtss i)) :
    course.Keeps calm .body start (fun i => (inside i).body (stmtss i)) Same :=
  keeps_body seen fun s member _ seen _ moves =>
    (minds.after Room.body).stmt (minds.lasts.moves holds moves) (ready s member) seen

/-- A part on its own, where everything is to be expected. -/
theorem part (minds : course.Minds calm P here inside) (holds : P start) (ready : ∀ s, here s)
    (fine : ∀ reason, calm reason) (part : Part) :
    course.Keeps calm .body start (fun i => part.eval (inside i)) Same := by
  cases part with
  | stmt s => exact minds.stmt holds (ready s) fun _ => .refl s
  | expr e => exact minds.expr holds (ready (.expr e)) fun _ => .refl e
  | program | argList | paramList | block | token => exact keeps_stopped (fine _) rfl

/-- Whether a condition holds. -/
theorem holds {condition : Expr} {conditions : ι → Expr}
    (minds : course.Minds calm P here inside) (fine : P start) (ready : here (.expr condition))
    (seen : ∀ i, Seen course.sight.exact Expr.unplaced condition (conditions i)) :
    course.Keeps calm manner start (fun i => (inside i).holds (conditions i)) Same := by
  refine (minds.expr fine ready seen).bind ?_
  rintro value _ after moves rfl
  exact keeps_lift minds.isCalm (Eval.plain_truth value)

/-- What is to be bound may be bound, and is seen as such. -/
def Stored (course : Course ι) (bound : Bound) (bounds : ι → Bound) : Prop :=
  course.regime.node bound.part ∧ ∀ i, course.sight.Bounds bound (bounds i)

/-- An expression that is resolved now. -/
theorem eagerly {e : Expr} {es : ι → Expr} (minds : course.Minds calm P here inside)
    (holds : P start) (ready : here (.expr e))
    (seen : ∀ i, Seen course.sight.exact Expr.unplaced e (es i)) :
    course.Keeps calm manner start
      (fun i => (inside i).expr (es i) >>= fun value => pure (Bound.ofValue value (es i).loc))
      (fun bound bounds _ => bound.unresolved? = none ∧ Stored course bound bounds) := by
  refine (minds.expr holds ready seen).bind ?_
  rintro value _ after moves rfl
  refine @keeps_pure _ _ _ _ _ _ _ (Bound.ofValue value e.loc) _ ⟨rfl, ?_, fun i => ⟨?_, ?_⟩⟩
  · exact @course.regime.resolved (.expr e) value (minds.nodes ready)
  · exact course.sight.stores_value value e.loc
  · exact .ofValue value fun sharp => by rw [(seen i).same sharp]

private theorem bindable {e : Expr} {es : ι → Expr} (minds : course.Minds calm P here inside)
    (holds : P start) (ready : here (.expr e))
    (seen : ∀ i, Seen course.sight.exact Expr.unplaced e (es i)) :
    course.Keeps calm manner start (fun i => Evaluation.bindable (inside i) (es i))
      (fun bound bounds _ => bound.unresolved? = none ∧ Stored course bound bounds) := by
  have within := minds.after Room.binding
  have node : course.regime.node (.expr e) := minds.nodes ready
  have groups : ∀ i, (es i).groups = e.groups := fun i => (Expr.Alike.groups (seen i).alike).symm
  unfold Evaluation.bindable
  simp only [groups]
  refine within.require holds _ fun after holds _ => .frame_bind fun frames looks => ?_
  rcases rel_family fun i => minds.sees.procNamed (looks i) node (seen i) with
    ⟨-, unnamed⟩ | ⟨bound, bounds, named, nameds, stored⟩
  · simp only [unnamed]
    exact within.eagerly holds ready seen
  · simp only [nameds]
    exact keeps_pure ⟨Frame.resolved_of_procNamed named,
      Regime.named_node (minds.lasts.under holds) node named, stored⟩

/-- An argument is bound as it stands only if it leads to bound paths, none of
them a parameter. -/
theorem argument {e : Expr} {es : ι → Expr} (minds : course.Minds calm P here inside)
    (whole : course.sight.whole) (holds : P start) (ready : here (.expr e))
    (seen : ∀ i, Seen course.sight.exact Expr.unplaced e (es i)) (params : List Path) :
    course.Keeps calm manner start (fun i => Evaluation.argument (inside i) params (es i))
      (fun bound bounds after => after.Apart params bound ∧ Stored course bound bounds) := by
  have within := minds.after Room.argument
  have node : course.regime.node (.expr e) := minds.nodes ready
  have groups : ∀ i, (es i).groups = e.groups := fun i => (Expr.Alike.groups (seen i).alike).symm
  unfold Evaluation.argument
  simp only [groups]
  refine within.require holds _ fun after holds _ => .frame_bind fun frames looks => ?_
  have eagerly : course.Keeps calm manner after _
      (fun bound bounds after => after.Apart params bound ∧ Stored course bound bounds) :=
    (within.eagerly holds ready seen).weaken fun _ _ _ _ stored =>
      ⟨Frame.apart_of_resolved stored.1, stored.2⟩
  have reads : ∀ i, (frames i).reads? (es i) = after.reads? e := fun i =>
    ((course.sight.all whole).reads (looks i) (seen i)).symm
  rcases rel_family fun i => minds.sees.procNamed (looks i) node (seen i) with
    ⟨-, unnamed⟩ | ⟨bound, bounds, named, nameds, stored⟩
  · simp only [unnamed, reads]
    cases read : after.reads? e with
    | none => exact eagerly
    | some paths =>
      by_cases meets : paths.any params.contains = true
      · simp only [meets]
        exact eagerly
      · simp only [meets]
        exact keeps_pure ⟨Frame.apart_of_reads read meets, node,
          fun i => ⟨course.sight.stores_whole whole _, (seen i).bound⟩⟩
  · simp only [nameds]
    exact keeps_pure ⟨Frame.apart_of_resolved (Frame.resolved_of_procNamed named),
      Regime.named_node (minds.lasts.under holds) node named, stored⟩

/-- The arguments of a call are bound apart from the parameters, one after the
other. -/
theorem arguments {es : List Expr} {ess : ι → List Expr}
    (minds : course.Minds calm P here inside) (whole : course.sight.whole) (holds : P start)
    (ready : ∀ e ∈ es, here (.expr e))
    (seen : ∀ i, Seen course.sight.exact (List.map Expr.unplaced) es (ess i))
    (params : List Path) :
    course.Keeps calm manner start (fun i => Evaluation.arguments (inside i) params (ess i))
      (fun bounds boundss after =>
        (∀ bound ∈ bounds, after.Apart params bound ∧ course.regime.node bound.part) ∧
          ∀ i, Seen course.sight.exact (List.map Bound.unplaced) bounds (boundss i)) := by
  induction es generalizing start ess with
  | nil =>
    obtain rfl : ess = fun _ => [] := funext fun i => (seen i).eq_nil
    exact @keeps_pure _ _ _ _ _ _ _ [] (fun _ => []) ⟨by simp, fun _ => .refl []⟩
  | cons e es ih =>
    obtain ⟨readyFirst, readyRest⟩ := List.forall_mem_cons.mp ready
    choose firsts rests forms seenFirst seenRest using fun i => (seen i).eq_cons
    obtain rfl : ess = fun i => firsts i :: rests i := funext forms
    refine (minds.argument whole holds readyFirst seenFirst params).bind ?_
    rintro first firsts after moves ⟨apart, node, stored⟩
    refine (ih (minds.lasts.moves holds moves) readyRest seenRest).bind ?_
    rintro others otherss last further ⟨fine, seenOthers⟩
    refine keeps_pure ⟨fun bound member => ?_, fun i => (stored i).2.cons (seenOthers i)⟩
    rcases List.mem_cons.mp member with rfl | member
    · exact ⟨apart.settles further.settles, node⟩
    · exact fine bound member

section Calls
variable {caller : Frame} {callers : ι → Frame} {proc : Proc} {procs : ι → Proc}

/-- What a call leaves in its frame: the parameters that the caller has a path
for are resolved. -/
def Resolved (caller : Frame) (path : Path) (after : Frame) : Prop :=
  caller.has path = true → ∀ bound, after.lookup path = some bound → bound.unresolved? = none

/-- A parameter that the caller has a path for is resolved afterwards. -/
theorem settle {path : Path}
    (minds : course.Minds calm P (fun s => course.regime.node (.ofStmt s)) inside)
    (whole : course.sight.whole) (holds : P start)
    (outside : ∀ i, course.sight.frames caller (callers i))
    (called : course.regime.calls caller proc) (param : path ∈ Evaluation.paramPaths proc) :
    course.Keeps calm .work start (fun i => Evaluation.settle (inside i) (callers i) path)
      (fun _ _ => Resolved caller path) := by
  have named : course.sight.names path := course.sight.names_whole whole path
  have has : ∀ i, (callers i).has path = caller.has path := fun i =>
    (course.sight.has (outside i) named).symm
  unfold Evaluation.settle
  simp only [has]
  refine .frame_bind fun frames looks => ?_
  by_cases copied : caller.has path = true
  · have found : ∀ i, Option.Rel (Seen course.sight.exact Expr.unplaced)
        (start.lookup path >>= Bound.unresolved?)
        ((frames i).lookup path >>= Bound.unresolved?) := by
      intro i
      have bounds := course.sight.lookup (looks i) named
      revert bounds
      generalize start.lookup path = held
      generalize (frames i).lookup path = held'
      rintro (⟨-, same⟩ | _)
      · exact same.unresolved?
      · exact .none
    simp only [copied, if_true]
    rcases rel_family found with ⟨nothing, nothings⟩ | ⟨e, es, something, somethings, seen⟩
    · simp only [nothings]
      refine @keeps_pure _ _ _ _ _ _ _ () (fun _ => ()) fun _ bound held => ?_
      rwa [held] at nothing
    · simp only [somethings]
      obtain ⟨bound, held, unresolved⟩ := Option.bind_eq_some_iff.mp something
      obtain rfl := Bound.eq_of_unresolved unresolved
      have node : course.regime.node (.expr e) := minds.lasts.under holds path _ held
      -- The argument is still as it was written; now its value takes its place.
      refine ((minds.after Room.settling).expr holds node seen).bind ?_
      rintro value _ after moves rfl
      refine .frame_bind fun frames looks => ?_
      have places : ∀ i, course.sight.exact → (es i).loc = e.loc := fun i sharp => by
        rw [(seen i).same sharp]
      have moves : after.Moves course.regime .work (after.bind path (.ofValue value e.loc)) :=
        ⟨.settle called param copied (@course.regime.resolved (.expr e) value node),
          (Frame.Settles.refl after).bind rfl, nofun⟩
      refine (keeps_setFrame (fun i => course.sight.bind path (looks i)
        (course.sight.stores_value value e.loc) (.ofValue value (places i))) moves).weaken ?_
      rintro _ _ last _ rfl _ bound held
      rw [Frame.lookup_bind, if_pos rfl] at held
      cases held
      rfl
  · simp only [copied]
    exact @keeps_pure _ _ _ _ _ _ _ () (fun _ => ()) fun has => absurd has copied

/-- The body of a proc, after which the parameters that the caller has are
resolved. -/
theorem runBody (minds : course.Minds calm P (fun s => course.regime.node (.ofStmt s)) inside)
    (whole : course.sight.whole) (holds : P start)
    (outside : ∀ i, course.sight.frames caller (callers i))
    (called : course.regime.calls caller proc)
    (nodes : ∀ s ∈ proc.body, course.regime.node (.ofStmt s))
    (seen : ∀ i, Seen course.sight.exact Proc.unplaced proc (procs i)) :
    course.Keeps calm .work start
      (fun i => Evaluation.runBody (inside i) (callers i) (procs i))
      (fun value values after => Same value values after ∧
        ∀ path ∈ Evaluation.paramPaths proc, Resolved caller path after) := by
  have params : ∀ i, Evaluation.paramPaths (procs i) = Evaluation.paramPaths proc := fun i =>
    (Proc.Alike.paramPaths (seen i).alike).symm
  unfold Evaluation.runBody
  simp only [params]
  refine ((minds.after Room.call).body holds nodes fun i => (seen i).procBody).catchReturn.bind ?_
  rintro result _ after moves rfl
  have still := minds.lasts.moves holds moves
  have each := @keeps_forEach _ _ course calm .work after _ True id
    (fun i => Evaluation.settle (inside i) (callers i)) (Resolved caller)
    (Evaluation.paramPaths proc) (fun _ => Evaluation.paramPaths proc) (fun _ => .refl _)
    (fun path param paths same next further => ?_) ?_
  · exact each.bind fun _ _ last _ resolved => keeps_pure ⟨rfl, resolved⟩
  · obtain rfl : paths = fun _ => path := funext fun i => ((same i).same trivial).symm
    exact minds.settle whole (minds.lasts.moves still further) outside called param
  · -- While the others are resolved, this one stays so.
    intro path next last resolved further copied bound held
    rcases further.settles.settled path bound held with settled | held
    · exact settled
    · exact resolved copied bound held

end Calls

section Expressions
variable {left right : Expr} {lefts rights : ι → Expr}

/-- A call of what is built in, which works on the value of its argument. -/
theorem callBuiltin {args : List Expr} {argss : ι → List Expr}
    (minds : course.Minds calm P here inside) (holds : P start)
    (ready : ∀ e ∈ args, here (.expr e))
    (seen : ∀ i, Seen course.sight.exact (List.map Expr.unplaced) args (argss i)) (path : Path) :
    course.Keeps calm manner start (fun i => Evaluation.callBuiltin (inside i) path (argss i))
      Same := by
  have within := minds.after Room.builtin
  have wrongCount : ∀ count, course.Keeps calm manner start
      (fun _ => (Eval.fail (.wrongBuiltinCount path 1 count) : Eval Value)) Same :=
    fun count => keeps_fail minds.isCalm rfl rfl
  cases known : Evaluation.Builtin.ofPath? path with
  | none =>
    simp only [Evaluation.callBuiltin, known]
    exact keeps_fail minds.isCalm rfl rfl
  | some builtin =>
    cases args with
    | nil =>
      obtain rfl : argss = fun _ => [] := funext fun i => (seen i).eq_nil
      simp only [Evaluation.callBuiltin, known]
      exact wrongCount _
    | cons e rest =>
      choose es rests forms seenFirst seenRest using fun i => (seen i).eq_cons
      obtain rfl : argss = fun i => es i :: rests i := funext forms
      cases rest with
      | cons other more =>
        choose others mores forms _ seenMore using fun i => (seenRest i).eq_cons
        obtain rfl : rests = fun i => others i :: mores i := funext forms
        simp only [Evaluation.callBuiltin, known, List.length_cons, (seenMore _).length]
        exact wrongCount _
      | nil =>
        obtain rfl : rests = fun _ => [] := funext fun i => (seenRest i).eq_nil
        have writing : ∀ text : Value → String, course.Keeps calm manner start
            (fun i => ((inside i).after Room.builtin).expr (es i) >>= fun value =>
              Eval.write (text value) >>= fun _ => pure Value.null) Same := by
          intro text
          refine (within.expr holds (ready e List.mem_cons_self) seenFirst).bind ?_
          rintro value _ after moves rfl
          exact (keeps_write (text value)).bind fun _ _ _ _ _ => keeps_done _
        simp only [Evaluation.callBuiltin, known]
        cases builtin with
        | printval => exact writing Value.text
        | debugval => exact writing fun value => value.shown ++ "\n"
        | debug =>
          have depth : ∀ i, (es i).depth = e.depth := fun i =>
            (Expr.Alike.depth (seenFirst i).alike).symm
          have dump : ∀ i, (es i).dump = e.dump := fun i =>
            (Expr.Alike.dump (seenFirst i).alike).symm
          simp only [Evaluation.Builtin.run, depth, dump]
          exact within.require holds _ fun _ _ _ =>
            (keeps_write _).bind fun _ _ _ _ _ => keeps_done _

/-- A name stands for what it is bound to. -/
theorem identifier {name : Name} (minds : course.Minds calm P here inside) (holds : P start)
    (node : course.regime.node (.expr (.identifier name)))
    (ready : ∀ e, start.lookup name.path = some (.expr e) → here (.expr e)) :
    course.Keeps calm manner start (fun i => Evaluation.identifier (inside i) name.path) Same := by
  have named : course.sight.names name.path :=
    @minds.sees.named (.expr (.identifier name)) _ node rfl
  refine .frame_bind fun frames looks => ?_
  refine .lift_bind (fun i => course.sight.get (looks i) named)
    (minds.isCalm.plain Eval.plain_get) fun bound bounds got seen => ?_
  have held : start.lookup name.path = some bound := Frame.lookup_of_get got
  have asValue : course.Keeps calm manner start
      (fun _ => (Eval.fail (.procAsValue name.path) : Eval Value)) Same :=
    keeps_fail minds.isCalm rfl rfl
  cases bound with
  | declared inner p =>
    choose names ps forms using fun i => (seen i).2.declared
    simp only [forms]
    exact asValue
  | expr e =>
    choose es forms exprs using fun i => (seen i).2.boundExpr
    simp only [forms]
    by_cases isProc : ∃ p, e = .proc p
    · obtain ⟨p, rfl⟩ := isProc
      choose ps forms using fun i => (exprs i).proc
      simp only [(forms _).1]
      exact asValue
    · have value : ∀ i p, es i ≠ .proc p := fun i =>
        (exprs i).not_proc fun p same => isProc ⟨p, same⟩
      refine (minds.expr holds (ready e held) exprs).congr fun states _ i => ?_
      cases form : es i with
      | proc p => exact absurd form (value i p)
      | _ => rfl

private theorem operands (minds : course.Minds calm P here inside) (holds : P start)
    (ready : here (.expr left)) (ready' : here (.expr right))
    (seen : ∀ i, Seen course.sight.exact Expr.unplaced left (lefts i))
    (seen' : ∀ i, Seen course.sight.exact Expr.unplaced right (rights i)) :
    course.Keeps calm manner start (fun i => Evaluation.operands (inside i) (lefts i) (rights i))
      Same := by
  refine (minds.expr holds ready seen).bind ?_
  rintro x _ after moves rfl
  refine (minds.expr (minds.lasts.moves holds moves) ready' seen').bind ?_
  rintro y _ last further rfl
  exact keeps_done (x, y)

private theorem numbers (minds : course.Minds calm P here inside) (holds : P start)
    (ready : here (.expr left)) (ready' : here (.expr right))
    (seen : ∀ i, Seen course.sight.exact Expr.unplaced left (lefts i))
    (seen' : ∀ i, Seen course.sight.exact Expr.unplaced right (rights i)) :
    course.Keeps calm manner start (fun i => Evaluation.numbers (inside i) (lefts i) (rights i))
      Same := by
  refine (minds.operands holds ready ready' seen seen').bind ?_
  rintro values _ after moves rfl
  refine (keeps_lift minds.isCalm (Eval.plain_number values.1)).bind ?_
  rintro x _ after moves rfl
  refine (keeps_lift minds.isCalm (Eval.plain_number values.2)).bind ?_
  rintro y _ after moves rfl
  exact keeps_done (x, y)

private theorem logical (minds : course.Minds calm P here inside) (holds : P start)
    (ready : here (.expr left)) (ready' : here (.expr right))
    (seen : ∀ i, Seen course.sight.exact Expr.unplaced left (lefts i))
    (seen' : ∀ i, Seen course.sight.exact Expr.unplaced right (rights i)) (settled : Bool) :
    course.Keeps calm manner start
      (fun i => Evaluation.logical (inside i) settled (lefts i) (rights i)) Same := by
  have within := minds.after Room.logical
  refine (within.holds holds ready seen).bind ?_
  rintro truth _ after moves rfl
  by_cases same : (truth == settled) = true
  · simp only [same, if_true]
    exact keeps_done _
  · simp only [same]
    refine (within.holds (minds.lasts.moves holds moves) ready' seen').bind ?_
    rintro truth _ last further rfl
    exact keeps_done _

private theorem binary {op : BinaryOp} (minds : course.Minds calm P here inside) (holds : P start)
    (ready : here (.expr left)) (ready' : here (.expr right))
    (seen : ∀ i, Seen course.sight.exact Expr.unplaced left (lefts i))
    (seen' : ∀ i, Seen course.sight.exact Expr.unplaced right (rights i))
    (undefined : op = .modulo → ∀ cause, calm (.undefined cause)) :
    course.Keeps calm manner start (fun i => Evaluation.binary (inside i) (lefts i) op (rights i))
      Same := by
  have values : ∀ result : Value × Value → Value, course.Keeps calm manner start
      (fun i => Evaluation.operands (inside i) (lefts i) (rights i) >>= fun pair =>
        pure (result pair)) Same := by
    intro result
    refine (minds.operands holds ready ready' seen seen').bind ?_
    rintro pair _ after moves rfl
    exact keeps_done (result pair)
  have numbers : ∀ result : Float × Float → Eval Value,
      (∀ pair after, course.Keeps calm manner after (fun _ => result pair) Same) →
      course.Keeps calm manner start (fun i =>
        Evaluation.numbers (inside i) (lefts i) (rights i) >>= result) Same := by
    intro result fine
    refine (minds.numbers holds ready ready' seen seen').bind ?_
    rintro pair _ after moves rfl
    exact fine pair after
  cases op with
  | or => exact minds.logical holds ready ready' seen seen' true
  | and => exact minds.logical holds ready ready' seen seen' false
  | is | isnt => exact values _
  | less | lessEq | greater | greaterEq | add | subtract | multiply =>
    exact numbers _ fun pair after => keeps_done _
  | divide =>
    refine numbers _ fun pair after => ?_
    dsimp only [Eval.quotient]
    split
    · exact keeps_fail minds.isCalm rfl rfl
    · exact keeps_done _
  | modulo =>
    refine numbers _ fun pair after => ?_
    dsimp only [Eval.remainder]
    split
    · exact keeps_fail minds.isCalm rfl rfl
    · refine (keeps_ofArithmetic _ (undefined rfl)).bind ?_
      rintro z _ last further rfl
      exact keeps_done _

private theorem unary {e : Expr} {es : ι → Expr} {op : UnaryOp}
    (minds : course.Minds calm P here inside)
    (holds : P start) (ready : here (.expr e))
    (seen : ∀ i, Seen course.sight.exact Expr.unplaced e (es i))
    (undefined : op = .not → ∀ cause, calm (.undefined cause)) :
    course.Keeps calm manner start (fun i => (inside i).expr (es i) >>= op.apply) Same := by
  refine (minds.expr holds ready seen).bind ?_
  rintro value _ after moves rfl
  refine (keeps_lift minds.isCalm (Eval.plain_number value)).bind ?_
  rintro x _ after moves rfl
  cases op with
  | negate => exact keeps_done _
  | not =>
    refine (keeps_ofArithmetic _ (undefined rfl)).bind ?_
    rintro truth _ last further rfl
    exact keeps_done _

end Expressions

section Statements
variable {e : Expr} {es : ι → Expr} {body : List Stmt} {bodies : ι → List Stmt} {path : Path}

private theorem declare (minds : course.Minds calm P here inside) (whole : course.sight.whole)
    (holds : P start) (ready : here (.expr e))
    (seen : ∀ i, Seen course.sight.exact Expr.unplaced e (es i)) (path : Path) (constant : Bool) :
    course.Keeps calm .work start
      (fun i => Evaluation.declare (inside i) path (es i) constant) Same := by
  refine .frame_bind fun frames looks => ?_
  have free : ∀ i, (frames i).requireUnbound path = start.requireUnbound path := fun i =>
    (course.sight.requireUnbound (looks i) (course.sight.names_whole whole path)).symm
  simp only [free]
  refine .lift_same (minds.isCalm.plain Eval.plain_requireUnbound) fun _ _ => ?_
  refine (minds.bindable holds ready seen).bind ?_
  rintro bound bounds after moves ⟨resolved, node, stored⟩
  refine .frame_bind fun frames looks => ?_
  refine .lift_bind (fun i => course.sight.declare whole constant (looks i) (stored i))
    (minds.isCalm.plain Eval.plain_declare) fun declared declareds made seen => ?_
  exact .setFrame_bind seen
    (.working (.declare resolved node made) (Frame.settles_declare resolved made)) (keeps_done _)

private theorem assign (minds : course.Minds calm P here inside) (named : course.sight.names path)
    (holds : P start) (ready : here (.expr e))
    (seen : ∀ i, Seen course.sight.exact Expr.unplaced e (es i)) :
    course.Keeps calm .work start (fun i => Evaluation.assign (inside i) path (es i)) Same := by
  refine .frame_bind fun frames looks => ?_
  have assignable : ∀ i, (frames i).requireAssignable path = start.requireAssignable path :=
    fun i => (course.sight.requireAssignable (looks i) named).symm
  simp only [assignable]
  refine .lift_same (minds.isCalm.plain Eval.plain_requireAssignable) fun _ _ => ?_
  refine (minds.bindable holds ready seen).bind ?_
  rintro bound bounds after moves ⟨resolved, node, stored⟩
  refine .frame_bind fun frames looks => ?_
  refine .lift_bind (fun i => course.sight.assign (looks i) named (stored i))
    (minds.isCalm.plain Eval.plain_assign) fun assigned assigneds made seen => ?_
  refine .setFrame_bind seen
    (.working (.assign resolved node made) (Frame.settles_assign resolved made)) ?_
  refine (keeps_done bound.assigned).congr fun states _ i => ?_
  have same : (bounds i).assigned = bound.assigned := by
    rw [← Bound.assigned_unplaced, ← (stored i).2.alike, Bound.assigned_unplaced]
  rw [← same]
  cases bounds i with
  | declared => rfl
  | expr e => cases e <;> rfl

private theorem inNamespace (minds : course.Minds calm P here inside) (whole : course.sight.whole)
    (holds : P start) (ready : ∀ s ∈ body, here s)
    (seen : ∀ i, Seen course.sight.exact (List.map Stmt.unplaced) body (bodies i)) (path : Path) :
    course.Keeps calm .body start (fun i => Evaluation.inNamespace (inside i) path (bodies i))
      Same := by
  refine .frame_bind fun frames looks => ?_
  have scope : ∀ i, (frames i).qualify path = start.qualify path := fun i =>
    (congrFun (course.sight.qualify whole (looks i)) path).symm
  simp only [scope]
  have same : start.Settles (start.within (start.qualify path)) := .of_lookup fun _ => rfl
  have inner : course.Keeps calm .body start (fun i => Eval.inFrame
      ((frames i).within (start.qualify path)) (·.mergeUnder · (start.qualify path))
      ((inside i).body (bodies i))) Same := by
    refine (minds.body (minds.lasts.within _ holds) ready seen).inFrame
      (fun i => (course.sight.all whole).within _ (looks i))
      (fun outer inner => (course.sight.all whole).mergeUnder _ outer inner) ?_ ?_
    · intro _ _ after moves _
      exact ⟨⟨.inNamespace moves.evolves,
        Frame.settles_mergeUnder (same.trans moves.settles) _, nofun⟩, rfl⟩
    · intro after reason leaves
      exact ⟨.inNamespace leaves.evolves, leaves.calm, fun value returned =>
        ⟨rfl, Frame.settles_mergeUnder (same.trans (leaves.back value returned).2) _⟩⟩
  exact inner.bind fun _ _ _ _ _ => keeps_done _

/-- The variable of a counting loop is bound in a copy alone. -/
theorem round {loc : Loc} {locs : ι → Loc} (minds : course.Minds calm P here inside)
    (holds : P start) (ready : ∀ s ∈ body, here s)
    (seen : ∀ i, Seen course.sight.exact (List.map Stmt.unplaced) body (bodies i))
    (counts : course.regime.loops path)
    (stored : ∀ value, course.regime.node (.expr (.literal value loc)))
    (places : ∀ i, course.sight.exact → locs i = loc) (value : Value) :
    course.Keeps calm .body start
      (fun i => Eval.inCopy (Eval.frame >>= fun frame =>
        Eval.setFrame (frame.bind path (.ofValue value (locs i))) >>= fun _ =>
          (inside i).body (bodies i))) Same := by
  intro states there
  have bound : start.Settles (start.bind path (.ofValue value loc)) :=
    (Frame.Settles.refl start).bind rfl
  have merged : ∀ inner, (start.bind path (.ofValue value loc)).Settles inner →
      start.Settles (start.mergeExisting inner) := fun inner settles =>
    Frame.settles_mergeExisting fun path found _ held =>
      (bound.trans settles).settled path found held
  have round : course.Keeps calm .body start (fun i => Eval.inFrame
      ((states i).frame.bind path (.ofValue value (locs i))) Frame.mergeExisting
      ((inside i).body (bodies i))) Same := by
    refine (minds.body (minds.lasts.counts path holds (stored value)) ready seen).inFrame
      (fun i => course.sight.bind path (there.frames i) (course.sight.stores_value value loc)
        (.ofValue value (places i))) course.sight.mergeExisting ?_ ?_
    · intro _ _ inner moves _
      exact ⟨⟨.round counts (stored value) moves.evolves, merged inner moves.settles, nofun⟩, rfl⟩
    · intro inner reason leaves
      exact ⟨.round counts (stored value) leaves.evolves, leaves.calm, fun back returned =>
        ⟨rfl, merged inner (leaves.back back returned).2⟩⟩
  exact round states there

private theorem forRange {first last : Expr} {firsts lasts : ι → Expr} {loc : Loc} {locs : ι → Loc}
    (minds : course.Minds calm P here inside) (holds : P start) (readyFirst : here (.expr first))
    (readyLast : here (.expr last)) (ready : ∀ s ∈ body, here s)
    (seenFirst : ∀ i, Seen course.sight.exact Expr.unplaced first (firsts i))
    (seenLast : ∀ i, Seen course.sight.exact Expr.unplaced last (lasts i))
    (seen : ∀ i, Seen course.sight.exact (List.map Stmt.unplaced) body (bodies i))
    (counts : course.regime.loops path)
    (stored : ∀ value, course.regime.node (.expr (.literal value loc)))
    (places : ∀ i, course.sight.exact → locs i = loc) :
    course.Keeps calm .body start (fun i =>
      Evaluation.forRange (inside i) path (firsts i) (lasts i) (bodies i) (locs i)) Same := by
  refine (minds.expr holds readyFirst seenFirst).bind ?_
  rintro low _ after moves rfl
  have still := minds.lasts.moves holds moves
  refine (minds.expr still readyLast seenLast).bind ?_
  rintro high _ after further rfl
  have still := minds.lasts.moves still further
  by_cases skipped : (low.kind ≠ .number || high.kind ≠ .number) = true
  · simp only [if_pos skipped]
    refine minds.require still _ fun after _ _ => ?_
    exact (keeps_note (.skippedLoop loc low high) fun i sharp => by rw [places i sharp]).bind
      fun _ _ _ _ _ => keeps_done _
  · simp only [if_neg skipped]
    refine .lift_same (minds.isCalm.plain (Eval.plain_number low)) fun x _ =>
      .lift_same (minds.isCalm.plain (Eval.plain_number high)) fun y _ => ?_
    cases Number.floor? x with
    | none => exact keeps_fail minds.isCalm rfl rfl
    | some least =>
      cases Number.floor? y with
      | none => exact keeps_fail minds.isCalm rfl rfl
      | some bound =>
        refine (keeps_countUp (bound - least).toNat least fun k after moves => ?_).bind
          fun _ _ _ _ _ => keeps_done _
        exact minds.round (minds.lasts.moves still moves) ready seen counts stored places _

/-- A library runs in a frame of its own, which evolves from nothing and has
nothing unresolved in the end. -/
theorem ownFrame {own : Frame} {name source : String}
    (minds : course.Minds calm P (fun s => course.regime.node (.ofStmt s)) inside)
    (whole : course.sight.whole) (fresh : own.bindings = []) (holds : P own)
    (imported : course.regime.imports name) (known : Library.source? name = some source) :
    course.Keeps calm manner start
      (fun i => do
        let program ← Evaluation.readLibrary ((inside i).after Room.library) name source
        Eval.note (.runningLibrary name)
        return (← Eval.inOwnFrame own
          (Eval.catchReturn (((inside i).after Room.library).body program.body))).2)
      (fun library libraries _ =>
        (∃ own : Frame, own.bindings = [] ∧ own.Evolves course.regime library) ∧
        (library.Binds fun _ bound => bound.unresolved? = none) ∧
        ∀ i, course.sight.frames library (libraries i)) := by
  refine (minds.library Room.library imported known).anyhow.bind ?_
  rintro program _ middle moves ⟨rfl, nodes⟩
  refine (keeps_note (.runningLibrary name) fun _ _ => rfl).bind fun _ _ middle _ _ => ?_
  have ran := (minds.after Room.library).body holds nodes fun _ => .refl program.body
  refine (ran.catchReturn.inOwnFrame fun _ => (course.sight.all whole).refl own).bind ?_
  rintro found founds last _ ⟨moves, seen⟩
  refine @keeps_pure _ _ _ _ _ _ _ found.2 _ ⟨⟨own, fresh, moves.evolves⟩, ?_, seen⟩
  intro path bound held
  rcases moves.settles.settled path bound held with resolved | nothing
  · exact resolved
  · rw [Frame.lookup, fresh] at nothing
    cases nothing

end Statements

end Minds

/-- A family of meanings keeps to a course on what stands inside a node, and
another does on what is entered from there. -/
structure Walks (course : Course ι) (calm : Stop → Prop) (P Q : Frame → Prop) (here : Stmt → Prop)
    (inside deeper : ι → Meaning) : Prop where
  near : course.Minds calm P here inside
  far : course.Minds calm Q (fun s => course.regime.node (.ofStmt s)) deeper
  enters : course.Enters P Q

namespace Walks
variable {course : Course ι} {calm : Stop → Prop} {P Q : Frame → Prop} {here : Stmt → Prop}
  {inside deeper : ι → Meaning} {manner : Manner} {start : Frame}

theorem after (walks : course.Walks calm P Q here inside deeper) (units more : Nat) :
    course.Walks calm P Q here (fun i => (inside i).after units) fun i => (deeper i).after more :=
  ⟨walks.near.after units, walks.far.after more, walks.enters⟩

/-- A call lets the caller's frame settle: what the caller has and the body
changes is resolved, and so are the parameters that the caller has. -/
theorem invoke {proc : Proc} {procs : ι → Proc} {args : List Bound} {argss : ι → List Bound}
    (walks : course.Walks calm P Q here inside deeper) (whole : course.sight.whole)
    (refuses : ∀ fault, fault.isDepth = true → calm (.failed ⟨.eval fault, none⟩))
    (holds : P start) (called : course.regime.calls start proc)
    (nodes : ∀ s ∈ proc.body, course.regime.node (.ofStmt s))
    (fine : ∀ bound ∈ args, start.Apart (Evaluation.paramPaths proc) bound ∧
      course.regime.node bound.part)
    (seenProc : ∀ i, Seen course.sight.exact Proc.unplaced proc (procs i))
    (seenArgs : ∀ i, Seen course.sight.exact (List.map Bound.unplaced) args (argss i))
    (path : Path) :
    course.Keeps calm manner start (fun i => Evaluation.invoke (deeper i) (procs i) path (argss i))
      Same := by
  refine Keeps.anyhow ?_
  have params : ∀ i, Evaluation.paramPaths (procs i) = Evaluation.paramPaths proc := fun i =>
    (Proc.Alike.paramPaths (seenProc i).alike).symm
  unfold Evaluation.invoke
  simp only [params, (seenArgs _).length]
  by_cases count : args.length = (Evaluation.paramPaths proc).length
  · simp only [count, ne_eq, not_true_eq_false, if_false]
    refine (walks.far.room 0 Room.entering).bind fun _ _ middle moves _ => ?_
    refine .frame_bind fun callers outside => ?_
    refine .lift_bind (fun i => (course.sight.all whole).deeper (outside i))
      (fun fault refused => refuses fault (Eval.isDepth_of_deeper refused))
      fun copy copies entered seen => ?_
    -- Asking for room may have moved the frame, so what is known of the arguments is
    -- carried over to where the call is entered.
    have fine : ∀ bound ∈ args, middle.Apart (Evaluation.paramPaths proc) bound ∧
        course.regime.node bound.part := fun bound member =>
      ⟨(fine bound member).1.settles moves.settles, (fine bound member).2⟩
    have called := course.regime.calls_sameKeys (moves.keys rfl) called
    have inside :=
      walks.enters.callee path (walks.near.lasts.moves holds moves) entered count.symm fine
    refine (walks.far.runBody whole inside outside called nodes seenProc).inFrame
      (fun i => course.sight.callee whole (seen i) (seenProc i) (seenArgs i) path)
      course.sight.mergeExisting ?_ ?_
    · rintro value values after moves ⟨same, resolved⟩
      exact ⟨⟨.call called entered (fun bound member => (fine bound member).2) moves.evolves,
        Frame.settles_mergeExisting_callee entered moves.settles resolved,
        fun _ => Frame.sameKeys_mergeExisting _ _⟩, same⟩
    · intro after reason leaves
      refine ⟨.call called entered (fun bound member => (fine bound member).2) leaves.evolves,
        leaves.calm, fun value returned => ?_⟩
      cases (leaves.back value returned).1
  · simp only [count, ne_eq, not_false_eq_true, if_true]
    exact keeps_fail walks.near.isCalm rfl rfl

private theorem call {callee : Name} {args : List Expr} {argss : ι → List Expr} {loc : Loc}
    (walks : course.Walks calm P Q here inside deeper)
    (refuses : ∀ fault, fault.isDepth = true → calm (.failed ⟨.eval fault, none⟩))
    (holds : P start) (node : course.regime.node (.expr (.call callee args loc)))
    (allows : course.regime.Allows start (.expr (.call callee args loc)))
    (ready : ∀ e ∈ args, here (.expr e))
    (seen : ∀ i, Seen course.sight.exact (List.map Expr.unplaced) args (argss i)) :
    course.Keeps calm manner start
      (fun i => Nesting.call (inside i) (deeper i) callee.path (argss i)) Same := by
  refine Keeps.anyhow ?_
  unfold Nesting.call
  by_cases builtin : callee.path.head? = some Evaluation.builtinScope
  · simp only [builtin, if_true]
    exact walks.near.callBuiltin holds ready seen callee.path
  · have whole : course.sight.whole := @walks.near.sees.whole (.expr (.call callee args loc)) node
      (by simpa [Stmt.looksAround] using builtin)
    simp only [builtin, if_false]
    refine .frame_bind fun frames looks => ?_
    refine .lift_bind (fun i => course.sight.get (looks i) (course.sight.names_whole whole _))
      (walks.near.isCalm.plain Eval.plain_get) fun bound bounds got stored => ?_
    have held : start.lookup callee.path = some bound := Frame.lookup_of_get got
    rcases rel_family fun i => (stored i).2.proc? with
      ⟨-, nones⟩ | ⟨proc, procs, found, founds, seenProc⟩
    · simp only [nones]
      exact keeps_fail walks.near.isCalm rfl rfl
    · have params : ∀ i, Evaluation.paramPaths (procs i) = Evaluation.paramPaths proc := fun i =>
        (Proc.Alike.paramPaths (seenProc i).alike).symm
      have called : course.regime.calls start proc := allows.call proc (by
        rw [Stmt.callee?, if_neg builtin, held]
        exact found)
      simp only [founds, params]
      refine (walks.near.arguments whole holds ready seen _).bind ?_
      rintro args argss after moves ⟨fine, seenArgs⟩
      exact walks.invoke whole refuses (walks.near.lasts.moves holds moves)
        (course.regime.calls_sameKeys (moves.keys rfl) called)
        (Regime.proc_nodes (walks.near.lasts.under holds callee.path bound held) found) fine
        seenProc seenArgs callee.path

private theorem libraryFrame {name source : String}
    (walks : course.Walks calm P Q here inside deeper)
    (whole : course.sight.whole)
    (refuses : ∀ fault, fault.isDepth = true → calm (.failed ⟨.eval fault, none⟩))
    (holds : P start) (imported : course.regime.imports name)
    (known : Library.source? name = some source) :
    course.Keeps calm manner start (fun i => Evaluation.libraryFrame (deeper i) name source)
      (fun library libraries _ =>
        (∃ own : Frame, own.bindings = [] ∧ own.Evolves course.regime library) ∧
        (library.Binds fun _ bound => bound.unresolved? = none) ∧
        ∀ i, course.sight.frames library (libraries i)) := by
  refine .frame_bind fun frames looks => ?_
  have depths : ∀ i, (frames i).depth = start.depth := fun i =>
    ((course.sight.all whole).place (looks i)).2.1.symm
  have limits : ∀ i, (frames i).maxDepth = start.maxDepth := fun i =>
    ((course.sight.all whole).place (looks i)).2.2.symm
  simp only [depths, limits]
  cases allowed : start.maxDepth.filter fun (limit : Int) => limit < (start.depth + 1 : Nat) with
  | some limit => exact keeps_stopped (refuses (.importTooDeep limit name) rfl) rfl
  | none =>
    exact walks.far.ownFrame whole rfl (walks.enters.own holds allowed) imported known

private theorem qualified_paths (bindings : Bindings) (frame : Frame) :
    (bindings.map fun (path, _) => frame.qualify path) = bindings.paths.map frame.qualify := by
  simp [Bindings.paths]

private theorem importLibrary {name : String} (walks : course.Walks calm P Q here inside deeper)
    (whole : course.sight.whole)
    (refuses : ∀ fault, fault.isDepth = true → calm (.failed ⟨.eval fault, none⟩))
    (holds : P start) (imported : course.regime.imports name) :
    course.Keeps calm .work start (fun i => Evaluation.importLibrary (deeper i) name) Same := by
  unfold Evaluation.importLibrary
  cases known : Library.source? name with
  | none => exact keeps_fail walks.near.isCalm rfl rfl
  | some source =>
    refine (walks.libraryFrame whole refuses holds imported known).bind ?_
    rintro library libraries after moves ⟨⟨own, fresh, evolves⟩, resolved, seen⟩
    refine .frame_bind fun frames looks => ?_
    -- The members find the same paths taken, so they add the library or complain together.
    have taken : ∀ i, (((libraries i).bindings.paths.map (frames i).qualify).filter
        (frames i).has) = (library.bindings.paths.map after.qualify).filter after.has := by
      intro i
      have paths := (course.sight.all whole).paths (seen i)
      have has : (frames i).has = after.has := funext fun path =>
        (course.sight.has (looks i) (course.sight.names_whole whole path)).symm
      rw [has, ← course.sight.qualify whole (looks i), ← paths]
    simp only [qualified_paths, taken]
    by_cases free : ((library.bindings.paths.map after.qualify).filter after.has).isEmpty = true
    · have untaken : ∀ entry ∈ library.bindings, after.has (after.qualify entry.1) = false := by
        intro entry member
        have here := List.filter_eq_nil_iff.mp (List.isEmpty_iff.mp free)
          (after.qualify entry.1)
          (List.mem_map_of_mem (List.mem_map_of_mem member))
        simpa using here
      simp only [if_pos free]
      exact .setFrame_bind
        (fun i => (course.sight.all whole).addLibrary (looks i) (seen i))
        (.working (.addLibrary fresh evolves resolved untaken) (Frame.settles_addLibrary resolved))
        (keeps_done _)
    · simp only [if_neg free]
      exact keeps_fail walks.near.isCalm rfl rfl

end Walks

/-- What a course asks of a node besides being expected: that it calls, counts
and imports as expected, and that what it may stop for is calm. -/
structure Admits (course : Course ι) (calm : Stop → Prop) (frame : Frame) (s : Stmt) : Prop
    extends course.regime.Allows frame s where
  undefined : s.isPartial = true → ∀ cause, calm (.undefined cause)
  impatient : s.isWhile = true → calm .outOfPatience
  refuses : s.mayEnter = true → ∀ fault, fault.isDepth = true → calm (.failed ⟨.eval fault, none⟩)

namespace Walks
variable {course : Course ι} {calm : Stop → Prop} {P Q : Frame → Prop} {here : Stmt → Prop}
  {inside deeper : ι → Meaning} {start : Frame}

private theorem expression {e : Expr} {es : ι → Expr}
    (walks : course.Walks calm P Q here inside deeper)
    (holds : P start) (node : course.regime.node (.expr e))
    (admits : course.Admits calm start (.expr e))
    (ready : ∀ inner ∈ e.inner start, here (.expr inner))
    (seen : ∀ i, Seen course.sight.exact Expr.unplaced e (es i)) (patience : Nat) :
    course.Keeps calm .value start
      (fun i => Nesting.stmt patience (inside i) (deeper i) (.expr (es i))) Same := by
  have minds := walks.near
  cases e with
  | literal value loc =>
    choose locs forms using fun i => (seen i).literal
    simp only [forms]
    exact keeps_done value
  | identifier name =>
    choose names forms paths using fun i => (seen i).identifier
    simp only [forms, Nesting.stmt, Evaluation.stmt, Evaluation.expr, paths]
    refine minds.identifier holds node fun e held => ready e ?_
    rw [Expr.inner, held]
    exact List.mem_singleton_self e
  | group inner loc =>
    choose inners locs forms seen using fun i => (seen i).group
    simp only [forms, Nesting.stmt, Evaluation.stmt, Evaluation.expr]
    exact minds.expr holds (ready inner (List.mem_singleton_self inner)) seen
  | unary op mark operand =>
    choose marks operands forms seen using fun i => (seen i).unary
    simp only [forms, Nesting.stmt, Evaluation.stmt, Evaluation.expr]
    refine minds.unary holds (ready operand (List.mem_singleton_self operand)) seen fun isNot => ?_
    subst isNot
    exact admits.undefined rfl
  | binary left op mark right =>
    choose lefts marks rights forms seenLeft seenRight using fun i => (seen i).binary
    simp only [forms, Nesting.stmt, Evaluation.stmt, Evaluation.expr]
    refine minds.binary holds (ready left (by simp [Expr.inner]))
      (ready right (by simp [Expr.inner])) seenLeft seenRight fun isModulo => ?_
    subst isModulo
    exact admits.undefined rfl
  | call callee args loc =>
    choose callees argss locs forms paths seen using fun i => (seen i).call
    simp only [forms, Nesting.stmt, paths]
    exact walks.call (admits.refuses rfl) holds node admits.toAllows ready seen
  | proc p =>
    choose ps forms using fun i => (seen i).proc
    simp only [(forms _).1, Nesting.stmt, Evaluation.stmt, Evaluation.expr]
    exact keeps_fail minds.isCalm rfl rfl

/-- One step from meanings to meanings: what keeps to the course on what stands
inside a statement and on what it enters keeps to it on the statement. -/
theorem statement {s : Stmt} {ss : ι → Stmt} (walks : course.Walks calm P Q here inside deeper)
    (holds : P start) (node : course.regime.node (.ofStmt s)) (admits : course.Admits calm start s)
    (ready : ∀ inner ∈ s.inner start, here inner)
    (seen : ∀ i, Seen course.sight.exact Stmt.unplaced s (ss i)) (patience : Nat) :
    course.Keeps calm s.manner start
      (fun i => Nesting.stmt patience (inside i) (deeper i) (ss i)) Same := by
  have minds := walks.near
  -- What is seen of a statement fixes its form, so one case serves for all members.
  cases s with
  | expr e =>
    choose es forms seen using fun i => (seen i).expr
    simp only [forms]
    exact walks.expression holds node admits
      (fun inner member => ready _ (List.mem_map_of_mem member)) seen patience
  | importLibrary target loc =>
    choose targets locs forms texts using fun i => (seen i).importLibrary
    simp only [forms, Nesting.stmt, texts]
    exact walks.importLibrary (minds.sees.whole node rfl) (admits.refuses rfl) holds
      (admits.library target.text rfl)
  | importRelative target loc =>
    choose targets locs forms places using fun i => (seen i).importRelative
    simp only [forms, Nesting.stmt, Evaluation.stmt]
    refine minds.require holds _ fun _ _ _ => ?_
    refine (keeps_note (.ignoredImport target.text loc) fun i sharp => ?_).bind
      fun _ _ _ _ _ => keeps_done _
    rw [(places i sharp).1, (places i sharp).2]
  | inNamespace name body bodyLoc loc =>
    choose names bodies bodyLocs locs forms paths seen using fun i => (seen i).inNamespace
    simp only [forms, Nesting.stmt, Evaluation.stmt, paths]
    exact minds.inNamespace (minds.sees.whole node rfl) holds ready seen name.path
  | letDecl name value loc =>
    choose names values locs forms paths seen using fun i => (seen i).letDecl
    simp only [forms, Nesting.stmt, Evaluation.stmt, paths]
    exact minds.declare (minds.sees.whole node rfl) holds (List.forall_mem_singleton.mp ready) seen
      name.path false
  | constDecl name value loc =>
    have whole : course.sight.whole := minds.sees.whole node rfl
    choose names values locs forms paths seen using fun i => (seen i).constDecl
    simp only [forms, Nesting.stmt, Evaluation.stmt, paths]
    refine .frame_bind fun frames looks => ?_
    simp only [← course.sight.qualify whole (looks _)]
    exact minds.declare whole holds (List.forall_mem_singleton.mp ready) seen _ true
  | set name value =>
    choose names values forms paths seen using fun i => (seen i).set
    simp only [forms, Nesting.stmt, Evaluation.stmt, paths]
    exact minds.assign (minds.sees.named node rfl) holds (List.forall_mem_singleton.mp ready) seen
  | ifThen condition body bodyLoc loc =>
    obtain ⟨test, ready⟩ := List.forall_mem_cons.mp ready
    choose conditions bodies bodyLocs locs forms seenTest seen using fun i => (seen i).ifThen
    simp only [forms, Nesting.stmt, Evaluation.stmt]
    refine (minds.holds holds test seenTest).bind ?_
    rintro truth _ after moves rfl
    cases truth with
    | false => exact keeps_done _
    | true =>
      exact (minds.body (minds.lasts.moves holds moves) ready seen).inCopy.bind
        fun _ _ _ _ _ => keeps_done _
  | forRange name first last body bodyLoc loc =>
    obtain ⟨readyFirst, ready⟩ := List.forall_mem_cons.mp ready
    obtain ⟨readyLast, ready⟩ := List.forall_mem_cons.mp ready
    choose names firsts lasts bodies bodyLocs locs forms paths seenFirst seenLast seen places
      using fun i => (seen i).forRange
    simp only [forms, Nesting.stmt, Evaluation.stmt, paths]
    exact minds.forRange holds readyFirst readyLast ready seenFirst seenLast seen
      (admits.loop name.path rfl) (fun value => course.regime.resolved value node) places
  | whileTrue condition body bodyLoc loc =>
    obtain ⟨test, ready⟩ := List.forall_mem_cons.mp ready
    choose conditions bodies bodyLocs locs forms seenTest seen using fun i => (seen i).whileTrue
    simp only [forms, Nesting.stmt, Evaluation.stmt]
    refine (keeps_whileHolds patience (admits.impatient rfl)
      (fun after moves => minds.holds (minds.lasts.moves holds moves) test seenTest)
      fun after moves => ?_).bind fun _ _ _ _ _ => keeps_done _
    exact (minds.body (minds.lasts.moves holds moves) ready seen).inCopy.weaken fun _ _ _ _ _ => rfl
  | returning value loc =>
    choose values locs forms seen using fun i => (seen i).returning
    simp only [forms, Nesting.stmt, Evaluation.stmt]
    refine (minds.expr holds (List.forall_mem_singleton.mp ready) seen).bind ?_
    rintro value _ after moves rfl
    exact keeps_stop (fun _ => .refl _) (minds.isCalm.returned value) fun _ _ => rfl
  | procDecl name proc =>
    have whole : course.sight.whole := minds.sees.whole node rfl
    choose names procs forms paths seen using fun i => (seen i).procDecl
    simp only [forms, Nesting.stmt, Evaluation.stmt, paths]
    refine .frame_bind fun frames looks => ?_
    simp only [← course.sight.qualify whole (looks _)]
    refine .lift_bind (fun i => course.sight.declare whole false (looks i)
      ⟨course.sight.stores_whole whole _, seen i⟩) (minds.isCalm.plain Eval.plain_declare)
      fun declared declareds made seen => ?_
    have stored : course.regime.node (Bound.declared name proc).part := node
    exact .setFrame_bind seen (.working (.declare rfl stored made) (Frame.settles_declare rfl made))
      (keeps_done _)

end Walks

/-- What a course asks of a program whose main proc is called. -/
structure AdmitsMain (course : Course ι) (calm : Stop → Prop) (loc : Option Loc) : Prop where
  whole : course.sight.whole
  calls : ∀ frame proc, course.regime.calls frame proc
  refuses : ∀ fault, fault.isDepth = true → calm (.failed ⟨.eval fault, none⟩)
  missing : calm (.failed ⟨.eval .noMain, loc⟩)
  notProc : ∀ bound : Bound, course.regime.node bound.part → bound.proc? = none →
    calm (.failed ⟨.eval .mainNotAProc, some bound.loc⟩)

namespace Walks
variable {course : Course ι} {calm calmer : Stop → Prop} {P Q : Frame → Prop} {here : Stmt → Prop}
  {inside deeper : ι → Meaning} {start : Frame}

/-- A main proc that is asked for is called without arguments. -/
theorem callMain {loc : Option Loc} {locs : ι → Option Loc}
    (walks : course.Walks calm P Q here inside deeper) (admits : course.AdmitsMain calm loc)
    (holds : P start) (places : ∀ i, course.sight.exact → locs i = loc) {manner : Manner} :
    course.Keeps calm manner start (fun i => Program.callMain (deeper i) (locs i)) Same := by
  refine .frame_bind fun frames looks => ?_
  rcases rel_family fun i => course.sight.lookup (looks i)
    (course.sight.names_whole admits.whole Program.mainPath) with
    ⟨-, nones⟩ | ⟨bound, bounds, held, helds, stored⟩
  · simp only [nones]
    refine keeps_stop (fun i => ⟨rfl, fun sharp => ?_⟩) admits.missing nofun
    rw [places i sharp]
  · have node : course.regime.node bound.part := walks.near.lasts.under holds _ bound held
    simp only [helds]
    rcases rel_family fun i => (stored i).2.proc? with
      ⟨none, nones⟩ | ⟨proc, procs, found, founds, seen⟩
    · simp only [nones]
      refine keeps_stop (fun i => ⟨rfl, fun sharp => ?_⟩) (admits.notProc bound node none) nofun
      rw [(stored i).2.same sharp]
    · simp only [founds]
      exact walks.invoke admits.whole admits.refuses holds (admits.calls start proc)
        (Regime.proc_nodes node found) (by simp) seen (fun _ => .refl []) Program.mainPath

/-- A program: its body, and the main proc if that is asked for. -/
theorem program {program : Program} {programs : ι → Program} {withMain : Bool}
    (walks : course.Walks calmer P Q here inside inside) (inRoom : course.PartsInRoom)
    (holds : P start) (ready : ∀ s ∈ program.body, here s)
    (seen : ∀ i, Seen course.sight.exact (List.map Stmt.unplaced) program.body (programs i).body)
    (places : ∀ i, course.sight.exact → (programs i).loc = program.loc)
    (weaker : ∀ reason, reason ≠ .outOfRoom → calmer reason → calm reason)
    (reports : calmer .outOfRoom → calm (.failed ⟨.eval .nestingTooDeep, some program.loc⟩))
    (main : withMain = true → course.AdmitsMain calmer (some program.loc)) :
    course.Keeps calm .work start (fun i => (programs i).eval (inside i) withMain) Same := by
  refine Keeps.reportingRoom inRoom ?_ places weaker reports
  refine (walks.near.body holds ready seen).catchReturn.bind ?_
  rintro result _ after moves rfl
  cases withMain with
  | false => exact keeps_done result
  | true =>
    refine (walks.callMain (main rfl) (walks.near.lasts.moves holds moves)
      fun i sharp => congrArg some (places i sharp)).bind ?_
    rintro value _ last further rfl
    exact keeps_done (some value)

end Walks

end Course

end BasilLang
