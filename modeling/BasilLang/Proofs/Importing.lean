import BasilLang.Proofs.Ending
import BasilLang.Proofs.Mathematics

/-! An import adds all of a library or nothing. The libraries only declare, so
what they leave can be told without running them, and it is the same at every
depth. A library that is imported leaves what it leaves on its own, or there is
no room for it, and then there is none whatever has been bound or written. -/
namespace BasilLang.Importing

section Declaring

mutual

/-- What a declaration of a value or a proc, or a namespace of declarations,
makes of a frame; nothing for any other statement. -/
def declared : Stmt → Frame → Option Frame
  | .constDecl name (.literal value loc) _, frame =>
    (frame.declare (frame.qualify name.path) (.ofValue value loc) true).toOption
  | .procDecl name proc, frame =>
    (frame.declare (frame.qualify name.path) (.declared name proc) false).toOption
  | .inNamespace name body _ _, frame =>
    (allDeclared body (frame.within (frame.qualify name.path))).map
      (frame.mergeUnder · (frame.qualify name.path))
  | _, _ => none

/-- What declarations in order make of a frame. -/
def allDeclared : List Stmt → Frame → Option Frame
  | [], frame => some frame
  | s :: rest, frame => (declared s frame).bind (allDeclared rest)

end

mutual

/-- Room enough for a declaration. -/
def roomToDeclare : Stmt → Nat
  | .inNamespace _ body _ _ => roomToDeclareAll body + Room.body + Room.node + Room.work + 1
  | _ => Room.work + 1 + Room.binding + Room.node + 1

/-- Room enough for each of the declarations. -/
def roomToDeclareAll : List Stmt → Nat
  | [] => 0
  | s :: rest => max (roomToDeclare s) (roomToDeclareAll rest)

end

variable {frame after : Frame} {path : Path} {bound : Bound} {constant : Bool}

private theorem declare_of_toOption
    (declares : (frame.declare path bound constant).toOption = some after) :
    frame.declare path bound constant = .ok after := by
  cases found : frame.declare path bound constant with
  | error fault =>
    rw [found] at declares
    cases declares
  | ok added =>
    rw [found] at declares
    cases declares
    rfl

private theorem bindable_literal {room : Nat} (enough : Room.work + 1 + Room.binding ≤ room)
    (patience : Nat) (value : Value) (loc : Loc) (m : Machine) :
    Evaluation.bindable (interpreter patience room) (.literal value loc) m =
      (.ok (.ofValue value loc), m) := by
  obtain ⟨left, within⟩ : ∃ left, room - Room.binding = left + 1 :=
    ⟨room - Room.binding - 1, by omega⟩
  have named : Room.naming 0 ≤ left + 1 := by
    change 4 ≤ left + 1
    have : 6 + 1 + Room.binding ≤ room := enough
    omega
  have resolved : (interpreter patience (left + 1)).expr (.literal value loc) m =
      (.ok value, m) := by
    change interpret patience (left + 1) 0 _ m = _
    rw [Binding.interpret_succ (by omega)]
    rfl
  rw [Evaluation.bindable, interpreter_after, within]
  have reached : (interpreter patience (left + 1)).require (Room.naming 0) m = (.ok (), m) := by
    rw [Meaning.require, if_pos (show _ ≤ (interpreter patience (left + 1)).left from named)]
    rfl
  exact (Eval.bind_of_ok reached).trans (Eval.bind_of_ok resolved)

private theorem node_runs {s : Stmt} {room : Nat} {frame after : Frame} {console : Console}
    {patience : Nat} (enough : Room.work ≤ room)
    (ran : Evaluation.stmt patience (interpreter patience (room - s.units)) s ⟨frame, console⟩ =
      (.ok .null, ⟨after, console⟩)) :
    (interpreter patience (room + 1)).stmt s ⟨frame, console⟩ = (.ok .null, ⟨after, console⟩) := by
  change interpret patience (room + 1) 0 s ⟨frame, console⟩ = _
  rw [Binding.interpret_succ enough, interpreter_after, Eval.located_eq, ran]
  rfl

mutual

/-- A declaration does what is told of it. -/
theorem declared_runs (s : Stmt) {frame after : Frame} (declares : declared s frame = some after)
    {room : Nat} (enough : roomToDeclare s ≤ room) (patience : Nat) (console : Console) :
    (interpreter patience room).stmt s ⟨frame, console⟩ = (.ok .null, ⟨after, console⟩) := by
  match s with
  | .constDecl name (.literal value valueLoc) loc =>
    have enough : Room.work + 1 + Room.binding + Room.node + 1 ≤ room := enough
    obtain ⟨room, rfl⟩ : ∃ inner, room = inner + 1 := ⟨room - 1, by omega⟩
    apply node_runs (by omega)
    have stores := declare_of_toOption declares
    have free := Frame.unbound_of_declare stores
    change (Eval.lift (frame.requireUnbound (frame.qualify name.path)) >>= fun _ => _) _ = _
    rw [free]
    refine (Eval.bind_of_ok (bindable_literal ?_ patience value valueLoc _)).trans ?_
    · change _ ≤ room - Room.node
      omega
    · change (Eval.lift (frame.declare (frame.qualify name.path) _ true) >>= fun _ => _) _ = _
      rw [stores]
      rfl
  | .procDecl name proc =>
    have enough : Room.work + 1 + Room.binding + Room.node + 1 ≤ room := enough
    obtain ⟨room, rfl⟩ : ∃ inner, room = inner + 1 := ⟨room - 1, by omega⟩
    apply node_runs (by omega)
    change (Eval.lift (frame.declare (frame.qualify name.path) _ false) >>= fun _ => _) _ = _
    rw [declare_of_toOption declares]
    rfl
  | .inNamespace name body bodyLoc loc =>
    rw [roomToDeclare] at enough
    obtain ⟨room, rfl⟩ : ∃ inner, room = inner + 1 := ⟨room - 1, by omega⟩
    apply node_runs (by omega)
    obtain ⟨inner, inside, rfl⟩ := Option.map_eq_some_iff.mp declares
    have ran := allDeclared_runs body inside (show _ ≤ room - Room.node by omega) patience console
    change (Eval.inFrame _ _ ((interpreter patience (room - Room.node)).body body) >>= fun _ => _)
      _ = _
    rw [Eval.bind_apply, Eval.bind, Eval.inFrame, ran]
    rfl

private theorem allDeclared_runs (body : List Stmt) {frame after : Frame}
    (declares : allDeclared body frame = some after) {room : Nat}
    (enough : roomToDeclareAll body + Room.body ≤ room) (patience : Nat) (console : Console) :
    (interpreter patience room).body body ⟨frame, console⟩ = (.ok (), ⟨after, console⟩) := by
  match body with
  | [] =>
    cases declares
    rfl
  | s :: rest =>
    rw [roomToDeclareAll] at enough
    obtain ⟨middle, first, others⟩ := Option.bind_eq_some_iff.mp declares
    have ran := declared_runs s first (show roomToDeclare s ≤ room - Room.body by omega) patience
      console
    rw [Meaning.body, interpreter_after, Eval.forEach_cons, Eval.bind_of_ok ran,
      ← interpreter_after]
    exact allDeclared_runs rest others (by omega) patience console

end

private theorem allDeclared_yields (body : List Stmt) {frame after : Frame}
    (declares : allDeclared body frame = some after) :
    frame.Yields (fun inside => inside.body body) (.ok ()) after :=
  ⟨_, fun _ enough => allDeclared_runs body declares enough⟩

end Declaring

section Levels

/-- The same bindings and constants at another depth. -/
def atDepth (depth : Nat) (maxDepth : Option Int) (frame : Frame) : Frame :=
  { frame with depth, maxDepth }

variable (depth : Nat) (maxDepth : Option Int) {frame after : Frame}

private theorem declare_atDepth {path : Path} {bound : Bound} {constant : Bool}
    (declares : (frame.declare path bound constant).toOption = some after) :
    ((atDepth depth maxDepth frame).declare path bound constant).toOption =
      some (atDepth depth maxDepth after) := by
  have required : frame.requireUnbound path = .ok () :=
    Frame.unbound_of_declare (declare_of_toOption declares)
  have free : (atDepth depth maxDepth frame).requireUnbound path = .ok () := required
  unfold Frame.declare at declares ⊢
  rw [required] at declares
  rw [free]
  cases declares
  cases constant with
  | false => rfl
  | true => rfl

mutual

/-- Declarations do the same at every depth. -/
theorem declared_atDepth (s : Stmt) {frame after : Frame}
    (declares : declared s frame = some after) :
    declared s (atDepth depth maxDepth frame) = some (atDepth depth maxDepth after) := by
  match s with
  | .constDecl name (.literal value valueLoc) loc =>
    exact declare_atDepth depth maxDepth declares
  | .procDecl name proc => exact declare_atDepth depth maxDepth declares
  | .inNamespace name body bodyLoc loc =>
    obtain ⟨inner, inside, rfl⟩ := Option.map_eq_some_iff.mp declares
    have deeper : allDeclared body (atDepth depth maxDepth
        (frame.within (frame.qualify name.path))) = _ := allDeclared_atDepth body inside
    have merged := Frame.mergeUnder_hom (atDepth depth maxDepth) (fun _ _ _ => rfl)
      (fun _ _ => rfl) frame inner (frame.qualify name.path)
    rw [← merged]
    exact congrArg (Option.map _) deeper

private theorem allDeclared_atDepth (body : List Stmt) {frame after : Frame}
    (declares : allDeclared body frame = some after) :
    allDeclared body (atDepth depth maxDepth frame) = some (atDepth depth maxDepth after) := by
  match body with
  | [] =>
    cases declares
    rfl
  | s :: rest =>
    obtain ⟨middle, first, others⟩ := Option.bind_eq_some_iff.mp declares
    rw [allDeclared, declared_atDepth s first]
    exact allDeclared_atDepth rest others

end

end Levels

section Rooms
variable {frame after : Frame} {body : List Stmt} {outcome : Except Stop Unit}

/-- What a body yields with enough room it also does with less, or else it runs
out of room, whatever has been written. -/
theorem body_in_any_room (yields : frame.Yields (fun inside => inside.body body) outcome after)
    (patience room : Nat) :
    (∀ console, ((interpreter patience room).body body ⟨frame, console⟩).1 = .error .outOfRoom) ∨
      ∀ console, (interpreter patience room).body body ⟨frame, console⟩ =
        (outcome, ⟨after, console⟩) := by
  by_cases lacks : ∃ console,
      ((interpreter patience room).body body ⟨frame, console⟩).1 = .error .outOfRoom
  · obtain ⟨console', lacks⟩ := lacks
    refine .inl fun console => ?_
    have keeps := @Narrowing.body_in_less_room False _ _ patience (Nat.le_refl room) body frame
    rcases @Narrowing.ends_in_less_room _ _ _ _ _ keeps console console' nofun with
      lacking | ⟨same, -⟩
    · exact lacking
    · exact same.trans lacks
  · obtain ⟨enough, ran⟩ := yields
    refine .inr fun console => ?_
    have keeps := @Narrowing.body_in_less_room True _ _ patience (Nat.le_max_left room enough) body
      frame
    rcases @Narrowing.same_in_less_room _ _ _ ⟨frame, console⟩ keeps with lacking | same
    · exact absurd ⟨console, lacking⟩ lacks
    · exact same.trans (ran (max room enough) (Nat.le_max_right room enough) patience console)

end Rooms

section Libraries
variable {name source : String} {program : Program} {library : Frame}

/-- The frame that a library leaves when its source is run as a program of its
own, in an empty frame. -/
def standalone (name : String) : Option Frame :=
  match Library.source? name with
  | none => none
  | some source =>
    match runSource source (Library.file name) false 0 ⟨{}, {}⟩ with
    | (.ok _, after) => some after.frame
    | (.error _, _) => none

/-- Room enough to read every library and to run it. -/
def roomToImport : Nat := 50

/-- Whether a source can be read and run in this room, and declares something
and nothing else. -/
private def onlyDeclares (file : String) (source : List Char) : Bool :=
  match Lexer.place file .first (Lexer.pieces source) >>= Program.ofTokensWithin roomToImport with
  | .ok program => roomToDeclareAll program.body + Room.body ≤ roomToImport &&
      (allDeclared program.body {}).any fun library => !library.bindings.isEmpty
  | .error _ => false

private theorem std_onlyDeclares :
    onlyDeclares (Library.file "std") Library.std.toList = true := by
  unfold Library.std
  apply Lexing.holds_of_literal rfl
  decide +kernel

private theorem math_onlyDeclares :
    onlyDeclares (Library.file "math") Library.math.toList = true := by
  unfold Library.math
  apply Lexing.holds_of_literal rfl
  decide +kernel

private theorem standalone_eq (known : Library.source? name = some source)
    (reads : Program.parseWithin Room.source source (Library.file name) = .ok program)
    (ran : (interpreter patience Room.plain).body program.body ⟨{}, {}⟩ =
      (.ok (), ⟨library, {}⟩)) : standalone name = some library := by
  have parsed : Eval.parsing source (Library.file name) = pure program := by
    rw [Eval.parsing, reads]
  have inside : Eval.meaningFor 0 = pure (interpreter patience Room.plain) := rfl
  have caught : Eval.catchReturn ((interpreter patience Room.plain).body program.body) ⟨{}, {}⟩ =
      (.ok none, ⟨library, {}⟩) := by
    rw [Eval.catchReturn, ran]
  have evaluated : program.eval (interpreter patience Room.plain) false ⟨{}, {}⟩ =
      (.ok none, ⟨library, {}⟩) := by
    rw [Program.eval, Eval.reportingRoom, Eval.bind_of_ok caught]
    rfl
  have run : runSource source (Library.file name) false 0 ⟨{}, {}⟩ =
      (.ok .null, ⟨library, {}⟩) := by
    rw [runSource, parsed, inside]
    exact Eval.bind_of_ok evaluated
  rw [standalone, known]
  dsimp only
  rw [run]

/-- The program of a library, and the frame that it leaves on its own. -/
structure Declares (name source : String) (program : Program) (library : Frame) : Prop where
  reads : ∀ room ≥ roomToImport,
    Program.parseWithin room source (Library.file name) = .ok program
  enough : roomToDeclareAll program.body + Room.body ≤ roomToImport
  declares : allDeclared program.body {} = some library
  filled : library.bindings ≠ []
  alone : standalone name = some library

/-- Every library consists of declarations, and there are some. -/
theorem library_declares (known : Library.source? name = some source) :
    ∃ program library, Declares name source program library := by
  have checked := Library.holds_of_known std_onlyDeclares math_onlyDeclares known
  unfold onlyDeclares at checked
  split at checked
  · next program parsed =>
    obtain ⟨enough, checked⟩ := Bool.and_eq_true_iff.mp checked
    have enough : roomToDeclareAll program.body + Room.body ≤ roomToImport := by simpa using enough
    cases found : allDeclared program.body {} with
    | none =>
      rw [found] at checked
      cases checked
    | some library =>
      rw [found] at checked
      have filled : library.bindings ≠ [] := by simpa using checked
      have least : Program.parseWithin roomToImport source (Library.file name) = .ok program :=
        parsed
      have reads : ∀ room ≥ roomToImport,
          Program.parseWithin room source (Library.file name) = .ok program := by
        intro room more
        rcases Narrowing.source_in_less_room more source (Library.file name) with
          same | ⟨loc, lacks⟩
        · exact same.symm.trans least
        · cases least.symm.trans lacks
      have runs := allDeclared_runs _ found (show _ ≤ Room.plain from enough.trans (by decide))
        patience {}
      exact ⟨program, library, reads, enough, found, filled,
        standalone_eq known (reads Room.source (by decide)) runs⟩
  · cases checked

/-- In less room a library is read all the same, or it cannot be read. -/
theorem Declares.reads_or_lacks (declares : Declares name source program library) (room : Nat) :
    Program.parseWithin room source (Library.file name) = .ok program ∨
      ∃ loc, Program.parseWithin room source (Library.file name) =
        .error ⟨.parse .tooDeep, loc⟩ := by
  have enough := declares.reads (max room roomToImport) (Nat.le_max_right _ _)
  rw [← enough]
  exact Narrowing.source_in_less_room (Nat.le_max_left _ _) source (Library.file name)

end Libraries

section Loading
variable {name source : String} {program : Program} {library : Frame} {inside : Meaning}
  {patience room depth : Nat} {maxDepth : Option Int}

/-- Wherever it is imported at the depth, the library leaves the same frame. -/
def Loads (inside : Meaning) (name source : String) (depth : Nat) (maxDepth : Option Int)
    (library : Frame) : Prop :=
  ∀ (frame : Frame) console, frame.depth = depth → frame.maxDepth = maxDepth → ∃ written,
    Evaluation.libraryFrame inside name source ⟨frame, console⟩ = (.ok library, ⟨frame, written⟩)

/-- The room is used up, or there is a complaint about the place. -/
def Raised (place : Option Loc) (reason : Stop) : Prop :=
  reason = .outOfRoom ∨ ∃ fault, reason = .failed ⟨.eval fault, place⟩

/-- Wherever it is imported at the depth, the library does not come to its
end. -/
def Refuses (inside : Meaning) (name source : String) (depth : Nat) (maxDepth : Option Int) :
    Prop :=
  ∀ (frame : Frame) console, frame.depth = depth → frame.maxDepth = maxDepth → ∃ reason written,
    Evaluation.libraryFrame inside name source ⟨frame, console⟩ =
      (.error reason, ⟨frame, written⟩) ∧ Raised none reason

/-- No library is run beyond the limit. -/
theorem libraryFrame_beyond {frame : Frame} {limit : Int}
    (beyond : (frame.maxDepth.filter fun (limit : Int) => limit < (frame.depth + 1 : Nat)) =
      some limit) (inside : Meaning) (name source : String) (console : Console) :
    Evaluation.libraryFrame inside name source ⟨frame, console⟩ =
      (.error (.failed ⟨.eval (.importTooDeep limit name), none⟩), ⟨frame, console⟩) := by
  have current : Eval.frame ⟨frame, console⟩ = (.ok frame, ⟨frame, console⟩) := rfl
  rw [Evaluation.libraryFrame, Eval.bind_of_ok current]
  dsimp only
  rw [beyond]
  rfl

private theorem refuses_beyond {limit : Int}
    (beyond : (maxDepth.filter fun (limit : Int) => limit < (depth + 1 : Nat)) = some limit) :
    Refuses inside name source depth maxDepth := by
  rintro frame console rfl rfl
  exact ⟨_, console, libraryFrame_beyond beyond inside name source console, .inr ⟨_, rfl⟩⟩

private theorem refuses_unread {loc : Option Loc}
    (allowed : (maxDepth.filter fun (limit : Int) => limit < (depth + 1 : Nat)) = none)
    (lacks : Program.parseWithin ((inside.after Room.library).after Room.reading).left source
      (Library.file name) = .error ⟨.parse .tooDeep, loc⟩) :
    Refuses inside name source depth maxDepth := by
  rintro frame console rfl rfl
  have current : Eval.frame ⟨frame, console⟩ = (.ok frame, ⟨frame, console⟩) := rfl
  have unread : Evaluation.readLibrary (inside.after Room.library) name source =
      Eval.stop .outOfRoom := by
    rw [Evaluation.readLibrary, lacks]
    rfl
  refine ⟨.outOfRoom, console, ?_, .inl rfl⟩
  rw [Evaluation.libraryFrame, Eval.bind_of_ok current]
  dsimp only
  rw [allowed, unread]
  rfl

section Read
variable (allowed : (maxDepth.filter fun (limit : Int) => limit < (depth + 1 : Nat)) = none)
  (reads : Program.parseWithin ((inside.after Room.library).after Room.reading).left source
    (Library.file name) = .ok program)
include allowed reads

private theorem refuses_unfinished
    (lacks : ∀ console, ((inside.after Room.library).body program.body
      ⟨{ depth := depth + 1, maxDepth }, console⟩).1 = .error .outOfRoom) :
    Refuses inside name source depth maxDepth := by
  rintro frame console rfl rfl
  have unfinished := lacks { console with log := console.log.push (.runningLibrary name) }
  rw [Mathematics.libraryFrame_eq allowed reads]
  rcases ran : (inside.after Room.library).body program.body
    ⟨{ depth := frame.depth + 1, maxDepth := frame.maxDepth },
      { console with log := console.log.push (.runningLibrary name) }⟩ with ⟨outcome, after⟩
  rw [ran] at unfinished
  obtain rfl : outcome = .error .outOfRoom := unfinished
  refine ⟨.outOfRoom, after.console, Eval.bind_of_error ?_, .inl rfl⟩
  simp only [Eval.inOwnFrame, Eval.catchReturn, ran]

private theorem libraryFrame_finished
    (ran : ∀ console, (inside.after Room.library).body program.body
      ⟨{ depth := depth + 1, maxDepth }, console⟩ = (.ok (), ⟨library, console⟩))
    {frame : Frame} (depths : frame.depth = depth) (limits : frame.maxDepth = maxDepth)
    (console : Console) :
    Evaluation.libraryFrame inside name source ⟨frame, console⟩ = (.ok library,
      ⟨frame, { console with log := console.log.push (.runningLibrary name) }⟩) := by
  subst depths limits
  rw [Mathematics.libraryFrame_eq allowed reads, Eval.bind_apply, Eval.bind, Eval.inOwnFrame,
    Eval.catchReturn, ran]
  rfl

private theorem loads_finished
    (ran : ∀ console, (inside.after Room.library).body program.body
      ⟨{ depth := depth + 1, maxDepth }, console⟩ = (.ok (), ⟨library, console⟩)) :
    Loads inside name source depth maxDepth library :=
  fun _ console depths limits => ⟨_, libraryFrame_finished allowed reads ran depths limits console⟩

end Read

/-- What a library leaves on its own it leaves wherever it is imported, unless
it is refused at the depth and in the room. -/
theorem loads_or_refuses (known : Library.source? name = some source) :
    ∃ library, standalone name = some library ∧ library.bindings ≠ [] ∧
      ∀ patience room depth maxDepth,
        Refuses (interpreter patience room) name source depth maxDepth ∨
        Loads (interpreter patience room) name source depth maxDepth
          (atDepth (depth + 1) maxDepth library) := by
  obtain ⟨program, library, declares⟩ := library_declares known
  refine ⟨library, declares.alone, declares.filled, fun patience room depth maxDepth => ?_⟩
  cases allowed : maxDepth.filter fun (limit : Int) => limit < (depth + 1 : Nat) with
  | some limit => exact .inl (refuses_beyond allowed)
  | none =>
    rcases declares.reads_or_lacks
      (((interpreter patience room).after Room.library).after Room.reading).left with
      reads | ⟨loc, lacks⟩
    · have own := allDeclared_yields _
        (allDeclared_atDepth (depth + 1) maxDepth _ declares.declares)
      rcases body_in_any_room own patience (room - Room.library) with lacks | ran
      · refine .inl (refuses_unfinished allowed reads ?_)
        rw [interpreter_after]
        exact lacks
      · refine .inr (loads_finished allowed reads ?_)
        rw [interpreter_after]
        exact ran
    · exact .inl (refuses_unread allowed lacks)

/-- A library is run where a level is left. -/
theorem allowed_iff {frame : Frame} :
    (frame.maxDepth.filter fun (limit : Int) => limit < (frame.depth + 1 : Nat)) = none ↔
      frame.HasLevels 1 := by
  simp [Option.filter_eq_none_iff, Frame.HasLevels]

/-- Below the limit, a library leaves wherever it runs what it leaves on its own,
and a note in the log. -/
theorem libraryFrame_in_enough_room (alone : standalone name = some library)
    (known : Library.source? name = some source) {frame : Frame}
    (allowed : (frame.maxDepth.filter fun (limit : Int) => limit < (frame.depth + 1 : Nat)) = none)
    (enough : roomToImport + Room.reading + Room.library ≤ room) (patience : Nat)
    (console : Console) :
    Evaluation.libraryFrame (interpreter patience room) name source ⟨frame, console⟩ =
      (.ok (atDepth (frame.depth + 1) frame.maxDepth library),
        ⟨frame, { console with log := console.log.push (.runningLibrary name) }⟩) := by
  obtain ⟨program, library', declares⟩ := library_declares known
  cases declares.alone.symm.trans alone
  have reads := declares.reads
    (((interpreter patience room).after Room.library).after Room.reading).left
    (show _ ≤ room - Room.library - Room.reading by omega)
  have deeper := allDeclared_atDepth (frame.depth + 1) frame.maxDepth _ declares.declares
  refine libraryFrame_finished allowed reads (fun console => ?_) rfl rfl console
  rw [interpreter_after]
  exact allDeclared_runs _ deeper (declares.enough.trans (by omega)) patience console

/-- With a level and enough room left, a library is loaded. -/
theorem loads_in_enough_room (alone : standalone name = some library)
    (known : Library.source? name = some source) {frame : Frame} (levels : frame.HasLevels 1) :
    ∃ enough, ∀ room ≥ enough, ∀ patience,
      Loads (interpreter patience room) name source frame.depth frame.maxDepth
        (atDepth (frame.depth + 1) frame.maxDepth library) := by
  have allowed := allowed_iff.mpr levels
  refine ⟨roomToImport + Room.reading + Room.library, ?_⟩
  intro room enough patience other console depths limits
  rw [← depths, ← limits] at allowed ⊢
  exact ⟨_, libraryFrame_in_enough_room alone known allowed enough patience console⟩

end Loading

section Adding
variable {frame library after : Frame}

/-- The frame has all of the entries under its scope, where nothing was bound
before, with the constants among them, and is otherwise unchanged. -/
structure Adds (frame : Frame) (entries : Bindings) (constant : Path → Bool) (after : Frame) :
    Prop extends frame.SamePlace after where
  free : ∀ entry ∈ entries, frame.has (frame.qualify entry.1) = false
  bindings : after.bindings =
    frame.bindings ++ entries.map fun (path, bound) => (frame.qualify path, bound)
  constants : ∀ entry ∈ entries, after.isConstant (frame.qualify entry.1) = constant entry.1
  others : ∀ path, (∀ entry ∈ entries, path ≠ frame.qualify entry.1) →
    after.isConstant path = frame.isConstant path

private theorem put_of_free {bindings : Bindings} {path : Path} (free : path ∉ bindings.paths)
    (bound : Bound) : bindings.put path bound = bindings ++ [(path, bound)] := by
  induction bindings with
  | nil => rfl
  | cons entry rest ih =>
    have differs : ¬ entry.1 = path := fun same => free (same ▸ List.mem_cons_self)
    have others : path ∉ Bindings.paths rest := fun member => free (List.mem_cons_of_mem _ member)
    rw [Bindings.put, if_neg differs, ih others]
    rfl

/-- A path that is bound afresh, as a constant or not. -/
private def bindAs (frame : Frame) (path : Path) (bound : Bound) (constant : Bool) : Frame :=
  if constant then (frame.bind path bound).markConstant path else frame.bind path bound

private theorem samePlace_bindAs (frame : Frame) (path : Path) (bound : Bound) (constant : Bool) :
    frame.SamePlace (bindAs frame path bound constant) := by
  cases constant with
  | false => exact ⟨rfl, rfl, rfl⟩
  | true => exact ⟨rfl, rfl, rfl⟩

private theorem qualify_bindAs (frame : Frame) (path : Path) (bound : Bound) (constant : Bool)
    (other : Path) : (bindAs frame path bound constant).qualify other = frame.qualify other := by
  rw [Frame.qualify, (samePlace_bindAs frame path bound constant).scope, Frame.qualify]

private theorem qualify_ne {entries : Bindings} {path : Path} (apart : path ∉ entries.paths)
    {entry : Path × Bound} (member : entry ∈ entries) :
    frame.qualify entry.1 ≠ frame.qualify path := by
  intro same
  have equal : entry.1 = path := List.append_cancel_left same
  exact apart (equal ▸ List.mem_map_of_mem member)

private theorem bindings_bindAs (path : Path) (bound : Bound) (constant : Bool) :
    (bindAs frame path bound constant).bindings = frame.bindings.put path bound := by
  cases constant with
  | false => rfl
  | true => rfl

private theorem has_bindAs {path other : Path} (differs : other ≠ path) (bound : Bound)
    (constant : Bool) : (bindAs frame path bound constant).has other = frame.has other := by
  have has : (bindAs frame path bound constant).has other = (frame.put path bound).has other := by
    simp [Frame.has, Frame.lookup, bindings_bindAs, Frame.put]
  rw [has, Frame.has_put]
  simp [differs]

private theorem has_other {entries : Bindings} {path : Path} (apart : path ∉ entries.paths)
    {entry : Path × Bound} (member : entry ∈ entries) (bound : Bound) (constant : Bool) :
    (bindAs frame (frame.qualify path) bound constant).has
        ((bindAs frame (frame.qualify path) bound constant).qualify entry.1) =
      frame.has (frame.qualify entry.1) := by
  rw [qualify_bindAs, has_bindAs (qualify_ne apart member)]

private theorem isConstant_bindAs (path : Path) (bound : Bound) (constant : Bool) (other : Path) :
    (bindAs frame path bound constant).isConstant other =
      if other = path then constant else frame.isConstant other := by
  by_cases same : other = path
  · cases constant <;> simp [bindAs, same, Frame.isConstant_bind, Frame.isConstant_markConstant]
  · have unlike : (other == path) = false := beq_eq_false_iff_ne.mpr same
    cases constant <;>
      simp [bindAs, same, unlike, Frame.isConstant_bind, Frame.isConstant_markConstant]

private theorem Adds.cons {entries : Bindings} {constant : Path → Bool} {path : Path}
    {bound : Bound} (apart : path ∉ entries.paths)
    (here : frame.has (frame.qualify path) = false)
    (rest : Adds (bindAs frame (frame.qualify path) bound (constant path)) entries constant after) :
    Adds frame ((path, bound) :: entries) constant after := by
  have qualify := qualify_bindAs frame (frame.qualify path) bound (constant path)
  have fresh : frame.qualify path ∉ frame.bindings.paths := by
    rw [Frame.mem_paths_iff, here]
    nofun
  constructor
  · exact (samePlace_bindAs ..).trans rest.toSamePlace
  · refine List.forall_mem_cons.mpr ⟨here, fun entry member => ?_⟩
    exact (has_other apart member bound _).symm.trans (rest.free entry member)
  · rw [rest.bindings, bindings_bindAs, put_of_free fresh, List.append_assoc]
    simp only [qualify]
    rfl
  · refine List.forall_mem_cons.mpr ⟨?_, fun entry member => ?_⟩
    · rw [rest.others, isConstant_bindAs, if_pos rfl]
      intro entry member
      rw [qualify]
      exact (qualify_ne apart member).symm
    · rw [← qualify]
      exact rest.constants entry member
  · intro other elsewhere
    obtain ⟨unlike, elsewhere⟩ := List.forall_mem_cons.mp elsewhere
    rw [rest.others other, isConstant_bindAs, if_neg unlike]
    intro entry member
    rw [qualify]
    exact elsewhere entry member

/-- If no path is taken, a library is added as a whole. -/
theorem adds_addLibrary
    (free : ∀ entry ∈ library.bindings, frame.has (frame.qualify entry.1) = false) :
    Adds frame library.bindings library.isConstant (Evaluation.addLibrary frame library) := by
  unfold Evaluation.addLibrary
  have distinct : library.bindings.paths.Nodup := library.distinct
  generalize library.bindings = entries at free distinct ⊢
  induction entries generalizing frame with
  | nil => exact ⟨.refl frame, nofun, (List.append_nil _).symm, nofun, fun _ _ => rfl⟩
  | cons entry entries ih =>
    obtain ⟨path, bound⟩ := entry
    obtain ⟨apart, distinct⟩ : path ∉ Bindings.paths entries ∧ (Bindings.paths entries).Nodup :=
      List.nodup_cons.mp distinct
    obtain ⟨here, free⟩ := List.forall_mem_cons.mp free
    rw [List.foldl_cons]
    refine .cons apart here (ih (fun other member => ?_) distinct)
    -- The paths of a library are different, so the others are still free.
    exact (has_other apart member bound _).trans (free other member)

end Adding

section Nodes
variable {name source : String} {inside : Meaning} {frame library after : Frame}

private theorem import_refused (known : Library.source? name = some source)
    (refuses : Refuses inside name source frame.depth frame.maxDepth) (console : Console) :
    ∃ reason written, Evaluation.importLibrary inside name ⟨frame, console⟩ =
      (.error reason, ⟨frame, written⟩) ∧ Raised none reason := by
  obtain ⟨reason, written, ran, raised⟩ := refuses frame console rfl rfl
  refine ⟨reason, written, ?_, raised⟩
  rw [Evaluation.importLibrary, known]
  exact Eval.bind_of_error ran

private theorem import_loaded (known : Library.source? name = some source)
    (loads : Loads inside name source frame.depth frame.maxDepth library) (console : Console) :
    ∃ written, Evaluation.importLibrary inside name ⟨frame, console⟩ =
      if (library.bindings.paths.map frame.qualify).filter frame.has = [] then
        (.ok .null, ⟨Evaluation.addLibrary frame library, written⟩)
      else (.error (.failed ⟨.eval (.importCollision name
        ((library.bindings.paths.map frame.qualify).filter frame.has)), none⟩),
        ⟨frame, written⟩) := by
  obtain ⟨written, ran⟩ := loads frame console rfl rfl
  have current : Eval.frame ⟨frame, written⟩ = (.ok frame, ⟨frame, written⟩) := rfl
  refine ⟨written, ?_⟩
  rw [Evaluation.importLibrary, known]
  dsimp only
  rw [Eval.bind_of_ok ran, Eval.bind_of_ok current]
  have qualified : (library.bindings.map fun (path, _) => frame.qualify path) =
      library.bindings.paths.map frame.qualify := by
    rw [Bindings.paths, List.map_map]
    rfl
  rw [qualified]
  by_cases free : (library.bindings.paths.map frame.qualify).filter frame.has = []
  · rw [if_pos free, free]
    rfl
  · rw [if_neg free, if_neg (by simpa using free)]
    rfl

private theorem none_taken_iff :
    (library.bindings.paths.map frame.qualify).filter frame.has = [] ↔
      ∀ entry ∈ library.bindings, frame.has (frame.qualify entry.1) = false := by
  rw [List.filter_eq_nil_iff, Bindings.paths, List.map_map, List.forall_mem_map]
  simp

private theorem all_taken {constant : Path → Bool}
    (adds : Adds frame library.bindings constant after) :
    (library.bindings.paths.map after.qualify).filter after.has =
      library.bindings.paths.map frame.qualify := by
  have qualify : after.qualify = frame.qualify := by
    funext path
    rw [Frame.qualify, adds.scope, Frame.qualify]
  rw [qualify, List.filter_eq_self]
  intro path member
  rw [← Frame.mem_paths_iff, Bindings.paths, adds.bindings, List.map_append, List.map_map]
  refine List.mem_append_right _ ?_
  rw [Bindings.paths, List.map_map] at member
  exact member

private theorem import_again {constant : Path → Bool} (known : Library.source? name = some source)
    (loads : Loads inside name source frame.depth frame.maxDepth library)
    (filled : library.bindings ≠ []) (adds : Adds frame library.bindings constant after)
    (console : Console) :
    ∃ written, Evaluation.importLibrary inside name ⟨after, console⟩ =
      (.error (.failed ⟨.eval (.importCollision name (library.bindings.paths.map frame.qualify)),
        none⟩), ⟨after, written⟩) := by
  have still : Loads inside name source after.depth after.maxDepth library := by
    rw [adds.depth, adds.maxDepth]
    exact loads
  obtain ⟨written, ran⟩ := import_loaded known still console
  rw [all_taken adds, if_neg (by simpa [Bindings.paths] using filled)] at ran
  exact ⟨written, ran⟩

private theorem importLibrary_adds_or_fails (patience room : Nat) (name : String) (m : Machine) :
    (∃ reason after, Evaluation.importLibrary (interpreter patience room) name m =
        (.error reason, after) ∧ Raised none reason ∧ after.frame = m.frame) ∨
    ∃ library after, standalone name = some library ∧
      Evaluation.importLibrary (interpreter patience room) name m = (.ok .null, after) ∧
      Adds m.frame library.bindings library.isConstant after.frame ∧
      ∃ last, Evaluation.importLibrary (interpreter patience room) name after =
        (.error (.failed ⟨.eval (.importCollision name
          (library.bindings.paths.map m.frame.qualify)), none⟩), last) ∧
        last.frame = after.frame := by
  cases known : Library.source? name with
  | none =>
    have unknown : Evaluation.importLibrary (interpreter patience room) name m =
        (.error (.failed ⟨.eval (.unknownLibrary name), none⟩), m) := by
      rw [Evaluation.importLibrary, known]
      rfl
    exact .inl ⟨_, _, unknown, .inr ⟨_, rfl⟩, rfl⟩
  | some source =>
    obtain ⟨library, alone, filled, either⟩ := loads_or_refuses known
    rcases either patience room m.frame.depth m.frame.maxDepth with refuses | loads
    · obtain ⟨reason, written, refused, raised⟩ := import_refused known refuses m.console
      exact .inl ⟨_, _, refused, raised, rfl⟩
    · obtain ⟨written, ran⟩ := import_loaded known loads m.console
      by_cases free : (library.bindings.paths.map m.frame.qualify).filter m.frame.has = []
      · have adds : Adds m.frame library.bindings library.isConstant (Evaluation.addLibrary m.frame
            (atDepth (m.frame.depth + 1) m.frame.maxDepth library)) :=
          adds_addLibrary (none_taken_iff.mp free)
        obtain ⟨written', again⟩ := import_again known loads filled adds written
        exact .inr ⟨library, _, alone, ran.trans (if_pos free), adds, _, again, rfl⟩
      · exact .inl ⟨_, _, ran.trans (if_neg free), .inr ⟨_, rfl⟩, rfl⟩

private theorem located_refused {act : Eval Value} {m after : Machine} {reason : Stop} (loc : Loc)
    (ran : act m = (.error reason, after)) (raised : Raised none reason) :
    ∃ reason, act.located loc m = (.error reason, after) ∧ Raised (some loc) reason := by
  rw [Eval.located_eq, ran]
  rcases raised with rfl | ⟨fault, rfl⟩
  · exact ⟨.outOfRoom, rfl, .inl rfl⟩
  · exact ⟨.failed ⟨.eval fault, some loc⟩, rfl, .inr ⟨fault, rfl⟩⟩

/-- With enough room, an import is carried out. -/
theorem import_reached {left : Nat} (enough : Room.work ≤ left) (patience : Nat)
    (name : String) (nameLoc loc : Loc) :
    interpret patience (left + 1) 0 (.importLibrary ⟨name, nameLoc⟩ loc) =
      Eval.located loc
        (Evaluation.importLibrary (interpreter patience (left - Room.node)) name) := by
  rw [Binding.interpret_succ enough, interpreter_after]
  rfl

private theorem import_node (patience room units : Nat) (name : String) (nameLoc loc : Loc) :
    interpret patience room units (.importLibrary ⟨name, nameLoc⟩ loc) = Eval.stop .outOfRoom ∨
    ∃ left, interpret patience room units (.importLibrary ⟨name, nameLoc⟩ loc) =
      Eval.located loc (Evaluation.importLibrary (interpreter patience left) name) := by
  rw [Binding.interpret_units]
  cases room - units with
  | zero => exact .inl rfl
  | succ left =>
    by_cases enough : Room.work ≤ left
    · exact .inr ⟨_, import_reached enough patience name nameLoc loc⟩
    · left
      rw [interpret, if_pos (Nat.not_le.mp enough)]

end Nodes

/-- An import fails and leaves the frame as it was, or it adds everything that
the library leaves on its own, and can then not be repeated. Every library
leaves something, and its import succeeds wherever a level is left and nothing
of it is taken. -/
theorem import_adds_all_or_nothing (name : String) (nameLoc loc : Loc) :
    (∀ patience room units m,
      (∃ reason after, interpret patience room units (.importLibrary ⟨name, nameLoc⟩ loc) m =
          (.error reason, after) ∧ Raised (some loc) reason ∧ after.frame = m.frame) ∨
      ∃ library after, standalone name = some library ∧
        interpret patience room units (.importLibrary ⟨name, nameLoc⟩ loc) m = (.ok .null, after) ∧
        Adds m.frame library.bindings library.isConstant after.frame ∧
        ∃ last, interpret patience room units (.importLibrary ⟨name, nameLoc⟩ loc) after =
          (.error (.failed ⟨.eval (.importCollision name
            (library.bindings.paths.map m.frame.qualify)), some loc⟩), last) ∧
          last.frame = after.frame) ∧
    ((Library.source? name).isSome = true →
      ∃ library, standalone name = some library ∧ library.bindings ≠ [] ∧
        ∀ frame : Frame, frame.HasLevels 1 →
          (∀ entry ∈ library.bindings, frame.has (frame.qualify entry.1) = false) →
          ∃ enough, ∀ room ≥ enough, ∀ patience console,
            (interpret patience room 0 (.importLibrary ⟨name, nameLoc⟩ loc) ⟨frame, console⟩).1 =
              .ok .null) := by
  constructor
  · intro patience room units m
    rcases import_node patience room units name nameLoc loc with stops | ⟨left, node⟩
    · rw [stops]
      exact .inl ⟨.outOfRoom, m, rfl, .inl rfl, rfl⟩
    · rw [node]
      rcases importLibrary_adds_or_fails patience left name m with
        ⟨reason, after, failed, raised, same⟩ |
        ⟨library, after, alone, ran, adds, last, again, same⟩
      · obtain ⟨reason, located, raised⟩ := located_refused loc failed raised
        exact .inl ⟨reason, after, located, raised, same⟩
      · refine .inr ⟨library, after, alone, ?_, adds, last, ?_, same⟩
        · rw [Eval.located_eq, ran]
          rfl
        · rw [Eval.located_eq, again]
          rfl
  · intro isKnown
    obtain ⟨source, known⟩ := Option.isSome_iff_exists.mp isKnown
    obtain ⟨library, alone, filled, -⟩ := loads_or_refuses known
    refine ⟨library, alone, filled, fun frame levels free => ?_⟩
    obtain ⟨enough, loads⟩ := loads_in_enough_room alone known levels
    refine ⟨enough + Room.node + Room.work + 1, fun room more patience console => ?_⟩
    obtain ⟨left, rfl⟩ : ∃ left, room = left + 1 := ⟨room - 1, by omega⟩
    obtain ⟨written, ran⟩ :=
      import_loaded known (loads (left - Room.node) (by omega) patience) console
    rw [import_reached (by omega), Eval.located_eq, ran.trans (if_pos (none_taken_iff.mpr free))]
    rfl

/-- A frame two levels deep, in a scope of its own. -/
def appFrame : Frame where
  bindings := [(["x"], .ofValue ⟨.number, "1"⟩ default)]
  distinct := by decide
  constants := [["x"]]
  scope := ["app"]
  depth := 2
  maxDepth := some 3

theorem std_is_added_under_its_scope :
    (Library.source? "std").isSome = true ∧ appFrame.HasLevels 1 ∧
      ∃ library patience room after, standalone "std" = some library ∧ library.bindings ≠ [] ∧
        interpret patience room 0 (.importLibrary ⟨"std", default⟩ default) ⟨appFrame, {}⟩ =
          (.ok .null, after) ∧
        Adds appFrame library.bindings library.isConstant after.frame ∧
        ∃ last, interpret patience room 0 (.importLibrary ⟨"std", default⟩ default) after =
          (.error (.failed ⟨.eval (.importCollision "std"
            (library.bindings.paths.map appFrame.qualify)), some default⟩), last) ∧
          last.frame = after.frame := by
  have levels : appFrame.HasLevels 1 := by
    rintro limit ⟨⟩
    decide
  have free : ∀ path, appFrame.has (appFrame.qualify path) = false := by
    intro path
    simp [appFrame, Frame.has, Frame.lookup, Frame.qualify]
  obtain ⟨either, succeeds⟩ := import_adds_all_or_nothing "std" default default
  obtain ⟨library, alone, filled, succeeds⟩ := succeeds rfl
  obtain ⟨enough, runs⟩ := succeeds appFrame levels fun entry _ => free entry.1
  refine ⟨rfl, levels, library, 0, enough, ?_⟩
  have ran := runs enough (Nat.le_refl enough) 0 {}
  rcases either 0 enough 0 ⟨appFrame, {}⟩ with
    ⟨reason, after, failed, -⟩ | ⟨library', after, same, added, adds, again⟩
  · rw [failed] at ran
    cases ran
  · cases alone.symm.trans same
    exact ⟨after, alone, filled, added, adds, again⟩

end BasilLang.Importing
