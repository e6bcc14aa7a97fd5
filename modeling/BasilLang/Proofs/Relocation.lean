import BasilLang.Proofs.Feeding
import BasilLang.Proofs.Flattening
import BasilLang.Proofs.Importing
import BasilLang.Proofs.Locality

/-! A library can be imported inside a namespace. Its procs are bound under the
path of the namespace then, and those that name nothing but their parameters
work from there as they do at the top. All procs of all libraries are of this
kind but one: `pow` calls its helper by the path that the helper has at the top,
so under any other path it fails. -/
namespace BasilLang.Relocation

open Eval (placed)
open Evaluation (builtinScope paramPaths calleeFrame addLibrary call arguments invoke runBody)
open Importing (standalone atDepth allDeclared roomToImport)
open Locality (EndsAlike callOn)
open Mathematics (power place)

/-- The path of the proc that calls another. -/
def powPath : Path := ["math", "pow"]

/-- The path by which it does so. -/
def stepPath : Path := ["math", "pow_step"]

section Libraries
variable {name : String} {library : Frame} {path : Path} {bound : Bound}

/-- A path of two segments, bound to a value, to a local proc, or to `pow` beside
the proc that it calls. -/
private def fits (library : Frame) (entry : Path × Bound) : Bool :=
  entry.1.head? != some builtinScope && entry.1.length == 2 &&
    match entry.2.proc? with
    | none => true
    | some proc =>
      if entry.1 = powPath then proc = power && library.has stepPath else proc.isLocal

/-- Whether a source can be read, and all that it declares fits. -/
private def declaresFitting (file : String) (source : List Char) : Bool :=
  match Lexer.place file .first (Lexer.pieces source) >>= Program.ofTokensWithin roomToImport with
  | .ok program =>
    (allDeclared program.body {}).any fun library => library.bindings.all (fits library)
  | .error _ => false

private theorem std_declaresFitting :
    declaresFitting (Library.file "std") Library.std.toList = true := by
  unfold Library.std
  apply Lexing.holds_of_literal rfl
  decide +kernel

private theorem math_declaresFitting :
    declaresFitting (Library.file "math") Library.math.toList = true := by
  unfold Library.math
  apply Lexing.holds_of_literal rfl
  decide +kernel

private theorem known_of_standalone (alone : standalone name = some library) :
    ∃ source, Library.source? name = some source := by
  unfold standalone at alone
  cases known : Library.source? name with
  | none =>
    rw [known] at alone
    cases alone
  | some source => exact ⟨source, rfl⟩

private theorem all_fit (alone : standalone name = some library) :
    library.bindings.all (fits library) = true := by
  obtain ⟨source, known⟩ := known_of_standalone alone
  obtain ⟨program, library', declares⟩ := Importing.library_declares known
  cases declares.alone.symm.trans alone
  have fitting := Library.holds_of_known std_declaresFitting math_declaresFitting known
  have parsed : (Lexer.place (Library.file name) .first (Lexer.pieces source.toList) >>=
      Program.ofTokensWithin roomToImport) = .ok program := declares.reads _ (Nat.le_refl _)
  unfold declaresFitting at fitting
  rw [parsed] at fitting
  dsimp only at fitting
  rwa [declares.declares, Option.any_some] at fitting

/-- What a library binds has a path of two segments, and is local if it is a proc
other than `pow`. -/
theorem entry_fits (alone : standalone name = some library)
    (member : (path, bound) ∈ library.bindings) :
    path.head? ≠ some builtinScope ∧ path.length = 2 ∧ ∀ proc, bound.proc? = some proc →
      (path = powPath → proc = power ∧ library.has stepPath = true) ∧
      (path ≠ powPath → proc.isLocal = true) := by
  have fit := List.all_eq_true.mp (all_fit alone) (path, bound) member
  simp only [fits, Bool.and_eq_true, bne_iff_ne, beq_iff_eq] at fit
  obtain ⟨⟨user, length⟩, procs⟩ := fit
  refine ⟨user, length, fun proc declared => ?_⟩
  rw [declared] at procs
  by_cases isPow : path = powPath
  · simpa [isPow] using procs
  · simpa [isPow] using procs

end Libraries

section Statements
variable {name : String} {library frame : Frame} {scope : Path} {room : Nat}

/-- `import <name>` -/
def importing (name : String) : Stmt :=
  .importLibrary ⟨name, default⟩ default

/-- `namespace scope import <name> end` -/
def importingUnder (scope : Path) (name : String) : Stmt :=
  .inNamespace ⟨scope, default⟩ [importing name] default default

/-- `return path(values)` -/
def returningCall (path : Path) (values : List Value) : Stmt :=
  .returning (callOn path values default) default

/-- The note about the library in the log. -/
def noted (name : String) (console : Console) : Console :=
  { console with log := console.log.push (.runningLibrary name) }

/-- Room enough for an import. -/
def importRoom : Nat :=
  roomToImport + Room.reading + Room.library + Room.node + Room.work + 1

private theorem importing_eq (enough : importRoom ≤ room) (patience : Nat) (m : Machine) :
    ∃ left, roomToImport + Room.reading + Room.library ≤ left ∧
      (interpreter patience room).stmt (importing name) m =
        Eval.located default (Evaluation.importLibrary (interpreter patience left) name) m := by
  unfold importRoom at enough
  obtain ⟨room, rfl⟩ : ∃ inner, room = inner + 1 := ⟨room - 1, by omega⟩
  refine ⟨room - Room.node, by omega, ?_⟩
  change interpret patience (room + 1) 0 _ m = _
  rw [importing, Importing.import_reached (by omega)]

/-- Where a level is left and nothing is taken, an import adds the library. -/
theorem importing_runs (alone : standalone name = some library) (levels : frame.HasLevels 1)
    (free : ∀ entry ∈ library.bindings, frame.has (frame.qualify entry.1) = false)
    (enough : importRoom ≤ room) (patience : Nat) (console : Console) :
    (interpreter patience room).stmt (importing name) ⟨frame, console⟩ =
      (.ok .null, ⟨addLibrary frame library, noted name console⟩) := by
  obtain ⟨source, known⟩ := known_of_standalone alone
  obtain ⟨left, enough, node⟩ := importing_eq enough patience ⟨frame, console⟩
  have ran := Importing.libraryFrame_in_enough_room alone known (Importing.allowed_iff.mpr levels)
    enough patience console
  have added := Mathematics.importLibrary_eq known ran <| by
    rw [List.filter_eq_nil_iff, List.forall_mem_map]
    simpa [atDepth] using free
  rw [node, Eval.located_eq, added]
  rfl

/-- Where no level is left, an import fails, and in the same way in a copy. -/
theorem importing_fails (alone : standalone name = some library) (beyond : ¬ frame.HasLevels 1) :
    ∃ limit, ∀ copy : Frame, copy.depth = frame.depth → copy.maxDepth = frame.maxDepth →
      ∀ room ≥ importRoom, ∀ patience console,
        (interpreter patience room).stmt (importing name) ⟨copy, console⟩ =
          (.error (.failed ⟨.eval (.importTooDeep limit name), some default⟩),
            ⟨copy, console⟩) := by
  obtain ⟨source, known⟩ := known_of_standalone alone
  obtain ⟨limit, reached⟩ := Option.ne_none_iff_exists'.mp (mt Importing.allowed_iff.mp beyond)
  refine ⟨limit, fun copy depth maxDepth room enough patience console => ?_⟩
  rw [← depth, ← maxDepth] at reached
  obtain ⟨left, -, node⟩ := importing_eq enough patience ⟨copy, console⟩
  have refused := Importing.libraryFrame_beyond reached (interpreter patience left) name source
    console
  rw [node, Eval.located_eq, Evaluation.importLibrary, known]
  dsimp only
  rw [Eval.bind_of_error refused]
  rfl

/-- An import inside a namespace does in a copy of the frame, with the scope, what
it does on its own, and what is under the scope is copied back. -/
theorem importingUnder_eq {outcome : Except Stop Value} {after : Machine} {patience : Nat}
    {console : Console} (enough : importRoom + Room.body + Room.node + 1 ≤ room)
    (ran : ∀ room ≥ importRoom, (interpreter patience room).stmt (importing name)
      ⟨frame.within (frame.qualify scope), console⟩ = (outcome, after)) :
    (interpreter patience room).stmt (importingUnder scope name) ⟨frame, console⟩ =
      (placed default (outcome.map fun _ => .null),
        ⟨frame.mergeUnder after.frame (frame.qualify scope), after.console⟩) := by
  obtain ⟨room, rfl⟩ : ∃ inner, room = inner + 1 := ⟨room - 1, by omega⟩
  have inner : ((interpreter patience (room - Room.node)).after Room.body).stmt (importing name)
      ⟨frame.within (frame.qualify scope), console⟩ = (outcome, after) := by
    rw [interpreter_after]
    exact ran _ (by omega)
  have work : Room.work ≤ importRoom := by decide
  rw [importingUnder, Flattening.namespace_runs (by omega) (Flattening.body_single inner)]
  cases outcome with
  | ok => rfl
  | error reason => rfl

end Statements

section Finding
variable {library frame : Frame} {scope path : Path} {bound : Bound}

/-- A library that is added can be looked up under the scope. -/
theorem lookup_addLibrary
    (free : ∀ entry ∈ library.bindings, frame.has (frame.qualify entry.1) = false)
    (member : (path, bound) ∈ library.bindings) :
    (addLibrary frame library).lookup (frame.qualify path) = some bound := by
  rw [Frame.lookup_eq_some_iff, (Importing.adds_addLibrary free).bindings]
  exact List.mem_append_right _ (List.mem_map.mpr ⟨(path, bound), member, rfl⟩)

private theorem lookup_addLibrary_other
    (free : ∀ entry ∈ library.bindings, frame.has (frame.qualify entry.1) = false)
    (other : ∀ entry ∈ library.bindings, path ≠ frame.qualify entry.1) :
    (addLibrary frame library).lookup path = frame.lookup path := by
  rw [Frame.lookup, (Importing.adds_addLibrary free).bindings, List.lookup_append]
  refine (congrArg _ (List.lookup_eq_none_iff.mpr ?_)).trans Option.or_none
  rw [List.forall_mem_map]
  simpa using other

private theorem qualify_at_top (top : frame.scope = []) (path : Path) :
    frame.qualify path = path := by
  rw [Frame.qualify, top, List.nil_append]

private theorem lookup_at_top (top : frame.scope = [])
    (free : ∀ entry ∈ library.bindings, frame.has entry.1 = false)
    (member : (path, bound) ∈ library.bindings) :
    (addLibrary frame library).lookup path = some bound := by
  have qualified : ∀ entry ∈ library.bindings, frame.has (frame.qualify entry.1) = false := by
    simpa [qualify_at_top top] using free
  have found := lookup_addLibrary qualified member
  rwa [qualify_at_top top] at found

/-- What an import in a namespace leaves. -/
def scopeFrame (frame library : Frame) (scope : Path) : Frame :=
  frame.mergeUnder (addLibrary (frame.within scope) library) scope

section Under
variable (free : ∀ entry ∈ library.bindings, frame.has (scope ++ entry.1) = false)
include free

/-- What is copied back from inside a namespace is found there. -/
theorem lookup_under (member : (path, bound) ∈ library.bindings) :
    (scopeFrame frame library scope).lookup (scope ++ path) = some bound := by
  have inner : (addLibrary (frame.within scope) library).lookup (scope ++ path) = some bound :=
    lookup_addLibrary free member
  rw [scopeFrame, Flattening.lookup_mergeUnder_inside _ _ (by simp), inner, Option.some_or]

/-- Paths that are not longer than those of the library are left alone. -/
theorem lookup_beside (named : scope ≠ [])
    (short : ∀ entry ∈ library.bindings, path.length ≤ entry.1.length) :
    (scopeFrame frame library scope).lookup path = frame.lookup path := by
  -- What the import adds is longer by the scope.
  have other : ∀ entry ∈ library.bindings, path ≠ scope ++ entry.1 := by
    rintro entry member rfl
    have length := short entry member
    rw [List.length_append] at length
    have := List.length_pos_iff.mpr named
    omega
  have inner : (addLibrary (frame.within scope) library).lookup path = frame.lookup path :=
    lookup_addLibrary_other free other
  cases inside : scope.isPrefixOf path with
  | false => exact Frame.lookup_mergeUnder _ inside
  | true => rw [scopeFrame, Flattening.lookup_mergeUnder_inside _ _ inside, inner, Option.or_self]

end Under

end Finding

section Calls
variable {room : Nat} {path : Path}

/-- `return` passes on what its expression comes to. -/
theorem returning_eq (enough : Room.work ≤ room) (patience : Nat) (e : Expr) (loc : Loc)
    (m : Machine) :
    (interpreter patience (room + 1)).stmt (.returning e loc) m =
      (placed loc (((interpreter patience (room - Room.node)).expr e m).1 >>= fun value =>
        .error (.returned value)), ((interpreter patience (room - Room.node)).expr e m).2) := by
  have node : (interpreter patience (room + 1)).stmt (.returning e loc) =
      Eval.located loc ((interpreter patience (room - Room.node)).expr e >>= fun value =>
        Eval.stop (.returned value)) := by
    change interpret patience (room + 1) 0 _ = _
    rw [Binding.interpret_succ enough, interpreter_after]
    rfl
  rw [node, Eval.located_eq, Eval.bind_apply, Eval.bind]
  rcases (interpreter patience (room - Room.node)).expr e m with ⟨outcome, after⟩
  cases outcome with
  | ok => rfl
  | error => rfl

/-- A call of a path that is not bound fails. -/
theorem call_unbound {frame : Frame} (enough : Room.work ≤ room)
    (user : path.head? ≠ some builtinScope) (unbound : frame.lookup path = none) (args : List Expr)
    (loc argsLoc : Loc) (patience : Nat) (console : Console) :
    (interpreter patience (room + 1)).expr (.call ⟨path, loc⟩ args argsLoc) ⟨frame, console⟩ =
      (.error (.failed ⟨.eval (.undefined path), some loc⟩), ⟨frame, console⟩) := by
  have got : frame.get path = .error (.undefined path) := by rw [Frame.get, unbound]
  have failed : ∀ inside, call inside path args ⟨frame, console⟩ =
      (.error (.failed ⟨.eval (.undefined path), none⟩), ⟨frame, console⟩) := by
    intro inside
    rw [call, if_neg user]
    change (Eval.lift (frame.get path) >>= _) _ = _
    rw [got]
    rfl
  change interpret patience (room + 1) 0 _ _ = _
  rw [Binding.interpret_succ enough, Eval.located_eq]
  change (placed loc (call _ path args _).1, (call _ path args _).2) = _
  rw [failed]
  rfl

/-- Room enough to call `pow` and to come to the call in its body. -/
def powRoom : Nat :=
  Room.work + 1 + Room.node + 1 + Room.body + Room.call + Room.node

/-- What `pow` returns. -/
def stepCall : Expr :=
  .call ⟨stepPath, place 34 16⟩ [Mathematics.numberAt "1" 34 30, Mathematics.nameAt "base" 34 33,
    Mathematics.nameAt "exponent" 34 39] (place 34 29)

/-- The complaint where its helper is not bound. -/
def stepMissing : Stop :=
  .failed ⟨.eval (.undefined stepPath), some (place 34 16)⟩

section Power
variable {caller : Frame} {values : List Value} {loc : Loc} (levels : caller.HasLevels 1)
  (unbound : caller.lookup stepPath = none) (enough : powRoom ≤ room) (patience : Nat)
  (console : Console)
include unbound enough

private theorem power_body_fails :
    ((interpreter patience (room - Room.node)).after Room.call).body power.body
      ⟨caller, console⟩ = (.error stepMissing, ⟨caller, console⟩) := by
  unfold powRoom at enough
  obtain ⟨left, inBody⟩ : ∃ left, room - Room.node - Room.call - Room.body = left + 1 :=
    ⟨room - Room.node - Room.call - Room.body - 1, by omega⟩
  obtain ⟨inner, inReturn⟩ : ∃ inner, left - Room.node = inner + 1 :=
    ⟨left - Room.node - 1, by omega⟩
  have called : (interpreter patience (inner + 1)).expr stepCall ⟨caller, console⟩ =
      (.error stepMissing, ⟨caller, console⟩) :=
    call_unbound (by omega) (by decide) unbound ..
  have returned : (((interpreter patience (room - Room.node)).after Room.call).after
      Room.body).stmt (.returning stepCall (place 34 9)) ⟨caller, console⟩ =
      (.error stepMissing, ⟨caller, console⟩) := by
    rw [interpreter_after, interpreter_after, inBody, returning_eq (by omega), inReturn, called]
    rfl
  exact Flattening.body_single returned

include levels

/-- A call of `pow` comes to the call in its body, whose path is no parameter. -/
theorem invoke_power_fails {args : List Bound} (count : args.length = power.params.length)
    (path : Path) :
    (invoke (interpreter patience (room - Room.node)) power path args ⟨caller, console⟩).1 =
      .error stepMissing := by
  obtain ⟨copy, deeper, -⟩ := levels.deeper
  have inside : (calleeFrame copy power path args).lookup stepPath = none :=
    (Binding.lookup_callee deeper path args (by decide)).trans unbound
  have enters : Room.entering ≤ (interpreter patience (room - Room.node)).left := by
    have less : Room.entering + Room.node ≤ powRoom := by decide
    change Room.entering ≤ room - Room.node
    omega
  have failed := power_body_fails inside enough patience console
  have caught : Eval.catchReturn (((interpreter patience (room - Room.node)).after Room.call).body
      power.body) ⟨calleeFrame copy power path args, console⟩ =
      (.error stepMissing, ⟨calleeFrame copy power path args, console⟩) := by
    rw [Eval.catchReturn, failed]
    rfl
  have ran : runBody (interpreter patience (room - Room.node)) caller power
      ⟨calleeFrame copy power path args, console⟩ =
      (.error stepMissing, ⟨calleeFrame copy power path args, console⟩) :=
    Eval.bind_of_error caught
  rw [Locality.invoke_eq count, Meaning.require, if_pos enters]
  change ((Eval.lift caller.deeper >>= fun copy => Eval.inFrame (calleeFrame copy power path args)
    Frame.mergeExisting (runBody _ caller power)) _).1 = _
  rw [deeper]
  change (Eval.inFrame (calleeFrame copy power path args) Frame.mergeExisting
    (runBody _ caller power) _).1 = _
  rw [Eval.inFrame, ran]

private theorem power_fails {bound : Bound} (user : path.head? ≠ some builtinScope)
    (held : caller.lookup path = some bound) (declared : bound.proc? = some power)
    (count : values.length = power.params.length) :
    ((interpreter patience (room + 1)).expr (callOn path values loc) ⟨caller, console⟩).1 =
      .error stepMissing := by
  have work : Room.work ≤ room := enough.trans' (by decide)
  have looks : Room.naming 0 ≤
      ((interpreter patience (room - Room.node)).after Room.argument).left := by
    have less : Room.naming 0 + Room.argument + Room.node ≤ powRoom := by decide
    change Room.naming 0 ≤ room - Room.node - Room.argument
    omega
  have bound := Locality.arguments_literals looks (paramPaths power) values loc ⟨caller, console⟩
  have counted : (values.map (Bound.ofValue · loc)).length = power.params.length := by
    simpa using count
  have failed := invoke_power_fails levels unbound enough patience console counted path
  rw [Locality.callOn_eq work, Eval.located_eq, Locality.call_eq user held declared,
    Eval.bind_of_ok bound, failed]
  rfl

end Power

/-- No operation is built in under a path of more than two segments. -/
theorem builtin_fails {values : List Value} {loc : Loc} (enough : Room.work ≤ room)
    (builtin : path.head? = some builtinScope) (long : 2 < path.length) (patience : Nat)
    (m : Machine) :
    ((interpreter patience (room + 1)).expr (callOn path values loc) m).1 =
      .error (.failed ⟨.eval (.unknownBuiltin path), some loc⟩) := by
  have unknown : Evaluation.Builtin.ofPath? path = none := by
    have differs : ∀ first second, path ≠ [first, second] := by
      rintro first second rfl
      exact Nat.lt_irrefl 2 long
    simp [Evaluation.Builtin.ofPath?, differs]
  have failed : ∀ inside args, call inside path args m =
      (.error (.failed ⟨.eval (.unknownBuiltin path), none⟩), m) := by
    intro inside args
    rw [call, if_pos builtin, Evaluation.callBuiltin.eq_1 _ _ _ unknown]
    rfl
  rw [Locality.callOn_eq enough, Eval.located_eq, failed]
  rfl

end Calls

section Running
variable {inside : Meaning} {s : Stmt} {m after : Machine}

/-- Two runs come to the same value or fail with the same fault, and write the
same. -/
structure SameAnswer (ran ran' : Except Stop (Option Value) × Machine) : Prop where
  outcome : Eval.Agree Eq ran.1 ran'.1
  out : ran.2.console.out = ran'.2.console.out

/-- A run fails with the fault. -/
def FailsWith (ran : Except Stop (Option Value) × Machine) (fault : EvalFault) : Prop :=
  ∃ loc, ran.1 = .error (.failed ⟨.eval fault, loc⟩)

/-- A program whose first statement fails does so. -/
theorem eval_fails {failure : Failure}
    (failed : (inside.after Room.body).stmt s m = (.error (.failed failure), after))
    (file : String) (rest : List Stmt) :
    Program.eval inside ⟨file, s :: rest⟩ false m = (.error (.failed failure), after) := by
  have stopped : inside.body (s :: rest) m = (.error (.failed failure), after) := by
    rw [Meaning.body, Eval.forEach_cons]
    exact Eval.bind_of_error failed
  rw [Feeding.eval_eq, stopped]
  rfl

/-- How a program ends that returns what an expression comes to. -/
def returned (file : String) : Except Stop Value → Except Stop (Option Value)
  | .ok value => .ok (some value)
  | .error reason => Feeding.ended (.start file) (placed default (.error reason))

private theorem eval_returning {room : Nat} (enough : Room.work ≤ room) (patience : Nat)
    (file : String)
    (e : Expr) (m : Machine) :
    Program.eval (interpreter patience (room + 1 + Room.body)) ⟨file, [.returning e default]⟩ false
        m =
      (returned file ((interpreter patience (room - Room.node)).expr e m).1,
        ((interpreter patience (room - Room.node)).expr e m).2) := by
  have left : (interpreter patience (room + 1 + Room.body)).after Room.body =
      interpreter patience (room + 1) := by
    rw [interpreter_after, Nat.add_sub_cancel]
  have node := returning_eq enough patience e default m
  rw [← left] at node
  rw [Feeding.eval_eq, Flattening.body_single node]
  rcases (interpreter patience (room - Room.node)).expr e m with ⟨outcome, after⟩
  cases outcome with
  | ok => rfl
  | error reason =>
    cases reason with
    | _ => rfl

private theorem agree_trans {α : Type} {outcome middle last : Except Stop α}
    (first : Eval.Agree Eq outcome middle) (second : Eval.Agree Eq middle last) :
    Eval.Agree Eq outcome last := by
  rcases first.cases with ⟨a, _, rfl, rfl, rfl⟩ | ⟨stop, stop', rfl, rfl, alike⟩
  · exact second
  · rcases second.cases with ⟨_, _, ⟨⟩, _⟩ | ⟨_, stop'', ⟨⟩, rfl, alike'⟩
    cases alike with
    | same => exact alike'
    | failed fault loc loc' =>
      cases alike' with
      | same => exact .failed fault loc loc'
      | failed _ _ loc'' => exact .failed fault loc loc''

end Running

section Answers
variable {name : String} {library frame : Frame} {scope path : Path} {bound : Bound} {proc : Proc}
  {values : List Value} {room : Nat}

/-- `import <name>; return path(values)` -/
def atTop (name : String) (path : Path) (values : List Value) : Program :=
  ⟨"", [importing name, returningCall path values]⟩

/-- `namespace scope import <name> end; return scope.path(values)` -/
def inScope (scope : Path) (name : String) (path : Path) (values : List Value) : Program :=
  ⟨"", [importingUnder scope name, returningCall (scope ++ path) values]⟩

private theorem room_enough (enough : Room.plain ≤ room) :
    importRoom + Room.body + Room.node + 1 ≤ room - Room.body := by
  have less : importRoom + Room.body + Room.node + 1 + Room.body ≤ Room.plain := by decide
  omega

/-- A library and a namespace, in a frame at the top that has nothing bound where
the library is bound, neither at the top nor in the namespace. -/
structure Setting (name : String) (library frame : Frame) (scope : Path) : Prop where
  alone : standalone name = some library
  named : scope ≠ []
  top : frame.scope = []
  beside : ∀ entry ∈ library.bindings, frame.has entry.1 = false
  free : ∀ entry ∈ library.bindings, frame.has (scope ++ entry.1) = false

section Imports
variable (setting : Setting name library frame scope) (enough : Room.plain ≤ room) (patience : Nat)
  (console : Console)
include setting enough

/-- Where no level is left, both programs fail. -/
theorem same_failure (beyond : ¬ frame.HasLevels 1) :
    EndsAlike ((atTop name path values).eval (interpreter patience room) false ⟨frame, console⟩)
      ((inScope scope name path values).eval (interpreter patience room) false
        ⟨frame, console⟩) := by
  obtain ⟨limit, fails⟩ := importing_fails setting.alone beyond
  have enough := room_enough enough
  have first := fails frame rfl rfl (room - Room.body) (by omega) patience console
  have second := importingUnder_eq enough fun room more =>
    fails (frame.within (frame.qualify scope)) rfl rfl room more patience console
  rw [← interpreter_after] at first second
  rw [atTop, inScope, eval_fails first, eval_fails second]
  exact ⟨rfl, rfl⟩

variable (levels : frame.HasLevels 1)
include levels

/-- Where a level is left, one program goes on with the library at the top. -/
theorem atTop_eval (path : Path) (values : List Value) :
    (atTop name path values).eval (interpreter patience room) false ⟨frame, console⟩ =
      Program.eval (interpreter patience room) ⟨"", [returningCall path values]⟩ false
        ⟨addLibrary frame library, noted name console⟩ := by
  have enough := room_enough enough
  have free : ∀ entry ∈ library.bindings, frame.has (frame.qualify entry.1) = false := by
    simpa [qualify_at_top setting.top] using setting.beside
  have ran : (interpreter patience (room - Room.body)).stmt (importing name) ⟨frame, console⟩ =
      (.ok .null, ⟨addLibrary frame library, noted name console⟩) :=
    importing_runs setting.alone levels free (by omega) patience console
  rw [← interpreter_after] at ran
  exact Mathematics.eval_cons ran ..

/-- The other one goes on with the library in the namespace. -/
theorem inScope_eval (path : Path) (values : List Value) :
    (inScope scope name path values).eval (interpreter patience room) false ⟨frame, console⟩ =
      Program.eval (interpreter patience room) ⟨"", [returningCall (scope ++ path) values]⟩ false
        ⟨scopeFrame frame library scope, noted name console⟩ := by
  have inner : ∀ room ≥ importRoom, (interpreter patience room).stmt (importing name)
      ⟨frame.within (frame.qualify scope), console⟩ =
      (.ok .null, ⟨addLibrary (frame.within (frame.qualify scope)) library,
        noted name console⟩) := by
    have inside : (frame.within scope).HasLevels 1 := levels
    rw [qualify_at_top setting.top]
    exact fun room more => importing_runs setting.alone inside setting.free more patience console
  have ran := importingUnder_eq (room_enough enough) inner
  rw [← interpreter_after, qualify_at_top setting.top] at ran
  exact Mathematics.eval_cons ran ..

end Imports

private theorem returning_reached (enough : Room.plain ≤ room) :
    ∃ left, powRoom ≤ left ∧ ∀ patience e m,
      Program.eval (interpreter patience room) ⟨"", [.returning e default]⟩ false m =
        (returned "" ((interpreter patience (left + 1)).expr e m).1,
          ((interpreter patience (left + 1)).expr e m).2) := by
  have less : powRoom + 1 + Room.node + 1 + Room.body ≤ Room.plain := by decide
  have work : Room.work ≤ powRoom := by decide
  obtain ⟨left, rfl⟩ : ∃ left, room = left + 1 + Room.node + 1 + Room.body :=
    ⟨room - Room.body - 1 - Room.node - 1, by omega⟩
  refine ⟨left, by omega, fun patience e m => ?_⟩
  rw [eval_returning (by omega), Nat.add_sub_cancel]

section Calls
variable (setting : Setting name library frame scope) (enough : Room.plain ≤ room) (patience : Nat)
  (console : Console) (levels : frame.HasLevels 1) (member : (path, bound) ∈ library.bindings)
include setting enough levels member

/-- Nothing that is called under the built-in scope is found. -/
theorem fails_as_builtin (builtin : scope.head? = some builtinScope) :
    ((inScope scope name path values).eval (interpreter patience room) false
      ⟨frame, console⟩).1 =
      .error (.failed ⟨.eval (.unknownBuiltin (scope ++ path)), some default⟩) := by
  obtain ⟨left, most, reached⟩ := returning_reached enough
  have work : Room.work ≤ left := most.trans' (by decide)
  obtain ⟨-, length, -⟩ := entry_fits setting.alone member
  have long : 2 < (scope ++ path).length := by
    have := List.length_pos_iff.mpr setting.named
    rw [List.length_append]
    omega
  have head : (scope ++ path).head? = some builtinScope := by
    rw [List.head?_append_of_ne_nil scope setting.named, builtin]
  rw [inScope_eval setting enough patience console levels, returningCall, reached,
    builtin_fails work head long]
  rfl

variable (declared : bound.proc? = some proc) (count : values.length = proc.params.length)
  (user : scope.head? ≠ some builtinScope)
include declared count user

/-- A local proc gives the same answer in both programs. -/
theorem local_answers_alike (isLocal : proc.isLocal = true) :
    EndsAlike ((atTop name path values).eval (interpreter patience room) false ⟨frame, console⟩)
      ((inScope scope name path values).eval (interpreter patience room) false
        ⟨frame, console⟩) := by
  obtain ⟨left, most, reached⟩ := returning_reached enough
  have work : Room.work ≤ left := most.trans' (by decide)
  obtain ⟨own, -⟩ := entry_fits setting.alone member
  have other : (scope ++ path).head? ≠ some builtinScope := by
    rwa [List.head?_append_of_ne_nil scope setting.named]
  obtain ⟨depth, limit⟩ := Frame.addLibrary_depth frame library
  obtain ⟨depth', limit'⟩ :=
    Frame.mergeUnder_depth frame (addLibrary (frame.within scope) library) scope
  obtain ⟨outcome, written⟩ := Locality.endsAlike_callOn work patience isLocal own other
    (lookup_at_top setting.top setting.beside member) (lookup_under setting.free member) declared
    declared count (depth.trans depth'.symm) (limit.trans limit'.symm) (noted name console)
  rw [atTop_eval setting enough patience console levels,
    inScope_eval setting enough patience console levels, returningCall, returningCall, reached,
    reached]
  exact ⟨congrArg (returned "") outcome, written⟩

/-- `pow` does not find its helper in a namespace. -/
theorem power_answers (isPow : path = powPath) :
    ((inScope scope name path values).eval (interpreter patience room) false
      ⟨frame, console⟩).1 = .error stepMissing := by
  obtain ⟨left, most, reached⟩ := returning_reached enough
  obtain ⟨-, -, procs⟩ := entry_fits setting.alone member
  obtain ⟨rfl, helper⟩ := (procs proc declared).1 isPow
  have other : (scope ++ path).head? ≠ some builtinScope := by
    rwa [List.head?_append_of_ne_nil scope setting.named]
  obtain ⟨depth, limit⟩ :=
    Frame.mergeUnder_depth frame (addLibrary (frame.within scope) library) scope
  have further : (scopeFrame frame library scope).HasLevels 1 := by
    unfold scopeFrame Frame.HasLevels
    rw [depth, limit]
    exact levels
  -- The library has the helper, so its path at the top is free in the frame.
  have unbound : (scopeFrame frame library scope).lookup stepPath = none := by
    obtain ⟨step, found⟩ := Option.isSome_iff_exists.mp helper
    have missing := setting.beside _ (Frame.lookup_eq_some_iff.mp found)
    have short : ∀ entry ∈ library.bindings, stepPath.length ≤ entry.1.length :=
      fun entry held => (entry_fits setting.alone held).2.1.ge
    rw [lookup_beside setting.free setting.named short]
    exact Option.not_isSome_iff_eq_none.mp (ne_true_of_eq_false missing)
  rw [inScope_eval setting enough patience console levels, returningCall, reached,
    power_fails further unbound most patience _ other (lookup_under setting.free member) declared
      count]
  rfl

end Calls

section Places
variable {here there model model' : Program} {m : Machine} (patience room : Nat)

/-- Programs that differ from others in places only answer alike if these do. -/
theorem sameAnswer_of_endsAlike (first : AlikeStmts here.body model.body)
    (second : AlikeStmts there.body model'.body)
    (ends : EndsAlike (model.eval (interpreter patience room) false m)
      (model'.eval (interpreter patience room) false m)) :
    SameAnswer (here.eval (interpreter patience room) false m)
      (there.eval (interpreter patience room) false m) := by
  obtain ⟨agree, alike⟩ := Mirroring.mirrors_program patience room false first m m ⟨rfl, rfl⟩
  obtain ⟨agree', alike'⟩ :=
    Mirroring.mirrors_program patience room false second.symm m m ⟨rfl, rfl⟩
  refine ⟨agree_trans agree (ends.outcome ▸ agree'), ?_⟩
  rw [alike.out, ends.console, alike'.out]

private theorem failsWith_of_fails {fault : EvalFault} {loc : Option Loc}
    (second : AlikeStmts there.body model.body)
    (fails : (model.eval (interpreter patience room) false m).1 =
      .error (.failed ⟨.eval fault, loc⟩)) :
    FailsWith (there.eval (interpreter patience room) false m) fault := by
  obtain ⟨agree, -⟩ := Mirroring.mirrors_program patience room false second m m ⟨rfl, rfl⟩
  rw [fails] at agree
  rcases agree.cases with ⟨_, _, _, ⟨⟩, _⟩ | ⟨stop, _, failed, ⟨⟩, alike⟩
  cases alike with
  | same => exact ⟨loc, failed⟩
  | failed _ loc' => exact ⟨loc', failed⟩

end Places
end Answers

section Mathematics

/-- What the library `math` leaves on its own. -/
def mathFrame : Frame :=
  atDepth 0 none (Mathematics.library none 0)

private theorem standalone_math : standalone "math" = some mathFrame := by
  have known : Library.source? "math" = some Library.math := by
    rw [Library.source?, if_neg (by decide), if_pos rfl]
  obtain ⟨program, library, declares⟩ := Importing.library_declares known
  have reads := declares.reads roomToImport (Nat.le_refl _)
  rw [Mathematics.source_reads (by decide)] at reads
  cases reads
  have same : allDeclared Mathematics.program.body {} = some mathFrame := by decide +kernel
  cases declares.declares.symm.trans same
  exact declares.alone

/-- The library can be imported into the empty frame. -/
theorem math_setting (scope : Path) (named : scope ≠ []) : Setting "math" mathFrame {} scope :=
  ⟨standalone_math, named, rfl, fun _ _ => rfl, fun _ _ => rfl⟩

end Mathematics

/-- A proc of a library gives the same answer wherever the library is imported,
also where no level is left for the import. There are two exceptions. Under the
built-in scope nothing is found, and outside of the top `pow` does not find its
helper. -/
theorem library_works_wherever_it_is_imported {name : String} {library frame : Frame}
    {scope path : Path} {bound : Bound} {proc : Proc} {values : List Value} {room : Nat}
    {here there : Program} (setting : Setting name library frame scope)
    (member : (path, bound) ∈ library.bindings) (declared : bound.proc? = some proc)
    (count : values.length = proc.params.length)
    (first : AlikeStmts here.body (atTop name path values).body)
    (second : AlikeStmts there.body (inScope scope name path values).body)
    (enough : Room.plain ≤ room) (patience : Nat) (console : Console) :
    (¬ frame.HasLevels 1 ∨ scope.head? ≠ some builtinScope ∧ path ≠ powPath →
      SameAnswer (here.eval (interpreter patience room) false ⟨frame, console⟩)
        (there.eval (interpreter patience room) false ⟨frame, console⟩)) ∧
    (frame.HasLevels 1 →
      (scope.head? = some builtinScope →
        FailsWith (there.eval (interpreter patience room) false ⟨frame, console⟩)
          (.unknownBuiltin (scope ++ path))) ∧
      (scope.head? ≠ some builtinScope → path = powPath →
        FailsWith (there.eval (interpreter patience room) false ⟨frame, console⟩)
          (.undefined stepPath))) := by
  refine ⟨fun usual => ?_, fun levels => ⟨fun builtin => ?_, fun user isPow => ?_⟩⟩
  · apply sameAnswer_of_endsAlike patience room first second
    by_cases levels : frame.HasLevels 1
    · obtain ⟨user, notPow⟩ := usual.resolve_left (not_not_intro levels)
      have isLocal := ((entry_fits setting.alone member).2.2 proc declared).2 notPow
      exact local_answers_alike setting enough patience console levels member declared count user
        isLocal
    · exact same_failure setting enough patience console levels
  · exact failsWith_of_fails patience room second
      (fails_as_builtin setting enough patience console levels member builtin)
  · exact failsWith_of_fails patience room second
      (power_answers setting enough patience console levels member declared count user isPow)

/-- The arguments `2` and `3`. -/
def twoAndThree : List Value :=
  [⟨.number, "2"⟩, ⟨.number, "3"⟩]

/-- `math.max(2, 3)` and `math.pow(2, 3)` in a namespace. -/
theorem max_works_in_a_namespace_and_pow_does_not :
    Setting "math" mathFrame {} ["p"] ∧ (∃ bound, (["math", "max"], bound) ∈ mathFrame.bindings) ∧
    SameAnswer
      ((atTop "math" ["math", "max"] twoAndThree).eval (interpreter 0 Room.plain) false ⟨{}, {}⟩)
      ((inScope ["p"] "math" ["math", "max"] twoAndThree).eval (interpreter 0 Room.plain) false
        ⟨{}, {}⟩) ∧
    FailsWith
      ((inScope ["p"] "math" powPath twoAndThree).eval (interpreter 0 Room.plain) false ⟨{}, {}⟩)
      (.undefined stepPath) := by
  have setting := math_setting ["p"] nofun
  have max : (["math", "max"], _) ∈ mathFrame.bindings := List.mem_of_getElem? (i := 4) rfl
  have pow : (powPath, _) ∈ mathFrame.bindings := List.mem_of_getElem? (i := 6) rfl
  obtain ⟨same, -⟩ := library_works_wherever_it_is_imported setting max rfl
    (show twoAndThree.length = _ from rfl) rfl rfl (Nat.le_refl Room.plain) 0 {}
  obtain ⟨-, fails⟩ := library_works_wherever_it_is_imported setting pow rfl
    (show twoAndThree.length = _ from rfl) rfl rfl (Nat.le_refl Room.plain) 0 {}
  exact ⟨setting, ⟨_, max⟩, same (.inr ⟨by decide, by decide⟩), (fails nofun).2 (by decide) rfl⟩

/-- `math.pow(2, 3)` is 8 at the top, but in a namespace it fails. -/
theorem pow_fails_in_a_namespace :
    ((atTop "math" powPath twoAndThree).eval (interpreter 0 Room.plain) false ⟨{}, {}⟩).1 =
      .ok (some ⟨.number, "8"⟩) ∧
    ((inScope ["p"] "math" powPath twoAndThree).eval (interpreter 0 Room.plain) false
      ⟨{}, {}⟩).1 = .error stepMissing := by
  have setting := math_setting ["p"] nofun
  have pow : (powPath, _) ∈ mathFrame.bindings := List.mem_of_getElem? (i := 6) rfl
  constructor
  · rw [atTop_eval setting (Nat.le_refl _) 0 {} nofun]
    decide +kernel
  · exact power_answers setting (Nat.le_refl _) 0 {} nofun pow rfl rfl (by decide) rfl

end BasilLang.Relocation
