import BasilLang.Proofs.Actions

/-! What evaluation can do to the keys of a frame, however it ends. Most nodes
work on the frame they are given only through copies, of which nothing but the
bindings of old keys comes back, so the keys and the constants are exactly what
they were. Declarations, namespaces and imports add to both and take nothing
away. Hence a path that was free before its value was evaluated is still free
afterwards, and one that could be assigned to still can. -/
namespace BasilLang

namespace Frame

/-- Every constant is bound. -/
def ConstantsBound (frame : Frame) : Prop :=
  ∀ path, frame.isConstant path = true → frame.has path = true

/-- The place of a frame among the others: its scope, its depth and the limit
of its depth. -/
structure SamePlace (before after : Frame) : Prop where
  scope : after.scope = before.scope
  depth : after.depth = before.depth
  maxDepth : after.maxDepth = before.maxDepth

/-- The same paths are bound and the same paths are constants. -/
structure SameKeys (before after : Frame) : Prop extends SamePlace before after where
  has : ∀ path, after.has path = before.has path
  isConstant : ∀ path, after.isConstant path = before.isConstant path

/-- Paths that are bound stay bound, constants stay constants, and every
constant is bound. -/
structure Grows (before after : Frame) : Prop extends SamePlace before after where
  has : ∀ path, before.has path = true → after.has path = true
  isConstant : ∀ path, before.isConstant path = true → after.isConstant path = true
  constantsBound : after.ConstantsBound

/-- How frames change in which every constant is bound. -/
def Thrives (before after : Frame) : Prop :=
  before.ConstantsBound → before.Grows after

section Keys
variable {frame before middle after inner : Frame} {path other : Path} {bound : Bound}

theorem SamePlace.refl (frame : Frame) : frame.SamePlace frame :=
  ⟨rfl, rfl, rfl⟩

theorem SamePlace.trans (first : before.SamePlace middle) (second : middle.SamePlace after) :
    before.SamePlace after :=
  ⟨second.scope.trans first.scope, second.depth.trans first.depth,
    second.maxDepth.trans first.maxDepth⟩

theorem SameKeys.refl (frame : Frame) : frame.SameKeys frame :=
  ⟨.refl frame, fun _ => rfl, fun _ => rfl⟩

theorem SameKeys.trans (first : before.SameKeys middle) (second : middle.SameKeys after) :
    before.SameKeys after :=
  ⟨first.toSamePlace.trans second.toSamePlace,
    fun path => (second.has path).trans (first.has path),
    fun path => (second.isConstant path).trans (first.isConstant path)⟩

private theorem SameKeys.grows (same : before.SameKeys after) (sound : before.ConstantsBound) :
    before.Grows after := by
  constructor
  · exact same.toSamePlace
  · intro path held
    rw [same.has, held]
  · intro path constant
    rw [same.isConstant, constant]
  · intro path constant
    rw [same.isConstant] at constant
    rw [same.has]
    exact sound path constant

private theorem Grows.trans (first : before.Grows middle) (second : middle.Grows after) :
    before.Grows after :=
  ⟨first.toSamePlace.trans second.toSamePlace,
    fun path held => second.has path (first.has path held),
    fun path constant => second.isConstant path (first.isConstant path constant),
    second.constantsBound⟩

/-- Putting a binding at a path takes that path and frees none. -/
theorem has_put (frame : Frame) (path : Path) (bound : Bound) (other : Path) :
    (frame.put path bound).has other = (other == path || frame.has other) := by
  by_cases same : other = path
  · simp [has, same]
  · simp [has, same]

theorem isConstant_markConstant (frame : Frame) (path other : Path) :
    (frame.markConstant path).isConstant other = (other == path || frame.isConstant other) := by
  rw [Bool.eq_iff_iff]
  simp [markConstant, isConstant]

/-- A path that becomes constant stays bound as it was. -/
theorem lookup_markConstant (frame : Frame) (path other : Path) :
    (frame.markConstant path).lookup other = frame.lookup other := rfl

/-- A path that is bound anew is no constant any more. -/
theorem isConstant_bind (frame : Frame) (path : Path) (bound : Bound) (other : Path) :
    (frame.bind path bound).isConstant other = (other != path && frame.isConstant other) := by
  rw [Bool.eq_iff_iff]
  simp [bind, isConstant, and_comm]

/-- Binding a path without touching the constants. -/
theorem Grows.put (sound : frame.ConstantsBound) (path : Path) (bound : Bound) :
    frame.Grows (frame.put path bound) := by
  constructor
  · exact ⟨rfl, rfl, rfl⟩
  · intro other held
    simp [has_put, held]
  · exact fun _ constant => constant
  · intro other constant
    have held : frame.has other = true := sound other constant
    simp [has_put, held]

/-- Making a bound path a constant. -/
theorem Grows.markConstant (sound : frame.ConstantsBound) (held : frame.has path = true) :
    frame.Grows (frame.markConstant path) := by
  constructor
  · exact ⟨rfl, rfl, rfl⟩
  · exact fun _ held => held
  · intro other constant
    simp [isConstant_markConstant, constant]
  · intro other constant
    rw [isConstant_markConstant, Bool.or_eq_true, beq_iff_eq] at constant
    rcases constant with rfl | constant
    · exact held
    · exact sound other constant

/-- Binding a path and making it a constant. -/
theorem Grows.putConstant (sound : frame.ConstantsBound) (path : Path) (bound : Bound)
    (constant : Bool) :
    frame.Grows (if constant then (frame.put path bound).markConstant path
      else frame.put path bound) := by
  have puts : frame.Grows (frame.put path bound) := .put sound path bound
  cases constant with
  | false => exact puts
  | true =>
    have held : (frame.put path bound).has path = true := by simp [has_put]
    exact puts.trans (.markConstant puts.constantsBound held)

private theorem grows_declare {constant : Bool} (sound : frame.ConstantsBound)
    (declared : frame.declare path bound constant = .ok after) : frame.Grows after := by
  unfold declare at declared
  cases free : frame.requireUnbound path with
  | error fault =>
    rw [free] at declared
    cases declared
  | ok _ =>
    rw [free] at declared
    cases declared
    exact .putConstant sound path bound constant

private theorem sameKeys_assign (assigned : frame.assign path bound = .ok after) :
    frame.SameKeys after := by
  unfold assign at assigned
  cases assignable : frame.requireAssignable path with
  | error fault =>
    rw [assignable] at assigned
    cases assigned
  | ok _ =>
    rw [assignable] at assigned
    cases assigned
    have held : frame.has path = true := by
      cases known : frame.has path with
      | true => rfl
      | false => simp [requireAssignable, known] at assignable
    refine ⟨⟨rfl, rfl, rfl⟩, fun other => ?_, fun _ => rfl⟩
    by_cases same : other = path
    · simp [has_put, same, held]
    · simp [has_put, same]

/-- Whatever a copy has become, copying it back keeps the keys. -/
theorem sameKeys_mergeExisting (frame inner : Frame) :
    frame.SameKeys (frame.mergeExisting inner) := by
  refine ⟨⟨rfl, rfl, rfl⟩, fun path => ?_, fun _ => rfl⟩
  simp [has]

/-- Whatever a namespace has become, copying it back only adds keys. -/
theorem grows_mergeUnder (sound : frame.ConstantsBound) (inner : Frame) (top : Path) :
    frame.Grows (frame.mergeUnder inner top) := by
  have start : frame.Grows frame := (SameKeys.refl frame).grows sound
  refine List.foldlRecOn inner.bindings _ start fun merged sofar entry _ => ?_
  obtain ⟨path, bound⟩ := entry
  dsimp only
  split
  · exact sofar.trans (.putConstant sofar.constantsBound path bound _)
  · exact sofar

/-- What lies outside of the namespace is bound as before. -/
theorem lookup_mergeUnder (inner : Frame) {top : Path} (outside : top.isPrefixOf path = false) :
    (frame.mergeUnder inner top).lookup path = frame.lookup path := by
  refine List.foldlRecOn (motive := fun merged : Frame => merged.lookup path = frame.lookup path)
    inner.bindings _ rfl fun merged sofar entry _ => ?_
  obtain ⟨other, bound⟩ := entry
  have differs : top.isPrefixOf other = true → path ≠ other := by
    rintro inside rfl
    rw [outside] at inside
    cases inside
  dsimp only
  split
  · next inside =>
    have elsewhere : (merged.put other bound).lookup path = frame.lookup path := by
      rw [lookup_put, if_neg (differs inside), sofar]
    split
    · exact elsewhere
    · exact elsewhere
  · exact sofar

/-- What changes neither bindings nor constants can be done before or after
copying back. -/
theorem mergeUnder_hom (change : Frame → Frame)
    (puts : ∀ frame path bound, (change frame).put path bound = change (frame.put path bound))
    (marks : ∀ frame path, (change frame).markConstant path = change (frame.markConstant path))
    (frame inner : Frame) (top : Path) :
    (change frame).mergeUnder inner top = change (frame.mergeUnder inner top) := by
  refine List.foldl_hom change fun merged entry => ?_
  dsimp only
  split
  · rw [puts]
    split
    · exact marks _ _
    · rfl
  · rfl

/-- Binding a free path takes no constant away. -/
theorem Grows.bind (sound : frame.ConstantsBound) (free : frame.has path = false)
    (bound : Bound) (constant : Bool) :
    frame.Grows (if constant then (frame.bind path bound).markConstant path
      else frame.bind path bound) := by
  have notConstant : ∀ other, frame.isConstant other = true → other ≠ path := by
    rintro other constant rfl
    rw [sound other constant] at free
    cases free
  have binds : frame.Grows (frame.bind path bound) := by
    constructor
    · exact ⟨rfl, rfl, rfl⟩
    · exact (Grows.put sound path bound).has
    · intro other constant
      simp [isConstant_bind, notConstant other constant, constant]
    · intro other constant
      rw [isConstant_bind, Bool.and_eq_true] at constant
      exact (Grows.put sound path bound).has other (sound other constant.2)
  cases constant with
  | false => exact binds
  | true =>
    have held : (frame.bind path bound).has path = true := by simp [Frame.has]
    exact binds.trans (.markConstant binds.constantsBound held)

/-- Adding a library whose paths are all free only adds keys. -/
theorem grows_addLibrary (sound : frame.ConstantsBound) {library : Frame}
    (free : ∀ entry ∈ library.bindings, frame.has (frame.qualify entry.1) = false) :
    frame.Grows (Evaluation.addLibrary frame library) := by
  unfold Evaluation.addLibrary
  have distinct : library.bindings.paths.Nodup := library.distinct
  generalize library.bindings = entries at free distinct ⊢
  induction entries generalizing frame with
  | nil => exact (SameKeys.refl frame).grows sound
  | cons entry entries ih =>
    obtain ⟨path, bound⟩ := entry
    obtain ⟨apart, distinct⟩ : path ∉ Bindings.paths entries ∧ (Bindings.paths entries).Nodup :=
      List.nodup_cons.mp distinct
    have here : frame.has (frame.qualify path) = false := free (path, bound) (by simp)
    have first := Grows.bind sound here bound (library.isConstant path)
    rw [List.foldl_cons]
    refine first.trans (ih first.constantsBound (fun other member => ?_) distinct)
    -- The paths of a library are different, so the others are still free.
    have differs : frame.qualify other.1 ≠ frame.qualify path := by
      intro same
      have equal : other.1 = path := List.append_cancel_left same
      exact apart (equal ▸ List.mem_map_of_mem member)
    have still : frame.has (frame.qualify other.1) = false :=
      free other (List.mem_cons_of_mem _ member)
    have scope := first.scope
    simp only [qualify] at scope differs still ⊢
    rw [scope]
    cases library.isConstant path with
    | false => simpa [Frame.has, differs] using still
    | true => simpa [Frame.has, lookup_markConstant, differs] using still

end Keys

end Frame

namespace Eval

variable {α β : Type}

/-- However the action ends, the frame has changed in no other way than
given. -/
def Keeps (rel : Frame → Frame → Prop) (act : Eval α) : Prop :=
  ∀ m : Machine, rel m.frame (act m).2.frame

/-- However the action ends, the keys of the frame are what they were. -/
abbrev KeepsKeys (act : Eval α) : Prop := Keeps Frame.SameKeys act

/-- However the action ends, the frame has only more keys and constants. -/
abbrev GrowsKeys (act : Eval α) : Prop := Keeps Frame.Thrives act

/-- A change may be none, and may be made of several. -/
structure Change (rel : Frame → Frame → Prop) : Prop where
  refl : ∀ frame, rel frame frame
  trans : ∀ {before middle after}, rel before middle → rel middle after → rel before after

private theorem change_sameKeys : Change Frame.SameKeys :=
  ⟨.refl, .trans⟩

private theorem change_thrives : Change Frame.Thrives where
  refl frame sound := (Frame.SameKeys.refl frame).grows sound
  trans first second sound := (first sound).trans (second (first sound).constantsBound)

section Change
variable {rel : Frame → Frame → Prop} (change : Change rel) {act : Eval α} {next : α → Eval β}
include change

private theorem Change.bind (first : Keeps rel act) (rest : ∀ a, Keeps rel (next a)) :
    Keeps rel (act >>= next) := by
  intro m
  have kept := first m
  rw [bind_apply, Eval.bind]
  cases ran : act m with
  | mk outcome after =>
    rw [ran] at kept
    cases outcome with
    | ok a => exact change.trans kept (rest a after)
    | error reason => exact kept

/-- Replacing the frame by one that it may change to. -/
theorem Change.update {update : Frame → Except EvalFault Frame}
    (updates : ∀ frame after, update frame = .ok after → rel frame after) (rest : Keeps rel act) :
    Keeps rel (do
      setFrame (← lift (update (← Eval.frame)))
      act) := by
  intro m
  simp only [bind_apply, Eval.bind, Eval.frame]
  cases updated : update m.frame with
  | error fault => exact change.refl m.frame
  | ok after => exact change.trans (updates m.frame after updated) (rest { m with frame := after })

end Change

private theorem KeepsKeys.growsKeys {act : Eval α} (kept : KeepsKeys act) : GrowsKeys act :=
  fun m sound => (kept m).grows sound

section Rules
variable {act : Eval α} {next : α → Eval β}

private theorem keepsKeys_pure (a : α) : KeepsKeys (pure a) :=
  fun m => .refl m.frame

private theorem keepsKeys_stop (reason : Stop) : KeepsKeys (stop reason : Eval α) :=
  fun m => .refl m.frame

private theorem keepsKeys_lift (x : Except EvalFault α) : KeepsKeys (lift x) := by
  cases x with
  | ok a => exact keepsKeys_pure a
  | error fault => exact keepsKeys_stop _

private theorem keepsKeys_ofArithmetic (x : Except Number.Undefined α) :
    KeepsKeys (ofArithmetic x) := by
  cases x with
  | ok a => exact keepsKeys_pure a
  | error cause => exact keepsKeys_stop _

private theorem keepsKeys_frame : KeepsKeys Eval.frame :=
  fun m => .refl m.frame

private theorem keepsKeys_write (text : String) : KeepsKeys (write text) :=
  fun m => .refl m.frame

private theorem keepsKeys_note (event : Event) : KeepsKeys (note event) :=
  fun m => .refl m.frame

private theorem KeepsKeys.bind (first : KeepsKeys act) (rest : ∀ a, KeepsKeys (next a)) :
    KeepsKeys (act >>= next) :=
  change_sameKeys.bind first rest

private theorem Keeps.located {rel : Frame → Frame → Prop} (kept : Keeps rel act) (loc : Loc) :
    Keeps rel (act.located loc) := by
  intro m
  have here := kept m
  unfold Eval.located
  split
  · next failure after ran =>
    rw [ran] at here
    exact here
  · exact here

/-- Work in a copy that only old keys come back from keeps them, whatever is
done in the copy. -/
theorem keepsKeys_inFrame (inner : Frame) (act : Eval α) :
    KeepsKeys (act.inFrame inner Frame.mergeExisting) := by
  intro m
  exact Frame.sameKeys_mergeExisting m.frame _

private theorem keepsKeys_inCopy (act : Eval α) : KeepsKeys act.inCopy :=
  fun m => keepsKeys_inFrame m.frame act m

/-- Work in a frame of its own does not touch the current one. -/
theorem keepsKeys_inOwnFrame (inner : Frame) (act : Eval α) :
    KeepsKeys (act.inOwnFrame inner) := by
  intro m
  unfold Eval.inOwnFrame
  split <;> exact .refl m.frame

private theorem keepsKeys_countUp {each : Int → Eval Unit} (kept : ∀ i, KeepsKeys (each i))
    (count : Nat)
    (i : Int) : KeepsKeys (countUp each count i) := by
  induction count generalizing i with
  | zero => exact keepsKeys_pure ()
  | succ count ih =>
    rw [countUp_succ]
    exact (kept i).bind fun _ => ih (i + 1)

private theorem keepsKeys_whileHolds {test : Eval Bool} {act : Eval Unit} (tests : KeepsKeys test)
    (acts : KeepsKeys act) (rounds : Nat) : KeepsKeys (whileHolds test act rounds) := by
  induction rounds with
  | zero => exact keepsKeys_stop _
  | succ rounds ih =>
    rw [whileHolds_succ]
    refine tests.bind fun holds => ?_
    cases holds with
    | true => exact acts.bind fun _ => ih
    | false => exact keepsKeys_pure ()

end Rules

end Eval

/-- The nodes that leave the keys of their frame alone. -/
def Stmt.keepsKeys : Stmt → Bool
  | .expr _ | .set .. | .ifThen .. | .forRange .. | .whileTrue .. | .returning .. => true
  | _ => false

namespace Discipline

open Eval Evaluation

/-- The meanings of expressions keep the keys of the frame. -/
def Kept (inside : Meaning) : Prop :=
  ∀ units e, KeepsKeys (inside.node units (.expr e))

section Expressions
variable {inside : Meaning} (kept : Kept inside)
include kept

private theorem kept_after (units : Nat) : Kept (inside.after units) :=
  fun more e => kept (more + units) e

private theorem keepsKeys_expr (e : Expr) : KeepsKeys (inside.expr e) :=
  kept 0 e

private theorem keepsKeys_holds (condition : Expr) : KeepsKeys (inside.holds condition) :=
  (keepsKeys_expr kept condition).bind fun _ => keepsKeys_lift _

omit kept in
private theorem keepsKeys_require (inside : Meaning) (units : Nat) :
    KeepsKeys (inside.require units) := by
  unfold Meaning.require
  split
  · exact keepsKeys_pure ()
  · exact keepsKeys_stop _

private theorem keepsKeys_bindable (e : Expr) : KeepsKeys (bindable inside e) := by
  have within : Kept (inside.after Room.binding) := kept_after kept Room.binding
  refine (keepsKeys_require _ _).bind fun _ => keepsKeys_frame.bind fun frame => ?_
  split
  · exact keepsKeys_pure _
  · exact (keepsKeys_expr within e).bind fun _ => keepsKeys_pure _

private theorem keepsKeys_argument (params : List Path) (e : Expr) :
    KeepsKeys (argument inside params e) := by
  have within : Kept (inside.after Room.argument) := kept_after kept Room.argument
  have resolved : KeepsKeys (do return Bound.ofValue (← (inside.after Room.argument).expr e) e.loc) :=
    (keepsKeys_expr within e).bind fun _ => keepsKeys_pure _
  refine (keepsKeys_require _ _).bind fun _ => keepsKeys_frame.bind fun frame => ?_
  split
  · exact keepsKeys_pure _
  · split
    · split
      · exact resolved
      · exact keepsKeys_pure _
    · exact resolved

private theorem keepsKeys_arguments (params : List Path) (args : List Expr) :
    KeepsKeys (arguments inside params args) := by
  induction args with
  | nil => exact keepsKeys_pure _
  | cons e rest ih =>
    have first : KeepsKeys (argument inside params e) := keepsKeys_argument kept params e
    exact first.bind fun _ => ih.bind fun _ => keepsKeys_pure _

omit kept in
/-- A call keeps the keys of the caller, whatever the body does. -/
theorem keepsKeys_invoke (inside : Meaning) (proc : Proc) (path : Path) (args : List Bound) :
    KeepsKeys (invoke inside proc path args) := by
  unfold invoke
  dsimp only
  split
  · exact keepsKeys_stop _
  · refine (keepsKeys_require _ _).bind fun _ => keepsKeys_frame.bind fun caller => ?_
    exact (keepsKeys_lift _).bind fun copy => keepsKeys_inFrame _ _

private theorem keepsKeys_callBuiltin (path : Path) (args : List Expr) :
    KeepsKeys (callBuiltin inside path args) := by
  have within : Kept (inside.after Room.builtin) := kept_after kept Room.builtin
  unfold callBuiltin
  split
  · exact keepsKeys_stop _
  · next builtin e _ =>
    have value : KeepsKeys ((inside.after Room.builtin).expr e) := keepsKeys_expr within e
    cases builtin with
    | printval => exact value.bind fun _ => (keepsKeys_write _).bind fun _ => keepsKeys_pure _
    | debug =>
      exact (keepsKeys_require _ _).bind fun _ => (keepsKeys_write _).bind fun _ => keepsKeys_pure _
    | debugval => exact value.bind fun _ => (keepsKeys_write _).bind fun _ => keepsKeys_pure _
  · exact keepsKeys_stop _

private theorem keepsKeys_call (path : Path) (args : List Expr) :
    KeepsKeys (call inside path args) := by
  unfold call
  split
  · exact keepsKeys_callBuiltin kept path args
  · refine keepsKeys_frame.bind fun frame => (keepsKeys_lift _).bind fun bound => ?_
    split
    · exact keepsKeys_stop _
    · exact (keepsKeys_arguments kept _ args).bind fun _ => keepsKeys_invoke inside _ path _

private theorem keepsKeys_identifier (path : Path) : KeepsKeys (identifier inside path) := by
  refine keepsKeys_frame.bind fun frame => (keepsKeys_lift _).bind fun bound => ?_
  split
  · exact keepsKeys_stop _
  · exact keepsKeys_stop _
  · next e _ => exact keepsKeys_expr kept e

private theorem keepsKeys_numbers (left right : Expr) : KeepsKeys (numbers inside left right) := by
  have both : KeepsKeys (operands inside left right) :=
    (keepsKeys_expr kept left).bind fun _ => (keepsKeys_expr kept right).bind fun _ =>
      keepsKeys_pure _
  exact both.bind fun _ => (keepsKeys_lift _).bind fun _ => (keepsKeys_lift _).bind fun _ =>
    keepsKeys_pure _

private theorem keepsKeys_logical (settled : Bool) (left right : Expr) :
    KeepsKeys (logical inside settled left right) := by
  have within : Kept (inside.after Room.logical) := kept_after kept Room.logical
  refine (keepsKeys_holds within left).bind fun holds => ?_
  split
  · exact keepsKeys_pure _
  · exact (keepsKeys_holds within right).bind fun _ => keepsKeys_pure _

private theorem keepsKeys_binary (left : Expr) (op : BinaryOp) (right : Expr) :
    KeepsKeys (binary inside left op right) := by
  have both : KeepsKeys (operands inside left right) :=
    (keepsKeys_expr kept left).bind fun _ => (keepsKeys_expr kept right).bind fun _ =>
      keepsKeys_pure _
  have numeric : KeepsKeys (numbers inside left right) := keepsKeys_numbers kept left right
  cases op with
  | or => exact keepsKeys_logical kept true left right
  | and => exact keepsKeys_logical kept false left right
  | is | isnt => exact both.bind fun _ => keepsKeys_pure _
  | less | lessEq | greater | greaterEq | add | subtract | multiply =>
    exact numeric.bind fun _ => keepsKeys_pure _
  | divide =>
    refine numeric.bind fun pair => ?_
    dsimp only
    unfold quotient
    split
    · exact keepsKeys_stop _
    · exact keepsKeys_pure _
  | modulo =>
    refine numeric.bind fun pair => ?_
    dsimp only
    unfold remainder
    split
    · exact keepsKeys_stop _
    · exact (keepsKeys_ofArithmetic _).bind fun _ => keepsKeys_pure _

/-- Evaluating an expression keeps the keys of the frame. -/
theorem keepsKeys_expression (e : Expr) : KeepsKeys (Evaluation.expr inside e) := by
  cases e with
  | literal value loc => exact keepsKeys_pure _
  | identifier name => exact keepsKeys_identifier kept name.path
  | group inner loc => exact keepsKeys_expr kept inner
  | unary op mark operand =>
    refine (keepsKeys_expr kept operand).bind fun value => (keepsKeys_lift _).bind fun x => ?_
    cases op with
    | negate => exact keepsKeys_pure _
    | not => exact (keepsKeys_ofArithmetic _).bind fun _ => keepsKeys_pure _
  | binary left op mark right => exact keepsKeys_binary kept left op right
  | call callee args argsLoc => exact keepsKeys_call kept callee.path args
  | proc p => exact keepsKeys_stop _

end Expressions

section Statements
variable {inside : Meaning} (kept : Kept inside)
include kept

private theorem keepsKeys_assign (path : Path) (e : Expr) : KeepsKeys (assign inside path e) := by
  refine keepsKeys_frame.bind fun frame => (keepsKeys_lift _).bind fun _ => ?_
  refine (keepsKeys_bindable kept e).bind fun bound => ?_
  refine change_sameKeys.update (fun frame after assigned => Frame.sameKeys_assign assigned) ?_
  split
  · exact keepsKeys_pure _
  · exact keepsKeys_pure _

private theorem keepsKeys_forRange (path : Path) (start stop : Expr) (body : List Stmt)
    (loc : Loc) :
    KeepsKeys (forRange inside path start stop body loc) := by
  refine (keepsKeys_expr kept start).bind fun first => ?_
  refine (keepsKeys_expr kept stop).bind fun last => ?_
  split
  · exact (keepsKeys_require _ _).bind fun _ => (keepsKeys_note _).bind fun _ => keepsKeys_pure _
  · refine (keepsKeys_lift _).bind fun x => (keepsKeys_lift _).bind fun y => ?_
    split
    · next low high _ _ =>
      have looped : KeepsKeys (rounds inside path low high body loc) :=
        keepsKeys_countUp (fun i => keepsKeys_inCopy _) _ _
      exact looped.bind fun _ => keepsKeys_pure _
    · exact keepsKeys_stop _

/-- The nodes that only work in copies keep the keys of their frame. -/
theorem keepsKeys_stmt (patience : Nat) {s : Stmt} (keeps : s.keepsKeys = true) :
    KeepsKeys (Evaluation.stmt patience inside s) := by
  cases s with
  | expr e => exact keepsKeys_expression kept e
  | set name value => exact keepsKeys_assign kept name.path value
  | ifThen condition body bodyLoc loc =>
    refine (keepsKeys_holds kept condition).bind fun holds => ?_
    dsimp only
    split
    · exact (keepsKeys_inCopy _).bind fun _ => keepsKeys_pure _
    · exact keepsKeys_pure _
  | forRange name start stop body bodyLoc loc =>
    exact keepsKeys_forRange kept name.path start stop body loc
  | whileTrue condition body bodyLoc loc =>
    have loop := keepsKeys_whileHolds (keepsKeys_holds kept condition)
      (keepsKeys_inCopy (inside.body body)) patience
    exact loop.bind fun _ => keepsKeys_pure _
  | returning value loc => exact (keepsKeys_expr kept value).bind fun _ => keepsKeys_stop _
  | importLibrary | importRelative | inNamespace | letDecl | constDecl | procDecl => cases keeps

private theorem growsKeys_declare (path : Path) (e : Expr) (constant : Bool) :
    GrowsKeys (declare inside path e constant) := by
  have value : KeepsKeys (bindable inside e) := keepsKeys_bindable kept e
  refine change_thrives.bind keepsKeys_frame.growsKeys fun frame => ?_
  refine change_thrives.bind (keepsKeys_lift _).growsKeys fun _ => ?_
  refine change_thrives.bind value.growsKeys fun bound => ?_
  refine change_thrives.update (fun frame after declared sound => ?_) (keepsKeys_pure _).growsKeys
  exact Frame.grows_declare sound declared

omit kept in
private theorem keepsKeys_libraryFrame (inside : Meaning) (name source : String) :
    KeepsKeys (libraryFrame inside name source) := by
  have reads : KeepsKeys (readLibrary (inside.after Room.library) name source) := by
    unfold readLibrary
    split
    · exact keepsKeys_pure _
    · exact keepsKeys_stop _
  refine keepsKeys_frame.bind fun frame => ?_
  dsimp only
  split
  · exact keepsKeys_stop _
  · refine reads.bind fun program => (keepsKeys_note _).bind fun _ => ?_
    exact (keepsKeys_inOwnFrame _ _).bind fun _ => keepsKeys_pure _

omit kept in
/-- An import adds the library only if none of its paths is taken. -/
theorem growsKeys_importLibrary (inside : Meaning) (name : String) :
    GrowsKeys (importLibrary inside name) := by
  unfold importLibrary
  split
  · exact (keepsKeys_stop _).growsKeys
  · next source _ =>
    refine change_thrives.bind (keepsKeys_libraryFrame inside name source).growsKeys
      fun library => ?_
    intro m sound
    simp only [bind_apply, Eval.bind, Eval.frame]
    split
    · next nothingTaken =>
      have free : ∀ entry ∈ library.bindings, m.frame.has (m.frame.qualify entry.1) = false := by
        intro entry member
        have untaken := List.filter_eq_nil_iff.mp (List.isEmpty_iff.mp nothingTaken)
          (m.frame.qualify entry.1) (List.mem_map_of_mem member)
        simpa using untaken
      exact Frame.grows_addLibrary sound free
    · exact (Frame.SameKeys.refl m.frame).grows sound

omit kept in
/-- A namespace takes over something of what its body has become. -/
theorem inNamespace_frame (inside : Meaning) (path : Path) (body : List Stmt) (m : Machine) :
    ∃ inner, (inNamespace inside path body m).2.frame =
      m.frame.mergeUnder inner (m.frame.qualify path) := by
  simp only [inNamespace, bind_apply, Eval.bind, Eval.frame, Eval.inFrame]
  cases inside.body body { m with frame := m.frame.within (m.frame.qualify path) } with
  | mk outcome after =>
    cases outcome with
    | ok _ => exact ⟨after.frame, rfl⟩
    | error _ => exact ⟨after.frame, rfl⟩

omit kept in
private theorem growsKeys_procDecl (name : Name) (proc : Proc) (patience : Nat) :
    GrowsKeys (Evaluation.stmt patience inside (.procDecl name proc)) := by
  refine change_thrives.update (fun frame after declared sound => ?_) (keepsKeys_pure _).growsKeys
  exact Frame.grows_declare sound declared

/-- No node takes a key or a constant away. -/
theorem growsKeys_stmt (patience : Nat) (s : Stmt) :
    GrowsKeys (Evaluation.stmt patience inside s) := by
  cases s with
  | expr | set | ifThen | forRange | whileTrue | returning =>
    exact (keepsKeys_stmt kept patience rfl).growsKeys
  | importLibrary target loc => exact growsKeys_importLibrary inside target.text
  | importRelative target loc =>
    have noted : KeepsKeys (Evaluation.stmt patience inside (.importRelative target loc)) :=
      (keepsKeys_require _ _).bind fun _ => (keepsKeys_note _).bind fun _ => keepsKeys_pure _
    exact noted.growsKeys
  | inNamespace name body bodyLoc loc =>
    intro m sound
    obtain ⟨inner, same⟩ := inNamespace_frame inside name.path body m
    exact same ▸ Frame.grows_mergeUnder sound inner _
  | letDecl name value loc => exact growsKeys_declare kept name.path value false
  | constDecl name value loc =>
    exact change_thrives.bind keepsKeys_frame.growsKeys fun frame =>
      growsKeys_declare kept _ value true
  | procDecl name proc => exact growsKeys_procDecl name proc patience

end Statements

/-- The interpreter gives up for lack of room, or follows the rule of the node
with less room inside. -/
theorem interpret_cases (patience room units : Nat) (s : Stmt) :
    interpret patience room units s = Eval.stop .outOfRoom ∨
      ∃ less, interpret patience room units s =
        Eval.located s.loc (Evaluation.stmt patience ((interpreter patience less).after s.units) s)
    := by
  induction room generalizing units with
  | zero => exact .inl rfl
  | succ room ih =>
    cases units with
    | succ units => exact ih units
    | zero =>
      rw [interpret]
      split
      · exact .inl rfl
      · exact .inr ⟨room, rfl⟩

/-- The interpreter keeps the keys when it evaluates an expression. -/
theorem kept_interpreter (patience room : Nat) : Kept (interpreter patience room) := by
  induction room with
  | zero => exact fun _ _ => keepsKeys_stop _
  | succ room ih =>
    intro units e
    cases units with
    | succ units => exact ih units e
    | zero =>
      simp only [interpreter, interpret]
      split
      · exact keepsKeys_stop _
      · exact (keepsKeys_expression (kept_after ih _) e).located _

private theorem checks_hold_again {inside : Meaning} (kept : Kept inside) {e : Expr} {frame : Frame}
    {console : Console} {bound : Bound} {m : Machine}
    (ran : bindable inside e ⟨frame, console⟩ = (.ok bound, m)) (path : Path) :
    (frame.requireUnbound path = .ok () → ∀ constant, ∃ after,
      m.frame.declare path bound constant = .ok after) ∧
      (frame.requireAssignable path = .ok () → ∃ after, m.frame.assign path bound = .ok after) := by
  have same : frame.SameKeys (bindable inside e ⟨frame, console⟩).2.frame :=
    keepsKeys_bindable kept e ⟨frame, console⟩
  rw [ran] at same
  constructor
  · intro free constant
    have still : m.frame.requireUnbound path = .ok () := by
      rwa [Frame.requireUnbound, same.has, ← Frame.requireUnbound]
    exact ⟨_, by rw [Frame.declare, still]; rfl⟩
  · intro assignable
    have still : m.frame.requireAssignable path = .ok () := by
      rwa [Frame.requireAssignable, same.has, same.isConstant, ← Frame.requireAssignable]
    exact ⟨_, by rw [Frame.assign, still]; rfl⟩

/-- The discipline of keys. Whatever node is evaluated in a frame whose
constants are bound, and however that ends, the frame keeps its place, its keys
and its constants, and its constants are bound. Only imports, declarations and
namespaces add to them, and a namespace changes nothing outside of itself. So
the checks that come before the value of a declaration or an assignment is
resolved would pass again after it. -/
theorem keys_are_only_added (patience room units : Nat) (s : Stmt) (frame : Frame)
    (console : Console) (sound : frame.ConstantsBound) :
    let after := (interpret patience room units s ⟨frame, console⟩).2.frame
    frame.Grows after ∧ (s.keepsKeys = true → frame.SameKeys after) ∧
      (∀ name body bodyLoc loc, s = .inNamespace name body bodyLoc loc → ∀ path,
        (frame.qualify name.path).isPrefixOf path = false →
        after.lookup path = frame.lookup path) ∧
      ∀ e bound m, bindable ((interpreter patience room).after units) e ⟨frame, console⟩ =
        (.ok bound, m) → ∀ path,
          (frame.requireUnbound path = .ok () → ∀ constant, ∃ after,
            m.frame.declare path bound constant = .ok after) ∧
          (frame.requireAssignable path = .ok () → ∃ after,
            m.frame.assign path bound = .ok after) := by
  have inner : Kept ((interpreter patience room).after units) :=
    kept_after (kept_interpreter patience room) units
  rcases interpret_cases patience room units s with gaveUp | ⟨less, followed⟩
  · rw [gaveUp]
    exact ⟨(Frame.SameKeys.refl frame).grows sound, fun _ => .refl frame, fun _ _ _ _ _ _ _ => rfl,
      fun _ _ _ ran => checks_hold_again inner ran⟩
  · have kept : Kept ((interpreter patience less).after s.units) :=
      kept_after (kept_interpreter patience less) s.units
    rw [followed]
    refine ⟨?_, fun keeps => ?_, ?_, fun _ _ _ ran => checks_hold_again inner ran⟩
    · exact (growsKeys_stmt kept patience s).located s.loc ⟨frame, console⟩ sound
    · exact (keepsKeys_stmt kept patience keeps).located s.loc ⟨frame, console⟩
    · rintro name body bodyLoc loc rfl path outside
      have unchanged : Keeps (fun before after =>
          (before.qualify name.path).isPrefixOf path = false →
            after.lookup path = before.lookup path)
          (inNamespace ((interpreter patience less).after Room.node) name.path body) := by
        intro m outside
        obtain ⟨inner, same⟩ := inNamespace_frame _ name.path body m
        exact same ▸ Frame.lookup_mergeUnder inner outside
      exact unchanged.located loc ⟨frame, console⟩ outside

/-- A frame with one constant. -/
def oneConstant : Frame where
  bindings := [(["c"], .ofValue ⟨.number, "1"⟩ default)]
  distinct := by decide
  constants := [["c"]]

/-- `namespace n  const x = 2  c = 3 end`, which declares a constant and then
fails. -/
def failingNamespace : Stmt :=
  .inNamespace ⟨["n"], default⟩
    [.constDecl ⟨["x"], default⟩ (.literal ⟨.number, "2"⟩ default) default,
      .set ⟨["c"], default⟩ (.literal ⟨.number, "3"⟩ default)] default default

theorem failing_namespace_adds_its_constant :
    oneConstant.ConstantsBound ∧
      let after := (interpret 0 100 0 failingNamespace ⟨oneConstant, {}⟩).2.frame
      oneConstant.Grows after ∧ after.isConstant ["n", "x"] = true ∧
        after.lookup ["c"] = oneConstant.lookup ["c"] := by
  have sound : oneConstant.ConstantsBound := by
    intro path constant
    obtain rfl : path = ["c"] := by simpa [oneConstant, Frame.isConstant] using constant
    rfl
  obtain ⟨grows, -, outside, -⟩ := keys_are_only_added 0 100 0 failingNamespace oneConstant {} sound
  exact ⟨sound, grows, rfl, outside _ _ _ _ rfl ["c"] rfl⟩

end Discipline

end BasilLang
