import BasilLang.Proofs.Discipline
import BasilLang.Proofs.Equality
import BasilLang.Proofs.Narrowing
import BasilLang.Proofs.Nesting
import BasilLang.Proofs.Numerals
import BasilLang.Proofs.Yielding
import Mathlib

/-! The library of numeric helpers is right in every caller. Its source is read
as the tree that is written out here, and an import binds the procs of that
tree. Each of them is followed in the frame that a call makes for it, a copy of
the caller's, whatever that holds: a parameter or a loop variable hides what the
caller has under its name and is no constant even if that was one, and what an
argument still has to be read through leads to no parameter. `pow` passes on its
own parameters, so that those of `pow_step` are resolved from the beginning, and
the product is then followed from round to round. -/
namespace BasilLang.Mathematics

open Binding (HasValue comesTo_literal hasValue_of_comesTo boundTo_literal boundTo_param)
open Evaluation (paramPaths)

/-- A place in the source of the library. -/
def place (line column : Nat) : Loc :=
  ⟨Library.file "math", ⟨line, column⟩⟩

/-- A name of one segment at a place. -/
def nameAt (text : String) (line column : Nat) : Expr :=
  .identifier ⟨[text], place line column⟩

/-- A Number at a place. -/
def numberAt (text : String) (line column : Nat) : Expr :=
  .literal ⟨.number, text⟩ (place line column)

/-- `proc abs(x)` -/
def absolute : Proc :=
  .mk (place 7 5) [⟨"x", place 7 14⟩] (place 7 14)
    [.ifThen (.binary (nameAt "x" 8 12) .less ⟨"<", place 8 14⟩ (numberAt "0" 8 16))
        [.returning (.unary .negate ⟨"-", place 9 20⟩ (nameAt "x" 9 21)) (place 9 13)]
        (place 9 13) (place 8 9),
      .returning (nameAt "x" 11 16) (place 11 9)]
    (place 8 9)

/-- `proc min(a, b)` and `proc max(a, b)`: the first of the two if it compares so
with the second, else the second. -/
def chooser (line : Nat) (op : BinaryOp) (sign : String) : Proc :=
  .mk (place line 5) [⟨"a", place line 14⟩, ⟨"b", place line 17⟩] (place line 14)
    [.ifThen (.binary (nameAt "a" (line + 1) 12) op ⟨sign, place (line + 1) 14⟩
          (nameAt "b" (line + 1) 16))
        [.returning (nameAt "a" (line + 2) 20) (place (line + 2) 13)]
        (place (line + 2) 13) (place (line + 1) 9),
      .returning (nameAt "b" (line + 4) 16) (place (line + 4) 9)]
    (place (line + 1) 9)

/-- `proc square(x)` -/
def square : Proc :=
  .mk (place 28 5) [⟨"x", place 28 17⟩] (place 28 17)
    [.returning (.binary (nameAt "x" 29 16) .multiply ⟨"*", place 29 18⟩ (nameAt "x" 29 20))
      (place 29 9)]
    (place 29 9)

/-- `proc pow(base, exponent)` -/
def power : Proc :=
  .mk (place 33 5) [⟨"base", place 33 14⟩, ⟨"exponent", place 33 20⟩] (place 33 14)
    [.returning (.call ⟨["math", "pow_step"], place 34 16⟩
        [numberAt "1" 34 30, nameAt "base" 34 33, nameAt "exponent" 34 39] (place 34 29))
      (place 34 9)]
    (place 34 9)

/-- `set acc = acc * base` -/
def multiplyOnce : Stmt :=
  .set ⟨["acc"], place 41 13⟩
    (.binary (nameAt "acc" 41 19) .multiply ⟨"*", place 41 23⟩ (nameAt "base" 41 25))

/-- The loop of `pow_step`. -/
def multiplyOften : Stmt :=
  .forRange ⟨["i"], place 40 13⟩ (numberAt "0" 40 17) (nameAt "exponent" 40 22) [multiplyOnce]
    (place 41 13) (place 40 9)

/-- `proc pow_step(acc, base, exponent)` -/
def powerStep : Proc :=
  .mk (place 39 5) [⟨"acc", place 39 19⟩, ⟨"base", place 39 24⟩, ⟨"exponent", place 39 30⟩]
    (place 39 19)
    [multiplyOften, .returning (nameAt "acc" 43 16) (place 43 9)] (place 40 9)

/-- The library as a tree. -/
def program : Program :=
  ⟨Library.file "math",
    [.inNamespace ⟨["math"], place 3 11⟩
      [.constDecl ⟨["pi"], place 4 11⟩ (numberAt "3.141592653589793" 4 16) (place 4 5),
        .constDecl ⟨["e"], place 5 11⟩ (numberAt "2.718281828459045" 5 15) (place 5 5),
        .procDecl ⟨["abs"], place 7 10⟩ absolute,
        .procDecl ⟨["min"], place 14 10⟩ (chooser 14 .less "<"),
        .procDecl ⟨["max"], place 21 10⟩ (chooser 21 .greater ">"),
        .procDecl ⟨["square"], place 28 10⟩ square,
        .procDecl ⟨["pow"], place 33 10⟩ power,
        .procDecl ⟨["pow_step"], place 39 10⟩ powerStep]
      (place 4 5) (place 3 1)]⟩

/-- Room enough to read it. -/
def roomToRead : Nat := 44

/-- Whether the source is read as the tree. -/
private def spells (source : List Char) : Bool :=
  match Lexer.place (Library.file "math") .first (Lexer.pieces source) >>=
    Program.ofTokensWithin roomToRead with
  | .ok read => read = program
  | .error _ => false

private theorem math_spells : spells Library.math.toList = true := by
  unfold Library.math
  apply Lexing.holds_of_literal rfl
  decide +kernel

private theorem reads_of_spells {source : String} (spelled : spells source.toList = true) :
    Program.parseWithin roomToRead source (Library.file "math") = .ok program := by
  unfold spells at spelled
  unfold Program.parseWithin tokenize
  split at spelled
  · next read parsed => rw [parsed, of_decide_eq_true spelled]
  · cases spelled

/-- The source of the library is read as the tree. -/
theorem source_reads {room : Nat} (enough : roomToRead ≤ room) :
    Program.parseWithin room Library.math (Library.file "math") = .ok program := by
  rcases Narrowing.source_in_less_room enough Library.math (Library.file "math") with
    same | ⟨loc, lacking⟩
  · rw [← same, reads_of_spells math_spells]
  · rw [reads_of_spells math_spells] at lacking
    cases lacking

/-- What the library binds, in order. -/
def bindings : Bindings :=
  [(["math", "pi"], .ofValue ⟨.number, "3.141592653589793"⟩ (place 4 16)),
    (["math", "e"], .ofValue ⟨.number, "2.718281828459045"⟩ (place 5 15)),
    (["math", "abs"], .declared ⟨["abs"], place 7 10⟩ absolute),
    (["math", "min"], .declared ⟨["min"], place 14 10⟩ (chooser 14 .less "<")),
    (["math", "max"], .declared ⟨["max"], place 21 10⟩ (chooser 21 .greater ">")),
    (["math", "square"], .declared ⟨["square"], place 28 10⟩ square),
    (["math", "pow"], .declared ⟨["pow"], place 33 10⟩ power),
    (["math", "pow_step"], .declared ⟨["pow_step"], place 39 10⟩ powerStep)]

/-- `import math` -/
def importMath : Stmt :=
  .importLibrary ⟨"math", default⟩ default

/-- What a statement makes of the empty frame. -/
def frameAfter (s : Stmt) : Frame :=
  (interpret 0 Room.plain 0 s ⟨{}, {}⟩).2.frame

private theorem frameAfter_eq {s : Stmt} {outcome : Except Stop Value} {after : Machine}
    (ran : interpret 0 Room.plain 0 s ⟨{}, {}⟩ = (outcome, after)) :
    frameAfter s = after.frame := by
  rw [frameAfter, ran]

/-- A library that can be read leaves the frame that its body leaves. -/
theorem libraryFrame_eq {inside : Meaning} {frame : Frame} {console : Console}
    {name source : String} {program : Program}
    (allowed : (frame.maxDepth.filter fun (limit : Int) => limit < (frame.depth + 1 : Nat)) = none)
    (reads : Program.parseWithin ((inside.after Room.library).after Room.reading).left source
      (Library.file name) = .ok program) :
    Evaluation.libraryFrame inside name source ⟨frame, console⟩ =
      (Eval.inOwnFrame { depth := frame.depth + 1, maxDepth := frame.maxDepth }
        (Eval.catchReturn ((inside.after Room.library).body program.body)) >>= fun library =>
          pure library.2)
      ⟨frame, { console with log := console.log.push (.runningLibrary name) }⟩ := by
  have readable : Evaluation.readLibrary (inside.after Room.library) name source =
      pure program := by
    rw [Evaluation.readLibrary, reads]
  have current : Eval.frame ⟨frame, console⟩ = (.ok frame, ⟨frame, console⟩) := rfl
  rw [Evaluation.libraryFrame, Eval.bind_of_ok current]
  dsimp only
  rw [allowed, readable]
  rfl

/-- A library whose paths are free is added. -/
theorem importLibrary_eq {inside : Meaning} {frame library : Frame} {console written : Console}
    {name source : String} (known : Library.source? name = some source)
    (ran : Evaluation.libraryFrame inside name source ⟨frame, console⟩ =
      (.ok library, ⟨frame, written⟩))
    (free : (library.bindings.map fun (path, _) => frame.qualify path).filter frame.has = []) :
    Evaluation.importLibrary inside name ⟨frame, console⟩ =
      (.ok .null, ⟨Evaluation.addLibrary frame library, written⟩) := by
  have current : Eval.frame ⟨frame, written⟩ = (.ok frame, ⟨frame, written⟩) := rfl
  rw [Evaluation.importLibrary, known]
  dsimp only
  rw [Eval.bind_of_ok ran, Eval.bind_of_ok current, free]
  rfl

/-- The library on its own, one level deeper than where it is imported. -/
def library (maxDepth : Option Int) (depth : Nat) : Frame where
  bindings := bindings
  distinct := by decide
  constants := [["math", "e"], ["math", "pi"]]
  depth := depth + 1
  maxDepth := maxDepth

private theorem library_runs :
    (Eval.inOwnFrame { depth := 1 }
      (Eval.catchReturn ((((interpreter 0 992).after Room.node).after Room.library).body
        program.body)) >>= fun library => pure library.2 : Eval Frame)
      ⟨{}, ⟨"", #[.runningLibrary "math"]⟩⟩ =
      (.ok (library none 0), ⟨{}, ⟨"", #[.runningLibrary "math"]⟩⟩) := by
  decide +kernel

private theorem located_import {inside : Meaning} {patience : Nat} {name : String}
    {nameLoc loc : Loc} {m after : Machine} {value : Value}
    (ran : Evaluation.importLibrary inside name m = (.ok value, after)) :
    Eval.located loc (Evaluation.stmt patience inside (.importLibrary ⟨name, nameLoc⟩ loc)) m =
      (.ok value, after) := by
  change Eval.located loc (Evaluation.importLibrary inside name) m = _
  rw [Eval.located, ran]

private theorem math_known : Library.source? "math" = some Library.math := by
  rw [Library.source?, if_neg (by decide), if_pos rfl]

/-- Imported into the empty frame, the library binds what it declares. -/
theorem imported_bindings : (frameAfter importMath).bindings = bindings := by
  have plain : Room.plain = 992 + 1 := rfl
  have ran : Evaluation.libraryFrame ((interpreter 0 992).after Room.node) "math" Library.math
      ⟨{}, {}⟩ = (.ok (library none 0), ⟨{}, ⟨"", #[.runningLibrary "math"]⟩⟩) :=
    (libraryFrame_eq rfl (source_reads (by decide))).trans library_runs
  have added : interpret 0 Room.plain 0 importMath ⟨{}, {}⟩ = (.ok .null,
      ⟨Evaluation.addLibrary {} (library none 0), ⟨"", #[.runningLibrary "math"]⟩⟩) := by
    rw [plain, Binding.interpret_succ (by decide)]
    exact located_import (importLibrary_eq math_known ran (by decide +kernel))
  rw [frameAfter_eq added]
  decide +kernel

section Choosing
variable {frame copy : Frame} {path : Path} {p q : Expr} {v w : Value} {x y : Float}

private theorem truth_ordering (holds : Bool) : (Value.ordering holds).truth = .ok holds := by
  cases holds
  · decide +kernel
  · decide +kernel

private theorem times_does :
    BinaryOp.multiply.onNumbers? = some fun x y => .ofNumber (x * y) := rfl

private theorem zero_number : (⟨.number, "0"⟩ : Value).number = .ok 0 := rfl

/-- A body that returns one of two values, according to a comparison. -/
theorem yields_choice {condition first second : Expr} {holds : Bool}
    (compared : frame.ComesTo condition (.ok (.ordering holds)))
    (comes : frame.ComesTo first (.ok v)) (comes' : frame.ComesTo second (.ok w))
    (loc bodyLoc firstLoc secondLoc : Loc) :
    frame.Yields (fun inside => inside.body
        [.ifThen condition [.returning first firstLoc] bodyLoc loc, .returning second secondLoc])
      (.error (.returned (if holds then v else w))) frame := by
  have truth := truth_ordering holds
  cases holds with
  | true =>
    have chosen : frame.Yields (fun inside => inside.body [.returning first firstLoc])
        (.error (.returned v)) frame :=
      (comes.yields.returning firstLoc).body_stop
    have left := Frame.Yields.branch_returned compared truth chosen bodyLoc loc
    rw [Frame.mergeExisting_self] at left
    exact left.body_stop
  | false =>
    have skipped := Frame.yields_branch_skipped compared truth [.returning first firstLoc] bodyLoc
      loc
    exact skipped.body_cons (comes'.yields.returning secondLoc).body_stop

/-- The first argument is chosen if it compares so with the second, else the
second is. -/
theorem chooser_gives {line : Nat} {op : BinaryOp} {sign : String} {compares : Float → Float → Prop}
    [DecidableRel compares] (does : op.onNumbers? = some fun x y => .ordering (compares x y))
    (ready : Ready frame copy path (chooser line op sign) [p, q] [v, w])
    (number : v.number = .ok x) (number' : w.number = .ok y) (loc argsLoc : Loc) :
    frame.Gives (.call ⟨path, loc⟩ [p, q] argsLoc) (if compares x y then v else w) := by
  have first := ready.param_comesTo 0 rfl rfl
  have second := ready.param_comesTo 1 rfl rfl
  have compared := Frame.comesTo_binary does (first (place (line + 1) 12))
    (second (place (line + 1) 16)) number number' ⟨sign, place (line + 1) 14⟩
  have chosen := yields_choice compared (first (place (line + 2) 20)) (second (place (line + 4) 16))
    (place (line + 1) 9) (place (line + 2) 13) (place (line + 2) 13) (place (line + 4) 9)
  simp only [decide_eq_true_eq] at chosen
  exact ready.gives chosen loc argsLoc

private theorem absolute_gives (ready : Ready frame copy path absolute [p] [v])
    (number : v.number = .ok x)
    (loc argsLoc : Loc) :
    frame.Gives (.call ⟨path, loc⟩ [p] argsLoc) (if x < 0 then .ofNumber (-x) else v) := by
  have param := ready.param_comesTo 0 rfl rfl
  have does : BinaryOp.less.onNumbers? = some fun x y => .ordering (x < y) := rfl
  have compared := Frame.comesTo_binary does (param (place 8 12))
    (comesTo_literal _ ⟨.number, "0"⟩ (place 8 16)) number zero_number ⟨"<", place 8 14⟩
  have negated := Frame.comesTo_negate (param (place 9 21)) number ⟨"-", place 9 20⟩
  have chosen := yields_choice compared negated (param (place 11 16)) (place 8 9) (place 9 13)
    (place 9 13) (place 11 9)
  simp only [decide_eq_true_eq] at chosen
  exact ready.gives chosen loc argsLoc

private theorem square_gives (ready : Ready frame copy path square [p] [v])
    (number : v.number = .ok x)
    (loc argsLoc : Loc) : frame.Gives (.call ⟨path, loc⟩ [p] argsLoc) (.ofNumber (x * x)) := by
  have param := ready.param_comesTo 0 rfl rfl
  have multiplied := Frame.comesTo_binary times_does (param (place 29 16)) (param (place 29 20))
    number number ⟨"*", place 29 18⟩
  apply ready.gives
  exact (multiplied.yields.returning (place 29 9)).body_stop

end Choosing

section Powers
variable {frame copy : Frame} {path : Path} {p q : Expr} {v w : Value} {x y : Float} {count : Nat}
  {k : Int}

/-- The evaluator's own product of two values, in every frame. -/
def IsProduct (left right product : Value) : Prop :=
  ∀ frame : Frame, frame.ComesTo (.binary (.literal left default) .multiply ⟨"*", default⟩
    (.literal right default)) (.ok product)

/-- The value comes from `1` by so many multiplications with the base. -/
inductive Multiplied (base : Value) : Nat → Value → Prop where
  | one : Multiplied base 0 ⟨.number, "1"⟩
  | times {count : Nat} {sofar next : Value} (before : Multiplied base count sofar)
      (product : IsProduct sofar base next) : Multiplied base (count + 1) next

private theorem IsProduct.unique {left right product other : Value}
    (is : IsProduct left right product)
    (is' : IsProduct left right other) : product = other := by
  obtain ⟨-, enough, steady⟩ := is {}
  obtain ⟨-, enough', steady'⟩ := is' {}
  have here := steady (max enough enough') (Nat.le_max_left _ _) 0 {}
  rw [steady' (max enough enough') (Nat.le_max_right _ _) 0 {}] at here
  cases here
  rfl

/-- The base and the number of multiplications determine the value. -/
theorem Multiplied.unique {base value other : Value} (multiplied : Multiplied base count value)
    (multiplied' : Multiplied base count other) : value = other := by
  induction multiplied generalizing other with
  | one =>
    cases multiplied'
    rfl
  | times _ product ih =>
    cases multiplied' with
    | times before product' =>
      cases ih before
      exact product.unique product'

/-- After so many rounds: the product so far can be assigned to, and the
arguments are as they were. -/
structure Raised (base exponent : Value) (count : Nat) (frame : Frame) : Prop where
  product : ∃ sofar x, Multiplied base count sofar ∧ sofar.number = .ok x ∧
    frame.Stores ["acc"] sofar
  assignable : frame.isConstant ["acc"] = false
  base : frame.Stores ["base"] base
  exponent : frame.Stores ["exponent"] exponent

private theorem isProduct_ofNumber (number : v.number = .ok x) (number' : w.number = .ok y) :
    IsProduct v w (.ofNumber (x * y)) := fun frame =>
  Frame.comesTo_binary times_does (comesTo_literal frame v default)
    (comesTo_literal frame w default) number number' ⟨"*", default⟩

private theorem assign_eq (has : frame.has path = true) (free : frame.isConstant path = false)
    (bound : Bound) : frame.assign path bound = .ok (frame.put path bound) := by
  simp [Frame.assign, Frame.requireAssignable, has, free]

/-- A round multiplies once more, whatever its own variable hides. -/
theorem Raised.round (raised : Raised v w count frame) (number : v.number = .ok x) (bound : Bound) :
    ∃ inner,
      (frame.bind ["i"] bound).Yields (fun inside => inside.body [multiplyOnce]) (.ok ()) inner ∧
      Raised v w (count + 1) (frame.mergeExisting inner) := by
  -- The round works on a copy in which `i` is bound, and all that was bound before is copied back.
  obtain ⟨sofar, y, multiplied, number', stored⟩ := raised.product
  obtain ⟨z, readable⟩ := Value.number_ofNumber (y * x)
  have held : (frame.bind ["i"] bound).Stores ["acc"] sofar := stored.put (by decide) bound
  have base : (frame.bind ["i"] bound).Stores ["base"] v := raised.base.put (by decide) bound
  have exponent : (frame.bind ["i"] bound).Stores ["exponent"] w :=
    raised.exponent.put (by decide) bound
  have free : (frame.bind ["i"] bound).isConstant ["acc"] = false := by
    rw [Frame.isConstant_bind, raised.assignable, Bool.and_false]
  have product := Frame.comesTo_binary times_does (held.comesTo (place 41 19))
    (base.comesTo (place 41 25)) number' number ⟨"*", place 41 23⟩
  have set : (frame.bind ["i"] bound).Yields (fun inside => inside.stmt multiplyOnce)
      (.ok (.ofNumber (y * x))) _ :=
    Frame.yields_set product rfl (assign_eq held.has free _)
  refine ⟨_, set.body_cons (Frame.yields_body_nil _), ?_, raised.assignable,
    (base.put (by decide) _).mergeExisting raised.base.has,
    (exponent.put (by decide) _).mergeExisting raised.exponent.has⟩
  exact ⟨_, z, .times multiplied (isProduct_ofNumber number' number), readable,
    (Frame.stores_put _ _ _ _).mergeExisting stored.has⟩

/-- The arguments of `pow_step` in `pow`. -/
def stepArguments : List Expr :=
  [numberAt "1" 34 30, nameAt "base" 34 33, nameAt "exponent" 34 39]

private theorem step_stores
    (ready : Ready frame copy path powerStep stepArguments [⟨.number, "1"⟩, v, w]) {i : Nat}
    {mark : Mark} {value : Value} (here : powerStep.params[i]? = some mark)
    (given : [⟨.number, "1"⟩, v, w][i]? = some value) :
    (entered frame copy path powerStep stepArguments [⟨.number, "1"⟩, v, w]).Stores [mark.text]
      value := by
  obtain ⟨e, member, valued, found⟩ := ready.lookup_param here given
  simp only [stepArguments, List.mem_cons, List.not_mem_nil, or_false] at member
  rcases member with rfl | rfl | rfl
  · exact ⟨_, found.trans (congrArg some (boundTo_literal valued _))⟩
  · exact ⟨_, found.trans (congrArg some (boundTo_param (by decide) frame value))⟩
  · exact ⟨_, found.trans (congrArg some (boundTo_param (by decide) frame value))⟩

private theorem raised_entered
    (ready : Ready frame copy path powerStep stepArguments [⟨.number, "1"⟩, v, w]) :
    Raised v w 0 (entered frame copy path powerStep stepArguments [⟨.number, "1"⟩, v, w]) where
  product := ⟨_, 1, .one, rfl, step_stores ready (i := 0) rfl rfl⟩
  assignable := by
    -- A parameter is bound afresh: it is no constant, even if the caller has one of its name.
    change Frame.isConstant (Frame.bind (Frame.bind (Frame.bind _ ["acc"] _) ["base"] _)
      ["exponent"] _) ["acc"] = false
    simp [Frame.isConstant_bind]
  base := step_stores ready (i := 1) rfl rfl
  exponent := step_stores ready (i := 2) rfl rfl

private theorem floor_zero : Number.floor? 0 = some 0 := by
  decide +kernel

/-- The loop multiplies once for each integer from zero to the exponent. -/
theorem Raised.loop (raised : Raised v w 0 frame) (number : v.number = .ok x)
    (kind : w.kind = .number) (number' : w.number = .ok y) (floors : Number.floor? y = some k) :
    ∃ after, frame.Yields (fun inside => inside.stmt multiplyOften) (.ok .null) after ∧
      Raised v w k.toNat after := by
  have starts := comesTo_literal frame ⟨.number, "0"⟩ (place 40 17)
  have stops := raised.exponent.comesTo (place 40 22)
  rw [← Int.sub_zero k]
  exact Frame.yields_forRange (Raised v w) starts stops rfl kind zero_number number' floor_zero
    floors raised fun _ _ _ sofar => sofar.round number _

/-- A call of `pow_step` gives the product, and leaves the arguments as they
were. -/
theorem powerStep_yields
    (ready : Ready frame copy path powerStep stepArguments [⟨.number, "1"⟩, v, w])
    (number : v.number = .ok x) (kind : w.kind = .number) (number' : w.number = .ok y)
    (floors : Number.floor? y = some k) (loc argsLoc : Loc) :
    ∃ result after, Multiplied v k.toNat result ∧
      frame.Yields (fun inside => inside.expr (.call ⟨path, loc⟩ stepArguments argsLoc))
        (.ok result) (frame.mergeExisting after) ∧
      after.Stores ["base"] v ∧ after.Stores ["exponent"] w := by
  obtain ⟨after, looped, ended⟩ := (raised_entered ready).loop number kind number' floors
  obtain ⟨result, _, multiplied, _, stored⟩ := ended.product
  have returned := (stored.comesTo (place 43 16)).yields.returning (place 43 9)
  have resolved : ∀ path ∈ paramPaths powerStep, after.unresolvedAt path = none := by
    intro path member
    simp only [paramPaths, powerStep, Proc.params, List.map_cons, List.map_nil,
      List.mem_cons, List.not_mem_nil, or_false] at member
    rcases member with rfl | rfl | rfl
    · exact stored.resolved
    · exact ended.base.resolved
    · exact ended.exponent.resolved
  exact ⟨result, after, multiplied, ready.yields (looped.body_cons returned.body_stop)
    (Frame.yields_settled resolved frame) loc argsLoc, ended.base, ended.exponent⟩

private theorem step_ready {inner : Frame} (ready : Ready frame copy path power [p, q] [v, w])
    (held : ∃ bound, frame.lookup ["math", "pow_step"] = some bound ∧
      bound.proc? = some powerStep)
    (deeper : (entered frame copy path power [p, q] [v, w]).deeper = .ok inner) :
    Ready (entered frame copy path power [p, q] [v, w]) inner ["math", "pow_step"] powerStep
      stepArguments [⟨.number, "1"⟩, v, w] where
  tidy := ready.tidy_entered
  user := by decide
  held := by
    rw [ready.lookup_other (by decide)]
    exact held
  deeper := deeper
  different := by decide
  count := rfl
  callFree := by decide
  valued := .cons (hasValue_of_comesTo (comesTo_literal _ _ _))
    (.cons (hasValue_of_comesTo (ready.param_comesTo 0 rfl rfl _))
      (.cons (hasValue_of_comesTo (ready.param_comesTo 1 rfl rfl _)) .nil))

private theorem power_gives {inner : Frame} (ready : Ready frame copy path power [p, q] [v, w])
    (held : ∃ bound, frame.lookup ["math", "pow_step"] = some bound ∧
      bound.proc? = some powerStep)
    (deeper : (entered frame copy path power [p, q] [v, w]).deeper = .ok inner)
    (number : v.number = .ok x) (kind : w.kind = .number) (number' : w.number = .ok y)
    (floors : Number.floor? y = some k) (loc argsLoc : Loc) :
    ∃ result, Multiplied v k.toNat result ∧
      frame.Gives (.call ⟨path, loc⟩ [p, q] argsLoc) result := by
  obtain ⟨result, after, multiplied, called, base, exponent⟩ :=
    powerStep_yields (step_ready ready held deeper) number kind number' floors (place 34 16)
      (place 34 29)
  have resolved : ∀ path' ∈ paramPaths power,
      ((entered frame copy path power [p, q] [v, w]).mergeExisting after).unresolvedAt path' =
        none := by
    intro path' member
    simp only [paramPaths, power, Proc.params, List.map_cons, List.map_nil,
      List.mem_cons, List.not_mem_nil, or_false] at member
    rcases member with rfl | rfl
    · exact (base.mergeExisting (ready.has_param 0 rfl rfl)).resolved
    · exact (exponent.mergeExisting (ready.has_param 1 rfl rfl)).resolved
  exact ⟨result, multiplied, _, ready.yields (called.returning (place 34 9)).body_stop
    (Frame.yields_settled resolved frame) loc argsLoc⟩

end Powers

section Library
variable {frame copy : Frame} {name : String} {proc : Proc}

/-- What is bound under the name of the library is what importing it binds. -/
def BindsMath (frame : Frame) : Prop :=
  ∀ name rest, frame.lookup ("math" :: name :: rest) =
    (frameAfter importMath).lookup ("math" :: name :: rest)

private theorem BindsMath.held (binds : BindsMath frame)
    (declared : (bindings.lookup ["math", name] >>= Bound.proc?) = some proc) :
    ∃ bound, frame.lookup ["math", name] = some bound ∧ bound.proc? = some proc := by
  rw [binds, Frame.lookup, imported_bindings]
  exact Option.bind_eq_some_iff.mp declared

/-- A proc of the library can be called on arguments without calls that have
values. -/
theorem ready_math {args : List Expr} {values : List Value} (tidy : frame.Tidy)
    (binds : BindsMath frame) (deeper : frame.deeper = .ok copy)
    (declared : (bindings.lookup ["math", name] >>= Bound.proc?) = some proc)
    (different : (proc.params.map Mark.text).Nodup) (count : args.length = proc.params.length)
    (callFree : ∀ e ∈ args, e.isCallFree = true)
    (valued : List.Forall₂ (HasValue frame) args values) :
    Ready frame copy ["math", name] proc args values :=
  ⟨tidy, by simp [Evaluation.builtinScope], binds.held declared, deeper, different, count, callFree,
    valued⟩

/-- A call of a proc of the library. -/
def callMath (name : String) (args : List Expr) (loc argsLoc : Loc) : Expr :=
  .call ⟨["math", name], loc⟩ args argsLoc

/-- The library is right in every caller. Take a frame that a run evaluates
something in, which binds what importing the library binds and has two levels
left, and two arguments without calls that have numbers for values. Then, with
enough room: `pow` gives the product of as many factors as the floor of the
exponent says, each multiplied by the evaluator's own operator, beginning with
`1`; `min` and `max` give the first value if it is strictly less or greater,
else the second; `square` gives the product of the value with itself; and `abs`
gives the opposite of a value below zero, else the value. -/
theorem library_is_right_in_every_caller (run : Run) {s : Stmt} {frame : Frame}
    (evaluates : run.Evaluates s frame) (binds : BindsMath frame) (levels : frame.HasLevels 2)
    {p q : Expr} {v w : Value} {x y : Float} (callFree : p.isCallFree = true)
    (callFree' : q.isCallFree = true) (valued : HasValue frame p v)
    (valued' : HasValue frame q w) (number : v.number = .ok x) (number' : w.number = .ok y)
    (loc argsLoc : Loc) :
    (w.kind = .number → ∀ k, Number.floor? y = some k → ∃ result, Multiplied v k.toNat result ∧
      frame.Gives (callMath "pow" [p, q] loc argsLoc) result) ∧
    frame.Gives (callMath "min" [p, q] loc argsLoc) (if x < y then v else w) ∧
    frame.Gives (callMath "max" [p, q] loc argsLoc) (if x > y then v else w) ∧
    frame.Gives (callMath "square" [p] loc argsLoc) (.ofNumber (x * x)) ∧
    frame.Gives (callMath "abs" [p] loc argsLoc) (if x < 0 then .ofNumber (-x) else v) := by
  have tidy := run.holds_of_evaluates Acyclicity.lasting_tidy evaluates
  obtain ⟨copy, deeper, left⟩ := levels.deeper
  have one : List.Forall₂ (HasValue frame) [p] [v] := .cons valued .nil
  have two : List.Forall₂ (HasValue frame) [p, q] [v, w] := .cons valued (.cons valued' .nil)
  have onlyOne : ∀ e ∈ [p], e.isCallFree = true := by simp [callFree]
  have both : ∀ e ∈ [p, q], e.isCallFree = true := by simp [callFree, callFree']
  have power : Ready frame copy ["math", "pow"] power [p, q] [v, w] :=
    ready_math tidy binds deeper rfl (by decide) rfl both two
  have smaller : Ready frame copy ["math", "min"] (chooser 14 .less "<") [p, q] [v, w] :=
    ready_math tidy binds deeper rfl (by decide) rfl both two
  have larger : Ready frame copy ["math", "max"] (chooser 21 .greater ">") [p, q] [v, w] :=
    ready_math tidy binds deeper rfl (by decide) rfl both two
  have squared : Ready frame copy ["math", "square"] square [p] [v] :=
    ready_math tidy binds deeper rfl (by decide) rfl onlyOne one
  have positive : Ready frame copy ["math", "abs"] absolute [p] [v] :=
    ready_math tidy binds deeper rfl (by decide) rfl onlyOne one
  refine ⟨fun kind k floors => ?_, chooser_gives rfl smaller number number' loc argsLoc,
    chooser_gives rfl larger number number' loc argsLoc, square_gives squared number loc argsLoc,
    absolute_gives positive number loc argsLoc⟩
  obtain ⟨inner, further, -⟩ := (left.entered frame ["math", "pow"] _ [p, q] [v, w]).deeper
  exact power_gives power (binds.held rfl) further number kind number' floors loc argsLoc

end Library

section Namesakes
open Acyclicity (nameOf)

/-- If what a run has written after it was broken off depends on whether this
node in this frame is to be reported, then the run evaluates it there. -/
theorem evaluates_of_reports {run : Run} {limit : Nat} (placed : run.start.IsAt 0 limit) {s : Stmt}
    {frame : Frame} {test : Stmt → Frame → Bool}
    (told : ∀ flag : Bool, (run.diverted (.breakOff test fun s' frame' =>
      ⟨if s' = s ∧ frame' = frame ∧ flag = true then "!" else "", #[]⟩)).2.console.out =
        if flag then "!" else "") :
    run.Evaluates s frame := by
  simp only [← Run.traced_forgetful] at told
  rcases Run.traced_stays placed fun _ => test with
    ⟨result, same⟩ | ⟨⟨pending, s', frame', _⟩, parted⟩
  · simp only [same] at told
    exact absurd ((told true).symm.trans (told false)) (by decide)
  · have reported := told true
    rw [parted _] at reported
    by_cases here : s' = s ∧ frame' = frame
    · obtain ⟨rfl, rfl⟩ := here
      exact ⟨test, fun report => run.traced_forgetful test report ▸ parted fun _ => report⟩
    · simp [here] at reported

/-- A program whose first statement goes well goes on with the others. -/
theorem eval_cons {inside : Meaning} {s : Stmt} {m after : Machine} {value : Value}
    (ran : (inside.after Room.body).stmt s m = (.ok value, after)) (file : String)
    (rest : List Stmt) (withMain : Bool) :
    Program.eval inside ⟨file, s :: rest⟩ withMain m =
      Program.eval inside ⟨file, rest⟩ withMain after := by
  have body : inside.body (s :: rest) m = inside.body rest after := by
    rw [Meaning.body, Eval.forEach_cons, Eval.bind_of_ok ran]
    rfl
  have caught : Eval.catchReturn (inside.body (s :: rest)) m =
      Eval.catchReturn (inside.body rest) after := by
    rw [Eval.catchReturn, body]
    rfl
  unfold Program.eval Eval.reportingRoom
  dsimp only [Program.loc]
  rw [Eval.bind_apply, Eval.bind, caught]
  rfl

/-- An import before which a run is not broken off. -/
theorem import_diverted {diversion : Diversion} {patience room : Nat} {frame library : Frame}
    {console written : Console} (enough : Room.work ≤ room)
    (apart : diversion.spots importMath frame = false)
    (ran : Evaluation.libraryFrame ((diversion.interpreter patience room).after Room.node) "math"
      Library.math ⟨frame, console⟩ = (.ok library, ⟨frame, written⟩))
    (free : (library.bindings.map fun (path, _) => frame.qualify path).filter frame.has = []) :
    ((diversion.interpreter patience (room + 1 + Room.body)).after Room.body).stmt importMath
      ⟨frame, console⟩ = (.ok .null, ⟨Evaluation.addLibrary frame library, written⟩) := by
  change diversion.interpret patience (room + 1) 0 importMath ⟨frame, console⟩ = _
  rw [Diversion.interpret]
  dsimp only
  rw [apart, if_neg Bool.false_ne_true, if_neg (Nat.not_lt.mpr enough)]
  exact located_import (importLibrary_eq math_known ran free)

/-- `math.pow(base, acc)` -/
def raising : Expr :=
  callMath "pow" [nameOf "base", nameOf "acc"] default default

/-- `proc probe(base) then math.pow(base, acc) end` -/
def probe : Proc :=
  .mk default [⟨"base", default⟩] default [.expr raising] default

/-- A constant and variables with names that the library uses, too. -/
def namesakesBody : List Stmt :=
  [.constDecl ⟨["acc"], default⟩ (.literal ⟨.number, "2"⟩ default) default,
    .letDecl ⟨["i"], default⟩ (.literal ⟨.number, "3"⟩ default) default,
    .procDecl ⟨["probe"], default⟩ probe,
    .expr (.call ⟨["probe"], default⟩ [nameOf "i"] default)]

/-- A run with them, in which no more than three calls may nest. -/
def namesakes : Run where
  program := ⟨"", importMath :: namesakesBody⟩
  withMain := false
  patience := 0
  room := 103
  start := { maxDepth := some 3 }
  console := {}
  fresh := rfl

/-- The frame in which the body of `probe` runs. -/
def probed : Frame where
  bindings := bindings ++ [(["acc"], .ofValue ⟨.number, "2"⟩ default),
    (["i"], .ofValue ⟨.number, "3"⟩ default), (["probe"], .declared ⟨["probe"], default⟩ probe),
    (["base"], .expr (nameOf "i"))]
  distinct := by decide
  constants := [["acc"], ["math", "e"], ["math", "pi"]]
  scope := ["probe"]
  depth := 1
  maxDepth := some 3

/-- Breaks a run off where `probe` calls the library, and tells whether that is
in this frame if it is to be told. -/
def watching (flag : Bool) : Diversion :=
  .breakOff (fun s _ => s = .expr raising) fun s frame =>
    ⟨if s = .expr raising ∧ frame = probed ∧ flag = true then "!" else "", #[]⟩

private theorem watched_library (flag : Bool) :
    Evaluation.libraryFrame (((watching flag).interpreter 0 100).after Room.node) "math"
      Library.math ⟨{ maxDepth := some 3 }, {}⟩ =
      (.ok (library (some 3) 0), ⟨{ maxDepth := some 3 }, ⟨"", #[.runningLibrary "math"]⟩⟩) := by
  cases flag
  · exact (libraryFrame_eq rfl (source_reads (by decide))).trans (by decide +kernel)
  · exact (libraryFrame_eq rfl (source_reads (by decide))).trans (by decide +kernel)

private theorem probed_evaluated : namesakes.Evaluates (.expr raising) probed := by
  have placed : namesakes.start.IsAt 0 3 := ⟨rfl, rfl⟩
  apply evaluates_of_reports placed
  intro flag
  have added := import_diverted (by decide) (decide_eq_false nofun) (watched_library flag)
    (by decide +kernel)
  have goesOn : namesakes.diverted (watching flag) = _ := eval_cons added "" namesakesBody false
  change (namesakes.diverted (watching flag)).2.console.out = _
  rw [goesOn]
  cases flag
  · decide +kernel
  · decide +kernel

private theorem probed_binds : BindsMath probed := by
  intro name rest
  have others : List.lookup ("math" :: name :: rest)
      [(["acc"], Bound.ofValue ⟨.number, "2"⟩ default), (["i"], .ofValue ⟨.number, "3"⟩ default),
        (["probe"], .declared ⟨["probe"], default⟩ probe), (["base"], .expr (nameOf "i"))] =
      none := by
    simp [List.lookup]
  rw [Frame.lookup, Frame.lookup, imported_bindings, probed, List.lookup_append, others,
    Option.or_none]

private theorem three_squared : Multiplied ⟨.number, "3"⟩ 2 ⟨.number, "9"⟩ := by
  have one : (⟨.number, "1"⟩ : Value).number = .ok 1 := rfl
  have three : (⟨.number, "3"⟩ : Value).number = .ok 3 := rfl
  have once : Value.ofNumber (1 * 3) = ⟨.number, "3"⟩ := by decide +kernel
  have twice : Value.ofNumber (3 * 3) = ⟨.number, "9"⟩ := by decide +kernel
  exact .times (.times .one (once ▸ isProduct_ofNumber one three))
    (twice ▸ isProduct_ofNumber three three)

theorem namesakes_do_no_harm :
    namesakes.Evaluates (.expr raising) probed ∧ BindsMath probed ∧ probed.HasLevels 2 ∧
      probed.isConstant ["acc"] = true ∧
      probed.lookup ["base"] = some (.expr (nameOf "i")) ∧
      probed.Gives raising ⟨.number, "9"⟩ ∧
      probed.Gives (callMath "min" [nameOf "base", nameOf "acc"] default default) ⟨.number, "2"⟩ ∧
      probed.Gives (callMath "max" [nameOf "base", nameOf "acc"] default default) ⟨.number, "3"⟩ ∧
      probed.Gives (callMath "square" [nameOf "base"] default default) ⟨.number, "9"⟩ ∧
      probed.Gives (callMath "abs" [nameOf "base"] default default) ⟨.number, "3"⟩ := by
  have levels : probed.HasLevels 2 := by
    intro limit limited
    cases limited
    decide
  have base : probed.ComesTo (nameOf "base") (.ok ⟨.number, "3"⟩) :=
    Binding.comesTo_of_bound rfl nofun (Frame.Stores.comesTo ⟨default, rfl⟩ default)
  have acc : probed.ComesTo (nameOf "acc") (.ok ⟨.number, "2"⟩) :=
    Frame.Stores.comesTo ⟨default, rfl⟩ default
  obtain ⟨power, smaller, larger, squared, positive⟩ :=
    library_is_right_in_every_caller namesakes probed_evaluated probed_binds levels (x := 3)
      (y := 2) rfl rfl (hasValue_of_comesTo base) (hasValue_of_comesTo acc) rfl rfl default default
  obtain ⟨result, multiplied, raised⟩ := power rfl 2 (by decide +kernel)
  rw [multiplied.unique three_squared] at raised
  have nine : Value.ofNumber (3 * 3) = ⟨.number, "9"⟩ := by decide +kernel
  rw [if_neg (by decide +kernel)] at smaller positive
  rw [if_pos (by decide +kernel)] at larger
  rw [nine] at squared
  exact ⟨probed_evaluated, probed_binds, levels, rfl, rfl, raised, smaller, larger, squared,
    positive⟩

end Namesakes

end BasilLang.Mathematics
