import BasilLang.Fault
import BasilLang.Syntax.Printer

/-! Frames: what the names of a running program are bound to. A frame is one
flat map from whole paths to bindings, in the order in which the paths were
first bound. There is no chain of enclosing frames: a call, a loop round or a
namespace works on a copy, and afterwards some of its bindings are copied
back. -/
namespace BasilLang

/-- What a path is bound to: a declared proc, or an expression. A literal is a
resolved value; a proc literal is a proc without a name; any other expression
is unresolved and is read afresh each time. -/
inductive Bound where
  | expr (expr : Expr)
  | declared (name : Name) (proc : Proc)

namespace Bound

/-- A value, resolved at the given place. -/
def ofValue (value : Value) (loc : Loc) : Bound :=
  .expr (.literal value loc)

/-- The place of the bound node. -/
def loc : Bound → Loc
  | .expr e => e.loc
  | .declared _ p => p.loc

/-- The proc that is bound, declared or literal. -/
def proc? : Bound → Option Proc
  | .declared _ p => some p
  | .expr (.proc p) => some p
  | .expr _ => none

/-- The expression still to be resolved, if the binding is neither a literal
nor a proc. -/
def unresolved? : Bound → Option Expr
  | .declared _ _ => none
  | .expr (.literal _ _) => none
  | .expr (.proc _) => none
  | .expr e => some e

/-- The bound node spelled out. -/
def dump : Bound → String
  | .expr e => e.dump
  | .declared name p => p.dump name.path.text

end Bound

/-- Paths and what they are bound to. -/
abbrev Bindings (β : Type := Bound) := List (Path × β)

namespace Bindings

variable {β : Type}

/-- The bound paths, in order. -/
def paths (bindings : Bindings β) : List Path :=
  bindings.map Prod.fst

/-- Binds a path: in its old place if it is bound already, else at the end. -/
def put : Bindings β → Path → β → Bindings β
  | [], path, bound => [(path, bound)]
  | (other, old) :: rest, path, bound =>
    if other = path then (path, bound) :: rest else (other, old) :: put rest path bound

theorem mem_paths_put (bindings : Bindings β) (path : Path) (bound : β) (other : Path) :
    other ∈ (bindings.put path bound).paths ↔ other = path ∨ other ∈ bindings.paths := by
  induction bindings with
  | nil => simp [put, paths]
  | cons entry rest ih =>
    unfold put
    split
    · next same => simp [paths, same]
    · simp only [paths, List.map_cons, List.mem_cons] at ih ⊢
      rw [ih, or_left_comm]

theorem nodup_put {bindings : Bindings β} (distinct : bindings.paths.Nodup) (path : Path)
    (bound : β) : (bindings.put path bound).paths.Nodup := by
  induction bindings with
  | nil => simp [put, paths]
  | cons entry rest ih =>
    obtain ⟨apart, distinct⟩ : entry.1 ∉ paths rest ∧ (paths rest).Nodup :=
      List.nodup_cons.mp distinct
    unfold put
    split
    · next same => exact List.nodup_cons.mpr ⟨same ▸ apart, distinct⟩
    · next differs =>
      refine List.nodup_cons.mpr ⟨fun member => ?_, ih distinct⟩
      rcases (mem_paths_put rest path bound entry.1).mp member with same | bound
      · exact differs same
      · exact apart bound

/-- Gives every bound path a new binding. -/
def replace (bindings : Bindings β) (new : Path → β → β) : Bindings β :=
  bindings.map fun (path, bound) => (path, new path bound)

theorem paths_replace (bindings : Bindings β) (new : Path → β → β) :
    (bindings.replace new).paths = bindings.paths := by
  simp [paths, replace]

end Bindings

/-- The bindings of one scope of a running program. -/
structure Frame (β : Type := Bound) where
  /-- What is bound, in order. -/
  bindings : Bindings β := []
  /-- Each path is bound once. -/
  distinct : bindings.paths.Nodup := by exact List.nodup_nil
  /-- The paths that cannot be assigned to. -/
  constants : List Path := []
  /-- The path in front of the constants and procs declared here. -/
  scope : Path := []
  /-- How many calls and imports are active. -/
  depth : Nat := 0
  /-- The greatest depth, if it is limited; a limit below one allows no call. -/
  maxDepth : Option Int := none

instance {β : Type} : Inhabited (Frame β) := ⟨{}⟩

namespace Frame

variable {β : Type}

/-- The path under which a name is declared in the frame's scope. -/
def qualify (frame : Frame β) (path : Path) : Path :=
  frame.scope ++ path

/-- What a path is bound to. -/
def lookup (frame : Frame β) (path : Path) : Option β :=
  frame.bindings.lookup path

/-- Whether a path is bound. -/
def has (frame : Frame β) (path : Path) : Bool :=
  (frame.lookup path).isSome

/-- Whether a path is a constant. -/
def isConstant (frame : Frame β) (path : Path) : Bool :=
  frame.constants.contains path

/-- What a path is bound to, or the complaint that it is not. -/
def get (frame : Frame β) (path : Path) : Except EvalFault β :=
  match frame.lookup path with
  | some bound => .ok bound
  | none => .error (.undefined path)

/-- Complains about a path that is bound. -/
def requireUnbound (frame : Frame β) (path : Path) : Except EvalFault Unit :=
  if frame.has path then .error (.alreadyDefined path) else .ok ()

/-- Complains about a path that is not bound or is a constant. -/
def requireAssignable (frame : Frame β) (path : Path) : Except EvalFault Unit :=
  if !frame.has path then .error (.undefined path)
  else if frame.isConstant path then .error (.assignedConstant path)
  else .ok ()

/-- Binds a path and leaves the constants alone. -/
def put (frame : Frame β) (path : Path) (bound : β) : Frame β :=
  { frame with
    bindings := frame.bindings.put path bound
    distinct := Bindings.nodup_put frame.distinct path bound }

/-- Makes a path a constant. -/
def markConstant (frame : Frame β) (path : Path) : Frame β :=
  { frame with constants := frame.constants.insert path }

/-- Binds a path whether or not it is bound; it is no constant afterwards. -/
def bind (frame : Frame β) (path : Path) (bound : β) : Frame β :=
  { frame.put path bound with constants := frame.constants.filter (· != path) }

/-- Binds a path that is not bound yet. -/
def declare (frame : Frame β) (path : Path) (bound : β) (constant : Bool) :
    Except EvalFault (Frame β) := do
  frame.requireUnbound path
  let declared := frame.put path bound
  return if constant then declared.markConstant path else declared

/-- Binds anew a path that is bound and no constant. -/
def assign (frame : Frame β) (path : Path) (bound : β) : Except EvalFault (Frame β) := do
  frame.requireAssignable path
  return frame.put path bound

/-- Binds paths in order to what stands at the same place of the other list. -/
def bindAll (frame : Frame β) (paths : List Path) (bounds : List β) : Frame β :=
  (paths.zip bounds).foldl (fun frame (path, bound) => frame.bind path bound) frame

/-- A copy to work on in another scope. -/
def within (frame : Frame β) (scope : Path) : Frame β :=
  { frame with scope }

/-- A copy one call deeper, which is refused beyond the limit. -/
def deeper (frame : Frame β) : Except EvalFault (Frame β) :=
  let inner := { frame with depth := frame.depth + 1 }
  match frame.maxDepth with
  | some limit => if limit < inner.depth then .error (.callsTooDeep limit) else .ok inner
  | none => .ok inner

/-- Copies back what the copy has bound to the paths that were bound before;
paths new in the copy are dropped. -/
def mergeExisting (frame inner : Frame β) : Frame β :=
  { frame with
    bindings := frame.bindings.replace fun path bound => (inner.lookup path).getD bound
    distinct := by rw [Bindings.paths_replace]; exact frame.distinct }

/-- Copies back every binding of the copy whose path begins with the given
one, and with it its being a constant. -/
def mergeUnder (frame inner : Frame β) (top : Path) : Frame β :=
  inner.bindings.foldl (fun frame (path, bound) =>
    if top.isPrefixOf path then
      let merged := frame.put path bound
      if inner.isConstant path then merged.markConstant path else merged
    else frame) frame

end Frame

end BasilLang
