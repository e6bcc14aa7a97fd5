import BasilLang.Evaluation.Interpreter

/-! Frames seen through a view of what they bind. A frame asks nothing of what
is bound but which paths lead on from it, so all that is done with frames can be
done with their views: the view of the outcome is the outcome for the views. -/
namespace BasilLang

variable {β γ : Type}

namespace Bindings

/-- Bindings with a view of everything that is bound. -/
def viewed (view : β → γ) (bindings : Bindings β) : Bindings γ :=
  bindings.map fun (path, bound) => (path, view bound)

variable (view : β → γ)

private theorem viewed_cons (path : Path) (bound : β) (rest : Bindings β) :
    viewed view ((path, bound) :: rest) = (path, view bound) :: viewed view rest := rfl

theorem paths_viewed (bindings : Bindings β) : (bindings.viewed view).paths = bindings.paths := by
  simp [paths, viewed]

private theorem put_viewed (bindings : Bindings β) (path : Path) (bound : β) :
    (bindings.viewed view).put path (view bound) = (bindings.put path bound).viewed view := by
  induction bindings with
  | nil => rfl
  | cons entry rest ih =>
    obtain ⟨other, old⟩ := entry
    rw [viewed_cons, put, put]
    by_cases same : other = path
    · rw [if_pos same, if_pos same, viewed_cons]
    · rw [if_neg same, if_neg same, viewed_cons, ih]

private theorem lookup_viewed (bindings : Bindings β) (path : Path) :
    List.lookup path (bindings.viewed view) = (List.lookup path bindings).map view := by
  induction bindings with
  | nil => rfl
  | cons entry rest ih =>
    obtain ⟨other, old⟩ := entry
    rw [viewed_cons, List.lookup_cons, List.lookup_cons]
    cases path == other with
    | true => rfl
    | false => exact ih

end Bindings

namespace Frame

/-- The frame with a view of everything that is bound. -/
def viewed (view : β → γ) (frame : Frame β) : Frame γ :=
  { frame with
    bindings := frame.bindings.viewed view
    distinct := by rw [Bindings.paths_viewed]; exact frame.distinct }

variable (view : β → γ) (frame inner library : Frame β) (path : Path) (bound : β)

theorem lookup_viewed : (frame.viewed view).lookup path = (frame.lookup path).map view :=
  Bindings.lookup_viewed view frame.bindings path

theorem has_viewed : (frame.viewed view).has path = frame.has path := by
  rw [has, lookup_viewed, Option.isSome_map, has]

theorem get_viewed : (frame.viewed view).get path = (frame.get path).map view := by
  rw [get, get, lookup_viewed]
  cases frame.lookup path with
  | none => rfl
  | some bound => rfl

theorem requireUnbound_viewed :
    (frame.viewed view).requireUnbound path = frame.requireUnbound path := by
  rw [requireUnbound, requireUnbound, has_viewed]

theorem requireAssignable_viewed :
    (frame.viewed view).requireAssignable path = frame.requireAssignable path := by
  rw [requireAssignable, requireAssignable, has_viewed]
  rfl

theorem put_viewed :
    (frame.viewed view).put path (view bound) = (frame.put path bound).viewed view := by
  simp only [put, viewed, Bindings.put_viewed]

theorem bind_viewed :
    (frame.viewed view).bind path (view bound) = (frame.bind path bound).viewed view := by
  simp only [bind, put, viewed, Bindings.put_viewed]

private theorem markConstant_viewed :
    (frame.viewed view).markConstant path = (frame.markConstant path).viewed view := rfl

theorem declare_viewed (constant : Bool) :
    (frame.viewed view).declare path (view bound) constant =
      (frame.declare path bound constant).map (viewed view) := by
  rw [declare, declare, requireUnbound_viewed]
  cases frame.requireUnbound path with
  | error fault => rfl
  | ok _ =>
    cases constant with
    | true =>
      exact congrArg (fun put => Except.ok (put.markConstant path))
        (put_viewed view frame path bound)
    | false => exact congrArg Except.ok (put_viewed view frame path bound)

theorem assign_viewed :
    (frame.viewed view).assign path (view bound) = (frame.assign path bound).map (viewed view) := by
  rw [assign, assign, requireAssignable_viewed]
  cases frame.requireAssignable path with
  | error fault => rfl
  | ok _ => exact congrArg Except.ok (put_viewed view frame path bound)

theorem deeper_viewed : (frame.viewed view).deeper = frame.deeper.map (viewed view) := by
  cases limited : frame.maxDepth with
  | none => simp only [deeper, viewed, limited]; rfl
  | some limit =>
    simp only [deeper, viewed, limited]
    split
    · rfl
    · rfl

/-- A fold over views is the view of a fold, if each step is. -/
theorem foldl_viewed {step : Frame β → Path × β → Frame β} {step' : Frame γ → Path × γ → Frame γ}
    (commutes : ∀ frame path bound, step' (frame.viewed view) (path, view bound) =
      (step frame (path, bound)).viewed view) (bindings : Bindings β) :
    (bindings.viewed view).foldl step' (frame.viewed view) =
      (bindings.foldl step frame).viewed view := by
  induction bindings generalizing frame with
  | nil => rfl
  | cons entry rest ih =>
    obtain ⟨path, bound⟩ := entry
    rw [Bindings.viewed_cons, List.foldl_cons, List.foldl_cons, commutes, ih]

theorem bindAll_viewed (paths : List Path) (bounds : List β) :
    (frame.viewed view).bindAll paths (bounds.map view) =
      (frame.bindAll paths bounds).viewed view := by
  have zipped : (paths.zip (bounds.map view) : Bindings γ) =
      Bindings.viewed view (paths.zip bounds) := by
    rw [List.zip_map_right]
    rfl
  rw [bindAll, bindAll, zipped]
  exact foldl_viewed view frame (fun frame path bound => bind_viewed view frame path bound) _

theorem mergeExisting_viewed :
    (frame.viewed view).mergeExisting (inner.viewed view) =
      (frame.mergeExisting inner).viewed view := by
  have entries : ((frame.viewed view).mergeExisting (inner.viewed view)).bindings =
      (frame.mergeExisting inner).bindings.viewed view := by
    simp only [mergeExisting, viewed, Bindings.viewed, Bindings.replace, List.map_map]
    apply List.map_congr_left
    intro entry _
    have looked := lookup_viewed view inner entry.1
    simp only [viewed, Bindings.viewed] at looked
    simp only [Function.comp_apply, looked]
    cases inner.lookup entry.1 with
    | none => rfl
    | some bound => rfl
  simp only [viewed] at entries ⊢
  simp only [mergeExisting] at entries ⊢
  simp only [entries]

theorem mergeUnder_viewed (top : Path) :
    (frame.viewed view).mergeUnder (inner.viewed view) top =
      (frame.mergeUnder inner top).viewed view := by
  apply foldl_viewed
  intro frame path bound
  dsimp only
  by_cases under : top.isPrefixOf path = true
  · rw [if_pos under, if_pos under]
    change (if inner.isConstant path then _ else _) =
      (if inner.isConstant path then _ else _ : Frame β).viewed view
    by_cases constant : inner.isConstant path = true
    · rw [if_pos constant, if_pos constant, put_viewed, markConstant_viewed]
    · rw [if_neg constant, if_neg constant, put_viewed]
  · rw [if_neg under, if_neg under]

theorem addLibrary_viewed :
    Evaluation.addLibrary (frame.viewed view) (library.viewed view) =
      (Evaluation.addLibrary frame library).viewed view := by
  apply foldl_viewed
  intro frame path bound
  dsimp only
  change (if library.isConstant path then _ else _) =
    (if library.isConstant path then _ else _ : Frame β).viewed view
  by_cases constant : library.isConstant path = true
  · rw [if_pos constant, if_pos constant, ← markConstant_viewed, ← bind_viewed]
    rfl
  · rw [if_neg constant, if_neg constant, ← bind_viewed]
    rfl

section Reads
variable [Readable β] [Readable γ] {view} {frame}

/-- Views that lead on to the same paths are followed to the same paths. -/
theorem follow_viewed (same : ∀ path bound, frame.lookup path = some bound →
      Readable.names? (view bound) = Readable.names? bound)
    (rounds : Nat) (seen frontier : List Path) :
    (frame.viewed view).follow rounds seen frontier = frame.follow rounds seen frontier := by
  have behind : (frame.viewed view).namesBehind? = frame.namesBehind? := by
    funext path
    rw [namesBehind?, namesBehind?, lookup_viewed]
    cases found : frame.lookup path with
    | none => rfl
    | some bound => exact same path bound found
  induction rounds generalizing seen frontier with
  | zero => cases frontier <;> rfl
  | succ rounds ih =>
    cases frontier with
    | nil => rfl
    | cons path paths => simp only [follow, behind, ih]

end Reads

end Frame

end BasilLang
