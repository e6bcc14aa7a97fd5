import BasilLang.Proofs.Obedience

/-! Constants keep their values. Assignments and declarations refuse a constant,
imports refuse a path that is bound, and what a copy brings back is what it was
given, since the copy has the same constants. The one way around is a variable
of the constant's name: a counting loop and a call bind theirs afresh in the
copy, where the name is then no constant, and what it holds in the end is
copied back. Evaluation that comes to no such loop or call leaves a constant
bound to the very node it was bound to, even if it ends in an error. -/
namespace BasilLang

namespace Frame
variable {frame inner : Frame} {path k : Path}

private theorem isConstant_bindAll {paths : List Path} {bounds : List Bound} (frame : Frame)
    (apart : k ∉ paths) : (frame.bindAll paths bounds).isConstant k = frame.isConstant k := by
  unfold bindAll
  induction paths generalizing frame bounds with
  | nil => rfl
  | cons path paths ih =>
    obtain ⟨differs, apart⟩ := List.ne_and_not_mem_of_not_mem_cons apart
    cases bounds with
    | nil => rfl
    | cons bound bounds =>
      rw [List.zip_cons_cons, List.foldl_cons, ih (frame.bind path bound) apart, isConstant_bind]
      simp [differs]

private theorem isConstant_deeper (deeper : frame.deeper = .ok inner) (path : Path) :
    inner.isConstant path = frame.isConstant path := by
  simp only [Frame.deeper] at deeper
  split at deeper
  · split at deeper <;> cases deeper
    rfl
  · cases deeper
    rfl

/-- The path is a constant with the given binding. -/
def Fixes (k : Path) (bound : Bound) (frame : Frame) : Prop :=
  frame.isConstant k = true ∧ frame.lookup k = some bound

section Fixes
variable {held bound : Bound}

private theorem Fixes.put (fixes : frame.Fixes k held) (other : path = k → bound = held) :
    (frame.put path bound).Fixes k held := by
  refine ⟨fixes.1, ?_⟩
  rw [lookup_put]
  by_cases same : k = path
  · rw [if_pos same, other same.symm]
  · rw [if_neg same, fixes.2]

private theorem Fixes.markConstant (fixes : frame.Fixes k held) (path : Path) :
    (frame.markConstant path).Fixes k held :=
  ⟨by simp [isConstant_markConstant, fixes.1], fixes.2⟩

private theorem Fixes.bind (fixes : frame.Fixes k held) (other : path ≠ k) (bound : Bound) :
    (frame.bind path bound).Fixes k held :=
  ⟨by simp [isConstant_bind, fixes.1, Ne.symm other], by simp [fixes.2, Ne.symm other]⟩

private theorem Fixes.mergeExisting (fixes : frame.Fixes k held) (inside : inner.Fixes k held) :
    (frame.mergeExisting inner).Fixes k held :=
  ⟨fixes.1, by simp [fixes.2, inside.2]⟩

private theorem Fixes.mergeUnder (fixes : frame.Fixes k held) (inside : inner.Fixes k held)
    (top : Path) :
    (frame.mergeUnder inner top).Fixes k held := by
  refine List.foldlRecOn inner.bindings _ fixes fun merged sofar entry member => ?_
  obtain ⟨path, bound⟩ := entry
  have same : path = k → bound = held := by
    rintro rfl
    have found := lookup_eq_some_iff.mpr member
    rw [inside.2] at found
    exact (Option.some.inj found).symm
  dsimp only
  split
  · split
    · exact (sofar.put same).markConstant path
    · exact sofar.put same
  · exact sofar

private theorem Fixes.addLibrary {library : Frame} (fixes : frame.Fixes k held)
    (free : ∀ entry ∈ library.bindings, frame.has (frame.qualify entry.1) = false) :
    (Evaluation.addLibrary frame library).Fixes k held := by
  refine (List.foldlRecOn (motive := fun added : Frame => added.scope = frame.scope ∧
    added.Fixes k held) library.bindings _ ⟨rfl, fixes⟩ fun added sofar entry member => ?_).2
  obtain ⟨scope, sofar⟩ := sofar
  have other : added.qualify entry.1 ≠ k := by
    intro same
    have taken : frame.has k = true := has_iff.mpr ⟨held, fixes.2⟩
    have here := free entry member
    rw [qualify, ← scope, ← qualify, same, taken] at here
    cases here
  have binds := sofar.bind other entry.2
  dsimp only
  split
  · exact ⟨scope, binds.markConstant _⟩
  · exact ⟨scope, binds⟩

end Fixes

/-- A frame that evolves without loops over a constant and without calls of
procs with such a parameter keeps the constant. -/
theorem Evolves.fixes {regime : Regime} {before after : Frame} {held : Bound}
    (loops : ∀ path, regime.loops path → path ≠ k)
    (calls : ∀ caller proc, regime.calls caller proc → k ∉ Evaluation.paramPaths proc)
    (evolves : before.Evolves regime after) (fixes : before.Fixes k held) :
    after.Fixes k held := by
  induction evolves with
  | refl => exact fixes
  | trans _ _ first second => exact second (first fixes)
  | @declare frame _ path _ _ _ _ declared =>
    obtain ⟨free, rfl⟩ := eq_of_declare declared
    have other : path ≠ k := by
      rintro rfl
      rw [has_iff.mpr ⟨held, fixes.2⟩] at free
      cases free
    split
    · exact (fixes.put fun same => absurd same other).markConstant path
    · exact fixes.put fun same => absurd same other
  | @assign frame _ path _ _ _ assigned =>
    obtain ⟨notConstant, rfl⟩ := eq_of_assign assigned
    refine fixes.put fun same => ?_
    rw [same, fixes.1] at notConstant
    cases notConstant
  | copy _ inner => exact fixes.mergeExisting (inner fixes)
  | round counts _ _ inner => exact fixes.mergeExisting (inner (fixes.bind (loops _ counts) _))
  | call called deeper _ _ inner =>
    have apart := calls _ _ called
    refine fixes.mergeExisting (inner ⟨?_, ?_⟩)
    · rw [Evaluation.calleeFrame, isConstant_bindAll _ apart]
      exact (isConstant_deeper deeper k).trans fixes.1
    · rw [Evaluation.calleeFrame, lookup_bindAll_of_not_mem _ apart, lookup_within,
        lookup_deeper deeper, fixes.2]
  | settle called param =>
    refine fixes.bind ?_ _
    rintro rfl
    exact calls _ _ called param
  | inNamespace _ inner => exact fixes.mergeUnder (inner fixes) _
  | addLibrary _ _ _ free => exact fixes.addLibrary free

end Frame

namespace Constancy

/-- Whether a node binds the path as a variable of its own: a counting loop over
it, or a call of a proc that has it for a parameter. -/
def rebinds (k : Path) (s : Stmt) (frame : Frame) : Bool :=
  s.counter? == some k || (s.callee? frame).any fun proc => (Evaluation.paramPaths proc).contains k

/-- The regime of evaluation that nowhere rebinds the path. -/
def leaving (k : Path) : Regime :=
  .unguarded (· ≠ k) (fun _ proc => k ∉ Evaluation.paramPaths proc) fun _ => id

private theorem leaving_allows {k : Path} (s : Stmt) (frame : Frame)
    (apart : rebinds k s frame = false) :
    (leaving k).Allows frame s := by
  rw [rebinds, Bool.or_eq_false_iff] at apart
  constructor
  · intro proc called param
    simp [called, param] at apart
  · rintro path counts rfl
    simp [counts] at apart
  · exact fun _ _ => trivial

/-- Constants keep their values. Let all constants of a frame be bound. Whatever
node is evaluated in it, and however that ends, a constant is bound to the same
node afterwards and is still a constant, unless evaluation comes to a counting
loop over it or to a call of a proc that has it for a parameter. -/
theorem constants_keep_their_values (patience room : Nat) (part : Part) (m : Machine)
    (sound : m.frame.ConstantsBound) (k : Path) (constant : m.frame.isConstant k = true)
    (avoids : Avoids (rebinds k) patience room (fun inside => part.eval inside) m) :
    let after := (part.eval (interpreter patience room) m).2.frame
    after.lookup k = m.frame.lookup k ∧ after.isConstant k = true := by
  obtain ⟨bound, held⟩ := Frame.has_iff.mp (sound k constant)
  have evolves : m.frame.Evolves (leaving k) (part.eval (interpreter patience room) m).2.frame :=
    avoids.evolves trivial leaving_allows (fun _ _ _ => trivial) fun _ obedient _ under =>
      obedient.near.part under (fun _ => trivial) (fun _ => trivial) part
  have fixes := evolves.fixes (fun _ => id) (fun _ _ => id) ⟨constant, held⟩
  exact ⟨fixes.2.trans held.symm, fixes.1⟩

/-- A frame with one constant `c` and a proc of the given parameter and body. -/
def besideProc (param : String) (body : List Stmt) : Frame where
  bindings := [(["c"], .ofValue ⟨.number, "1"⟩ default),
    (["f"], .declared ⟨["f"], default⟩ (.mk default [⟨param, default⟩] default body default))]
  distinct := by simp [Bindings.paths]
  constants := [["c"]]

/-- The call `f(2)`. -/
def callWithTwo : Part :=
  .expr (.call ⟨["f"], default⟩ [.literal ⟨.number, "2"⟩ default] default)

private theorem besideProc_sound (param : String) (body : List Stmt) :
    (besideProc param body).ConstantsBound := by
  intro path constant
  obtain rfl : path = ["c"] := by simpa [besideProc, Frame.isConstant] using constant
  rfl

/-- A call that fails inside of a namespace, after declaring another constant,
leaves the constant alone. -/
theorem failing_call_keeps_constant :
    let start := besideProc "x" [Discipline.failingNamespace]
    let after := (callWithTwo.eval (interpreter 0 100) ⟨start, {}⟩).2.frame
    start.ConstantsBound ∧ start.isConstant ["c"] = true ∧
      (∃ failure, (callWithTwo.eval (interpreter 0 100) ⟨start, {}⟩).1 =
        .error (.failed failure)) ∧
      Avoids (rebinds ["c"]) 0 100 (fun inside => callWithTwo.eval inside) ⟨start, {}⟩ ∧
      after.lookup ["c"] = start.lookup ["c"] ∧ after.isConstant ["c"] = true := by
  have sound := besideProc_sound "x" [Discipline.failingNamespace]
  have avoids : Avoids (rebinds ["c"]) 0 100 (fun inside => callWithTwo.eval inside)
    ⟨besideProc "x" [Discipline.failingNamespace], {}⟩ := nofun
  exact ⟨sound, rfl, ⟨_, rfl⟩, avoids,
    constants_keep_their_values 0 100 callWithTwo _ sound ["c"] rfl avoids⟩

/-- A parameter of its name gives a constant another value. -/
theorem parameter_rebinds_constant :
    let start := besideProc "c" []
    let after := (callWithTwo.eval (interpreter 0 100) ⟨start, {}⟩).2.frame
    start.ConstantsBound ∧ start.isConstant ["c"] = true ∧
      start.lookup ["c"] = some (.ofValue ⟨.number, "1"⟩ default) ∧
      after.lookup ["c"] = some (.ofValue ⟨.number, "2"⟩ default) :=
  ⟨besideProc_sound "c" [], rfl, rfl, rfl⟩

end Constancy

end BasilLang
