import BasilLang.Evaluation.Interpreter

/-! What the operations on frames do to single bindings and to properties that
all bindings have, and how frames may change while evaluation goes well: bound
paths stay bound, and whatever is bound anew is a literal or a proc. -/
namespace BasilLang.Frame

section Lookup
variable {frame inner : Frame} {path other : Path} {bound : Bound}

private theorem list_lookup_cons (first : Path) (held : Bound) (rest : Bindings) :
    List.lookup path ((first, held) :: rest) =
      if path = first then some held else List.lookup path rest := by
  rw [List.lookup_cons]
  by_cases same : path = first
  · simp [same]
  · rw [if_neg same, beq_eq_false_iff_ne.mpr same]

/-- No path is bound twice, so a binding is found where it stands. -/
theorem lookup_eq_some_iff : frame.lookup path = some bound ↔ (path, bound) ∈ frame.bindings := by
  have general : ∀ bindings : Bindings, bindings.paths.Nodup →
      (List.lookup path bindings = some bound ↔ (path, bound) ∈ bindings) := by
    intro bindings distinct
    induction bindings with
    | nil => simp
    | cons entry rest ih =>
      obtain ⟨first, held⟩ := entry
      obtain ⟨apart, distinct⟩ : first ∉ Bindings.paths rest ∧ (Bindings.paths rest).Nodup :=
        List.nodup_cons.mp distinct
      rw [list_lookup_cons]
      by_cases same : path = first
      · subst same
        have elsewhere : (path, bound) ∉ rest := fun member =>
          apart (List.mem_map_of_mem member)
        simp [elsewhere, eq_comm]
      · simp [same, ih distinct]
  exact general frame.bindings frame.distinct

theorem lookup_of_get (got : frame.get path = .ok bound) : frame.lookup path = some bound := by
  unfold get at got
  split at got
  · next found =>
    cases got
    exact found
  · cases got

theorem has_iff : frame.has path = true ↔ ∃ bound, frame.lookup path = some bound :=
  Option.isSome_iff_exists

theorem mem_paths_iff : path ∈ frame.bindings.paths ↔ frame.has path = true := by
  rw [has_iff]
  simp [Bindings.paths, lookup_eq_some_iff]

/-- What is put at a path is found there alone. -/
@[simp] theorem lookup_put (frame : Frame) (path : Path) (bound : Bound) (other : Path) :
    (frame.put path bound).lookup other =
      if other = path then some bound else frame.lookup other := by
  have general : ∀ bindings : Bindings, List.lookup other (bindings.put path bound) =
      if other = path then some bound else List.lookup other bindings := by
    intro bindings
    induction bindings with
    | nil => exact list_lookup_cons path bound []
    | cons entry rest ih =>
      obtain ⟨first, held⟩ := entry
      unfold Bindings.put
      by_cases same : first = path
      · rw [if_pos same, list_lookup_cons, list_lookup_cons, same]
        split <;> rfl
      · rw [if_neg same, list_lookup_cons, list_lookup_cons, ih]
        by_cases here : other = first
        · rw [if_pos here, if_pos here, if_neg (here ▸ same)]
        · rw [if_neg here, if_neg here]
  exact general frame.bindings

@[simp] theorem lookup_bind (frame : Frame) (path : Path) (bound : Bound) (other : Path) :
    (frame.bind path bound).lookup other =
      if other = path then some bound else frame.lookup other :=
  lookup_put frame path bound other

@[simp] theorem lookup_within (frame : Frame) (scope other : Path) :
    (frame.within scope).lookup other = frame.lookup other := rfl

/-- A frame one level deeper binds the same. -/
theorem lookup_deeper (deeper : frame.deeper = .ok inner) (path : Path) :
    inner.lookup path = frame.lookup path := by
  simp only [Frame.deeper] at deeper
  split at deeper
  · split at deeper <;> cases deeper
    rfl
  · cases deeper
    rfl

/-- A copy brings back what it binds to old paths. -/
@[simp] theorem lookup_mergeExisting (frame inner : Frame) (path : Path) :
    (frame.mergeExisting inner).lookup path =
      (frame.lookup path).map fun bound => (inner.lookup path).getD bound := by
  have general : ∀ (new : Path → Bound → Bound) (bindings : Bindings),
      List.lookup path (bindings.replace new) = (List.lookup path bindings).map (new path) := by
    intro new bindings
    induction bindings with
    | nil => rfl
    | cons entry rest ih =>
      obtain ⟨first, held⟩ := entry
      have step : Bindings.replace ((first, held) :: rest) new =
        (first, new first held) :: Bindings.replace rest new := rfl
      rw [step, list_lookup_cons, list_lookup_cons, ih]
      by_cases same : path = first
      · rw [if_pos same, if_pos same, same]
        rfl
      · rw [if_neg same, if_neg same]
  exact general (fun path bound => (inner.lookup path).getD bound) frame.bindings

/-- A path that is no parameter is bound as before. -/
theorem lookup_bindAll_of_not_mem {paths : List Path} {bounds : List Bound} (frame : Frame)
    (apart : other ∉ paths) : (frame.bindAll paths bounds).lookup other = frame.lookup other := by
  unfold bindAll
  induction paths generalizing frame bounds with
  | nil => rfl
  | cons path paths ih =>
    obtain ⟨differs, apart⟩ := List.ne_and_not_mem_of_not_mem_cons apart
    cases bounds with
    | nil => rfl
    | cons bound bounds => simp [ih (frame.bind path bound) apart, differs]

/-- What a parameter is bound to is one of the arguments. -/
theorem mem_of_lookup_bindAll {paths : List Path} {bounds : List Bound} (frame : Frame)
    (found : (frame.bindAll paths bounds).lookup other = some bound) :
    bound ∈ bounds ∨ frame.lookup other = some bound := by
  unfold bindAll at found
  induction paths generalizing frame bounds with
  | nil => exact .inr found
  | cons path paths ih =>
    cases bounds with
    | nil => exact .inr found
    | cons first bounds =>
      rw [List.zip_cons_cons, List.foldl_cons] at found
      rcases ih (frame.bind path first) found with member | before
      · exact .inl (List.mem_cons_of_mem _ member)
      · rw [lookup_bind] at before
        split at before
        · cases before
          exact .inl List.mem_cons_self
        · exact .inr before

/-- Parameters and bound paths are bound afterwards. -/
theorem has_bindAll {paths : List Path} {bounds : List Bound} (frame : Frame)
    (count : paths.length = bounds.length) (known : other ∈ paths ∨ frame.has other = true) :
    (frame.bindAll paths bounds).has other = true := by
  unfold bindAll
  induction paths generalizing frame bounds with
  | nil => exact known.resolve_left (by simp)
  | cons path paths ih =>
    cases bounds with
    | nil => simp at count
    | cons bound bounds =>
      refine ih (frame.bind path bound) (by simpa using count) ?_
      by_cases same : other = path
      · exact .inr (by simp [has, same])
      · rcases known with member | before
        · exact .inl ((List.mem_cons.mp member).resolve_left same)
        · exact .inr (by rwa [has, lookup_bind, if_neg same])

/-- Each of several different parameters is bound to its own argument. -/
theorem lookup_bindAll_get {paths : List Path} {bounds : List Bound} (frame : Frame)
    (different : paths.Nodup) {i : Nat} (here : paths[i]? = some path)
    (given : bounds[i]? = some bound) :
    (frame.bindAll paths bounds).lookup path = some bound := by
  induction paths generalizing frame bounds i with
  | nil => simp at here
  | cons first paths ih =>
    obtain ⟨apart, different⟩ := List.nodup_cons.mp different
    cases bounds with
    | nil => simp at given
    | cons held bounds =>
      cases i with
      | zero =>
        cases here
        cases given
        have later : ((frame.bind path bound).bindAll paths bounds).lookup path =
          (frame.bind path bound).lookup path := lookup_bindAll_of_not_mem _ apart
        rwa [lookup_bind, if_pos rfl] at later
      | succ i => exact ih (frame.bind first held) different here given

end Lookup

/-- Every binding has a property, which may depend on the path. -/
def Binds (P : Path → Bound → Prop) (frame : Frame) : Prop :=
  ∀ path bound, frame.lookup path = some bound → P path bound

section Binds
variable {P : Path → Bound → Prop} {frame inner : Frame} {path : Path} {bound : Bound}

/-- A binding that complies is put among others that do. -/
theorem Binds.put (holds : frame.Binds P) (rule : P path bound) :
    (frame.put path bound).Binds P := by
  intro other held found
  rw [lookup_put] at found
  split at found
  · next same =>
    cases found
    exact same ▸ rule
  · exact holds other held found

/-- Parameters and arguments that comply are bound among others that do. -/
theorem Binds.bindAll {paths : List Path} {bounds : List Bound} (holds : frame.Binds P)
    (rule : ∀ path ∈ paths, ∀ bound ∈ bounds, P path bound) :
    (frame.bindAll paths bounds).Binds P := by
  intro path bound found
  by_cases param : path ∈ paths
  · rcases mem_of_lookup_bindAll frame found with member | before
    · exact rule path param bound member
    · exact holds path bound before
  · rw [lookup_bindAll_of_not_mem frame param] at found
    exact holds path bound found

/-- A copy brings back nothing that does not comply. -/
theorem Binds.mergeExisting (holds : frame.Binds P) (inside : inner.Binds P) :
    (frame.mergeExisting inner).Binds P := by
  intro path bound found
  rw [lookup_mergeExisting, Option.map_eq_some_iff] at found
  obtain ⟨old, held, rfl⟩ := found
  cases copied : inner.lookup path with
  | none => exact holds path old held
  | some new => exact inside path new copied

/-- A namespace brings back nothing that does not comply. -/
theorem Binds.mergeUnder (holds : frame.Binds P) (inside : inner.Binds P) (top : Path) :
    (frame.mergeUnder inner top).Binds P := by
  refine List.foldlRecOn inner.bindings _ holds fun merged sofar entry member => ?_
  obtain ⟨path, bound⟩ := entry
  have puts : (merged.put path bound).Binds P :=
    sofar.put (inside path bound (lookup_eq_some_iff.mpr member))
  dsimp only
  split
  · split
    · exact puts
    · exact puts
  · exact sofar

/-- The bindings of a library come under the scope of the frame. -/
theorem Binds.addLibrary {library : Frame} (holds : frame.Binds P)
    (inside : library.Binds fun path => P (frame.qualify path)) :
    (Evaluation.addLibrary frame library).Binds P := by
  refine (List.foldlRecOn (motive := fun added : Frame => added.scope = frame.scope ∧ added.Binds P)
    library.bindings _ ⟨rfl, holds⟩ fun added sofar entry member => ?_).2
  obtain ⟨path, bound⟩ := entry
  obtain ⟨scope, sofar⟩ := sofar
  have rule : P (added.qualify path) bound := by
    rw [qualify, scope]
    exact inside path bound (lookup_eq_some_iff.mpr member)
  dsimp only
  split
  · exact ⟨scope, sofar.put rule⟩
  · exact ⟨scope, sofar.put rule⟩

end Binds

/-- How a frame may change while evaluation goes well. -/
structure Settles (before after : Frame) : Prop where
  /-- Bound paths stay bound. -/
  kept : ∀ path, before.has path = true → after.has path = true
  /-- What is bound is resolved, or was bound to the same path before. -/
  settled : ∀ path bound, after.lookup path = some bound →
    bound.unresolved? = none ∨ before.lookup path = some bound

section Settles
variable {before after frame inner : Frame} {path : Path} {bound : Bound}

/-- A frame that binds the same has settled. -/
theorem Settles.of_lookup (same : ∀ path, after.lookup path = before.lookup path) :
    before.Settles after :=
  ⟨fun path => by simp [has, same], fun path bound found => .inr (same path ▸ found)⟩

theorem Settles.refl (frame : Frame) : frame.Settles frame :=
  .of_lookup fun _ => rfl

theorem Settles.trans {middle : Frame} (first : before.Settles middle)
    (second : middle.Settles after) : before.Settles after := by
  refine ⟨fun path held => second.kept path (first.kept path held), fun path bound found => ?_⟩
  rcases second.settled path bound found with resolved | found
  · exact .inl resolved
  · exact first.settled path bound found

private theorem Settles.put (settles : before.Settles after)
    (rule : bound.unresolved? = none ∨ before.lookup path = some bound) :
    before.Settles (after.put path bound) := by
  refine ⟨fun other held => ?_, fun other found lookup => ?_⟩
  · rw [has, lookup_put]
    split
    · rfl
    · exact settles.kept other held
  · rw [lookup_put] at lookup
    split at lookup
    · next same =>
      cases lookup
      exact same ▸ rule
    · exact settles.settled other found lookup

private theorem Settles.markConstant (settles : before.Settles after) (path : Path) :
    before.Settles (after.markConstant path) :=
  settles.trans (.of_lookup fun _ => rfl)

theorem Settles.bind (settles : before.Settles after) (resolved : bound.unresolved? = none) :
    before.Settles (after.bind path bound) :=
  (settles.put (.inl resolved)).trans (.of_lookup fun _ => rfl)

/-- Declaring what is resolved lets a frame settle. -/
theorem settles_declare {constant : Bool} (resolved : bound.unresolved? = none)
    (declared : frame.declare path bound constant = .ok after) : frame.Settles after := by
  have puts : frame.Settles (frame.put path bound) := (Settles.refl frame).put (.inl resolved)
  unfold declare at declared
  cases free : frame.requireUnbound path with
  | error fault =>
    rw [free] at declared
    cases declared
  | ok _ =>
    rw [free] at declared
    cases declared
    split
    · exact puts.markConstant path
    · exact puts

/-- Assigning what is resolved lets a frame settle. -/
theorem settles_assign (resolved : bound.unresolved? = none)
    (assigned : frame.assign path bound = .ok after) : frame.Settles after := by
  unfold assign at assigned
  cases free : frame.requireAssignable path with
  | error fault =>
    rw [free] at assigned
    cases assigned
  | ok _ =>
    rw [free] at assigned
    cases assigned
    exact (Settles.refl frame).put (.inl resolved)

/-- Copying back keeps to the rule when what is copied back does. -/
theorem settles_mergeExisting (rule : ∀ path bound, frame.has path = true →
    inner.lookup path = some bound → bound.unresolved? = none ∨ frame.lookup path = some bound) :
    frame.Settles (frame.mergeExisting inner) := by
  refine ⟨fun path held => ?_, fun path bound found => ?_⟩
  · simpa [has] using held
  · rw [lookup_mergeExisting, Option.map_eq_some_iff] at found
    obtain ⟨old, held, rfl⟩ := found
    cases copied : inner.lookup path with
    | none => exact .inr held
    | some new => exact rule path new (has_iff.mpr ⟨old, held⟩) copied

/-- The end of a call: what the caller has gets back nothing unresolved if the
parameters that it has are resolved. -/
theorem settles_mergeExisting_callee {copy : Frame} {proc : Proc} {name : Path}
    {args : List Bound} (deeper : frame.deeper = .ok copy)
    (settles : (Evaluation.calleeFrame copy proc name args).Settles inner)
    (resolved : ∀ path ∈ Evaluation.paramPaths proc, frame.has path = true →
      ∀ bound, inner.lookup path = some bound → bound.unresolved? = none) :
    frame.Settles (frame.mergeExisting inner) := by
  refine settles_mergeExisting fun path bound held found => ?_
  by_cases param : path ∈ Evaluation.paramPaths proc
  · exact .inl (resolved path param held bound found)
  · rcases settles.settled path bound found with settled | before
    · exact .inl settled
    · rw [Evaluation.calleeFrame, lookup_bindAll_of_not_mem _ param, lookup_within,
        lookup_deeper deeper] at before
      exact .inr before

/-- What a namespace brings back has settled if its frame has. -/
theorem settles_mergeUnder (settles : frame.Settles inner) (top : Path) :
    frame.Settles (frame.mergeUnder inner top) := by
  refine List.foldlRecOn inner.bindings _ (.refl frame) fun merged sofar entry member => ?_
  obtain ⟨path, bound⟩ := entry
  have puts : frame.Settles (merged.put path bound) :=
    sofar.put (settles.settled path bound (lookup_eq_some_iff.mpr member))
  dsimp only
  split
  · split
    · exact puts.markConstant path
    · exact puts
  · exact sofar

/-- Adding a library keeps to the rule when the library has nothing
unresolved. -/
theorem settles_addLibrary {library : Frame}
    (resolved : ∀ path bound, library.lookup path = some bound → bound.unresolved? = none) :
    frame.Settles (Evaluation.addLibrary frame library) := by
  refine List.foldlRecOn library.bindings _ (.refl frame) fun added sofar entry member => ?_
  obtain ⟨path, bound⟩ := entry
  have binds : frame.Settles (added.bind (added.qualify path) bound) :=
    sofar.bind (resolved path bound (lookup_eq_some_iff.mpr member))
  dsimp only
  split
  · exact binds.markConstant _
  · exact binds

end Settles

end BasilLang.Frame
