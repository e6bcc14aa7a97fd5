import BasilLang.Proofs.Concurrence
import BasilLang.Proofs.Discipline
import BasilLang.Proofs.Mirroring

/-! Namespaces inside each other are one namespace. What the inner one copies
back to its copy of the frame lies under the scope of the outer one as well, so
the outer one copies all of it back and nothing else. What a copy-back leaves is
told by one equation each for the paths, for what they are bound to and for the
constants. -/
namespace BasilLang.Flattening

open Evaluation (inNamespace)

section Merging
variable {frame inner after : Frame} {top : Path}

private theorem paths_put (bindings : Bindings) (path : Path) (bound : Bound) :
    (bindings.put path bound).paths =
      if path ∈ bindings.paths then bindings.paths else bindings.paths ++ [path] := by
  induction bindings with
  | nil => rfl
  | cons entry rest ih =>
    obtain ⟨first, held⟩ := entry
    unfold Bindings.put
    by_cases same : first = path
    · simp [Bindings.paths, same]
    · have differs : path ≠ first := Ne.symm same
      simp only [Bindings.paths] at ih
      by_cases member : path ∈ rest.map Prod.fst
      · simp [Bindings.paths, same, ih, member]
      · simp [Bindings.paths, same, differs, ih, member]

/-- One entry of a copy is copied back. -/
private def mergeEntry (inner : Frame) (top : Path) (frame : Frame) (entry : Path × Bound) :
    Frame :=
  if top.isPrefixOf entry.1 then
    if inner.isConstant entry.1 then (frame.put entry.1 entry.2).markConstant entry.1
    else frame.put entry.1 entry.2
  else frame

private theorem mergeUnder_eq (frame inner : Frame) (top : Path) :
    frame.mergeUnder inner top = inner.bindings.foldl (mergeEntry inner top) frame := rfl

section Entry
variable (inner : Frame) (top : Path) (frame : Frame) (entry : Path × Bound)

private theorem bindings_mergeEntry : (mergeEntry inner top frame entry).bindings =
    if top.isPrefixOf entry.1 then frame.bindings.put entry.1 entry.2 else frame.bindings := by
  unfold mergeEntry
  by_cases under : top.isPrefixOf entry.1 = true
  · cases inner.isConstant entry.1 <;> simp [under] <;> rfl
  · simp [under]

private theorem lookup_mergeEntry (path : Path) :
    (mergeEntry inner top frame entry).lookup path =
      if top.isPrefixOf entry.1 ∧ path = entry.1 then some entry.2 else frame.lookup path := by
  unfold mergeEntry
  by_cases under : top.isPrefixOf entry.1 = true
  · cases inner.isConstant entry.1 <;> simp [under, Frame.lookup_markConstant]
  · simp [under]

private theorem isConstant_mergeEntry (path : Path) :
    (mergeEntry inner top frame entry).isConstant path = (frame.isConstant path ||
      (top.isPrefixOf path && inner.isConstant path && path == entry.1)) := by
  have put : (frame.put entry.1 entry.2).isConstant path = frame.isConstant path := rfl
  unfold mergeEntry
  by_cases same : path = entry.1
  · subst same
    by_cases under : top.isPrefixOf entry.1 = true
    · cases inner.isConstant entry.1 <;> simp [under, put, Frame.isConstant_markConstant]
    · simp [under]
  · have unlike : (path == entry.1) = false := beq_eq_false_iff_ne.mpr same
    by_cases under : top.isPrefixOf entry.1 = true
    · cases inner.isConstant entry.1 <;> simp [under, put, unlike, Frame.isConstant_markConstant]
    · simp [under, unlike]

end Entry

private theorem lookup_entries {entries : Bindings} (distinct : entries.paths.Nodup)
    (inner : Frame) (top : Path) (frame : Frame) (path : Path) :
    (entries.foldl (mergeEntry inner top) frame).lookup path =
      if top.isPrefixOf path then (entries.lookup path).or (frame.lookup path)
      else frame.lookup path := by
  induction entries generalizing frame with
  | nil => simp
  | cons entry entries ih =>
    obtain ⟨first, held⟩ := entry
    obtain ⟨apart, distinct⟩ : first ∉ Bindings.paths entries ∧ (Bindings.paths entries).Nodup :=
      List.nodup_cons.mp distinct
    rw [List.foldl_cons, ih distinct, lookup_mergeEntry, List.lookup_cons]
    by_cases same : path = first
    · have elsewhere : entries.lookup first = none := by
        rw [List.lookup_eq_none_iff]
        intro other member
        rw [bne_iff_ne]
        rintro equal
        exact apart (equal ▸ List.mem_map_of_mem member)
      simp [same, elsewhere]
    · have unlike : (path == first) = false := beq_eq_false_iff_ne.mpr same
      simp [same, unlike]

/-- What a copy binds under the path is copied back. -/
theorem lookup_mergeUnder_inside (frame inner : Frame) {path : Path}
    (inside : top.isPrefixOf path = true) :
    (frame.mergeUnder inner top).lookup path = (inner.lookup path).or (frame.lookup path) := by
  rw [mergeUnder_eq, lookup_entries inner.distinct, if_pos inside]
  rfl

private theorem isConstant_entries (entries : Bindings) (inner : Frame) (top : Path)
    (frame : Frame) (path : Path) :
    (entries.foldl (mergeEntry inner top) frame).isConstant path = (frame.isConstant path ||
      (top.isPrefixOf path && inner.isConstant path && entries.paths.contains path)) := by
  induction entries generalizing frame with
  | nil => simp [Bindings.paths]
  | cons entry entries ih =>
    rw [List.foldl_cons, ih, isConstant_mergeEntry]
    simp only [Bindings.paths, List.map_cons, List.contains_cons]
    rw [Bool.or_assoc, ← Bool.and_or_distrib_left]

private theorem paths_entries {entries : Bindings} (distinct : entries.paths.Nodup)
    (inner : Frame) (top : Path) (frame : Frame) :
    (entries.foldl (mergeEntry inner top) frame).bindings.paths = frame.bindings.paths ++
      entries.paths.filter fun path => top.isPrefixOf path && !frame.has path := by
  induction entries generalizing frame with
  | nil => simp [Bindings.paths]
  | cons entry entries ih =>
    obtain ⟨apart, distinct⟩ : entry.1 ∉ Bindings.paths entries ∧ (Bindings.paths entries).Nodup :=
      List.nodup_cons.mp distinct
    have others : (Bindings.paths entries).filter (fun path => top.isPrefixOf path &&
        !(mergeEntry inner top frame entry).has path) =
        (Bindings.paths entries).filter fun path => top.isPrefixOf path && !frame.has path := by
      refine List.filter_congr fun path member => ?_
      have differs : path ≠ entry.1 := fun same => apart (same ▸ member)
      simp [Frame.has, lookup_mergeEntry, differs]
    have split : Bindings.paths (entry :: entries) = entry.1 :: Bindings.paths entries := rfl
    rw [List.foldl_cons, ih distinct, others, bindings_mergeEntry, split, List.filter_cons]
    by_cases under : top.isPrefixOf entry.1 = true
    · by_cases bound : frame.has entry.1 = true
      · simp [under, bound, paths_put, Frame.mem_paths_iff]
      · simp [under, bound, paths_put, Frame.mem_paths_iff]
    · simp [under]

private theorem bindings_ext {frame other : Frame}
    (paths : frame.bindings.paths = other.bindings.paths)
    (lookup : ∀ path, frame.lookup path = other.lookup path) :
    frame.bindings = other.bindings := by
  have read : ∀ frame : Frame, frame.bindings.paths.filterMap
      (fun path => (frame.lookup path).map (path, ·)) = frame.bindings := by
    intro frame
    rw [Bindings.paths, List.filterMap_map]
    refine (List.filterMap_congr fun entry member => ?_).trans List.filterMap_some
    have found : frame.lookup entry.1 = some entry.2 := Frame.lookup_eq_some_iff.mpr member
    rw [Function.comp_apply, found]
    rfl
  rw [← read frame, ← read other, paths]
  simp only [lookup]

/-- The second frame has more than the first, or something else, only under the
path. -/
structure GrowsUnder (top : Path) (frame after : Frame) : Prop where
  paths : ∃ new, after.bindings.paths = frame.bindings.paths ++ new ∧
    ∀ path ∈ new, top.isPrefixOf path = true
  lookup : ∀ path, top.isPrefixOf path = false → after.lookup path = frame.lookup path
  kept : ∀ path, frame.isConstant path = true → after.isConstant path = true
  constant : ∀ path, after.isConstant path = true →
    frame.isConstant path = true ∨ top.isPrefixOf path = true ∧ after.has path = true

private theorem GrowsUnder.refl (top : Path) (frame : Frame) : GrowsUnder top frame frame :=
  ⟨⟨[], by simp, nofun⟩, fun _ _ => rfl, fun _ constant => constant, fun _ => .inl⟩

/-- What lies under a longer path lies under a shorter one. -/
theorem GrowsUnder.shorten {front : Path} (grows : GrowsUnder top frame after)
    (shorter : front <+: top) : GrowsUnder front frame after := by
  have under : ∀ path, top.isPrefixOf path = true → front.isPrefixOf path = true := by
    intro path
    rw [List.isPrefixOf_iff_prefix, List.isPrefixOf_iff_prefix]
    exact shorter.trans
  constructor
  · obtain ⟨new, paths, inside⟩ := grows.paths
    exact ⟨new, paths, fun path member => under path (inside path member)⟩
  · intro path outside
    apply grows.lookup
    by_contra inside
    rw [under path (by simpa using inside)] at outside
    cases outside
  · exact grows.kept
  · intro path constant
    rcases grows.constant path constant with before | ⟨inside, has⟩
    · exact .inl before
    · exact .inr ⟨under path inside, has⟩

private theorem growsUnder_mergeUnder (top : Path) (frame inner : Frame) :
    GrowsUnder top frame (frame.mergeUnder inner top) := by
  constructor
  · refine ⟨_, paths_entries inner.distinct inner top frame, fun path member => ?_⟩
    have kept := List.of_mem_filter member
    exact (Bool.and_eq_true_iff.mp kept).1
  · exact fun path outside => Frame.lookup_mergeUnder inner outside
  · intro path constant
    rw [mergeUnder_eq, isConstant_entries, constant, Bool.true_or]
  · intro path constant
    rw [mergeUnder_eq, isConstant_entries, Bool.or_eq_true] at constant
    rcases constant with before | copied
    · exact .inl before
    · obtain ⟨⟨inside, -⟩, member⟩ : (top.isPrefixOf path = true ∧
          inner.isConstant path = true) ∧ inner.bindings.paths.contains path = true := by
        simpa only [Bool.and_eq_true] using copied
      have held : (inner.bindings.lookup path).isSome = true :=
        Frame.mem_paths_iff.mp (List.contains_iff_mem.mp member)
      refine .inr ⟨inside, ?_⟩
      rw [Frame.has, mergeUnder_eq, lookup_entries inner.distinct, if_pos inside,
        Option.isSome_or, held, Bool.true_or]

private theorem GrowsUnder.has (grows : GrowsUnder top frame after) {path : Path}
    (held : frame.has path = true) : after.has path = true := by
  obtain ⟨new, paths, -⟩ := grows.paths
  rw [← Frame.mem_paths_iff, paths]
  exact List.mem_append_left _ (Frame.mem_paths_iff.mpr held)

private theorem GrowsUnder.mergeUnder_paths (grows : GrowsUnder top frame after) :
    (frame.mergeUnder after top).bindings.paths = after.bindings.paths := by
  obtain ⟨new, paths, inside⟩ := grows.paths
  have distinct : (frame.bindings.paths ++ new).Nodup := paths ▸ after.distinct
  have old : frame.bindings.paths.filter
      (fun path => top.isPrefixOf path && !frame.has path) = [] := by
    refine List.filter_eq_nil_iff.mpr fun path member => ?_
    simp [Frame.mem_paths_iff.mp member]
  have added : new.filter (fun path => top.isPrefixOf path && !frame.has path) = new := by
    refine List.filter_eq_self.mpr fun path member => ?_
    have free : frame.has path = false := by
      rw [← Bool.not_eq_true, ← Frame.mem_paths_iff]
      exact fun held => List.disjoint_of_nodup_append distinct held member
    simp [free, List.isPrefixOf_iff_prefix.mp (inside path member)]
  rw [mergeUnder_eq, paths_entries after.distinct, paths, List.filter_append, old, added,
    List.nil_append]

private theorem GrowsUnder.mergeUnder_lookup (grows : GrowsUnder top frame after) (path : Path) :
    (frame.mergeUnder after top).lookup path = after.lookup path := by
  cases inside : top.isPrefixOf path with
  | false => rw [Frame.lookup_mergeUnder after inside, grows.lookup path inside]
  | true =>
    rw [lookup_mergeUnder_inside frame after inside]
    cases held : after.lookup path with
    | some bound => rfl
    | none =>
      have unbound : frame.has path ≠ true := by
        intro before
        have later := grows.has before
        rw [Frame.has, held] at later
        cases later
      rw [Option.none_or]
      exact Option.not_isSome_iff_eq_none.mp unbound

/-- Copying back a frame that has grown under the path gives all of it. -/
theorem GrowsUnder.mergeUnder (grows : GrowsUnder top frame after) :
    (frame.mergeUnder after top).bindings = after.bindings ∧
      ∀ path, (frame.mergeUnder after top).isConstant path = after.isConstant path := by
  refine ⟨bindings_ext grows.mergeUnder_paths grows.mergeUnder_lookup, fun path => ?_⟩
  rw [mergeUnder_eq, isConstant_entries]
  cases constant : after.isConstant path with
  | false =>
    have before : frame.isConstant path ≠ true := by
      intro before
      rw [grows.kept path before] at constant
      cases constant
    simp [before]
  | true =>
    rcases grows.constant path constant with before | ⟨inside, held⟩
    · simp [before]
    · have member : after.bindings.paths.contains path = true :=
        List.contains_iff_mem.mpr (Frame.mem_paths_iff.mpr held)
      rw [inside, member]
      simp

end Merging

section Running
variable {body : List Stmt} {patience room : Nat} {m after : Machine} {outcome : Except Stop Unit}

/-- Two runs that end with the same value or the same fault, have written the
same, and leave the same bindings, places apart, and the same constants. -/
structure SameEffect (ran ran' : Except Stop Value × Machine) : Prop where
  outcome : Eval.Agree Eq ran.1 ran'.1
  out : ran.2.console.out = ran'.2.console.out
  bindings : ran.2.frame.bindings.unplaced = ran'.2.frame.bindings.unplaced
  constants : ∀ path, ran.2.frame.isConstant path = ran'.2.frame.isConstant path

private theorem inNamespace_eq {inside : Meaning} {path : Path}
    (ran : inside.body body { m with frame := m.frame.within (m.frame.qualify path) } =
      (outcome, after)) :
    inNamespace inside path body m = (outcome.map fun _ => .null,
      { after with frame := m.frame.mergeUnder after.frame (m.frame.qualify path) }) := by
  have worked : Eval.inFrame (m.frame.within (m.frame.qualify path))
      (·.mergeUnder · (m.frame.qualify path)) (inside.body body) m =
      (outcome, { after with frame := m.frame.mergeUnder after.frame (m.frame.qualify path) }) := by
    rw [Eval.inFrame, ran]
  have current : Eval.frame m = (.ok m.frame, m) := rfl
  rw [inNamespace, Eval.bind_of_ok current]
  cases outcome with
  | ok => exact Eval.bind_of_ok worked
  | error reason => exact Eval.bind_of_error worked

/-- A namespace ends as its body does, and copies back what lies under it. -/
theorem namespace_runs {name : Name} (enough : Room.work ≤ room)
    (ran : (interpreter patience (room - Room.node)).body body
      { m with frame := m.frame.within (m.frame.qualify name.path) } = (outcome, after))
    (bodyLoc loc : Loc) :
    (interpreter patience (room + 1)).stmt (.inNamespace name body bodyLoc loc) m =
      (Eval.placed loc (outcome.map fun _ => .null),
        { after with frame := m.frame.mergeUnder after.frame (m.frame.qualify name.path) }) := by
  have node : (interpreter patience (room + 1)).stmt (.inNamespace name body bodyLoc loc) =
      Eval.located loc (inNamespace (interpreter patience (room - Room.node)) name.path body) := by
    change interpret patience (room + 1) 0 _ = _
    rw [Binding.interpret_succ enough, interpreter_after]
    rfl
  rw [node, Eval.located_eq, inNamespace_eq ran]

/-- A body of one statement is that statement. -/
theorem body_single {inside : Meaning} {s : Stmt} {outcome : Except Stop Value}
    (ran : (inside.after Room.body).stmt s m = (outcome, after)) :
    inside.body [s] m = (outcome.map fun _ => (), after) := by
  rw [Meaning.body, Eval.forEach]
  dsimp only
  rw [ran]
  cases outcome with
  | ok => rfl
  | error reason => rfl

private theorem around_single {s : Stmt} {name : Name} {outcome : Except Stop Value}
    (enough : Room.work ≤ room)
    (ran : (interpreter patience (room - Room.node - Room.body)).stmt s
      { m with frame := m.frame.within (m.frame.qualify name.path) } = (outcome, after))
    (grows : GrowsUnder (m.frame.qualify name.path) m.frame after.frame) (bodyLoc loc : Loc) :
    ∃ frame : Frame, (interpreter patience (room + 1)).stmt (.inNamespace name [s] bodyLoc loc) m =
        (Eval.placed loc (outcome.map fun _ => .null), ⟨frame, after.console⟩) ∧
      frame.bindings = after.frame.bindings ∧
      ∀ path, frame.isConstant path = after.frame.isConstant path := by
  obtain ⟨bindings, constants⟩ := grows.mergeUnder
  rw [← interpreter_after] at ran
  refine ⟨_, (namespace_runs enough (body_single ran) bodyLoc loc).trans ?_, bindings, constants⟩
  cases outcome with
  | ok => rfl
  | error reason => rfl

private theorem stmt_stops (lacks : room < Room.work) (patience : Nat) (s : Stmt) :
    (interpreter patience (room + 1)).stmt s = Eval.stop .outOfRoom := by
  change interpret patience (room + 1) 0 s = _
  rw [interpret, if_pos lacks]

private theorem agree_placed {outcome outcome' : Except Stop Unit}
    (agree : Eval.Agree Eq outcome outcome') (innerLoc loc loc' : Loc) :
    Eval.Agree Eq (Eval.placed loc ((Eval.placed innerLoc
        (outcome.map fun _ => Value.null)).map fun _ => Value.null))
      (Eval.placed loc' (outcome'.map fun _ => Value.null)) := by
  rcases agree.cases with ⟨_, _, rfl, rfl, -⟩ | ⟨stop, stop', rfl, rfl, alike⟩
  · rfl
  · cases alike with
    | same =>
      cases stop with
      | failed failure => exact .failed failure.fault _ _
      | _ => exact .same _
    | failed fault place place' => exact .failed fault _ _

end Running

/-- What the inner one of two namespaces takes of the room. -/
def innerRoom : Nat := Room.node + Room.body + 1

/-- `namespace outer namespace inner body end end` -/
def nested (outer inner : Name) (body : List Stmt) (innerBodyLoc innerLoc bodyLoc loc : Loc) :
    Stmt :=
  .inNamespace outer [.inNamespace inner body innerBodyLoc innerLoc] bodyLoc loc

private theorem innerRoom_left (room : Nat) :
    room + innerRoom - Room.node - Room.body = room + 1 := by
  simp only [innerRoom]
  omega

section Nested
variable {outer inner whole : Name} {body body' : List Stmt} {patience room : Nat} {m : Machine}

private theorem inner_runs {after : Machine} {outcome : Except Stop Unit}
    (joined : whole.path = outer.path ++ inner.path) (enough : Room.work ≤ room)
    (ran : (interpreter patience (room - Room.node)).body body
      { m with frame := m.frame.within (m.frame.qualify whole.path) } = (outcome, after))
    (bodyLoc loc : Loc) :
    (interpreter patience (room + 1)).stmt (.inNamespace inner body bodyLoc loc)
        { m with frame := m.frame.within (m.frame.qualify outer.path) } =
      (Eval.placed loc (outcome.map fun _ => .null),
        ⟨(m.frame.mergeUnder after.frame (m.frame.qualify whole.path)).within
          (m.frame.qualify outer.path), after.console⟩) := by
  let copy := m.frame.within (m.frame.qualify outer.path)
  have scopes : copy.qualify inner.path = m.frame.qualify whole.path := by
    change m.frame.scope ++ outer.path ++ inner.path = m.frame.scope ++ whole.path
    rw [joined, List.append_assoc]
  have same : (interpreter patience (room - Room.node)).body body
      { m with frame := copy.within (copy.qualify inner.path) } = (outcome, after) := by
    rw [scopes]
    exact ran
  have moved : copy.mergeUnder after.frame (m.frame.qualify whole.path) =
      (m.frame.mergeUnder after.frame (m.frame.qualify whole.path)).within
        (m.frame.qualify outer.path) :=
    Frame.mergeUnder_hom (Frame.within · (m.frame.qualify outer.path)) (fun _ _ _ => rfl)
      (fun _ _ => rfl) m.frame after.frame (m.frame.qualify whole.path)
  rw [namespace_runs (m := { m with frame := copy }) enough same, scopes, moved]

private theorem nested_runs (joined : whole.path = outer.path ++ inner.path)
    (bodies : AlikeStmts body body') (enough : Room.work ≤ room) (patience : Nat) (m : Machine)
    (innerBodyLoc innerLoc bodyLoc loc bodyLoc' loc' : Loc) :
    SameEffect
      ((interpreter patience (room + innerRoom + 1)).stmt
        (nested outer inner body innerBodyLoc innerLoc bodyLoc loc) m)
      ((interpreter patience (room + 1)).stmt (.inNamespace whole body' bodyLoc' loc') m) := by
  let scope := m.frame.qualify whole.path
  -- Both bodies start in the same frame, and are followed to where they end.
  rcases ran : (interpreter patience (room - Room.node)).body body
    { m with frame := m.frame.within scope } with ⟨outcome, after⟩
  rcases ran' : (interpreter patience (room - Room.node)).body body'
    { m with frame := m.frame.within scope } with ⟨outcome', after'⟩
  have mirrored := Mirroring.mirrors_body patience (room - Room.node) bodies
    { m with frame := m.frame.within scope } { m with frame := m.frame.within scope } ⟨rfl, rfl⟩
  rw [ran, ran'] at mirrored
  obtain ⟨agree, alike⟩ := mirrored
  have within := inner_runs joined enough ran innerBodyLoc innerLoc
  rw [← innerRoom_left room] at within
  have shorter : m.frame.qualify outer.path <+: scope := by
    change m.frame.scope ++ outer.path <+: m.frame.scope ++ whole.path
    rw [joined, ← List.append_assoc]
    exact List.prefix_append _ _
  have under := (growsUnder_mergeUnder scope m.frame after.frame).shorten shorter
  obtain ⟨frame, around, bindings, constants⟩ := around_single (Nat.le_add_right_of_le enough)
    within ⟨under.paths, under.lookup, under.kept, under.constant⟩ bodyLoc loc
  have merged : (m.frame.mergeUnder after.frame scope).Alike
      (m.frame.mergeUnder after'.frame scope) := Frame.Alike.mergeUnder rfl alike.frame scope
  rw [nested, around, namespace_runs enough ran']
  constructor
  · exact agree_placed agree innerLoc loc loc'
  · exact alike.out
  · exact (congrArg Bindings.unplaced bindings).trans merged.bindings
  · intro path
    rw [constants path]
    exact congrArg (List.contains · path) merged.place.1

private theorem nested_stops (lacks : room < Room.work) (patience : Nat) (m : Machine)
    (innerBodyLoc innerLoc bodyLoc loc bodyLoc' loc' : Loc) :
    SameEffect
      ((interpreter patience (room + innerRoom + 1)).stmt
        (nested outer inner body innerBodyLoc innerLoc bodyLoc loc) m)
      ((interpreter patience (room + 1)).stmt (.inNamespace whole body' bodyLoc' loc') m) := by
  let copy : Machine := { m with frame := m.frame.within (m.frame.qualify outer.path) }
  have stops : (interpreter patience (room + innerRoom - Room.node - Room.body)).stmt
      (.inNamespace inner body innerBodyLoc innerLoc) copy = (.error .outOfRoom, copy) := by
    rw [innerRoom_left, stmt_stops lacks]
    rfl
  have enough : Room.work ≤ room + innerRoom := Nat.le_add_left innerRoom room
  have still := GrowsUnder.refl (m.frame.qualify outer.path) m.frame
  obtain ⟨frame, around, bindings, constants⟩ := around_single enough stops
    ⟨still.paths, still.lookup, still.kept, still.constant⟩ bodyLoc loc
  rw [nested, around, stmt_stops lacks]
  exact ⟨.same _, rfl, congrArg Bindings.unplaced bindings, constants⟩

end Nested

/-- A namespace inside another does what one namespace under both paths does:
it ends with the same value or the same fault, writes the same, and leaves the
same bindings, places apart, and the same constants, also where the body fails.
It takes a little more room; with no more room it does the same or runs out of
it. -/
theorem nested_namespaces_are_one {outer inner whole : Name} {body body' : List Stmt}
    (joined : whole.path = outer.path ++ inner.path) (bodies : AlikeStmts body body')
    (innerBodyLoc innerLoc bodyLoc loc bodyLoc' loc' : Loc) (patience room : Nat) (m : Machine) :
    SameEffect
      ((interpreter patience (room + innerRoom)).stmt
        (nested outer inner body innerBodyLoc innerLoc bodyLoc loc) m)
      ((interpreter patience room).stmt (.inNamespace whole body' bodyLoc' loc') m) ∧
    (((interpreter patience room).stmt
        (nested outer inner body innerBodyLoc innerLoc bodyLoc loc) m).1 = .error .outOfRoom ∨
      SameEffect
        ((interpreter patience room).stmt
          (nested outer inner body innerBodyLoc innerLoc bodyLoc loc) m)
        ((interpreter patience room).stmt (.inNamespace whole body' bodyLoc' loc') m)) := by
  have larger : SameEffect
      ((interpreter patience (room + innerRoom)).stmt
        (nested outer inner body innerBodyLoc innerLoc bodyLoc loc) m)
      ((interpreter patience room).stmt (.inNamespace whole body' bodyLoc' loc') m) := by
    cases room with
    | zero => exact ⟨.same _, rfl, rfl, fun _ => rfl⟩
    | succ room =>
      rw [Nat.succ_add_eq_add_succ]
      by_cases enough : Room.work ≤ room
      · exact nested_runs joined bodies enough patience m ..
      · exact nested_stops (Nat.not_le.mp enough) patience m ..
  refine ⟨larger, ?_⟩
  rcases Narrowing.stmt_in_less_room patience (Nat.le_add_right room innerRoom)
    (nested outer inner body innerBodyLoc innerLoc bodyLoc loc) m with lacks | same
  · exact .inl lacks
  · rw [same]
    exact .inr larger

/-- A constant and then a name that is not bound. -/
def failing (loc : Loc) : List Stmt :=
  [.constDecl ⟨["k"], loc⟩ (.literal ⟨.number, "1"⟩ loc) loc, .expr (.identifier ⟨["none"], loc⟩)]

/-- A frame in which the path of the namespace is itself a constant. -/
def taken : Frame where
  bindings := [(["a", "b"], .ofValue ⟨.number, "0"⟩ default)]
  distinct := by decide
  constants := [["a", "b"]]

/-- The body in one namespace. -/
def dotted : Stmt :=
  .inNamespace ⟨["a", "b"], default⟩ (failing default) default default

theorem failing_body_leaves_its_constant :
    AlikeStmts (failing (.start "apart")) (failing default) ∧
    SameEffect
      ((interpreter 0 (94 + innerRoom)).stmt (nested ⟨["a"], default⟩ ⟨["b"], default⟩
        (failing (.start "apart")) default default default default) ⟨taken, {}⟩)
      ((interpreter 0 94).stmt dotted ⟨taken, {}⟩) ∧
    ((interpreter 0 94).stmt dotted ⟨taken, {}⟩).1.toBool = false ∧
    ((interpreter 0 94).stmt dotted ⟨taken, {}⟩).2.frame.isConstant ["a", "b", "k"] = true := by
  have bodies : AlikeStmts (failing (.start "apart")) (failing default) := rfl
  refine ⟨bodies, ?_, by decide +kernel, by decide +kernel⟩
  exact (nested_namespaces_are_one rfl bodies default default default default default default 0 94
    ⟨taken, {}⟩).1

end BasilLang.Flattening
