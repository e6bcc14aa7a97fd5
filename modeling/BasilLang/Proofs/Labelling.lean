import BasilLang.Proofs.Trees

/-! Evaluation by labels does what evaluation does. Where every name is spelled
by a text, a tree that a source is parsed to is never found to be in the wrong
form: its rule finds the children it asks for, its tokens are the operators and
literals they should be, and what is stored has a place. There is one rule for
each way of putting actions together, and from these one for each label. -/
namespace BasilLang

/-- The state with the trees of what is bound. -/
def Machine.trees (m : Machine) : Machine Tree := ⟨m.frame.trees, m.console⟩

namespace Labelling

variable {α β γ δ : Type}

/-- How evaluation ended, as evaluation of trees tells it. -/
def told (view : α → β) (ended : Except Stop α × Machine) : Except Halt β × Machine Tree :=
  ((ended.1.map view).mapError .stop, ended.2.trees)

/-- A result is told as it is viewed. -/
theorem told_ok {view : α → β} {ended : Except Stop α × Machine} {a : α} (done : ended.1 = .ok a) :
    (told view ended).1 = .ok (view a) := by
  rw [told, done]
  rfl

/-- A reason to stop is told as it is. -/
theorem told_error {view : α → β} {ended : Except Stop α × Machine} {reason : Stop}
    (stopped : ended.1 = .error reason) : (told view ended).1 = .error (.stop reason) := by
  rw [told, stopped]
  rfl

/-- Started in the given frame, the action on trees does what the other does,
with a view of its result. -/
def Follows (start : Frame) (follower : TreeEval β) (act : Eval α) (view : α → β) : Prop :=
  ∀ console, follower ⟨start.trees, console⟩ = told view (act ⟨start, console⟩)

/-- An action that looks at nothing but the console. -/
def Blind (act : Eval α) : Prop :=
  ∀ frame console, act ⟨frame, console⟩ =
    ((act ⟨{}, console⟩).1, ⟨frame, (act ⟨{}, console⟩).2.console⟩)

section Blindness
variable {act : Eval α} {next : α → Eval β}

private theorem blind_pure (a : α) : Blind (pure a : Eval α) := fun _ _ => rfl

private theorem blind_stop (reason : Stop) : Blind (Eval.stop reason : Eval α) := fun _ _ => rfl

private theorem blind_write (text : String) : Blind (Eval.write text) := fun _ _ => rfl

private theorem blind_note (event : Event) : Blind (Eval.note event) := fun _ _ => rfl

private theorem blind_lift (x : Except EvalFault α) : Blind (Eval.lift x) := by
  intro frame console
  cases x <;> rfl

private theorem blind_ofArithmetic (x : Except Number.Undefined α) :
    Blind (Eval.ofArithmetic x) := by
  intro frame console
  cases x <;> rfl

private theorem Blind.bind (blind : Blind act) (rest : ∀ a, Blind (next a)) :
    Blind (act >>= next) := by
  intro frame console
  simp only [Eval.bind_apply, Eval.bind]
  rw [blind frame console]
  cases act ⟨{}, console⟩ with
  | mk outcome m =>
    cases outcome with
    | ok a =>
      dsimp only
      rw [rest a frame m.console, rest a m.frame m.console]
    | error reason => rfl

private theorem blind_unary (op : UnaryOp) (x : Value) : Blind (op.apply x) := by
  refine (blind_lift _).bind fun number => ?_
  cases op with
  | negate => exact blind_pure _
  | not => exact (blind_ofArithmetic _).bind fun _ => blind_pure _

private theorem blind_quotient (x y : Float) : Blind (Eval.quotient x y) := by
  unfold Eval.quotient
  split
  · exact blind_stop _
  · exact blind_pure _

private theorem blind_remainder (x y : Float) : Blind (Eval.remainder x y) := by
  unfold Eval.remainder
  split
  · exact blind_stop _
  · exact (blind_ofArithmetic _).bind fun _ => blind_pure _

private theorem blind_binary (op : BinaryOp) (x y : Value) : Blind (op.apply x y) := by
  have numbers : ∀ act : Float → Float → Eval Value, (∀ left right, Blind (act left right)) →
      Blind (Eval.lift x.number >>= fun left => Eval.lift y.number >>= act left) :=
    fun act blind => (blind_lift _).bind fun left => (blind_lift _).bind fun right =>
      blind left right
  cases op with
  | or | and => exact (blind_lift _).bind fun _ => (blind_lift _).bind fun _ => blind_pure _
  | is | isnt => exact blind_pure _
  | less | lessEq | greater | greaterEq | add | subtract | multiply =>
    exact numbers _ fun _ _ => blind_pure _
  | divide => exact numbers _ blind_quotient
  | modulo => exact numbers _ blind_remainder

end Blindness

section Actions
variable {start : Frame} {follower : TreeEval β} {act : Eval α} {view : α → β}

private theorem follows_pure (view : α → β) (a : α) : Follows start (pure (view a)) (pure a) view :=
  fun _ => rfl

private theorem follows_done (a : α) : Follows start (pure a) (pure a) id := fun _ => rfl

private theorem follows_plainly (blind : Blind act) : Follows start (.plainly act) act id := by
  intro console
  simp only [TreeEval.plainly, told]
  rw [blind start console]
  cases (act ⟨{}, console⟩).1 <;> rfl

private theorem follows_stored (inside : TreeMeaning) (value : Value) (loc : Loc) :
    Follows start (inside.stored value (some loc)) (pure (.ofValue value loc)) Bound.tree := by
  have stored : Follows start (pure (Bound.ofValue value loc).tree) _ _ := follows_pure Bound.tree _
  rwa [Bound.tree_ofValue] at stored

private theorem follows_setFrame {frame : Frame} {trees : Frame Tree} (same : trees = frame.trees) :
    Follows start (.setFrame trees) (.setFrame frame) id := by
  rw [same]
  exact fun _ => rfl

namespace Follows

private theorem frame_bind {next' : Frame Tree → TreeEval β} {next : Frame → Eval α}
    (rest : Follows start (next' start.trees) (next start) view) :
    Follows start (TreeEval.frame >>= next') (Eval.frame >>= next) view := rest

private theorem stored_bind {inside : TreeMeaning} {value : Value} {loc : Loc}
    {next' : Tree → TreeEval β}
    (rest : Follows start (next' (.ofValue value loc)) act view) :
    Follows start (inside.stored value (some loc) >>= next') act view := rest

private theorem setFrame_bind {frame : Frame} {trees : Frame Tree} {next' : Unit → TreeEval β}
    {next : Unit → Eval α} (same : trees = frame.trees)
    (rest : Follows frame (next' ()) (next ()) view) :
    Follows start (TreeEval.setFrame trees >>= next') (Eval.setFrame frame >>= next) view := by
  rw [same]
  exact fun console => rest console

private theorem plainly_bind {next' : γ → TreeEval β} {next : γ → Eval α} {act : Eval γ}
    (blind : Blind act) (rest : ∀ a, Follows start (next' a) (next a) view) :
    Follows start (TreeEval.plainly act >>= next') (act >>= next) view := by
  intro console
  change TreeEval.bind (.plainly act) next' _ = told view (Eval.bind act next _)
  rw [TreeEval.bind, Eval.bind, follows_plainly blind console, blind start console]
  cases (act ⟨{}, console⟩).1 with
  | ok a => exact rest a _
  | error reason => rfl

private theorem lift_bind {next' : δ → TreeEval β} {next : γ → Eval α} {x : Except EvalFault γ}
    {x' : Except EvalFault δ} {seen : γ → δ} (same : x' = x.map seen)
    (rest : ∀ a, x = .ok a → Follows start (next' (seen a)) (next a) view) :
    Follows start (TreeEval.plainly (.lift x') >>= next') (Eval.lift x >>= next) view := by
  cases same
  cases x with
  | ok a => exact rest a rfl
  | error fault => exact fun _ => rfl

/-- The other action is known to keep to a regime, so it leaves a frame that has
evolved under it. -/
theorem bind {regime : Regime} {manner : Manner} {middle : γ → (Bool → γ) → Frame → Prop}
    {follower : TreeEval δ} {act : Eval γ} {seen : γ → δ} {next' : δ → TreeEval β}
    {next : γ → Eval α} (first : Follows start follower act seen)
    (keeps : regime.beside.Keeps regime.stops manner start (fun _ => act) middle)
    (rest : ∀ a as frame, start.Evolves regime frame → middle a as frame →
      Follows frame (next' (seen (as true))) (next (as true)) view) :
    Follows start (follower >>= next') (act >>= next) view := by
  intro console
  change TreeEval.bind follower next' _ = told view (Eval.bind act next _)
  rw [TreeEval.bind, Eval.bind, first console]
  have here : regime.beside.At start fun _ => ⟨start, console⟩ := ⟨fun _ => rfl, rfl⟩
  rcases keeps.cases rfl here with
    ⟨a, as, after, states, ran, there, moves, found⟩ | ⟨_, reasons, _, states, ran, -⟩ |
    ⟨-, broken⟩
  · have ran : act ⟨start, console⟩ = (.ok (as true), states true) := ran true
    obtain rfl : after = (states true).frame := there.frames true
    rw [ran]
    exact rest a as _ moves.evolves found (states true).console
  · have ran : act ⟨start, console⟩ = (.error (reasons true), states true) := ran true
    rw [ran]
    rfl
  · have stopped : act ⟨start, console⟩ = (.error .tooMuchRoom, _) := Eval.eq_of_ended broken
    rw [stopped]
    rfl

/-- What comes next does not depend on the frame. -/
theorem andThen {follower : TreeEval δ} {act : Eval γ} {seen : γ → δ} {next' : δ → TreeEval β}
    {next : γ → Eval α} (first : Follows start follower act seen)
    (rest : ∀ a frame, Follows frame (next' (seen a)) (next a) view) :
    Follows start (follower >>= next') (act >>= next) view := by
  intro console
  change TreeEval.bind follower next' _ = told view (Eval.bind act next _)
  rw [TreeEval.bind, Eval.bind, first console]
  cases act ⟨start, console⟩ with
  | mk outcome m =>
    cases outcome with
    | ok a => exact rest a m.frame m.console
    | error reason => rfl

private theorem located (follows : Follows start follower act view) (loc : Loc) :
    Follows start (follower.located (some loc)) (act.located loc) view := by
  intro console
  simp only [TreeEval.located, Eval.located, follows console]
  cases act ⟨start, console⟩ with
  | mk outcome m =>
    cases outcome with
    | ok a => rfl
    | error reason => cases reason <;> rfl

private theorem reportingRoom (follows : Follows start follower act view) (loc : Loc) :
    Follows start (follower.reportingRoom (some loc)) (act.reportingRoom loc) view := by
  intro console
  simp only [TreeEval.reportingRoom, Eval.reportingRoom, follows console]
  cases act ⟨start, console⟩ with
  | mk outcome m =>
    cases outcome with
    | ok a => rfl
    | error reason => cases reason <;> rfl

private theorem catchReturn {follower : TreeEval Unit} {act : Eval Unit}
    (follows : Follows start follower act id) :
    Follows start follower.catchReturn act.catchReturn id := by
  intro console
  simp only [TreeEval.catchReturn, Eval.catchReturn, follows console]
  cases act ⟨start, console⟩ with
  | mk outcome m =>
    cases outcome with
    | ok a => rfl
    | error reason => cases reason <;> rfl

private theorem inFrame {inner : Frame} {trees : Frame Tree}
    {merge' : Frame Tree → Frame Tree → Frame Tree} {merge : Frame → Frame → Frame}
    (follows : Follows inner follower act view) (same : trees = inner.trees)
    (merged : ∀ frame, merge' start.trees frame.trees = (merge start frame).trees) :
    Follows start (follower.inFrame trees merge') (act.inFrame inner merge) view := by
  intro console
  rw [same]
  simp only [TreeEval.inFrame, Eval.inFrame, follows console]
  cases act ⟨inner, console⟩ with
  | mk outcome m => exact congrArg (fun frame => (_, (⟨frame, _⟩ : Machine Tree))) (merged m.frame)

private theorem inCopy (follows : Follows start follower act view) :
    Follows start follower.inCopy act.inCopy view :=
  follows.inFrame rfl fun frame => Frame.mergeExisting_viewed Bound.tree start frame

private theorem inOwnFrame {own : Frame} (follows : Follows own follower act view) :
    Follows start (follower.inOwnFrame own.trees) (act.inOwnFrame own)
      fun found => (view found.1, found.2.trees) := by
  intro console
  simp only [TreeEval.inOwnFrame, Eval.inOwnFrame, follows console]
  cases act ⟨own, console⟩ with
  | mk outcome m => cases outcome <;> rfl

end Follows

end Actions

section Loops
variable {regime : Regime} {manner : Manner} {start : Frame}

private theorem follows_forEach {follower : δ → TreeEval β} {act : γ → Eval α} {tree : γ → δ}
    {view : α → β} (items : List γ)
    (each : ∀ a ∈ items, ∀ frame, start.Evolves regime frame →
      Follows frame (follower (tree a)) (act a) view ∧
        regime.beside.Keeps regime.stops manner frame (fun _ => act a) Course.Same) :
    Follows start (TreeEval.forEach follower (items.map tree)) (Eval.forEach act items) id := by
  induction items generalizing start with
  | nil => exact follows_done ()
  | cons first rest ih =>
    obtain ⟨follows, keeps⟩ := each first List.mem_cons_self start (.refl start)
    refine follows.bind keeps fun _ _ frame evolves _ => ?_
    exact ih fun a member after further =>
      each a (List.mem_cons_of_mem _ member) after (evolves.trans further)

private theorem follows_countUp {follower : Int → TreeEval Unit} {act : Int → Eval Unit}
    (count : Nat)
    (i : Int) (each : ∀ i frame, start.Evolves regime frame →
      Follows frame (follower i) (act i) id ∧
        regime.beside.Keeps regime.stops manner frame (fun _ => act i) Course.Same) :
    Follows start (TreeEval.countUp follower count i) (Eval.countUp act count i) id := by
  induction count generalizing start i with
  | zero => exact follows_done ()
  | succ count ih =>
    rw [Eval.countUp_succ]
    obtain ⟨follows, keeps⟩ := each i start (.refl start)
    refine follows.bind keeps fun _ _ frame evolves _ => ?_
    exact ih (i + 1) fun i after further => each i after (evolves.trans further)

private theorem follows_whileHolds {test' : TreeEval Bool} {test : Eval Bool}
    {follower : TreeEval Unit}
    {act : Eval Unit} (rounds : Nat)
    (tests : ∀ frame, start.Evolves regime frame →
      Follows frame test' test id ∧
        regime.beside.Keeps regime.stops manner frame (fun _ => test) Course.Same)
    (acts : ∀ frame, start.Evolves regime frame →
      Follows frame follower act id ∧
        regime.beside.Keeps regime.stops manner frame (fun _ => act) Course.Same) :
    Follows start (TreeEval.whileHolds test' follower rounds) (Eval.whileHolds test act rounds)
      id := by
  induction rounds generalizing start with
  | zero => exact follows_plainly (blind_stop _)
  | succ rounds ih =>
    rw [Eval.whileHolds_succ]
    obtain ⟨follows, keeps⟩ := tests start (.refl start)
    refine follows.bind keeps ?_
    rintro holds _ frame evolves rfl
    cases holds with
    | false => exact follows_done ()
    | true =>
      obtain ⟨follows, keeps⟩ := acts frame evolves
      refine follows.bind keeps fun _ _ after further _ => ?_
      have sofar := evolves.trans further
      exact ih (fun next more => tests next (sofar.trans more))
        fun next more => acts next (sofar.trans more)

end Loops

/-- A regime whose names are spelled by texts, and which lets everything be
called, counted and imported. -/
structure Lettered (regime : Regime) : Prop where
  textual : ∀ {part}, regime.node part → part.Textual
  calls : ∀ frame proc, regime.calls frame proc
  loops : ∀ path, regime.loops path
  imports : ∀ name, regime.imports name

/-- The meanings of trees do what the other meanings do for every node of a
regime, in every frame that is under it. -/
structure Matches (regime : Regime) (inside' : TreeMeaning) (inside : Meaning) : Prop where
  left : inside'.left = inside.left
  lettered : Lettered regime
  obedient : Obedient regime fun _ => inside
  node : ∀ units s frame, regime.node (.ofStmt s) → frame.Under regime →
    Follows frame (inside'.node units (Part.ofStmt s).tree) (inside.node units s) id

namespace Matches
variable {regime : Regime} {inside' : TreeMeaning} {inside : Meaning} {frame : Frame} {e : Expr}

private theorem textual_frame (same : Matches regime inside' inside) (under : frame.Under regime) :
    frame.Textual :=
  fun path bound found => same.lettered.textual (under path bound found)

private theorem path_of_node {s : Stmt} {name : Name} (same : Matches regime inside' inside)
    (node : regime.node (.ofStmt s)) (named : s.name? = some name) :
    (Part.ofName name).tree.path = name.path :=
  Part.path_ofName ((same.lettered.textual node).here name named)

private theorem after (same : Matches regime inside' inside) (units : Nat) :
    Matches regime (inside'.after units) (inside.after units) where
  left := congrArg (· - units) same.left
  lettered := same.lettered
  obedient := same.obedient.after units units
  node more := same.node (more + units)

private theorem require {view : α → β} {next' : Unit → TreeEval β} {next : Unit → Eval α}
    (same : Matches regime inside' inside) (units : Nat)
    (rest : Follows frame (next' ()) (next ()) view) :
    Follows frame (inside'.require units >>= next') (inside.require units >>= next) view := by
  unfold TreeMeaning.require Meaning.require
  rw [same.left]
  split
  · exact rest
  · exact fun _ => rfl

private theorem expr (same : Matches regime inside' inside) (under : frame.Under regime)
    (node : regime.node (.expr e)) :
    Follows frame (inside'.eval (Part.expr e).tree) (inside.expr e) id :=
  same.node 0 (.expr e) frame node under

private theorem body {tree : Tree} {stmts : List Stmt} (same : Matches regime inside' inside)
    (under : frame.Under regime) (nodes : ∀ s ∈ stmts, regime.node (.ofStmt s))
    (children : tree.children = (stmts.map Part.ofStmt).map Part.tree) :
    Follows frame (inside'.body tree) (inside.body stmts) id := by
  unfold TreeMeaning.body
  rw [children, List.map_map]
  have within := same.after Room.body
  exact follows_forEach stmts fun s member after evolves =>
    ⟨within.node 0 s after (nodes s member) (evolves.under under),
      within.obedient.near.stmt (evolves.under under) (nodes s member) fun _ => .refl s⟩

private theorem holds (same : Matches regime inside' inside) (under : frame.Under regime)
    (node : regime.node (.expr e)) :
    Follows frame (inside'.holds (Part.expr e).tree) (inside.holds e) id :=
  (same.expr under node).andThen fun _ _ => follows_plainly (blind_lift _)

/-- An expression that is resolved now is stored at its place. -/
theorem eagerly (same : Matches regime inside' inside) (under : frame.Under regime)
    (node : regime.node (.expr e)) :
    Follows frame
      (inside'.eval (Part.expr e).tree >>= fun value => inside'.stored value (Part.expr e).tree.loc)
      (inside.expr e >>= fun value => pure (Bound.ofValue value e.loc)) Bound.tree := by
  rw [Part.loc_expr]
  exact (same.expr under node).andThen fun value _ => follows_stored _ value e.loc

private theorem bindable (same : Matches regime inside' inside) (under : frame.Under regime)
    (node : regime.node (.expr e)) :
    Follows frame (Dispatch.bindable inside' (Part.expr e).tree) (Evaluation.bindable inside e)
      Bound.tree := by
  have within := same.after Room.binding
  unfold Dispatch.bindable Evaluation.bindable
  rw [Part.groups_tree]
  refine within.require _ (.frame_bind ?_)
  rw [Frame.procNamed_trees (same.lettered.textual node)]
  cases named : frame.procNamed? e with
  | some bound => exact follows_pure Bound.tree bound
  | none => exact within.eagerly under node

private theorem argument (same : Matches regime inside' inside) (under : frame.Under regime)
    (node : regime.node (.expr e)) (params : List Path) :
    Follows frame (Dispatch.argument inside' params (Part.expr e).tree)
      (Evaluation.argument inside params e) Bound.tree := by
  have within := same.after Room.argument
  have textual := same.lettered.textual node
  unfold Dispatch.argument Evaluation.argument
  rw [Part.groups_tree]
  refine within.require _ (.frame_bind ?_)
  rw [Frame.procNamed_trees textual]
  cases named : frame.procNamed? e with
  | some bound => exact follows_pure Bound.tree bound
  | none =>
    rw [Frame.reads_trees textual (same.textual_frame under)]
    cases frame.reads? e with
    | none => exact within.eagerly under node
    | some paths =>
      dsimp only
      split
      · exact within.eagerly under node
      · exact follows_pure Bound.tree (.expr e)

private theorem arguments {es : List Expr} (same : Matches regime inside' inside)
    (under : frame.Under regime) (nodes : ∀ e ∈ es, regime.node (.expr e)) (params : List Path) :
    Follows frame (Dispatch.arguments inside' params ((es.map Part.expr).map Part.tree))
      (Evaluation.arguments inside params es) (List.map Bound.tree) := by
  induction es generalizing frame with
  | nil => exact follows_pure (List.map Bound.tree) []
  | cons e es ih =>
    obtain ⟨here, nodes⟩ := List.forall_mem_cons.mp nodes
    have keeps : regime.beside.Keeps regime.stops .value frame _ _ :=
      same.obedient.near.argument trivial under here (fun _ => .refl e) params
    refine (same.argument under here params).bind keeps fun _ first after evolves _ => ?_
    have under := evolves.under under
    exact (ih under nodes).andThen fun rest _ =>
      follows_pure (List.map Bound.tree) (first true :: rest)

/-- A parameter is bound when its call ends. -/
theorem settle {caller : Frame} {path : Path} (same : Matches regime inside' inside)
    (under : frame.Under regime) (held : frame.has path = true) :
    Follows frame (Dispatch.settle inside' caller.trees path)
      (Evaluation.settle inside caller path) id := by
  obtain ⟨bound, found⟩ := Frame.has_iff.mp held
  have looked : (some bound >>= Bound.unresolved?) = bound.unresolved? := rfl
  refine .frame_bind ?_
  rw [Frame.has_viewed, Frame.lookup_viewed, found, Option.map_some, looked]
  dsimp only
  rw [Bound.isResolved_tree, Bound.loc_tree]
  split
  · cases unresolved : bound.unresolved? with
    | none => exact follows_done ()
    | some e =>
      obtain rfl := Bound.eq_of_unresolved unresolved
      have within := same.after Room.settling
      have node : regime.node (.expr e) := under path _ found
      refine (within.expr under node).andThen fun value after => ?_
      have stored := Frame.bind_viewed Bound.tree after path (.ofValue value e.loc)
      rw [Bound.tree_ofValue] at stored
      exact .stored_bind (.frame_bind (follows_setFrame stored))
  · exact follows_done ()

private theorem paramPaths (proc : Proc) :
    Dispatch.paramPaths (Part.paramList proc.params proc.paramsLoc).tree =
      pure (Evaluation.paramPaths proc) := by
  have each : ∀ marks : List Mark, ((marks.map (Part.token "IDENT")).map Part.tree).mapM
      Dispatch.paramPath = .ok (marks.map fun mark => [mark.text]) := by
    intro marks
    induction marks with
    | nil => rfl
    | cons mark marks ih => 
      rw [List.map_cons, List.map_cons, List.mapM_cons, Part.tree_token, ih]
      rfl
  rw [Dispatch.paramPaths, Part.children_tree, Part.children, each]
  rfl

private theorem runBody {proc : Proc} (same : Matches regime inside' inside)
    (under : frame.Under regime)
    (nodes : ∀ s ∈ proc.body, regime.node (.ofStmt s)) (caller : Frame)
    (bound : ∀ path ∈ Evaluation.paramPaths proc, frame.has path = true) :
    Follows frame
      (Dispatch.runBody inside' caller.trees (Evaluation.paramPaths proc)
        (Part.block proc.body proc.bodyLoc).tree)
      (Evaluation.runBody inside caller proc) id := by
  have called := same.lettered.calls caller proc
  have within := same.after Room.call
  refine (within.body under nodes (Part.children_tree _)).catchReturn.bind
    (within.obedient.near.body under nodes fun _ => .refl _).catchReturn
    fun _ result after evolves _ => ?_
  have settles : ∀ path ∈ Evaluation.paramPaths proc, ∀ next, after.Evolves regime next →
      Follows next (Dispatch.settle inside' caller.trees path)
        (Evaluation.settle inside caller path) id ∧
      regime.beside.Keeps regime.stops .work next
        (fun _ => Evaluation.settle inside caller path) Course.Same := by
    intro path param next further
    have sofar := evolves.trans further
    exact ⟨same.settle (sofar.under under) (sofar.has (bound path param)),
      (same.obedient.near.settle trivial (sofar.under under) (fun _ => rfl) called param).weaken
        fun _ _ _ _ _ => rfl⟩
  have settled := @follows_forEach _ _ _ _ regime .work after _ _ id _ _ settles
  rw [List.map_id] at settled
  exact settled.andThen fun _ _ => follows_done _

private theorem invoke {bound : Bound} {proc : Proc} {args : List Bound}
    (same : Matches regime inside' inside) (under : frame.Under regime)
    (node : regime.node bound.part) (found : bound.proc? = some proc)
    (given : ∀ bound ∈ args, regime.node bound.part) (path : Path) :
    Follows frame (Dispatch.invoke inside' bound.tree path (args.map Bound.tree))
      (Evaluation.invoke inside proc path args) id := by
  obtain ⟨name, children⟩ := Bound.children_proc found
  unfold Dispatch.invoke Evaluation.invoke
  rw [children]
  dsimp only
  rw [paramPaths, List.length_map]
  change Follows frame (if _ then _ else _) _ id
  split
  · exact follows_plainly (blind_stop _)
  · next count =>
    refine same.require _ (.frame_bind (.lift_bind (Frame.deeper_viewed Bound.tree frame) ?_))
    intro copy deeper
    have entered : (Evaluation.calleeFrame copy proc path args).Under regime := by
      refine Frame.Binds.bindAll (fun path bound found => ?_) fun _ _ => given
      rw [Frame.lookup_within, Frame.lookup_deeper deeper] at found
      exact under path bound found
    have bound : ∀ param ∈ Evaluation.paramPaths proc,
        (Evaluation.calleeFrame copy proc path args).has param = true := fun param member =>
      Frame.has_bindAll _ (Classical.not_not.mp count).symm (.inl member)
    exact (same.runBody entered (Regime.proc_nodes node found) frame bound).inFrame
      (Frame.bindAll_viewed Bound.tree (copy.within path) _ args) fun inner =>
        Frame.mergeExisting_viewed Bound.tree frame inner

private theorem runBuiltin {builtin : Evaluation.Builtin} (same : Matches regime inside' inside)
    (under : frame.Under regime) (node : regime.node (.expr e)) :
    Follows frame (Dispatch.runBuiltin inside' (Part.expr e).tree builtin)
      (builtin.run inside e) id := by
  have writing : ∀ text : Value → String, Follows frame
      (inside'.eval (Part.expr e).tree >>= fun value =>
        TreeEval.plainly (.write (text value)) >>= fun _ => pure Value.null)
      (inside.expr e >>= fun value => Eval.write (text value) >>= fun _ => pure Value.null) id :=
    fun text => (same.expr under node).andThen fun value _ =>
      .plainly_bind (blind_write _) fun _ => follows_done _
  cases builtin with
  | printval => exact writing Value.text
  | debug =>
    unfold Dispatch.runBuiltin Evaluation.Builtin.run
    rw [Part.depth_tree, Part.dump_tree]
    exact same.require _ (.plainly_bind (blind_write _) fun _ => follows_done _)
  | debugval => exact writing fun value => value.shown ++ "\n"

private theorem callBuiltin {args : List Expr} (same : Matches regime inside' inside)
    (under : frame.Under regime) (nodes : ∀ e ∈ args, regime.node (.expr e)) (path : Path) :
    Follows frame (Dispatch.callBuiltin inside' path ((args.map Part.expr).map Part.tree))
      (Evaluation.callBuiltin inside path args) id := by
  unfold Dispatch.callBuiltin Evaluation.callBuiltin
  cases Evaluation.Builtin.ofPath? path with
  | none => exact follows_plainly (blind_stop _)
  | some builtin =>
    rcases args with - | ⟨e, - | ⟨e', rest⟩⟩
    · exact follows_plainly (blind_stop _)
    · exact (same.after Room.builtin).runBuiltin under (nodes e (List.mem_singleton_self e))
    · simp only [List.length_map, List.map_cons, List.length_cons]
      exact follows_plainly (blind_stop _)

private theorem call {callee : Name} {args : List Expr} {argsLoc : Loc}
    (same : Matches regime inside' inside) (under : frame.Under regime)
    (node : regime.node (.expr (.call callee args argsLoc))) :
    Follows frame (Dispatch.call inside' (Part.expr (.call callee args argsLoc)).tree)
      (Evaluation.call inside callee.path args) id := by
  have listed : regime.node (.argList args argsLoc) := regime.inside node (by
    simp [Part.children, Part.exprChildren])
  have nodes : ∀ e ∈ args, regime.node (.expr e) := fun e member =>
    regime.inside listed (List.mem_map_of_mem member)
  have path : (Part.ofName callee).tree.path = callee.path :=
    @path_of_node _ _ _ (.expr (.call callee args argsLoc)) _ same node rfl
  unfold Dispatch.call Evaluation.call
  rw [Part.children_tree]
  simp only [Part.children, Part.exprChildren, List.map_cons, List.map_nil, path,
    Part.children_tree]
  split
  · exact same.callBuiltin under nodes callee.path
  · refine .frame_bind (.lift_bind (Frame.get_viewed Bound.tree frame callee.path) ?_)
    intro bound got
    have held : frame.lookup callee.path = some bound := Frame.lookup_of_get got
    have node := under callee.path bound held
    rw [Bound.isProc_tree]
    cases found : bound.proc? with
    | none => exact follows_plainly (blind_stop _)
    | some proc =>
      obtain ⟨name, children⟩ := Bound.children_proc found
      rw [children]
      dsimp only [Option.isSome_some]
      rw [if_pos rfl, paramPaths]
      have keeps : regime.beside.Keeps regime.stops .value frame _ _ :=
        same.obedient.near.arguments trivial under nodes (fun _ => .refl args)
          (Evaluation.paramPaths proc)
      refine (same.arguments under nodes (Evaluation.paramPaths proc)).bind keeps ?_
      rintro bounds boundss after evolves ⟨given, seen⟩
      rw [← (seen true).same trivial]
      exact same.invoke (evolves.under under) node found
        (fun bound member => (given bound member).2) _

private theorem identifier {name : Name} (same : Matches regime inside' inside)
    (under : frame.Under regime) (node : regime.node (.expr (.identifier name))) :
    Follows frame (Dispatch.identifier inside' (Part.expr (.identifier name)).tree)
      (Evaluation.identifier inside name.path) id := by
  have path := Part.path_expr (same.lettered.textual node) rfl
  unfold Dispatch.identifier
  rw [path]
  refine .frame_bind (.lift_bind (Frame.get_viewed Bound.tree frame name.path) ?_)
  intro bound got
  have held : frame.lookup name.path = some bound := Frame.lookup_of_get got
  have node := under name.path bound held
  rw [Bound.isProc_tree]
  cases bound with
  | declared => exact follows_plainly (blind_stop _)
  | expr e =>
    cases e with
    | proc => exact follows_plainly (blind_stop _)
    | _ => exact same.expr under node

private theorem unary {op : UnaryOp} {mark : Mark} (same : Matches regime inside' inside)
    (under : frame.Under regime) (node : regime.node (.expr (.unary op mark e))) :
    Follows frame (Dispatch.unary inside' (Part.expr (.unary op mark e)).tree)
      (inside.expr e >>= op.apply) id := by
  have inner : regime.node (.expr e) := regime.inside node (by
    simp [Part.children, Part.exprChildren])
  have known : UnaryOp.ofTokenName? op.kind.name = some op := by cases op <;> decide
  unfold Dispatch.unary
  rw [Part.children_tree]
  simp only [Part.children, Part.exprChildren, List.map_cons, List.map_nil, Part.tree_token, known]
  exact (same.expr under inner).andThen fun x _ => follows_plainly (blind_unary op x)

private theorem logical {left right : Expr} (same : Matches regime inside' inside)
    (under : frame.Under regime) (first : regime.node (.expr left))
    (second : regime.node (.expr right)) (settled : Bool) :
    Follows frame
      (Dispatch.logical inside' settled (Part.expr left).tree (Part.expr right).tree)
      (Evaluation.logical inside settled left right) id := by
  have within := same.after Room.logical
  have keeps : regime.beside.Keeps regime.stops .value frame _ _ :=
    within.obedient.near.holds under first fun _ => .refl left
  refine (within.holds under first).bind keeps fun _ truth after evolves _ => ?_
  have under := evolves.under under
  dsimp only [id]
  split
  · exact follows_done _
  · exact (within.holds under second).andThen fun _ _ => follows_done _

/-- An operator that is not logical is applied to the values of both operands. -/
theorem binary_eq {op : BinaryOp} (inside : Meaning) (left right : Expr)
    (strict : op ≠ .or ∧ op ≠ .and) : Evaluation.binary inside left op right =
      inside.expr left >>= fun x => inside.expr right >>= fun y => op.apply x y := by
  have both : ∀ next : Value × Value → Eval Value,
      (Evaluation.operands inside left right >>= next) =
        inside.expr left >>= fun x => inside.expr right >>= fun y => next (x, y) := by
    intro next
    simp only [Evaluation.operands, bind_assoc, pure_bind]
  have numbers : ∀ next : Float × Float → Eval Value,
      (Evaluation.numbers inside left right >>= next) =
        inside.expr left >>= fun x => inside.expr right >>= fun y =>
          Eval.lift x.number >>= fun a => Eval.lift y.number >>= fun b => next (a, b) := by
    intro next
    simp only [Evaluation.numbers, bind_assoc, pure_bind, both]
  cases op with
  | or => exact absurd rfl strict.1
  | and => exact absurd rfl strict.2
  | is | isnt => exact both _
  | _ => exact numbers _

private theorem binary {left right : Expr} {op : BinaryOp} {mark : Mark}
    (same : Matches regime inside' inside) (under : frame.Under regime)
    (node : regime.node (.expr (.binary left op mark right))) :
    Follows frame (Dispatch.binary inside' (Part.expr (.binary left op mark right)).tree)
      (Evaluation.binary inside left op right) id := by
  have first : regime.node (.expr left) := regime.inside node (by
    simp [Part.children, Part.exprChildren])
  have second : regime.node (.expr right) := regime.inside node (by
    simp [Part.children, Part.exprChildren])
  have known : BinaryOp.ofTokenName? op.kind.name = some op := by cases op <;> decide
  unfold Dispatch.binary
  rw [Part.children_tree]
  simp only [Part.children, Part.exprChildren, List.map_cons, List.map_nil, Part.tree_token, known]
  have strictly : op ≠ .or ∧ op ≠ .and → Follows frame
      (inside'.eval (Part.expr left).tree >>= fun x => inside'.eval (Part.expr right).tree >>=
        fun y => TreeEval.plainly (op.apply x y)) (Evaluation.binary inside left op right) id := by
    intro strict
    rw [binary_eq inside left right strict]
    have keeps : regime.beside.Keeps regime.stops .value frame _ _ :=
      same.obedient.near.expr under first fun _ => .refl left
    refine (same.expr under first).bind keeps fun _ x after evolves _ => ?_
    have under := evolves.under under
    exact (same.expr under second).andThen fun y _ => follows_plainly (blind_binary op (x true) y)
  cases op with
  | or => exact same.logical under first second true
  | and => exact same.logical under first second false
  | _ => exact strictly (by simp)

/-- A node whose label has a rule is evaluated by it. -/
theorem by_label {patience : Nat} {s : Stmt} {rule : Tree → TreeEval Value}
    (known : Dispatch.rule? patience inside' (Part.stmtLabel s) = some rule) :
    Dispatch.tree patience inside' (Part.ofStmt s).tree = rule (Part.ofStmt s).tree := by
  have label : (Part.ofStmt s).tree.label? = some (Part.stmtLabel s) := by
    rw [Part.tree_ofStmt]
    rfl
  rw [Dispatch.tree, label, Option.bind_some, known]

private theorem value_literal (value : Value) (loc : Loc) :
    (Part.expr (.literal value loc)).tree.value = .ok value := by
  rw [Tree.value, Part.children_tree]
  simp only [Part.children, Part.exprChildren, List.map_cons, Part.tree_token,
    Part.ofTokenName_tokenName]

private theorem group {loc : Loc} (same : Matches regime inside' inside)
    (under : frame.Under regime)
    (node : regime.node (.expr (.group e loc))) :
    Follows frame (Dispatch.group inside' (Part.expr (.group e loc)).tree) (inside.expr e) id := by
  unfold Dispatch.group
  rw [Part.children_tree]
  exact same.expr under (regime.inside node (List.mem_singleton_self _))

private theorem proc_literal (proc : Proc) :
    Follows frame (Dispatch.proc (Part.expr (.proc proc)).tree)
      (Eval.fail .procLiteralAsValue) id := by
  unfold Dispatch.proc
  rw [Part.children_tree]
  simp only [Part.children, Part.exprChildren, List.map_cons, Part.tree_token]
  exact follows_plainly (blind_stop _)

private theorem expression (same : Matches regime inside' inside) (under : frame.Under regime)
    (node : regime.node (.expr e)) (patience : Nat) :
    Follows frame (Dispatch.tree patience inside' (Part.ofStmt (.expr e)).tree)
      (Evaluation.expr inside e) id := by
  cases e with
  | literal value loc =>
    rw [by_label rfl]
    change Follows frame (TreeEval.reading (Part.expr (.literal value loc)).tree.value) _ id
    rw [value_literal]
    exact follows_done value
  | identifier name =>
    rw [by_label rfl]
    exact same.identifier under node
  | group inner loc =>
    rw [by_label rfl]
    exact same.group under node
  | unary op mark operand =>
    rw [by_label rfl]
    exact same.unary under node
  | binary left op mark right =>
    rw [by_label rfl]
    exact same.binary under node
  | call callee args argsLoc =>
    rw [by_label rfl]
    exact same.call under node
  | proc p =>
    rw [by_label rfl]
    exact proc_literal p

private theorem readLibrary (same : Matches regime inside' inside) (name source : String) :
    Follows frame (Dispatch.readLibrary inside' name source)
      (Evaluation.readLibrary inside name source) fun program => (Part.program program).tree := by
  unfold Dispatch.readLibrary Evaluation.readLibrary
  rw [(same.after Room.reading).left]
  cases Program.parseWithin (inside.after Room.reading).left source (Library.file name) with
  | ok program => exact follows_pure (fun program => (Part.program program).tree) program
  | error failure => exact fun _ => rfl

private theorem libraryFrame {name source : String} (same : Matches regime inside' inside)
    (known : Library.source? name = some source) :
    Follows frame (Dispatch.libraryFrame inside' name source)
      (Evaluation.libraryFrame inside name source) Frame.trees := by
  have within := same.after Room.library
  refine .frame_bind ?_
  have limits : (frame.trees.maxDepth.filter fun (limit : Int) =>
      limit < (frame.trees.depth + 1 : Nat)) =
      frame.maxDepth.filter fun (limit : Int) => limit < (frame.depth + 1 : Nat) := rfl
  dsimp only
  rw [limits]
  cases frame.maxDepth.filter fun (limit : Int) => limit < (frame.depth + 1 : Nat) with
  | some limit => exact fun _ => rfl
  | none =>
    refine (within.readLibrary name source).bind
      (same.obedient.near.library Room.library (same.lettered.imports name) known) ?_
    rintro program _ after _ ⟨rfl, nodes⟩
    refine .plainly_bind (blind_note _) fun _ => ?_
    have fresh : Frame.Under regime { depth := frame.depth + 1, maxDepth := frame.maxDepth } :=
      Frame.under_of_fresh rfl
    have ran := (within.body fresh nodes (Part.children_tree (.program program))).catchReturn
    exact ran.inOwnFrame.andThen fun found _ => follows_pure Frame.trees found.2

private theorem importLibrary (same : Matches regime inside' inside) (name : String) :
    Follows frame (Dispatch.importLibrary inside' name) (Evaluation.importLibrary inside name)
      id := by
  unfold Dispatch.importLibrary Evaluation.importLibrary
  cases known : Library.source? name with
  | none => exact follows_plainly (blind_stop _)
  | some source =>
    refine (same.libraryFrame known).andThen fun library after => .frame_bind ?_
    have paths : (library.trees.bindings.map fun entry => after.trees.qualify entry.1) =
        library.bindings.map fun entry => after.qualify entry.1 := List.map_map
    have has : after.trees.has = after.has := funext (Frame.has_viewed Bound.tree after)
    simp only [paths, has]
    split
    · exact .setFrame_bind (Frame.addLibrary_viewed Bound.tree after library) (follows_done _)
    · exact follows_plainly (blind_stop _)

private theorem importRelative (same : Matches regime inside' inside) (target : Mark) (loc : Loc) :
    Follows frame (Dispatch.importing inside' (Part.ofStmt (.importRelative target loc)).tree)
      (inside.require Room.noting >>= fun _ =>
        Eval.note (.ignoredImport target.text loc) >>= fun _ => pure .null) id := by
  unfold Dispatch.importing
  rw [Part.children_tree, Part.loc_ofStmt]
  simp only [Part.ofStmt, Part.children, Part.stmtChildren, List.map_cons, Part.tree_token]
  exact same.require _ (.plainly_bind (blind_note _) fun _ => follows_done _)

private theorem importing (same : Matches regime inside' inside) (target : Mark) (loc : Loc) :
    Follows frame (Dispatch.importing inside' (Part.ofStmt (.importLibrary target loc)).tree)
      (Evaluation.importLibrary inside target.text) id := by
  unfold Dispatch.importing
  rw [Part.children_tree]
  simp only [Part.ofStmt, Part.children, Part.stmtChildren, List.map_cons, Part.tree_token]
  exact same.importLibrary target.text

private theorem declare (same : Matches regime inside' inside) (under : frame.Under regime)
    (node : regime.node (.expr e)) (path : Path) (constant : Bool) :
    Follows frame (Dispatch.declare inside' path (Part.expr e).tree constant)
      (Evaluation.declare inside path e constant) id := by
  refine .frame_bind ?_
  rw [Frame.requireUnbound_viewed]
  refine .plainly_bind (blind_lift _) fun _ => ?_
  refine (same.bindable under node).andThen fun bound after => ?_
  refine .frame_bind (.lift_bind (Frame.declare_viewed Bound.tree after path bound constant) ?_)
  exact fun declared _ => .setFrame_bind rfl (follows_done _)

private theorem letDecl {name : Name} {loc : Loc} (same : Matches regime inside' inside)
    (under : frame.Under regime) (node : regime.node (.ofStmt (.letDecl name e loc))) :
    Follows frame (Dispatch.letDecl inside' (Part.ofStmt (.letDecl name e loc)).tree)
      (Evaluation.declare inside name.path e false) id := by
  have inner : regime.node (.expr e) := regime.inside node (by
    simp [Part.ofStmt, Part.children, Part.stmtChildren])
  unfold Dispatch.letDecl
  rw [Part.children_tree]
  simp only [Part.ofStmt, Part.children, Part.stmtChildren, List.map_cons, List.map_nil,
    same.path_of_node node rfl]
  exact same.declare under inner name.path false

private theorem constDecl {name : Name} {loc : Loc} (same : Matches regime inside' inside)
    (under : frame.Under regime) (node : regime.node (.ofStmt (.constDecl name e loc)))
    (patience : Nat) :
    Follows frame (Dispatch.constDecl inside' (Part.ofStmt (.constDecl name e loc)).tree)
      (Evaluation.stmt patience inside (.constDecl name e loc)) id := by
  have inner : regime.node (.expr e) := regime.inside node (by
    simp [Part.ofStmt, Part.children, Part.stmtChildren])
  unfold Dispatch.constDecl
  rw [Part.children_tree]
  simp only [Part.ofStmt, Part.children, Part.stmtChildren, List.map_cons, List.map_nil,
    same.path_of_node node rfl]
  exact .frame_bind (same.declare under inner (frame.qualify name.path) true)

private theorem assign {name : Name} (same : Matches regime inside' inside)
    (under : frame.Under regime)
    (node : regime.node (.ofStmt (.set name e))) :
    Follows frame (Dispatch.assign inside' (Part.ofStmt (.set name e)).tree)
      (Evaluation.assign inside name.path e) id := by
  have inner : regime.node (.expr e) := regime.inside node (by
    simp [Part.ofStmt, Part.children, Part.stmtChildren])
  unfold Dispatch.assign
  rw [Part.children_tree]
  simp only [Part.ofStmt, Part.children, Part.stmtChildren, List.map_cons, List.map_nil,
    same.path_of_node node rfl]
  refine .frame_bind ?_
  rw [Frame.requireAssignable_viewed]
  refine .plainly_bind (blind_lift _) fun _ => ?_
  refine (same.bindable under inner).andThen fun bound after => ?_
  refine .frame_bind (.lift_bind (Frame.assign_viewed Bound.tree after name.path bound) ?_)
  refine fun assigned _ => .setFrame_bind rfl ?_
  rw [Bound.label_tree]
  cases bound with
  | declared name proc => exact follows_done _
  | expr e =>
    cases e with
    | literal value loc =>
      change Follows assigned (TreeEval.reading (Part.expr (.literal value loc)).tree.value) _ id
      rw [value_literal]
      exact follows_done value
    | _ => exact follows_done _

private theorem inNamespace {name : Name} {body : List Stmt} {bodyLoc loc : Loc}
    (same : Matches regime inside' inside) (under : frame.Under regime)
    (node : regime.node (.ofStmt (.inNamespace name body bodyLoc loc))) :
    Follows frame
      (Dispatch.inNamespace inside' (Part.ofStmt (.inNamespace name body bodyLoc loc)).tree)
      (Evaluation.inNamespace inside name.path body) id := by
  have nodes : ∀ s ∈ body, regime.node (.ofStmt s) := Regime.body_nodes bodyLoc node (by
    simp [Part.ofStmt, Part.children, Part.stmtChildren])
  have within : (frame.within (frame.qualify name.path)).Under regime := under
  unfold Dispatch.inNamespace
  rw [Part.children_tree]
  simp only [Part.ofStmt, Part.children, Part.stmtChildren, List.map_cons, List.map_nil,
    same.path_of_node node rfl]
  refine .frame_bind ?_
  let scope := frame.qualify name.path
  have ran : Follows frame (TreeEval.inFrame (frame.trees.within scope) (·.mergeUnder · scope) _)
      (Eval.inFrame (frame.within scope) (·.mergeUnder · scope) _) id :=
    (same.body within nodes (Part.children_tree (.block body bodyLoc))).inFrame rfl fun inner =>
      Frame.mergeUnder_viewed Bound.tree frame inner scope
  exact ran.andThen fun _ _ => follows_done _

private theorem ifThen {body : List Stmt} {bodyLoc loc : Loc} (same : Matches regime inside' inside)
    (under : frame.Under regime) (node : regime.node (.ofStmt (.ifThen e body bodyLoc loc)))
    (patience : Nat) :
    Follows frame (Dispatch.ifThen inside' (Part.ofStmt (.ifThen e body bodyLoc loc)).tree)
      (Evaluation.stmt patience inside (.ifThen e body bodyLoc loc)) id := by
  have inner : regime.node (.expr e) := regime.inside node (by
    simp [Part.ofStmt, Part.children, Part.stmtChildren])
  have nodes : ∀ s ∈ body, regime.node (.ofStmt s) := Regime.body_nodes bodyLoc node (by
    simp [Part.ofStmt, Part.children, Part.stmtChildren])
  unfold Dispatch.ifThen
  rw [Part.children_tree]
  have keeps : regime.beside.Keeps regime.stops .body frame _ _ :=
    same.obedient.near.holds under inner fun _ => .refl e
  refine (same.holds under inner).bind keeps ?_
  rintro truth _ after evolves rfl
  have under := evolves.under under
  cases truth with
  | false => exact follows_done _
  | true =>
    exact (same.body under nodes (Part.children_tree (.block body bodyLoc))).inCopy.andThen
      fun _ _ => follows_done _

private theorem whileTrue {body : List Stmt} {bodyLoc loc : Loc}
    (same : Matches regime inside' inside)
    (under : frame.Under regime) (node : regime.node (.ofStmt (.whileTrue e body bodyLoc loc)))
    (patience : Nat) :
    Follows frame
      (Dispatch.whileTrue patience inside' (Part.ofStmt (.whileTrue e body bodyLoc loc)).tree)
      (Evaluation.stmt patience inside (.whileTrue e body bodyLoc loc)) id := by
  have inner : regime.node (.expr e) := regime.inside node (by
    simp [Part.ofStmt, Part.children, Part.stmtChildren])
  have nodes : ∀ s ∈ body, regime.node (.ofStmt s) := Regime.body_nodes bodyLoc node (by
    simp [Part.ofStmt, Part.children, Part.stmtChildren])
  unfold Dispatch.whileTrue
  rw [Part.children_tree]
  have tests : ∀ after, frame.Evolves regime after →
      Follows after (inside'.holds (Part.expr e).tree) (inside.holds e) id ∧
      regime.beside.Keeps regime.stops .body after (fun _ => inside.holds e) Course.Same :=
    fun after evolves => ⟨same.holds (evolves.under under) inner,
      same.obedient.near.holds (evolves.under under) inner fun _ => .refl e⟩
  have acts : ∀ after, frame.Evolves regime after →
      Follows after (inside'.body (Part.block body bodyLoc).tree).inCopy (inside.body body).inCopy
        id ∧
      regime.beside.Keeps regime.stops .body after (fun _ => (inside.body body).inCopy)
        Course.Same := fun after evolves =>
    ⟨(same.body (evolves.under under) nodes (Part.children_tree (.block body bodyLoc))).inCopy,
      (same.obedient.near.body (evolves.under under) nodes fun _ => .refl body).inCopy.weaken
        fun _ _ _ _ _ => rfl⟩
  exact (follows_whileHolds patience tests acts).andThen fun _ _ => follows_done _

private theorem rounds {body : List Stmt} {bodyLoc loc : Loc} (same : Matches regime inside' inside)
    (under : frame.Under regime) (nodes : ∀ s ∈ body, regime.node (.ofStmt s))
    (stored : ∀ value, regime.node (.expr (.literal value loc))) (path : Path) (low high : Int) :
    Follows frame
      (Dispatch.rounds inside' path low high (Part.block body bodyLoc).tree (some loc))
      (Evaluation.rounds inside path low high body loc) id := by
  refine @follows_countUp regime .body _ _ _ _ _ fun i after evolves => ?_
  have under := evolves.under under
  let counter := Bound.ofValue (.ofNumber (Number.ofInt i)) loc
  have bound : (after.bind path counter).Under regime := Frame.Binds.put under (stored _)
  constructor
  · have binds := Frame.bind_viewed Bound.tree after path counter
    rw [Bound.tree_ofValue] at binds
    refine Follows.inCopy (.stored_bind (.frame_bind (.setFrame_bind binds ?_)))
    exact same.body bound nodes (Part.children_tree (.block body bodyLoc))
  · exact same.obedient.near.round under nodes (fun _ => .refl body) (same.lettered.loops path)
      stored (fun _ _ => rfl) _

private theorem forRange {name : Name} {start stop : Expr} {body : List Stmt} {bodyLoc loc : Loc}
    (same : Matches regime inside' inside) (under : frame.Under regime)
    (node : regime.node (.ofStmt (.forRange name start stop body bodyLoc loc))) :
    Follows frame
      (Dispatch.forRange inside' (Part.ofStmt (.forRange name start stop body bodyLoc loc)).tree)
      (Evaluation.forRange inside name.path start stop body loc) id := by
  have first : regime.node (.expr start) := regime.inside node (by
    simp [Part.ofStmt, Part.children, Part.stmtChildren])
  have second : regime.node (.expr stop) := regime.inside node (by
    simp [Part.ofStmt, Part.children, Part.stmtChildren])
  have nodes : ∀ s ∈ body, regime.node (.ofStmt s) := Regime.body_nodes bodyLoc node (by
    simp [Part.ofStmt, Part.children, Part.stmtChildren])
  have stored : ∀ value, regime.node (.expr (.literal value loc)) := fun value =>
    @regime.resolved (.forRange name start stop body bodyLoc loc) value node
  have path := same.path_of_node node rfl
  unfold Dispatch.forRange
  rw [Part.children_tree, Part.loc_ofStmt]
  have keeps : ∀ {e : Expr} {frame : Frame}, frame.Under regime → regime.node (.expr e) →
      regime.beside.Keeps regime.stops .value frame (fun _ => inside.expr e) Course.Same :=
    fun under node => same.obedient.near.expr under node fun _ => .refl _
  refine (same.expr under first).bind (keeps under first) ?_
  rintro low _ after evolves rfl
  have under := evolves.under under
  refine (same.expr under second).bind (keeps under second) ?_
  rintro high _ last further rfl
  have under := further.under under
  dsimp only [id]
  split
  · exact same.require _ (.plainly_bind (blind_note _) fun _ => follows_done _)
  · refine .plainly_bind (blind_lift _) fun x => .plainly_bind (blind_lift _) fun y => ?_
    rw [path]
    cases Number.floor? x with
    | none => exact follows_plainly (blind_stop _)
    | some low =>
      cases Number.floor? y with
      | none => exact follows_plainly (blind_stop _)
      | some high =>
        exact (same.rounds under nodes stored name.path low high).andThen fun _ _ => follows_done _

private theorem returning {loc : Loc} (same : Matches regime inside' inside)
    (under : frame.Under regime)
    (node : regime.node (.ofStmt (.returning e loc))) :
    Follows frame (Dispatch.returning inside' (Part.ofStmt (.returning e loc)).tree)
      (inside.expr e >>= fun value => Eval.stop (.returned value)) id := by
  have inner : regime.node (.expr e) := regime.inside node (by
    simp [Part.ofStmt, Part.children, Part.stmtChildren])
  unfold Dispatch.returning
  rw [Part.children_tree]
  exact (same.expr under inner).andThen fun value _ => follows_plainly (blind_stop _)

private theorem procDecl {name : Name} {proc : Proc} (same : Matches regime inside' inside)
    (node : regime.node (.ofStmt (.procDecl name proc))) (patience : Nat) :
    Follows frame (Dispatch.proc (Part.ofStmt (.procDecl name proc)).tree)
      (Evaluation.stmt patience inside (.procDecl name proc)) id := by
  have spelled : Path.ofText name.path.text = name.path :=
    (same.lettered.textual node).here name rfl
  unfold Dispatch.proc
  rw [Part.children_tree]
  simp only [Part.ofStmt, Part.children, Part.stmtChildren, List.map_cons, Part.ofName,
    Part.tree_token, spelled]
  refine .frame_bind (.lift_bind ?_ fun declared _ => .setFrame_bind rfl (follows_done _))
  exact Frame.declare_viewed Bound.tree frame _ (.declared name proc) false

/-- One step from meanings to meanings: the rule for the label of a node does
what the node does. -/
theorem statement {s : Stmt} (same : Matches regime inside' inside) (under : frame.Under regime)
    (node : regime.node (.ofStmt s)) (patience : Nat) :
    Follows frame (Dispatch.tree patience inside' (Part.ofStmt s).tree)
      (Evaluation.stmt patience inside s) id := by
  cases s with
  | expr e => exact same.expression under node patience
  | importLibrary target loc =>
    rw [by_label rfl]
    exact same.importing target loc
  | importRelative target loc =>
    rw [by_label rfl]
    exact same.importRelative target loc
  | inNamespace name body bodyLoc loc =>
    rw [by_label rfl]
    exact same.inNamespace under node
  | letDecl name value loc =>
    rw [by_label rfl]
    exact same.letDecl under node
  | constDecl name value loc =>
    rw [by_label rfl]
    exact same.constDecl under node patience
  | set name value =>
    rw [by_label rfl]
    exact same.assign under node
  | ifThen condition body bodyLoc loc =>
    rw [by_label rfl]
    exact same.ifThen under node patience
  | forRange name start stop body bodyLoc loc =>
    rw [by_label rfl]
    exact same.forRange under node
  | whileTrue condition body bodyLoc loc =>
    rw [by_label rfl]
    exact same.whileTrue under node patience
  | returning value loc =>
    rw [by_label rfl]
    exact same.returning under node
  | procDecl name proc =>
    rw [by_label rfl]
    exact same.procDecl node patience

/-- A main proc that is asked for is called without arguments. -/
theorem callMain {loc : Loc} (same : Matches regime inside' inside) (under : frame.Under regime) :
    Follows frame (Dispatch.callMain inside' (some loc)) (Program.callMain inside loc) id := by
  refine .frame_bind ?_
  rw [Frame.lookup_viewed]
  cases held : frame.lookup Program.mainPath with
  | none => exact follows_plainly (blind_stop _)
  | some bound =>
    simp only [Option.map_some, Bound.isProc_tree, Bound.loc_tree]
    cases found : bound.proc? with
    | none => exact follows_plainly (blind_stop _)
    | some proc =>
      exact same.invoke under (under _ bound held) found (List.forall_mem_nil _) Program.mainPath

/-- A program is run on its tree as it is evaluated. -/
theorem program {program : Program} (same : Matches regime inside' inside)
    (under : frame.Under regime) (node : regime.node (.program program)) (withMain : Bool) :
    Follows frame (Dispatch.run inside' (Part.program program).tree withMain)
      (program.eval inside withMain) id := by
  have nodes : ∀ s ∈ program.body, regime.node (.ofStmt s) := fun s member =>
    regime.inside node (List.mem_map_of_mem member)
  have place : (Part.program program).tree.loc = some program.loc := by
    rw [Part.tree_node (by simp)]
    rfl
  unfold Dispatch.run Program.eval
  rw [place]
  apply Follows.reportingRoom
  refine (same.body under nodes (Part.children_tree (.program program))).catchReturn.bind
    (same.obedient.near.body under nodes fun _ => .refl _).catchReturn
    fun _ result after evolves _ => ?_
  cases withMain with
  | false => exact follows_done _
  | true => exact (same.callMain (evolves.under under)).andThen fun _ _ => follows_done _

end Matches

section Interpreter
variable {regime : Regime} {patience : Nat}

/-- A tree is evaluated as its node is, in any room. -/
theorem follows_interpret (fallback : Option Loc) (lettered : Lettered regime)
    (obedient : ∀ room, Obedient regime fun _ => interpreter patience room)
    {room units : Nat} {s : Stmt} {frame : Frame} (node : regime.node (.ofStmt s))
    (under : frame.Under regime) :
    Follows frame (interpretTree fallback patience room units (Part.ofStmt s).tree)
      (interpret patience room units s) id := by
  -- Both count down the same room, since a tree takes as many units as its node.
  induction room generalizing units s frame with
  | zero => exact follows_plainly (blind_stop _)
  | succ room ih =>
    cases units with
    | succ units => exact ih node under
    | zero =>
      rw [interpretTree, interpret, Part.units_tree, Part.loc_ofStmt]
      split
      · exact follows_plainly (blind_stop _)
      · have inner : Matches regime
            ⟨room - s.units, fallback, fun units =>
              interpretTree fallback patience room (units + s.units)⟩
            ⟨room - s.units, fun units => interpret patience room (units + s.units)⟩ :=
          ⟨rfl, lettered, (obedient room).after s.units s.units,
            fun _ _ _ node under => ih node under⟩
        exact (inner.statement under node patience).located s.loc

/-- The interpreter of trees does on the tree of a node what the interpreter
does on the node. -/
theorem matches_interpreter (fallback : Option Loc) (lettered : Lettered regime)
    (obedient : ∀ room, Obedient regime fun _ => interpreter patience room)
    (room : Nat) :
    Matches regime (treeInterpreter fallback patience room) (interpreter patience room) :=
  ⟨rfl, lettered, obedient room, fun _ _ _ => follows_interpret fallback lettered obedient⟩

end Interpreter

end Labelling

end BasilLang
