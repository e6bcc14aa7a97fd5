import BasilLang.Proofs.Acyclicity

/-! Binding arguments to parameters captures nothing. An argument is bound as
it stands only if it leads to no parameter, so the callee's frame binds all
that it reads to the same as the caller's; any other argument is resolved
first. Either way a parameter is read in the callee's frame as its argument
is read in the caller's, whatever names the two lists share. -/
namespace BasilLang.Binding

open Eval (Steady steady_frame steady_lift steady_require)
open Evaluation (paramPaths calleeFrame runBody)

/-- Evaluating the expression in the frame gives the value. -/
def HasValue (frame : Frame) (e : Expr) (value : Value) : Prop :=
  ∃ patience room console after,
    interpret patience room 0 (.expr e) ⟨frame, console⟩ = (.ok value, after)

section Values
variable {frame : Frame} {e : Expr} {value : Value}

/-- Units that are used up are taken from the room. -/
theorem interpret_units (patience room units : Nat) (s : Stmt) :
    interpret patience room units s = interpret patience (room - units) 0 s := by
  rw [← Diversion.never_interpret, Diversion.interpret_units, Diversion.never_interpret]

/-- With enough room, a node is evaluated by its rule and supplies its place. -/
theorem interpret_succ {patience room : Nat} (enough : Room.work ≤ room) (s : Stmt) :
    interpret patience (room + 1) 0 s = Eval.located s.loc
      (Evaluation.stmt patience ((interpreter patience room).after s.units) s) := by
  rw [interpret, if_neg (Nat.not_lt.mpr enough)]
  rfl

private theorem ok_of_located {α : Type} {act : Eval α} {loc : Loc} {m after : Machine} {a : α}
    (ran : act.located loc m = (.ok a, after)) : act m = (.ok a, after) := by
  unfold Eval.located at ran
  split at ran
  · cases ran
  · exact ran

private theorem HasValue.rule (valued : HasValue frame e value) :
    ∃ patience room console after,
      Evaluation.expr ((interpreter patience room).after (Stmt.expr e).units) e ⟨frame, console⟩ =
        (.ok value, after) := by
  obtain ⟨patience, room, console, after, ran⟩ := valued
  cases room with
  | zero => cases ran
  | succ room =>
    by_cases enough : Room.work ≤ room
    · rw [interpret_succ enough] at ran
      exact ⟨patience, room, console, after, ok_of_located ran⟩
    · rw [interpret, if_pos (Nat.not_le.mp enough)] at ran
      cases ran

private theorem get_of_lookup {path : Path} {bound : Bound}
    (held : frame.lookup path = some bound) : frame.get path = .ok bound := by
  rw [Frame.get, held]

/-- What names a proc has no value. -/
theorem HasValue.not_proc (valued : HasValue frame e value) : frame.procNamed? e = none := by
  fun_induction frame.procNamed? e with
  | case1 p =>
    obtain ⟨_, _, _, _, ran⟩ := valued.rule
    cases ran
  | case2 inner loc ih =>
    obtain ⟨patience, room, console, after, ran⟩ := valued.rule
    refine ih ⟨patience, room - (0 + Room.group), console, after, ?_⟩
    rwa [← interpret_units]
  | case3 name bound held isProc =>
    obtain ⟨patience, room, console, after, ran⟩ := valued.rule
    rw [Evaluation.expr, Evaluation.identifier, steady_frame.bind_apply,
      (steady_lift (get_of_lookup held)).bind_apply] at ran
    cases bound with
    | declared => cases ran
    | expr e =>
      cases e with
      | proc => cases ran
      | literal | identifier | group | unary | binary | call => cases isProc
  | case4 | case5 | case6 => rfl

/-- A name comes to the value of the expression that it is bound to. -/
theorem comesTo_of_bound {name : Name} (held : frame.lookup name.path = some (.expr e))
    (apart : ∀ p, e ≠ .proc p) (comes : frame.ComesTo e (.ok value)) :
    frame.ComesTo (.identifier name) (.ok value) := by
  obtain ⟨-, enough, steady⟩ := comes
  refine ⟨trivial, enough + Room.node + Room.work + 1, fun room more patience => ?_⟩
  obtain ⟨room, rfl⟩ : ∃ inner, room = inner + 1 := ⟨room - 1, by omega⟩
  rw [interpret_succ (by omega)]
  have inner : Steady frame (Evaluation.identifier ((interpreter patience room).after
      Room.node) name.path) (.ok value) := by
    refine steady_frame.bind_ok ((steady_lift (get_of_lookup held)).bind_ok ?_)
    have below := steady (room - (0 + Room.node)) (by omega) patience
    rw [← interpret_units] at below
    cases e with
    | proc p => exact absurd rfl (apart p)
    | literal | identifier | group | unary | binary | call => exact below
  exact inner.located _

/-- A literal has its own value. -/
theorem comesTo_literal (frame : Frame) (value : Value) (loc : Loc) :
    frame.ComesTo (.literal value loc) (.ok value) := by
  refine ⟨trivial, Room.work + 1, fun room more patience => ?_⟩
  obtain ⟨room, rfl⟩ : ∃ inner, room = inner + 1 := ⟨room - 1, by omega⟩
  rw [interpret_succ (by omega)]
  exact fun _ => rfl

/-- What an expression comes to is its value. -/
theorem hasValue_of_comesTo (comes : frame.ComesTo e (.ok value)) : HasValue frame e value := by
  obtain ⟨-, enough, steady⟩ := comes
  exact ⟨0, enough, {}, _, steady enough (Nat.le_refl _) 0 {}⟩

end Values

section Arguments
variable {frame : Frame} {params : List Path}

/-- What a parameter is bound to if the argument has the given value. -/
def boundTo (frame : Frame) (params : List Path) (e : Expr) (value : Value) : Bound :=
  match frame.reads? e with
  | some paths => if paths.any params.contains then .ofValue value e.loc else .expr e
  | none => .ofValue value e.loc

/-- What a parameter is bound to leads to no parameter. -/
theorem apart_boundTo (frame : Frame) (params : List Path) (e : Expr) (value : Value) :
    frame.Apart params (boundTo frame params e value) := by
  have resolved : frame.Apart params (.ofValue value e.loc) := nofun
  unfold boundTo
  split
  · next paths reads =>
    by_cases beside : paths.any params.contains = true
    · rw [if_pos beside]
      exact resolved
    · rw [if_neg beside]
      exact Frame.apart_of_reads reads beside
  · exact resolved

/-- A name that is itself a parameter is resolved when it is an argument. -/
theorem boundTo_param {params : List Path} {name : Name} (param : name.path ∈ params)
    (frame : Frame) (value : Value) :
    boundTo frame params (.identifier name) value = .ofValue value name.loc := by
  unfold boundTo
  split
  · next paths reads =>
    have read : name.path ∈ paths :=
      ((Frame.reads?_sound reads).2 name.path ⟨name.path, by simp [Expr.mentions], .refl⟩).2
    rw [if_pos (List.any_eq_true.mpr ⟨name.path, read, List.contains_iff_mem.mpr param⟩)]
    rfl
  · rfl

/-- A literal stands for itself when it is an argument. -/
theorem boundTo_literal {literal value : Value} {loc : Loc}
    (valued : HasValue frame (.literal literal loc) value) (params : List Path) :
    boundTo frame params (.literal literal loc) value = .ofValue value loc := by
  obtain ⟨_, _, _, _, ran⟩ := valued.rule
  cases ran
  rfl

private theorem steady_argument {inside : Meaning} {e : Expr} {value : Value}
    (noProc : frame.procNamed? e = none)
    (room : Room.naming e.groups ≤ (inside.after Room.argument).left)
    (steady : Steady frame ((inside.after Room.argument).expr e) (.ok value)) :
    Steady frame (Evaluation.argument inside params e) (.ok (boundTo frame params e value)) := by
  have eagerly : Steady frame ((inside.after Room.argument).expr e >>= fun value =>
      pure (Bound.ofValue value e.loc)) (.ok (.ofValue value e.loc)) :=
    steady.bind_ok fun _ => rfl
  refine (steady_require room).bind_ok (steady_frame.bind_ok ?_)
  rw [noProc]
  unfold boundTo
  cases reads : frame.reads? e with
  | none => exact eagerly
  | some paths =>
    dsimp only
    split
    · exact eagerly
    · exact fun _ => rfl

/-- With enough room, call-free arguments that have values are bound without any
change. -/
theorem steady_arguments (plain : frame.AllPlain) {args : List Expr} {values : List Value}
    (callFree : ∀ e ∈ args, e.isCallFree = true)
    (valued : List.Forall₂ (HasValue frame) args values) (params : List Path) :
    ∃ enough, ∀ room ≥ enough, ∀ patience,
      Steady frame (Evaluation.arguments ((interpreter patience room).after Room.node) params args)
        (.ok (List.zipWith (boundTo frame params) args values)) := by
  induction valued with
  | nil => exact ⟨0, fun _ _ _ _ => rfl⟩
  | @cons e value args values first rest ih =>
    have noProc := first.not_proc
    obtain ⟨_, _, _, _, ran⟩ := first
    obtain ⟨-, one, steady⟩ : frame.ComesTo e (.ok value) :=
      plain.comesTo (callFree e List.mem_cons_self) (fun _ _ => rfl) ran trivial
    obtain ⟨others, later⟩ := ih fun e member => callFree e (List.mem_cons_of_mem _ member)
    refine ⟨max (one + Room.naming e.groups + Room.argument + Room.node) others,
      fun room more patience => ?_⟩
    have here : Steady frame
        (Evaluation.argument ((interpreter patience room).after Room.node) params e)
        (.ok (boundTo frame params e value)) := by
      refine steady_argument noProc ?_ ?_
      · change _ ≤ room - Room.node - Room.argument
        omega
      · change Steady frame (interpret patience room (0 + Room.argument + Room.node) (.expr e)) _
        rw [interpret_units]
        exact steady _ (by omega) patience
    exact here.bind_ok ((later room (by omega) patience).bind_ok fun _ => rfl)

end Arguments

section Calls
variable {frame copy : Frame}

/-- The call of a proc, once its arguments are bound, runs the body in the
callee's frame. -/
theorem interpret_call {path : Path} (user : path.head? ≠ some Evaluation.builtinScope)
    {bound : Bound} {proc : Proc} (held : frame.lookup path = some bound)
    (isProc : bound.proc? = some proc) (deeper : frame.deeper = .ok copy) {args : List Expr}
    {bounds : List Bound} (count : bounds.length = (paramPaths proc).length)
    {patience room : Nat} (enough : Room.work + Room.node + Room.entering ≤ room)
    (steady : Steady frame (Evaluation.arguments ((interpreter patience room).after Room.node)
      (paramPaths proc) args) (.ok bounds)) (console : Console) (loc argsLoc : Loc) :
    interpret patience (room + 1) 0 (.expr (.call ⟨path, loc⟩ args argsLoc)) ⟨frame, console⟩ =
      Eval.located loc (Eval.inFrame (calleeFrame copy proc path bounds) Frame.mergeExisting
        (runBody ((interpreter patience room).after Room.node) frame proc)) ⟨frame, console⟩ := by
  have entering : Room.entering ≤ ((interpreter patience room).after Room.node).left := by
    change Room.entering ≤ room - Room.node
    omega
  have invoked : Evaluation.invoke ((interpreter patience room).after Room.node) proc path bounds
      ⟨frame, console⟩ = Eval.inFrame (calleeFrame copy proc path bounds) Frame.mergeExisting
        (runBody ((interpreter patience room).after Room.node) frame proc) ⟨frame, console⟩ := by
    rw [Evaluation.invoke, if_neg (not_not_intro count), (steady_require entering).bind_apply,
      steady_frame.bind_apply, (steady_lift deeper).bind_apply]
  have called : Evaluation.call ((interpreter patience room).after Room.node) path args
      ⟨frame, console⟩ = Eval.inFrame (calleeFrame copy proc path bounds) Frame.mergeExisting
        (runBody ((interpreter patience room).after Room.node) frame proc) ⟨frame, console⟩ := by
    rw [Evaluation.call, if_neg user, steady_frame.bind_apply,
      (steady_lift (get_of_lookup held)).bind_apply, isProc]
    exact (steady.bind_apply _ console).trans invoked
  rw [interpret_succ (by omega)]
  unfold Eval.located
  rw [← called]
  rfl

/-- What a parameter is bound to comes to the value of the argument in every
frame that differs from the caller's in the parameters alone. -/
theorem boundTo_comesTo (plain : frame.AllPlain) {params : List Path} {e e' : Expr} {value : Value}
    (callFree : e.isCallFree = true) (valued : HasValue frame e value)
    (given : boundTo frame params e value = .expr e') {other : Frame}
    (same : ∀ path, path ∉ params → other.lookup path = frame.lookup path) :
    other.ComesTo e' (.ok value) ∧ ∀ p, e' ≠ .proc p := by
  have eagerly : Bound.ofValue value e.loc = .expr e' →
      other.ComesTo e' (.ok value) ∧ ∀ p, e' ≠ .proc p := by
    intro resolved
    cases resolved
    exact ⟨comesTo_literal other value e.loc, nofun⟩
  unfold boundTo at given
  split at given
  · next paths reads =>
    by_cases beside : paths.any params.contains = true
    · rw [if_pos beside] at given
      exact eagerly given
    · -- The argument stands for itself: all it reads is bound as in the caller's frame.
      rw [if_neg beside] at given
      cases given
      have noProc := valued.not_proc
      obtain ⟨_, _, _, _, ran⟩ := valued
      constructor
      · apply plain.comesTo callFree _ ran trivial
        intro read reached
        have member := ((Frame.reads?_sound reads).2 read reached).2
        exact same read fun clash => beside
          (List.any_eq_true.mpr ⟨read, member, List.contains_iff_mem.mpr clash⟩)
      · rintro p rfl
        cases noProc
  · exact eagerly given

private theorem boundTo_expr (frame : Frame) (params : List Path) (e : Expr) (value : Value) :
    ∃ e', boundTo frame params e value = .expr e' := by
  unfold boundTo
  split
  · split
    · exact ⟨_, rfl⟩
    · exact ⟨_, rfl⟩
  · exact ⟨_, rfl⟩

/-- What is no parameter is bound in the callee's frame as in the caller's. -/
theorem lookup_callee (deeper : frame.deeper = .ok copy) {proc : Proc} (path : Path)
    (bounds : List Bound) {other : Path} (apart : other ∉ paramPaths proc) :
    (calleeFrame copy proc path bounds).lookup other = frame.lookup other := by
  rw [calleeFrame, Frame.lookup_bindAll_of_not_mem _ apart, Frame.lookup_within,
    Frame.lookup_deeper deeper]

/-- A parameter is read in the callee's frame as its argument is read in the
caller's. -/
theorem param_comesTo (plain : frame.AllPlain) (deeper : frame.deeper = .ok copy)
    {proc : Proc} (path : Path) {bounds : List Bound} {param : Name} {e : Expr} {value : Value}
    (callFree : e.isCallFree = true) (valued : HasValue frame e value)
    (given : (calleeFrame copy proc path bounds).lookup param.path =
      some (boundTo frame (paramPaths proc) e value)) :
    (calleeFrame copy proc path bounds).ComesTo (.identifier param) (.ok value) := by
  obtain ⟨e', bound⟩ := boundTo_expr frame (paramPaths proc) e value
  obtain ⟨comes, apart⟩ := boundTo_comesTo plain callFree valued bound
    fun other clear => lookup_callee deeper path bounds clear
  rw [bound] at given
  exact comesTo_of_bound given apart comes

private theorem argument_of_value {args : List Expr} {values : List Value} {i : Nat} {value : Value}
    (valued : List.Forall₂ (HasValue frame) args values) (given : values[i]? = some value) :
    ∃ e, args[i]? = some e ∧ HasValue frame e value := by
  induction valued generalizing i with
  | nil => simp at given
  | @cons e _ _ _ first _ ih =>
    cases i with
    | zero =>
      cases given
      exact ⟨e, rfl, first⟩
    | succ i => exact ih given

/-- Each of several different parameters is bound to what its own argument is
bound as. -/
theorem lookup_param {proc : Proc} (different : (proc.params.map Mark.text).Nodup)
    {args : List Expr} {values : List Value} (valued : List.Forall₂ (HasValue frame) args values)
    (copy : Frame) (path : Path) {i : Nat} {mark : Mark} {value : Value}
    (here : proc.params[i]? = some mark) (given : values[i]? = some value) :
    ∃ e ∈ args, HasValue frame e value ∧
      (calleeFrame copy proc path (List.zipWith (boundTo frame (paramPaths proc)) args
        values)).lookup [mark.text] = some (boundTo frame (paramPaths proc) e value) := by
  obtain ⟨e, found, valued⟩ := argument_of_value valued given
  have paths : paramPaths proc = (proc.params.map Mark.text).map fun text => [text] := by
    simp [paramPaths]
  have apart : (paramPaths proc).Nodup := by
    rw [paths]
    exact different.map fun _ _ same => List.singleton_inj.mp same
  have param : (paramPaths proc)[i]? = some [mark.text] := by simp [paramPaths, here]
  have argument : (List.zipWith (boundTo frame (paramPaths proc)) args values)[i]? =
      some (boundTo frame (paramPaths proc) e value) := by
    simp [List.getElem?_zipWith, found, given]
  exact ⟨e, List.mem_of_getElem? found, valued, Frame.lookup_bindAll_get _ apart param argument⟩

end Calls

/-- Arguments are bound without capture. In a frame that a run evaluates
something in, take a proc with different parameters that is not built in, and
as many arguments without calls, each of which has a value there. With enough
room, a call of the proc runs its body in a frame in which every parameter
comes to the value of its own argument. -/
theorem parameters_come_to_arguments (run : Run) {s : Stmt} {frame : Frame}
    (evaluates : run.Evaluates s frame) {path : Path}
    (user : path.head? ≠ some Evaluation.builtinScope) {bound : Bound} {proc : Proc}
    (held : frame.lookup path = some bound) (isProc : bound.proc? = some proc)
    (different : (proc.params.map Mark.text).Nodup) {args : List Expr} {values : List Value}
    (count : args.length = proc.params.length) (callFree : ∀ e ∈ args, e.isCallFree = true)
    (valued : List.Forall₂ (HasValue frame) args values) {copy : Frame}
    (deeper : frame.deeper = .ok copy) :
    ∃ bounds,
      (∃ enough, ∀ room ≥ enough, ∀ patience console loc argsLoc,
        interpret patience (room + 1) 0 (.expr (.call ⟨path, loc⟩ args argsLoc))
            ⟨frame, console⟩ =
          Eval.located loc (Eval.inFrame (calleeFrame copy proc path bounds) Frame.mergeExisting
            (runBody ((interpreter patience room).after Room.node) frame proc))
            ⟨frame, console⟩) ∧
      ∀ (i : Nat) (mark : Mark) (value : Value), proc.params[i]? = some mark →
        values[i]? = some value → ∀ loc,
        (calleeFrame copy proc path bounds).ComesTo (.identifier ⟨[mark.text], loc⟩)
          (.ok value) := by
  have plain : frame.AllPlain := (run.holds_of_evaluates Acyclicity.lasting_tidy evaluates).plain
  obtain ⟨enough, steady⟩ := steady_arguments plain callFree valued (paramPaths proc)
  have alike := valued.length_eq
  refine ⟨List.zipWith (boundTo frame (paramPaths proc)) args values,
    ⟨enough + Room.work + Room.node + Room.entering, fun room more patience => ?_⟩, ?_⟩
  · refine interpret_call user held isProc deeper ?_ (by omega) (steady room (by omega) patience)
    simp [paramPaths, ← alike, count]
  · intro i mark value here given loc
    obtain ⟨e, member, valued, bound⟩ := lookup_param different valued copy path here given
    exact param_comesTo plain deeper path (callFree e member) valued bound

open Acyclicity (nameOf)

/-- `proc pair(y, w) then return w end` -/
def pair : Proc :=
  .mk default [⟨"y", default⟩, ⟨"w", default⟩] default [.returning (nameOf "w") default] default

/-- `pair(v, x)` -/
def pairVX : Stmt :=
  .expr (.call ⟨["pair"], default⟩ [nameOf "v", nameOf "x"] default)

/-- `proc outer(x) then pair(v, x) end` -/
def outer : Proc :=
  .mk default [⟨"x", default⟩] default [pairVX] default

/-- A run in which `x` is bound to `y` when `pair` is called, whose own `y` is
bound to something else. -/
def clashing : Run :=
  .ofBody [.procDecl ⟨["pair"], default⟩ pair, .procDecl ⟨["outer"], default⟩ outer,
    .letDecl ⟨["y"], default⟩ (.literal ⟨.number, "2"⟩ default) default,
    .letDecl ⟨["v"], default⟩ (.literal ⟨.number, "3"⟩ default) default,
    .expr (.call ⟨["outer"], default⟩ [nameOf "y"] default)] 100

/-- The frame in which the body of `outer` runs. -/
def clash : Frame where
  bindings := [(["pair"], .declared ⟨["pair"], default⟩ pair),
    (["outer"], .declared ⟨["outer"], default⟩ outer),
    (["y"], .ofValue ⟨.number, "2"⟩ default), (["v"], .ofValue ⟨.number, "3"⟩ default),
    (["x"], .expr (nameOf "y"))]
  distinct := by decide
  scope := ["outer"]
  depth := 1

theorem clashing_names_are_not_captured :
    clashing.Evaluates pairVX clash ∧ clash.LeadsTo ["x"] ["y"] ∧
    ∃ bounds, (∃ enough, ∀ room ≥ enough, ∀ patience console loc argsLoc,
        interpret patience (room + 1) 0
            (.expr (.call ⟨["pair"], loc⟩ [nameOf "v", nameOf "x"] argsLoc)) ⟨clash, console⟩ =
          Eval.located loc (Eval.inFrame
            (calleeFrame { clash with depth := 2 } pair ["pair"] bounds) Frame.mergeExisting
            (runBody ((interpreter patience room).after Room.node) clash pair))
            ⟨clash, console⟩) ∧
      (calleeFrame { clash with depth := 2 } pair ["pair"] bounds).ComesTo (nameOf "y")
        (.ok ⟨.number, "3"⟩) ∧
      (calleeFrame { clash with depth := 2 } pair ["pair"] bounds).ComesTo (nameOf "w")
        (.ok ⟨.number, "2"⟩) := by
  have evaluates : clashing.Evaluates pairVX clash :=
    ⟨fun s frame => s.isCall && frame.has ["x"], fun _ => rfl⟩
  have user : (["pair"] : Path).head? ≠ some Evaluation.builtinScope := by decide
  have valued : List.Forall₂ (HasValue clash) [nameOf "v", nameOf "x"]
      [⟨.number, "3"⟩, ⟨.number, "2"⟩] :=
    .cons ⟨0, 100, {}, _, rfl⟩ (.cons ⟨0, 100, {}, _, rfl⟩ .nil)
  obtain ⟨bounds, called, read⟩ := parameters_come_to_arguments clashing evaluates user rfl rfl
    (by decide) rfl (by simp [nameOf, Expr.isCallFree]) valued rfl
  exact ⟨evaluates, ⟨_, nameOf "y", rfl, rfl, List.mem_singleton.mpr rfl⟩, bounds, called,
    read 0 ⟨"y", default⟩ _ rfl rfl default, read 1 ⟨"w", default⟩ _ rfl rfl default⟩

end BasilLang.Binding
