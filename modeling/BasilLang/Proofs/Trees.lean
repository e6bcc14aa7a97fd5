import BasilLang.Evaluation.Dispatch
import BasilLang.Proofs.Obedience
import BasilLang.Proofs.Standing
import BasilLang.Proofs.Viewing

/-! What a plain tree says of the part that it stands for. Everything that is
asked of a part while it is evaluated can be read off its tree: how deep it is,
how it is spelled out, which procs and names are in it and what it is bound
to. Only a name has to be read back from a text, so this is so where every name
is spelled by one. -/
namespace BasilLang

namespace Part

section Trees
variable {part : Part}

/-- What holds of every token, and of a node if it holds of its children, holds
of every part. -/
theorem by_children {P : Part → Prop} (token : ∀ kind mark, P (.token kind mark))
    (node : ∀ part, (∀ kind mark, part ≠ .token kind mark) →
      (∀ child ∈ part.children, P child) → P part) (part : Part) : P part := by
  induction size : part.depth using Nat.strongRecOn generalizing part with
  | _ n ih =>
    by_cases leaf : ∃ kind mark, part = .token kind mark
    · obtain ⟨kind, mark, rfl⟩ := leaf
      exact token kind mark
    · refine node part (fun kind mark same => leaf ⟨kind, mark, same⟩) fun child inside => ?_
      exact ih child.depth (size ▸ depth_child inside) child rfl

@[simp] theorem tree_token (kind : String) (mark : Mark) :
    (token kind mark).tree = .token kind mark.text := by
  rw [tree]

/-- A part that is no token is a node with a label, children and a place. -/
theorem tree_node (node : ∀ kind mark, part ≠ .token kind mark) :
    part.tree = .node part.label (part.children.map tree) (some part.loc) := by
  cases part with
  | token kind mark => exact absurd rfl (node kind mark)
  | _ =>
    rw [tree]
    · simp
    · exact node

private theorem tree_expr (e : Expr) :
    (expr e).tree = .node (exprLabel e) ((exprChildren e).map tree) (some e.loc) :=
  tree_node (by simp)

theorem tree_ofStmt (s : Stmt) :
    (ofStmt s).tree = .node (stmtLabel s) ((stmtChildren s).map tree) (some s.loc) := by
  cases s with
  | expr e => exact tree_expr e
  | _ => exact tree_node (by simp [ofStmt])

theorem loc_expr (e : Expr) : (expr e).tree.loc = some e.loc := by
  rw [tree_expr]
  rfl

theorem loc_ofStmt (s : Stmt) : (ofStmt s).tree.loc = some s.loc := by
  rw [tree_ofStmt]
  rfl

@[simp] theorem children_tree (part : Part) : part.tree.children = part.children.map tree := by
  cases part with
  | token kind mark => rw [tree_token]; rfl
  | _ => rw [tree_node (by simp)]; rfl

end Trees

section Depth
variable {part : Part}

/-- The depth of the deepest part of a list. -/
private def deepest (parts : List Part) : Nat :=
  parts.foldr (max ·.depth) 0

private theorem deepest_stmts (stmts : List Stmt) :
    deepest (stmts.map ofStmt) = stmtsDepth stmts := by
  induction stmts with
  | nil => rfl
  | cons s stmts ih =>
    have depth : (ofStmt s).depth = s.depth := by cases s <;> rfl
    rw [stmtsDepth, ← ih, ← depth]
    rfl

private theorem deepest_exprs (exprs : List Expr) :
    deepest (exprs.map expr) = exprsDepth exprs := by
  induction exprs with
  | nil => rfl
  | cons e exprs ih =>
    rw [exprsDepth, ← ih]
    rfl

private theorem deepest_tokens (marks : List Mark) (kind : String) :
    deepest (marks.map (token kind)) = 0 := by
  induction marks with
  | nil => rfl
  | cons mark marks ih => exact (Nat.zero_max _).trans ih

private theorem depth_expr (e : Expr) : e.depth = deepest (exprChildren e) + 1 := by
  cases e with
  | proc p =>
    cases p
    simp [exprChildren, procChildren, deepest, depth, Expr.depth, Proc.depth, Proc.body]
  | _ => simp [exprChildren, deepest, depth, Expr.depth, ofName]

private theorem depth_stmt (s : Stmt) : s.depth = deepest (stmtChildren s) + 1 := by
  cases s with
  | expr e => exact depth_expr e
  | procDecl name p =>
    cases p
    simp [stmtChildren, procChildren, deepest, depth, Stmt.depth, Proc.depth, Proc.body, ofName]
  | _ => simp [stmtChildren, deepest, depth, Stmt.depth, ofName, Nat.max_assoc]

private theorem depth_node (node : ∀ kind mark, part ≠ .token kind mark) :
    part.depth = deepest part.children + 1 := by
  cases part with
  | token kind mark => exact absurd rfl (node kind mark)
  | program p => exact congrArg (· + 1) (deepest_stmts p.body).symm
  | block stmts loc => exact congrArg (· + 1) (deepest_stmts stmts).symm
  | argList exprs loc => exact congrArg (· + 1) (deepest_exprs exprs).symm
  | paramList marks loc => exact congrArg (· + 1) (deepest_tokens marks _).symm
  | expr e => exact depth_expr e
  | stmt s => exact depth_stmt s

/-- The tree of a part is as deep as the part. -/
theorem depth_tree (part : Part) : part.tree.depth = part.depth := by
  induction part using by_children with
  | token kind mark => rw [tree_token, Tree.depth, depth]
  | node part node ih =>
    have all : ∀ parts : List Part, (∀ part ∈ parts, part.tree.depth = part.depth) →
        Tree.depths (parts.map tree) = deepest parts := by
      intro parts each
      induction parts with
      | nil => rfl
      | cons first rest further =>
        obtain ⟨here, later⟩ := List.forall_mem_cons.mp each
        rw [List.map_cons, Tree.depths, here, further later]
        rfl
    rw [tree_node node, Tree.depth, all _ ih, depth_node node]

end Depth

section Dump
variable {part : Part}

private theorem dump_stmts (stmts : List Stmt) : dumpStmts stmts = (stmts.map ofStmt).map dump := by
  induction stmts with
  | nil => rfl
  | cons s stmts ih =>
    have spelled : s.dump = (ofStmt s).dump := by cases s <;> rfl
    rw [dumpStmts, ih, spelled]
    rfl

private theorem dump_exprs (exprs : List Expr) : dumpExprs exprs = (exprs.map expr).map dump := by
  induction exprs with
  | nil => rfl
  | cons e exprs ih =>
    rw [dumpExprs, ih]
    rfl

private theorem dump_tokens (marks : List Mark) :
    (marks.map (token "IDENT")).map dump = marks.map Mark.text := by
  simp [dump, Function.comp_def]

/-- A node in a dump, with what its children are spelled as. -/
private def spelled (label : String) (parts : List String) : String :=
  if label ∈ Tree.listLabels then dumpList parts else dumpNode (Tree.dumpName label) parts

private theorem named_unary (op : UnaryOp) : op.kind.name ≠ "ANON" := by
  cases op <;> decide

private theorem named_binary (op : BinaryOp) : op.kind.name ≠ "ANON" := by
  cases op <;> decide

private theorem dump_expr (e : Expr) (other : exprLabel e ≠ "literal") :
    e.dump = spelled (exprLabel e) ((exprChildren e).map dump) := by
  cases e with
  | literal value loc => exact absurd rfl other
  | proc p =>
    cases p
    simp [exprLabel, exprChildren, procChildren, Expr.dump, Proc.dump, dump, spelled,
      Tree.listLabels, Tree.dumpName, Proc.params, Proc.body]
  | _ =>
    simp [exprLabel, exprChildren, Expr.dump, dump, ofName, spelled, Tree.listLabels,
      Tree.dumpName, named_unary, named_binary]

private theorem dump_stmt (s : Stmt) (other : stmtLabel s ≠ "literal") :
    s.dump = spelled (stmtLabel s) ((stmtChildren s).map dump) := by
  cases s with
  | expr e => exact dump_expr e other
  | procDecl name p =>
    cases p
    simp [stmtLabel, stmtChildren, procChildren, Stmt.dump, Proc.dump, dump, ofName, spelled,
      Tree.listLabels, Tree.dumpName, Proc.params, Proc.body]
  | _ =>
    simp [stmtLabel, stmtChildren, Stmt.dump, dump, ofName, spelled, Tree.listLabels,
      Tree.dumpName]

private theorem dump_node (node : ∀ kind mark, part ≠ .token kind mark)
    (other : part.label ≠ "literal") :
    part.dump = spelled part.label (part.children.map dump) := by
  cases part with
  | token kind mark => exact absurd rfl (node kind mark)
  | program p => exact congrArg (dumpNode "Program") (dump_stmts p.body)
  | block stmts loc => exact congrArg dumpList (dump_stmts stmts)
  | argList exprs loc => exact congrArg dumpList (dump_exprs exprs)
  | paramList marks loc => exact congrArg dumpList (dump_tokens marks).symm
  | expr e => exact dump_expr e other
  | stmt s => exact dump_stmt s other

private theorem literal_of_label (literal : part.label = "literal")
    (node : ∀ kind mark, part ≠ .token kind mark) :
    ∃ value loc, part.dump = Value.dump value ∧
      part.tree = .node "literal" [.token value.kind.tokenName value.text] (some loc) := by
  cases part with
  | token kind mark => exact absurd rfl (node kind mark)
  | expr e =>
    cases e with
    | literal value loc =>
      exact ⟨value, loc, rfl, by simp [tree_expr, exprLabel, exprChildren, Expr.loc]⟩
    | _ => simp [label, exprLabel] at literal
  | stmt s =>
    cases s with
    | expr e =>
      cases e with
      | literal value loc =>
        refine ⟨value, loc, rfl, ?_⟩
        rw [tree_node node]
        simp [label, stmtLabel, children, stmtChildren, exprLabel, exprChildren, Part.loc,
          Stmt.loc, Expr.loc]
      | _ => simp [label, stmtLabel, exprLabel] at literal
    | _ => simp [label, stmtLabel] at literal
  | _ => simp [label] at literal

theorem ofTokenName_tokenName (kind : Kind) : Kind.ofTokenName? kind.tokenName = some kind := by
  cases kind <;> decide

/-- The tree of a part is shown as the part is. -/
theorem dump_tree (part : Part) : part.tree.dump = .ok part.dump := by
  induction part using by_children with
  | token kind mark => rw [tree_token, Tree.dump, dump]
  | node part node ih =>
    by_cases literal : part.label = "literal"
    · obtain ⟨value, loc, spelled, tree⟩ := literal_of_label literal node
      rw [tree, spelled, Tree.dump, if_pos rfl]
      simp only [Tree.value, Tree.children, ofTokenName_tokenName]
      rfl
    · have all : ∀ parts : List Part, (∀ part ∈ parts, part.tree.dump = .ok part.dump) →
          Tree.dumpAll (parts.map tree) = .ok (parts.map dump) := by
        intro parts each
        induction parts with
        | nil => rfl
        | cons first rest further =>
          obtain ⟨here, later⟩ := List.forall_mem_cons.mp each
          rw [List.map_cons, Tree.dumpAll, here, further later]
          rfl
      rw [tree_node node, Tree.dump, if_neg literal, all _ ih, dump_node node literal]
      rfl

end Dump

section Names

/-- The names in a part are spelled by texts. -/
def Textual (part : Part) : Prop :=
  part.Every fun s => ∀ name, s.name? = some name → Path.ofText name.path.text = name.path

variable {e : Expr} {frame : Frame}

/-- A name in a tree is read back as its path. -/
theorem path_expr (textual : (expr e).Textual) {name : Name}
    (named : Stmt.name? (.expr e) = some name) : (expr e).tree.path = name.path := by
  have spelled := textual.hereExpr name named
  rw [tree_expr, Tree.path]
  cases e with
  | identifier | call =>
    cases named
    simp [exprChildren, ofName, Tree.nameText?, spelled]
  | _ => cases named

theorem path_ofName {name : Name} (spelled : Path.ofText name.path.text = name.path) :
    (ofName name).tree.path = name.path := by
  rw [ofName, tree_token, Tree.path, spelled]

private theorem names_tree (textual : (expr e).Textual) : (expr e).tree.names? = e.names? := by
  induction e using Expr.names?.induct with
  | case1 value loc =>
    simp [tree_expr, exprLabel, exprChildren, Tree.names?, Tree.allNames?, Expr.names?]
  | case2 name =>
    have path := path_expr textual rfl
    rw [tree_expr, exprLabel] at path
    simp [tree_expr, exprLabel, Tree.names?, path, Expr.names?]
  | case3 inner loc ih =>
    have names := ih (Every.child textual (by simp [children, exprChildren]))
    rw [tree_expr]
    simp [exprLabel, exprChildren, Tree.names?, Tree.allNames?, names, Expr.names?]
  | case4 op mark operand ih =>
    have names := ih (Every.child textual (by simp [children, exprChildren]))
    rw [tree_expr]
    simp [exprLabel, exprChildren, Tree.names?, Tree.allNames?, names, Expr.names?]
  | case5 left op mark right ih ih' =>
    have names := ih (Every.child textual (by simp [children, exprChildren]))
    have names' := ih' (Every.child textual (by simp [children, exprChildren]))
    rw [tree_expr]
    simp [exprLabel, exprChildren, Tree.names?, Tree.allNames?, names, names', Expr.names?]
  | case6 | case7 => simp [tree_expr, exprLabel, Tree.names?, Expr.names?]

theorem groups_tree (e : Expr) : (expr e).tree.groups = e.groups := by
  induction e using Expr.groups.induct with
  | case1 inner loc ih =>
    rw [tree_expr]
    simp [exprLabel, exprChildren, Tree.groups, ih, Expr.groups]
  | case2 e notGroup =>
    cases e with
    | group inner loc => exact absurd rfl (notGroup inner loc)
    | _ =>
      rw [tree_expr]
      simp [exprLabel, Tree.groups, Expr.groups]

/-- A node takes as much room as a tree. -/
theorem units_tree (s : Stmt) : (ofStmt s).tree.units = s.units := by
  rw [tree_ofStmt, Tree.units, Tree.label?]
  cases s with
  | expr e => cases e <;> rfl
  | _ => rfl

end Names

end Part

namespace Bound
variable {bound : Bound}

/-- The tree of what is bound. -/
def tree (bound : Bound) : Tree := bound.part.tree

@[simp] theorem tree_ofValue (value : Value) (loc : Loc) :
    (ofValue value loc).tree = .ofValue value loc := by
  rw [tree, ofValue, part, Part.tree_expr]
  simp [Part.exprLabel, Part.exprChildren, Tree.ofValue, Expr.loc]

theorem label_tree (bound : Bound) : bound.tree.label? = some bound.part.label := by
  rw [tree, Part.tree_node (by cases bound <;> simp [part])]
  rfl

theorem loc_tree (bound : Bound) : bound.tree.loc = some bound.loc := by
  rw [tree, Part.tree_node (by cases bound <;> simp [part])]
  cases bound <;> rfl

theorem isProc_tree (bound : Bound) : bound.tree.isProc = bound.proc?.isSome := by
  rw [Tree.isProc, label_tree]
  cases bound with
  | declared name p => rfl
  | expr e => cases e <;> rfl

theorem isResolved_tree (bound : Bound) : bound.tree.isResolved = bound.unresolved?.isNone := by
  rw [Tree.isResolved, isProc_tree, label_tree]
  cases bound with
  | declared name p => rfl
  | expr e => cases e <;> rfl

/-- What is neither a literal nor a proc is an expression to resolve. -/
theorem names_tree (textual : bound.part.Textual) :
    Readable.names? bound.tree = Readable.names? bound := by
  simp only [Readable.names?, names?, isResolved_tree]
  cases unresolved : bound.unresolved? with
  | none => rfl
  | some e =>
    obtain rfl := eq_of_unresolved unresolved
    exact Part.names_tree textual

/-- The children of a bound proc are its name, its parameters and its body. -/
theorem children_proc {proc : Proc} (found : bound.proc? = some proc) :
    ∃ name, bound.tree.children =
      [name, (Part.paramList proc.params proc.paramsLoc).tree,
        (Part.block proc.body proc.bodyLoc).tree] := by
  rw [tree, Part.children_tree]
  cases bound with
  | declared name p =>
    cases found
    exact ⟨_, rfl⟩
  | expr e =>
    cases e with
    | proc p =>
      cases found
      exact ⟨_, rfl⟩
    | _ => cases found

end Bound

namespace Frame

/-- The frame with the trees of what is bound. -/
abbrev trees (frame : Frame) : Frame Tree := frame.viewed Bound.tree

/-- The names in everything that is bound are spelled by texts. -/
def Textual (frame : Frame) : Prop :=
  frame.Binds fun _ bound => bound.part.Textual

variable {frame : Frame} {e : Expr}

private theorem procNamed_name {name : Name} (textual : (Part.expr (.identifier name)).Textual) :
    Dispatch.procNamed frame.trees (Part.expr (.identifier name)).tree =
      .ok (((frame.lookup name.path).map Bound.tree).filter Tree.isProc) := by
  have path := Part.path_expr textual rfl
  rw [Part.tree_expr, Part.exprLabel] at path ⊢
  simp [Dispatch.procNamed, Tree.isProc, Tree.label?, path, lookup_viewed]

/-- In a tree the same procs are named. -/
theorem procNamed_trees (textual : (Part.expr e).Textual) :
    Dispatch.procNamed frame.trees (Part.expr e).tree =
      .ok ((frame.procNamed? e).map Bound.tree) := by
  fun_induction frame.procNamed? e with
  | case1 p =>
    simp [Part.tree_expr, Part.exprLabel, Dispatch.procNamed, Tree.isProc, Tree.label?, Bound.tree,
      Bound.part]
  | case2 inner loc ih =>
    rw [Part.tree_expr, Part.exprLabel, Part.exprChildren, List.map_cons, Dispatch.procNamed]
    exact ih (Part.Every.child textual (by simp [Part.children, Part.exprChildren]))
  | case3 name bound found isProc =>
    simp [procNamed_name textual, found, Bound.isProc_tree, isProc]
  | case4 name bound found other =>
    simp [procNamed_name textual, found, Bound.isProc_tree, other]
  | case5 name unbound => simp [procNamed_name textual, unbound]
  | case6 e notProc notGroup notName =>
    rw [Part.tree_expr]
    cases e with
    | proc p => exact absurd rfl (notProc p)
    | group inner loc => exact absurd rfl (notGroup inner loc)
    | identifier name => exact absurd rfl (notName name)
    | _ => simp [Part.exprLabel, Dispatch.procNamed, Tree.isProc, Tree.label?]

/-- Resolving an expression would read the same paths in either frame. -/
theorem reads_trees (textual : (Part.expr e).Textual) (binds : frame.Textual) :
    frame.trees.treeReads? (Part.expr e).tree = frame.reads? e := by
  have length : frame.trees.bindings.length = frame.bindings.length := List.length_map _
  have same : ∀ path bound, frame.lookup path = some bound →
      Readable.names? bound.tree = Readable.names? bound :=
    fun path bound found => Bound.names_tree (binds path bound found)
  simp only [treeReads?, reads?, Part.names_tree textual, length, follow_viewed same]

end Frame

end BasilLang
