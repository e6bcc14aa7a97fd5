import BasilLang.Proofs.Narrowing
import BasilLang.Proofs.Obedience

/-! Programs without `while`. There is none in the parts of such a program, and
none in the libraries, which can all be read. So there is a regime for what a
program without `while` comes upon, and under it evaluation does not complain
about a lack of room, unless it is asked to. -/
namespace BasilLang

mutual

/-- Whether there is no `while` in a proc. -/
def Proc.isWhileFree : Proc → Bool
  | .mk _ _ _ body _ => areWhileFree body

/-- Whether there is no `while` in an expression, which can hold one in a
proc. -/
def Expr.isWhileFree : Expr → Bool
  | .literal _ _ => true
  | .identifier _ => true
  | .group inner _ => inner.isWhileFree
  | .unary _ _ operand => operand.isWhileFree
  | .binary left _ _ right => left.isWhileFree && right.isWhileFree
  | .call _ args _ => areExprsWhileFree args
  | .proc p => p.isWhileFree

/-- Whether there is no `while` in any of the expressions. -/
def areExprsWhileFree : List Expr → Bool
  | [] => true
  | e :: es => e.isWhileFree && areExprsWhileFree es

/-- Whether there is no `while` in a statement, and it is none itself. -/
def Stmt.isWhileFree : Stmt → Bool
  | .expr e => e.isWhileFree
  | .importLibrary _ _ => true
  | .importRelative _ _ => true
  | .inNamespace _ body _ _ => areWhileFree body
  | .letDecl _ value _ => value.isWhileFree
  | .constDecl _ value _ => value.isWhileFree
  | .set _ value => value.isWhileFree
  | .ifThen condition body _ _ => condition.isWhileFree && areWhileFree body
  | .forRange _ start stop body _ _ =>
    start.isWhileFree && stop.isWhileFree && areWhileFree body
  | .whileTrue _ _ _ _ => false
  | .returning value _ => value.isWhileFree
  | .procDecl _ p => p.isWhileFree

/-- Whether there is no `while` in any of the statements. -/
def areWhileFree : List Stmt → Bool
  | [] => true
  | s :: ss => s.isWhileFree && areWhileFree ss

end

/-- Whether there is no `while` in a program. -/
def Program.isWhileFree (program : Program) : Bool :=
  areWhileFree program.body

/-- There is no `while` in a body if there is none in its statements. -/
theorem areWhileFree_iff {ss : List Stmt} :
    areWhileFree ss = true ↔ ∀ s ∈ ss, s.isWhileFree = true := by
  induction ss with
  | nil => simp [areWhileFree]
  | cons s ss ih => simp [areWhileFree, ih]

private theorem areExprsWhileFree_iff {es : List Expr} :
    areExprsWhileFree es = true ↔ ∀ e ∈ es, e.isWhileFree = true := by
  induction es with
  | nil => simp [areExprsWhileFree]
  | cons e es ih => simp [areExprsWhileFree, ih]

private theorem Proc.isWhileFree_eq (proc : Proc) : proc.isWhileFree = areWhileFree proc.body := by
  cases proc
  rw [isWhileFree, body]

namespace Part

/-- Whether there is no `while` in a part. -/
def isWhileFree : Part → Bool
  | .program p => p.isWhileFree
  | .stmt s => s.isWhileFree
  | .expr e => e.isWhileFree
  | .argList es _ => areExprsWhileFree es
  | .block ss _ => areWhileFree ss
  | .paramList .. | .token .. => true

theorem isWhileFree_ofStmt (s : Stmt) : (ofStmt s).isWhileFree = s.isWhileFree := by
  cases s <;> rfl

private theorem expr_children {e : Expr} (free : e.isWhileFree = true) :
    ∀ child ∈ exprChildren e, child.isWhileFree = true := by
  cases e with
  | literal | identifier => simp [exprChildren, isWhileFree, ofName]
  | group | unary | call =>
    simp only [Expr.isWhileFree] at free
    simpa [exprChildren, isWhileFree, ofName] using free
  | binary => simpa [exprChildren, isWhileFree] using Bool.and_eq_true_iff.mp free
  | proc p =>
    rw [Expr.isWhileFree, Proc.isWhileFree_eq] at free
    simpa [exprChildren, procChildren, isWhileFree] using free

private theorem stmt_children {s : Stmt} (free : s.isWhileFree = true) :
    ∀ child ∈ stmtChildren s, child.isWhileFree = true := by
  cases s with
  | expr e => exact expr_children free
  | whileTrue => cases free
  | importLibrary | importRelative => simp [stmtChildren, isWhileFree]
  | inNamespace | letDecl | constDecl | set | returning =>
    simp only [Stmt.isWhileFree] at free
    simpa [stmtChildren, isWhileFree, ofName] using free
  | ifThen => simpa [stmtChildren, isWhileFree] using Bool.and_eq_true_iff.mp free
  | forRange =>
    obtain ⟨bounds, body⟩ := Bool.and_eq_true_iff.mp free
    obtain ⟨first, last⟩ := Bool.and_eq_true_iff.mp bounds
    simpa [stmtChildren, isWhileFree, ofName] using And.intro first ⟨last, body⟩
  | procDecl name p =>
    rw [Stmt.isWhileFree, Proc.isWhileFree_eq] at free
    simpa [stmtChildren, procChildren, isWhileFree, ofName] using free

/-- There is no `while` in what stands inside. -/
theorem children_whileFree {part : Part} (free : part.isWhileFree = true) :
    ∀ child ∈ part.children, child.isWhileFree = true := by
  cases part with
  | stmt s => exact stmt_children free
  | expr e => exact expr_children free
  | program p =>
    simpa [children, isWhileFree_ofStmt] using areWhileFree_iff.mp free
  | block ss => simpa [children, isWhileFree_ofStmt] using areWhileFree_iff.mp free
  | argList es => simpa [children, isWhileFree] using areExprsWhileFree_iff.mp free
  | paramList | token => simp [children, isWhileFree]

end Part

namespace Library

/-- Whether a source is read as a program without `while`. -/
private def readsWhileFree (file : String) (source : List Char) : Bool :=
  match Lexer.place file .first (Lexer.pieces source) >>= Program.ofTokens with
  | .ok program => program.isWhileFree
  | .error _ => false

/-- What both libraries pass as a test is passed by every source that can be
imported. -/
theorem holds_of_known {test : String → List Char → Bool}
    (inStd : test (file "std") std.toList = true)
    (inMath : test (file "math") math.toList = true) {name source : String}
    (known : source? name = some source) : test (file name) source.toList = true := by
  unfold source? at known
  split at known
  · next isStd =>
    cases known
    rw [isStd]
    exact inStd
  · split at known
    · next isMath =>
      cases known
      rw [isMath]
      exact inMath
    · cases known

private theorem std_reads : readsWhileFree (file "std") std.toList = true := by
  unfold std
  apply Lexing.holds_of_literal rfl
  decide +kernel

private theorem math_reads : readsWhileFree (file "math") math.toList = true := by
  unfold math
  apply Lexing.holds_of_literal rfl
  decide +kernel

/-- Every library can be read, and there is no `while` in it. -/
theorem known_read {name source : String} (known : source? name = some source) :
    ∃ program, Program.parse source (file name) = .ok program ∧
      program.isWhileFree = true := by
  have reads : readsWhileFree (file name) source.toList = true :=
    holds_of_known std_reads math_reads known
  unfold readsWhileFree at reads
  split at reads
  · next program parsed => exact ⟨program, parsed, reads⟩
  · cases reads

/-- There is always room for a library, or else too little. -/
theorem read_in_limited_room {name source : String} (known : source? name = some source) :
    ∃ program, Program.parse source (file name) = .ok program ∧
      program.isWhileFree = true ∧ ∀ room,
      Program.parseWithin room source (file name) = .ok program ∨
      ∃ loc, Program.parseWithin room source (file name) = .error ⟨.parse .tooDeep, loc⟩ := by
  obtain ⟨program, parsed, free⟩ := known_read known
  refine ⟨program, parsed, free, fun room => ?_⟩
  rw [← parsed]
  exact Narrowing.parse_in_limited_room room source (file name)

/-- If a library cannot be read, then for lack of room. -/
theorem lacks_room_of_unread {name source : String} {room : Nat} {failure : Failure}
    (known : source? name = some source)
    (unread : Program.parseWithin room source (file name) = .error failure) :
    failure.fault = .parse .tooDeep := by
  obtain ⟨program, -, -, reads⟩ := read_in_limited_room known
  rcases reads room with read | ⟨loc, lacks⟩
  · cases read.symm.trans unread
  · cases lacks.symm.trans unread
    rfl

end Library

/-- The regime of programs without `while`. -/
def whileFree : Regime where
  node part := part.isWhileFree = true
  loops _ := True
  calls _ _ := True
  stops reason := ∀ failure, reason = .failed failure → failure.fault ≠ .eval .nestingTooDeep
  parting := False
  inside free member := Part.children_whileFree free _ member
  resolved _ _ := rfl
  libraries _ known parsed := by
    obtain ⟨program, -, free, reads⟩ := Library.read_in_limited_room known
    rcases reads _ with read | ⟨loc, lacks⟩
    · rw [read] at parsed
      cases parsed
      exact free
    · rw [lacks] at parsed
      cases parsed
  calls_sameKeys _ called := called
  returns _ := nofun
  outOfRoom := nofun
  outOfPatience := nofun
  fails fault ordinary := by
    rintro _ ⟨⟩ ⟨⟩
    cases ordinary
  locates {failure _} expected _ := by
    rintro _ ⟨⟩
    exact expected failure rfl
  unreadable known rejected := by
    rintro failure ⟨⟩ same
    cases (Library.lacks_room_of_unread known rejected).symm.trans same
  undefined _ _ _ := nofun

/-- Programs without `while` may call and count as they like. -/
theorem whileFree_allows (s : Stmt) (frame : Frame) : whileFree.Allows frame s :=
  ⟨fun _ _ => trivial, fun _ _ => trivial, fun _ _ => trivial⟩

end BasilLang
