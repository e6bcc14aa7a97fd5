import BasilLang.Proofs.Binding
import BasilLang.Proofs.Obedience
import BasilLang.Proofs.Resolution

/-! What failed submissions leave behind in a session. A session keeps its frame
from one submission to the next, whether it gave a reply or failed. A failure on
its way out of a call skips the settling of the parameters, but what the caller
has a path for is copied back all the same. So a call that fails can leave a
path of the session bound to an argument as it was written, which is read by
reading other names. There is no other way: a path is bound to a literal or a
proc after any submissions of which each gave a reply or came to no call, from a
frame with that path, of a proc that has it for a parameter. -/
namespace BasilLang

namespace Session

/-- A text is read, given a meaning and replied to. -/
theorem submit_eq (text : String) (maxDepth : Int) :
    submit text maxDepth = Eval.parsing text file >>= fun program =>
      Eval.meaningFor (headroom maxDepth) >>= reply program := rfl

/-- The state after submitting the texts in order. -/
def submitAll (maxDepth : Int) : List String → Machine → Machine
  | [], m => m
  | text :: rest, m => submitAll maxDepth rest (submit text maxDepth m).2

end Session

namespace Residue

open Resolution (Resolved Completed resolved_iff)

/-- Whether a node calls, from a frame that has the path, a proc that has it for
a parameter. -/
def lends (k : Path) (s : Stmt) (frame : Frame) : Bool :=
  frame.has k &&
    (s.callee? frame).any fun proc => (Evaluation.paramPaths proc).contains k

/-- The regime of evaluation that nowhere lends the path. -/
def sparing (k : Path) : Regime :=
  .unguarded (fun _ => True) (fun frame proc => frame.has k = true → k ∉ Evaluation.paramPaths proc)
    fun same apart has => apart (same.has k ▸ has)

private theorem sparing_allows {k : Path} (s : Stmt) (frame : Frame)
    (apart : lends k s frame = false) :
    (sparing k).Allows frame s := by
  constructor
  · intro proc called has param
    simp [lends, called, has, param] at apart
  · exact fun _ _ => trivial
  · exact fun _ _ => trivial

/-- If the path is bound, it is bound to a literal or a proc. -/
def Settled (k : Path) (frame : Frame) : Prop :=
  frame.Binds fun path bound => path = k → bound.unresolved? = none

section Evolution
variable {k : Path} {before after : Frame}

/-- However evaluation ends, a path that is not lent to a call stays settled. -/
theorem Settled.evolves (settled : Settled k before) (evolves : before.Evolves (sparing k) after) :
    Settled k after := by
  induction evolves with
  | refl => exact settled
  | trans _ _ first second => exact second (first settled)
  | declare resolved _ declared =>
    obtain ⟨-, rfl⟩ := Frame.eq_of_declare declared
    split
    · exact Frame.Binds.put settled fun _ => resolved
    · exact Frame.Binds.put settled fun _ => resolved
  | assign resolved _ assigned =>
    obtain ⟨-, rfl⟩ := Frame.eq_of_assign assigned
    exact Frame.Binds.put settled fun _ => resolved
  | copy _ inner => exact Frame.Binds.mergeExisting settled (inner settled)
  | round _ _ _ inner =>
    exact Frame.Binds.mergeExisting settled (inner (Frame.Binds.put settled fun _ => rfl))
  | @call frame copy inner proc path args called deeper _ _ ih =>
    by_cases has : frame.has k = true
    · have apart : k ∉ Evaluation.paramPaths proc := called has
      refine Frame.Binds.mergeExisting settled (ih fun other bound found same => ?_)
      subst same
      rw [Evaluation.calleeFrame, Frame.lookup_bindAll_of_not_mem _ apart, Frame.lookup_within,
        Frame.lookup_deeper deeper] at found
      exact settled other bound found rfl
    · -- What the caller does not have is not copied back.
      rintro other bound found rfl
      have held : (frame.mergeExisting inner).has other = true := Frame.has_iff.mpr ⟨bound, found⟩
      rw [(Frame.sameKeys_mergeExisting frame inner).has] at held
      exact absurd held has
  | settle => exact Frame.Binds.put settled fun _ => rfl
  | inNamespace _ inner => exact Frame.Binds.mergeUnder settled (inner settled) _
  | addLibrary _ _ resolved =>
    exact Frame.Binds.addLibrary settled fun path bound found _ => resolved path bound found

/-- While evaluation goes well, every path stays settled. -/
theorem Settled.settles (settled : Settled k before) (settles : before.Settles after) :
    Settled k after := by
  intro path bound found same
  rcases settles.settled path bound found with resolved | found
  · exact resolved
  · exact settled path bound found same

end Evolution

section Submissions
variable {k : Path} {text : String} {maxDepth : Int} {m : Machine}

/-- A submission that can be read and run comes to no call that the path is lent
to. -/
def spares (k : Path) (maxDepth : Int) (text : String) (m : Machine) : Bool :=
  match Program.parseWithin Room.source text Session.file,
    Room.forCalls? (Session.headroom maxDepth) with
  | .ok program, some room => decide (Avoids (lends k) patience room (Session.reply program) m)
  | _, _ => true

/-- Each of the texts, submitted in order, gives a reply or lends the path to no
call. -/
def Harmless (k : Path) (maxDepth : Int) : List String → Machine → Prop
  | [], _ => True
  | text :: rest, m =>
    ((∃ reply, (Session.submit text maxDepth m).1 = .ok reply) ∨
        spares k maxDepth text m = true) ∧
      Harmless k maxDepth rest (Session.submit text maxDepth m).2

/-- A submission that gives a reply, or that the path is not lent in, leaves the
path settled. -/
theorem submit_settled (settled : Settled k m.frame)
    (harmless : (∃ reply, (Session.submit text maxDepth m).1 = .ok reply) ∨
      spares k maxDepth text m = true) : Settled k (Session.submit text maxDepth m).2.frame := by
  rw [Session.submit_eq] at harmless ⊢
  unfold spares Eval.meaningFor Eval.parsing at *
  generalize Program.parseWithin Room.source text Session.file = read at harmless ⊢
  generalize Room.forCalls? (Session.headroom maxDepth) = allowed at harmless ⊢
  cases read with
  | error failure => exact settled
  | ok program =>
    cases allowed with
    | none => exact settled
    | some room =>
      rcases harmless with ⟨reply, done⟩ | spares
      · have keeps : Regime.free.beside.Keeps Regime.free.stops .body m.frame
            (fun _ => Session.reply program (interpreter patience room)) Course.Same :=
          Regime.keeps_reply (freely_interpreter patience room) trivial trivial trivial
        exact settled.settles (Resolution.settles_of_completed keeps rfl (.inl ⟨reply, done⟩))
      · have avoids : Avoids (lends k) patience room (Session.reply program) m :=
          of_decide_eq_true spares
        have evolves := avoids.evolves trivial sparing_allows (fun _ _ _ => trivial)
          fun _ obedient _ under => Regime.keeps_reply obedient under trivial trivial
        exact settled.evolves evolves

private theorem submitAll_settled {texts : List String} (settled : Settled k m.frame)
    (harmless : Harmless k maxDepth texts m) :
    Settled k (Session.submitAll maxDepth texts m).frame := by
  induction texts generalizing m with
  | nil => exact settled
  | cons text rest ih =>
    obtain ⟨here, later⟩ := harmless
    exact ih (submit_settled settled here) later

end Submissions

/-- What a session leaves behind. Submit texts in order to a new session, some of
which may fail. If each of them gives a reply, or comes to no call of a proc with
a parameter that the calling frame has a path for, then that path, if it is bound
at all, is bound to a literal or a proc; and a name bound to a literal is read as
its value in every frame that binds it so, whatever other names are bound to. -/
theorem session_paths_stay_resolved (maxDepth : Int) (texts : List String) (k : Path)
    (harmless : Harmless k maxDepth texts ⟨Session.frame maxDepth, {}⟩) (bound : Bound)
    (held : (Session.submitAll maxDepth texts ⟨Session.frame maxDepth, {}⟩).frame.lookup k =
      some bound) :
    Resolved bound ∧ ∀ value loc, bound = .ofValue value loc → ∀ (frame : Frame) (place : Loc),
      frame.lookup k = some bound → frame.ComesTo (.identifier ⟨k, place⟩) (.ok value) := by
  have fresh : Settled k (Session.frame maxDepth) := nofun
  have settled := submitAll_settled fresh harmless
  constructor
  · exact resolved_iff.mpr (settled k bound held rfl)
  · rintro value loc rfl frame place found
    exact Binding.comesTo_of_bound found nofun (Binding.comesTo_literal frame value loc)

/-- A call that fails, with a bound name for its argument. -/
def failingCall : List String :=
  ["let x = 0", "proc g(y) then nope() end", "g(x)"]

private theorem failingCall_harmless :
    Harmless ["x"] 200 failingCall ⟨Session.frame 200, {}⟩ := by
  have given : ∀ {α : Type} {outcome : Except Stop α}, Eval.ending outcome = none →
      ∃ reply, outcome = .ok reply := by
    rintro α (reason | reply) ended
    · cases ended
    · exact ⟨reply, rfl⟩
  refine ⟨.inl (given ?_), .inl (given ?_), .inr ?_, trivial⟩
  · decide +kernel
  · decide +kernel
  · decide +kernel

theorem failed_call_leaves_name_resolved :
    Harmless ["x"] 200 failingCall ⟨Session.frame 200, {}⟩ ∧
      ∃ bound, (Session.submitAll 200 failingCall ⟨Session.frame 200, {}⟩).frame.lookup ["x"] =
        some bound ∧ Resolved bound := by
  have known : ((Session.submitAll 200 failingCall ⟨Session.frame 200, {}⟩).frame.lookup
    ["x"]).isSome = true := by decide +kernel
  obtain ⟨bound, held⟩ := Option.isSome_iff_exists.mp known
  exact ⟨failingCall_harmless, bound, held,
    (session_paths_stay_resolved 200 failingCall ["x"] failingCall_harmless bound held).1⟩

/-- A call that fails, of a proc with a bound name for its parameter. It is given
a name that only the proc around it knows. -/
def failingLoan : List String :=
  ["let x = 0", "proc g(x) then nope() end", "proc f() then let y = 1; g(y) end", "f()"]

/-- The path is left bound to the argument, and can be read no more. -/
theorem failed_call_leaves_argument_behind :
    let after := Session.submitAll 200 failingLoan ⟨Session.frame 200, {}⟩
    (∃ bound, after.frame.lookup ["x"] = some bound ∧ ¬ Resolved bound) ∧
      (Session.submit "x" 200 after).1 =
        .error (.failed ⟨.eval (.undefined ["y"]), some ⟨Session.file, ⟨1, 28⟩⟩⟩) := by
  have left : (((Session.submitAll 200 failingLoan ⟨Session.frame 200, {}⟩).frame.lookup
    ["x"]).bind Bound.unresolved?).isSome = true := by decide +kernel
  obtain ⟨e, found⟩ := Option.isSome_iff_exists.mp left
  obtain ⟨bound, held, unresolved⟩ := Option.bind_eq_some_iff.mp found
  refine ⟨⟨bound, held, fun resolved => ?_⟩, by decide +kernel⟩
  rw [resolved_iff.mp resolved] at unresolved
  cases unresolved

end Residue

end BasilLang
