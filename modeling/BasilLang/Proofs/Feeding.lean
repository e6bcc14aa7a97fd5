import BasilLang.Proofs.Concurrence
import BasilLang.Proofs.Joining
import BasilLang.Proofs.Mirroring
import BasilLang.Proofs.Residue
import BasilLang.Proofs.Returning
import BasilLang.Proofs.Standing

/-! Programs that are submitted piece by piece. The pieces, joined by
semicolons, are one program, and running it whole comes to the same as
submitting them in order until one of them fails or returns. Only the places
differ, and the room: a lone expression that is submitted is evaluated by
itself, while in the whole it is evaluated as a part of a body, which takes some
room of its own. So the room that is enough for the run is enough for feeding,
and what is enough for feeding is enough for the run with the room of a body
more. -/
namespace BasilLang

/-- Whether evaluation ended for want of room. -/
def lacksRoom {α : Type} : Except Stop α → Bool
  | .error (.failed failure) => failure.fault = .eval .nestingTooDeep
  | _ => false

/-- Whether a program came to a return outside of all procs. -/
def hasReturned : Except Stop (Option Value) → Bool
  | .ok (some _) => true
  | _ => false

namespace Session

/-- Whether there is room to read the text. -/
def canRead (text : String) : Bool :=
  (Program.parseWithin Room.source text file).toBool

/-- Submits items in order, up to and including the first one that fails or,
as its run tells, comes to a return. -/
def feedBy {ι : Type} (submit : ι → Eval Reply) (run : ι → Eval (Option Value)) :
    List ι → Eval Unit
  | [] => pure ()
  | item :: items => fun m =>
    match submit item m with
    | (.error stop, after) => (.error stop, after)
    | (.ok _, after) =>
      if hasReturned (run item m).1 then (.ok (), after) else feedBy submit run items after

/-- Submits texts to a session with the given limit. -/
def feed (maxDepth : Int) : List String → Eval Unit :=
  feedBy (submit · maxDepth) fun text => do
    let program ← Eval.parsing text file
    program.eval (← Eval.meaningFor (headroom maxDepth)) false

/-- Submits programs, with the given meanings. -/
def feedPrograms (inside : Meaning) : List Program → Eval Unit :=
  feedBy (reply · inside) (Program.eval inside · false)

end Session

namespace Feeding
open Joining Narrowing

/-- A run and a row of submissions with the same effects: they write the same,
and they leave the same constants and bindings that differ in their places
only. -/
structure SameEffects {α : Type} (run : Except Stop α × Machine)
    (fed : Except Stop Unit × Machine) : Prop where
  out : run.2.console.out = fed.2.console.out
  bindings : run.2.frame.bindings.unplaced = fed.2.frame.bindings.unplaced
  constants : run.2.frame.constants = fed.2.frame.constants

/-- Both come to an end, or both fail with the same fault. -/
def SameEnd {α : Type} (run : Except Stop α × Machine) (fed : Except Stop Unit × Machine) : Prop :=
  Eval.Agree Eq (run.1.map fun _ => ()) fed.1

/-- Running the whole comes to the same as feeding the programs. In whatever room
the run does not lack room, feeding has the same effects and ends alike. And in
whatever room feeding does not lack room, the run comes to the same with the room
of a body more, and however much more there is. -/
structure RunsAsFed (whole : Program) (programs : List Program) (patience : Nat) (m : Machine) :
    Prop where
  fed_as_run : ∀ room,
    let run := whole.eval (interpreter patience room) false m
    let fed := Session.feedPrograms (interpreter patience room) programs m
    lacksRoom run.1 = false → SameEffects run fed ∧ SameEnd run fed
  run_as_fed : ∀ room more, room + Room.body ≤ more →
    let run := whole.eval (interpreter patience more) false m
    let fed := Session.feedPrograms (interpreter patience room) programs m
    lacksRoom fed.1 = false → SameEffects run fed ∧ SameEnd run fed

section Statements
variable {patience room more : Nat} {m : Machine} {program : Program} {inside other : Meaning}

private theorem body_append (inside : Meaning) (ss ss' : List Stmt) :
    inside.body (ss ++ ss') = inside.body ss >>= fun _ => inside.body ss' := by
  unfold Meaning.body
  induction ss with
  | nil => rfl
  | cons s ss ih =>
    funext m
    rw [List.cons_append, Eval.forEach_cons, Eval.forEach_cons, ih, Eval.bind_apply,
      Eval.bind_apply, Eval.bind, Eval.bind, Eval.bind_apply, Eval.bind]
    cases (inside.after Room.body).stmt s m with
    | mk outcome after => cases outcome <;> rfl

/-- How a program ends whose statements end in the given way. -/
def ended (loc : Loc) : Except Stop Unit → Except Stop (Option Value)
  | .ok () => .ok none
  | .error (.returned value) => .ok (some value)
  | .error .outOfRoom => .error (.failed ⟨.eval .nestingTooDeep, some loc⟩)
  | .error stop => .error stop

/-- Without a main proc, a program is its body. -/
theorem eval_eq (inside : Meaning) (program : Program) (m : Machine) :
    program.eval inside false m =
      (ended program.loc (inside.body program.body m).1, (inside.body program.body m).2) := by
  simp only [Program.eval, Eval.reportingRoom, Eval.bind_apply, Eval.bind, Eval.catchReturn]
  rcases inside.body program.body m with ⟨reason | a, after⟩
  · cases reason <;> rfl
  · rfl

private theorem eval_append_on {file : String} {ss : List Stmt} {after : Machine}
    (ran : Program.eval inside ⟨file, ss⟩ false m = (.ok none, after)) (ss' : List Stmt) :
    Program.eval inside ⟨file, ss ++ ss'⟩ false m = Program.eval inside ⟨file, ss'⟩ false after := by
  simp only [eval_eq, body_append, Eval.bind_apply, Eval.bind] at ran ⊢
  generalize inside.body ss m = result at ran ⊢
  rcases result with ⟨reason | a, last⟩
  · cases reason <;> cases ran
  · cases ran
    rfl

private theorem eval_append_ended {file : String} {ss : List Stmt} {after : Machine}
    {outcome : Except Stop (Option Value)}
    (ran : Program.eval inside ⟨file, ss⟩ false m = (outcome, after)) (ended : outcome ≠ .ok none)
    (ss' : List Stmt) : Program.eval inside ⟨file, ss ++ ss'⟩ false m = (outcome, after) := by
  simp only [eval_eq, body_append, Eval.bind_apply, Eval.bind] at ran ⊢
  generalize inside.body ss m = result at ran ⊢
  rcases result with ⟨reason | a, last⟩
  · exact ran
  · cases ran
    exact absurd rfl ended

/-- What a program comes to in less room, unless that is not enough. -/
theorem eval_in_less_room (less : room ≤ more) (program : Program) (m : Machine) :
    lacksRoom (program.eval (interpreter patience room) false m).1 = true ∨
      program.eval (interpreter patience room) false m =
        program.eval (interpreter patience more) false m := by
  rcases same_in_less_room (body_in_less_room patience less program.body m.frame) with
    lacks | same
  · have lacks : ((interpreter patience room).body program.body m).1 = .error .outOfRoom := lacks
    left
    rw [eval_eq, lacks]
    rfl
  · have same : (interpreter patience room).body program.body m =
        (interpreter patience more).body program.body m := same
    right
    rw [eval_eq, eval_eq, same]

/-- What an action comes to, apart from its result. -/
private def effects {α : Type} (act : Eval α) (m : Machine) : Except Stop Unit × Machine :=
  ((act m).1.map fun _ => (), (act m).2)

private theorem effects_map {α β : Type} (act : Eval α) (f : α → β) (m : Machine) :
    effects (act >>= fun a => pure (f a)) m = effects act m := by
  unfold effects
  rw [Eval.bind_apply, Eval.bind]
  cases act m with
  | mk outcome after => cases outcome <;> rfl

private theorem lacksRoom_map {α : Type} (outcome : Except Stop α) :
    lacksRoom (outcome.map fun _ => ()) = lacksRoom outcome := by
  cases outcome with
  | ok => rfl
  | error stop => cases stop <;> rfl

/-- A submission does what running the program does, where the meanings may be
others. -/
structure AnswersAs (inside other : Meaning) (program : Program) (m : Machine) : Prop where
  effects : effects (Session.reply program inside) m = effects (program.eval other false) m
  returned : hasReturned (program.eval inside false m).1 = hasReturned (program.eval other false m).1

private theorem reply_cases (program : Program) (inside : Meaning) :
    (∃ s, program.body = [s] ∧ s.isEchoed = true ∧ Session.reply program inside =
      Eval.reportingRoom program.loc (inside.stmt s) >>= fun value => pure ⟨value, true⟩) ∨
    Session.reply program inside =
      program.eval inside false >>= fun result => pure ⟨result.getD .null, false⟩ := by
  unfold Session.reply
  split
  · next s alone =>
    split
    · next echoed => exact .inl ⟨s, alone, echoed, rfl⟩
    · exact .inr rfl
  · exact .inr rfl

section Echoed
variable {s : Stmt} (alone : program.body = [s])
include alone

private theorem eval_single : program.eval (interpreter patience room) false m =
    (ended program.loc (((interpreter patience (room - Room.body)).stmt s m).1.map fun _ => ()),
      ((interpreter patience (room - Room.body)).stmt s m).2) := by
  have body : (interpreter patience room).body program.body =
      (interpreter patience (room - Room.body)).stmt s >>= fun _ => pure () := by
    rw [alone, Meaning.body, Eval.forEach_cons, interpreter_after]
    rfl
  rw [eval_eq, body, Eval.bind_apply, Eval.bind]
  cases (interpreter patience (room - Room.body)).stmt s m with
  | mk outcome after => cases outcome <;> rfl

variable (echoed : s.isEchoed = true)
include echoed

private theorem echoed_goes_on :
    hasReturned (program.eval (interpreter patience room) false m).1 = false := by
  have never := Returning.never_echoed echoed patience (room - Room.body) 0 m
  rw [eval_single alone]
  cases ran : (interpreter patience (room - Room.body)).stmt s m with
  | mk outcome after =>
    cases outcome with
    | ok value => rfl
    | error reason =>
      cases reason with
      | returned value => exact absurd (congrArg Prod.fst ran) (never value)
      | _ => rfl

private theorem echoed_answers
    (replies : Session.reply program (interpreter patience room) =
      Eval.reportingRoom program.loc ((interpreter patience room).stmt s) >>= fun value =>
        pure ⟨value, true⟩)
    (same : (interpreter patience room).stmt s m =
      (interpreter patience (more - Room.body)).stmt s m) :
    AnswersAs (interpreter patience room) (interpreter patience more) program m := by
  constructor
  · have never := Returning.never_echoed echoed patience (more - Room.body) 0 m
    rw [replies, effects_map, effects, effects, eval_single alone, Eval.reportingRoom, same]
    cases ran : (interpreter patience (more - Room.body)).stmt s m with
    | mk outcome after =>
      cases outcome with
      | ok value => rfl
      | error reason =>
        cases reason with
        | returned value => exact absurd (congrArg Prod.fst ran) (never value)
        | _ => rfl
  · rw [echoed_goes_on alone echoed, echoed_goes_on alone echoed]

end Echoed

private theorem answers_as_run (program : Program) (m : Machine) :
    lacksRoom (effects (program.eval (interpreter patience room) false) m).1 = true ∨
      AnswersAs (interpreter patience room) (interpreter patience room) program m := by
  rcases reply_cases program (interpreter patience room) with ⟨s, alone, echoed, replies⟩ | replies
  · rcases stmt_in_less_room patience (Nat.sub_le room Room.body) s m with lacks | same
    · left
      rw [effects, lacksRoom_map, eval_single alone, lacks]
      rfl
    · exact .inr (echoed_answers alone echoed replies same.symm)
  · exact .inr ⟨by rw [replies, effects_map], rfl⟩

private theorem answers_as_run_in_more (enough : room + Room.body ≤ more) (program : Program)
    (m : Machine) :
    lacksRoom (effects (Session.reply program (interpreter patience room)) m).1 = true ∨
      AnswersAs (interpreter patience room) (interpreter patience more) program m := by
  rcases reply_cases program (interpreter patience room) with ⟨s, alone, echoed, replies⟩ | replies
  · rcases stmt_in_less_room patience (show room ≤ more - Room.body by omega) s m with lacks | same
    · left
      cases ran : (interpreter patience room).stmt s m with
      | mk outcome after =>
        rw [ran] at lacks
        obtain rfl : outcome = .error .outOfRoom := lacks
        rw [replies, effects_map, effects, lacksRoom_map, Eval.reportingRoom, ran]
        rfl
    · exact .inr (echoed_answers alone echoed replies same)
  · rcases eval_in_less_room (show room ≤ more by omega) program m with lacks | same
    · left
      rw [replies, effects_map, effects, lacksRoom_map]
      exact lacks
    · refine .inr ⟨?_, congrArg (hasReturned ·.1) same⟩
      rw [replies, effects_map, effects, effects, same]

end Statements

section Pieces
variable {patience room more : Nat} {program : Program} {programs : List Program} {file : String}
  {inside other : Meaning} {m after : Machine} {cut cut' : Except Stop Unit → Prop}

private theorem feed_failed {stop : Stop}
    (failed : effects (Session.reply program inside) m = (.error stop, after)) :
    Session.feedPrograms inside (program :: programs) m = (.error stop, after) := by
  unfold effects at failed
  simp only [Session.feedPrograms, Session.feedBy]
  rcases submitted : Session.reply program inside m with ⟨other | reply, last⟩
  · rw [submitted] at failed
    cases failed
    rfl
  · rw [submitted] at failed
    cases failed

private theorem feed_done (done : effects (Session.reply program inside) m = (.ok (), after)) :
    Session.feedPrograms inside (program :: programs) m =
      if hasReturned (program.eval inside false m).1 then (.ok (), after)
      else Session.feedPrograms inside programs after := by
  unfold effects at done
  simp only [Session.feedPrograms, Session.feedBy]
  rcases submitted : Session.reply program inside m with ⟨stop | reply, last⟩
  · rw [submitted] at done
    cases done
  · rw [submitted] at done
    cases done
    rfl

private theorem failed_of_cut {α : Type} {act : Eval α} (cut_fails : ¬ cut (.ok ()))
    (isCut : cut (effects act m).1) : ∃ stop after, act m = (.error stop, after) := by
  unfold effects at isCut
  generalize act m = result at isCut ⊢
  rcases result with ⟨stop | a, after⟩
  · exact ⟨stop, after, rfl⟩
  · exact absurd isCut cut_fails

private theorem feed_as_pieces (cut_fails : ¬ cut (.ok ())) (cut'_fails : ¬ cut' (.ok ()))
    (inFile : ∀ program ∈ programs, program.file = file)
    (pieces : ∀ program m, cut (effects (program.eval other false) m).1 ∨
      cut' (effects (Session.reply program inside) m).1 ∨ AnswersAs inside other program m)
    (m : Machine) :
    cut (effects (Program.eval other ⟨file, programs.flatMap Program.body⟩ false) m).1 ∨
      cut' (Session.feedPrograms inside programs m).1 ∨
      Session.feedPrograms inside programs m =
        effects (Program.eval other ⟨file, programs.flatMap Program.body⟩ false) m := by
  induction programs generalizing m with
  | nil => exact .inr (.inr rfl)
  | cons program programs ih =>
    obtain ⟨rfl, othersInFile⟩ := List.forall_mem_cons.mp inFile
    rw [List.flatMap_cons]
    rcases pieces program m with isCut | isCut | ⟨same, returned⟩
    · obtain ⟨stop, after, ran⟩ := failed_of_cut cut_fails isCut
      left
      rw [effects, ran] at isCut
      rw [effects, eval_append_ended ran nofun]
      exact isCut
    · obtain ⟨stop, after, submitted⟩ := failed_of_cut cut'_fails isCut
      right; left
      rw [effects, submitted] at isCut
      rw [feed_failed (show effects _ m = (.error stop, after) by rw [effects, submitted]; rfl)]
      exact isCut
    · rcases ran : program.eval other false m with ⟨stop | result, after⟩
      · right; right
        rw [effects.eq_1 (program.eval other false), ran] at same
        rw [feed_failed same, effects, eval_append_ended ran nofun]
        rfl
      · rw [effects.eq_1 (program.eval other false), ran] at same
        rw [ran] at returned
        rw [feed_done same, returned]
        cases result with
        | none =>
          rw [effects, eval_append_on ran]
          exact ih othersInFile after
        | some value =>
          right; right
          rw [effects, eval_append_ended ran nofun]
          rfl

private theorem agree_map {α : Type} {same : α → α → Prop} {outcome outcome' : Except Stop α}
    (agree : Eval.Agree same outcome outcome') :
    Eval.Agree Eq (outcome.map fun _ => ()) (outcome'.map fun _ => ()) := by
  obtain ⟨a, a', rfl, rfl, -⟩ | ⟨stop, stop', rfl, rfl, alike⟩ := agree.cases
  · exact rfl
  · exact alike

private theorem lacksRoom_of_agree {α : Type} {same : α → α → Prop}
    {outcome outcome' : Except Stop α} (agree : Eval.Agree same outcome outcome') :
    lacksRoom outcome = lacksRoom outcome' := by
  obtain ⟨a, a', rfl, rfl, -⟩ | ⟨stop, stop', rfl, rfl, alike⟩ := agree.cases
  · rfl
  · cases alike with
    | same => rfl
    | failed => rfl

/-- A program with the statements of the pieces runs as they are fed. -/
theorem runs_as_fed {whole : Program} (inFile : ∀ program ∈ programs, program.file = file)
    (bodies : AlikeStmts whole.body (programs.flatMap Program.body)) (patience : Nat)
    (m : Machine) : RunsAsFed whole programs patience m := by
  let inOrder : Program := ⟨file, programs.flatMap Program.body⟩
  have mirrored : ∀ room, _ := fun room => Mirroring.mirrors_program patience room false
    (show AlikeStmts whole.body inOrder.body from bodies) m m ⟨rfl, rfl⟩
  have same_as : ∀ {room fed}, fed = effects (inOrder.eval (interpreter patience room) false) m →
      SameEffects (whole.eval (interpreter patience room) false m) fed ∧
        SameEnd (whole.eval (interpreter patience room) false m) fed := by
    rintro room _ rfl
    obtain ⟨agree, after⟩ := mirrored room
    exact ⟨⟨after.out, after.frame.bindings, after.frame.place.1⟩, agree_map agree⟩
  constructor
  · intro room run fed roomy
    have pieces := @answers_as_run patience room
    rcases @feed_as_pieces _ _ _ _ (lacksRoom · = true) (fun _ => False) (by simp [lacksRoom]) id inFile
      (fun program m => (pieces program m).imp_right .inr) m with lacks | impossible | same
    · rw [effects, lacksRoom_map, ← lacksRoom_of_agree (mirrored room).1] at lacks
      rw [lacks] at roomy
      cases roomy
    · exact impossible.elim
    · exact same_as same
  · intro room more enough run fed roomy
    rcases @feed_as_pieces _ _ _ _ (fun _ => False) (lacksRoom · = true) id (by simp [lacksRoom])
      inFile (fun program m => .inr (answers_as_run_in_more enough program m)) m with
      impossible | lacks | same
    · exact impossible.elim
    · rw [lacks] at roomy
      cases roomy
    · exact same_as same

end Pieces

section Texts
variable {maxDepth : Int} {room : Nat} {texts : List String} {programs : List Program}
  {source file : String} {program : Program} {m : Machine}

private theorem run_effects (read : Program.parseWithin Room.source source file = .ok program)
    (allowed : Room.forCalls? maxDepth = some room) (m : Machine) :
    effects (runSource source file false maxDepth) m =
      effects (program.eval (interpreter patience room) false) m := by
  have value : runSource source file false maxDepth =
      program.eval (interpreter patience room) false >>= fun result =>
        pure (result.getD .null) := by
    rw [runSource, Eval.parsing, read, Eval.meaningFor, allowed]
    rfl
  rw [value, effects_map]

private theorem submit_read {text : String}
    (read : Program.parseWithin Room.source text Session.file = .ok program)
    (allowed : Room.forCalls? (Session.headroom maxDepth) = some room) :
    Session.submit text maxDepth = Session.reply program (interpreter patience room) := by
  rw [Session.submit_eq, Eval.parsing, Eval.meaningFor, read, allowed]
  rfl

private theorem feed_eq
    (accepted : texts.mapM (Program.parseWithin Room.source · Session.file) = .ok programs)
    (allowed : Room.forCalls? (Session.headroom maxDepth) = some room) (m : Machine) :
    Session.feed maxDepth texts m =
      Session.feedPrograms (interpreter patience room) programs m := by
  unfold Session.feed Session.feedPrograms
  induction texts generalizing programs m with
  | nil =>
    cases accepted
    rfl
  | cons text texts ih =>
    obtain ⟨program, others, rfl, read, remaining⟩ := accepted_cons accepted
    simp only [Session.feedBy, submit_read read allowed, ih remaining]
    simp only [Eval.parsing, Eval.meaningFor, read, allowed]
    rfl

private theorem file_of_read (read : Program.parse source file = .ok program ∨
    ∃ room, Program.parseWithin room source file = .ok program) : program.file = file := by
  obtain ⟨-, -, -, -, inFile⟩ := Standing.spelled_of_parse read
  exact inFile

private theorem files_of_accepted {read : String → Except Failure Program}
    (reads : ∀ text program, read text = .ok program → program.file = file)
    (accepted : texts.mapM read = .ok programs) : ∀ program ∈ programs, program.file = file := by
  induction texts generalizing programs with
  | nil =>
    cases accepted
    exact nofun
  | cons text texts ih =>
    obtain ⟨program, others, rfl, here, remaining⟩ := accepted_cons accepted
    exact List.forall_mem_cons.mpr ⟨reads text program here, ih remaining⟩

private theorem runs_in_room
    (accepted : texts.mapM (Program.parseWithin Room.source · Session.file) = .ok programs)
    (read : Program.parseWithin Room.source source file = .ok program)
    (bodies : AlikeStmts program.body (programs.flatMap Program.body))
    (allowed : Room.forCalls? (Session.headroom maxDepth) = some room) (m : Machine) :
    let run := runSource source file false (Session.headroom maxDepth) m
    let fed := Session.feed maxDepth texts m
    lacksRoom run.1 = true ∨ SameEffects run fed ∧ SameEnd run fed := by
  intro run fed
  obtain ⟨ending, state⟩ := Prod.mk.inj (run_effects read allowed m)
  have inFile := files_of_accepted (fun _ _ read => file_of_read (.inr ⟨_, read⟩)) accepted
  by_cases lacks : lacksRoom run.1 = true
  · exact .inl lacks
  · right
    have roomy : lacksRoom (program.eval (interpreter patience room) false m).1 = false := by
      rw [← lacksRoom_map, ← ending, lacksRoom_map]
      exact Bool.not_eq_true _ ▸ lacks
    obtain ⟨same, ends⟩ := (runs_as_fed inFile bodies patience m).fed_as_run room roomy
    rw [← feed_eq accepted allowed] at same ends
    refine ⟨⟨?_, ?_, ?_⟩, ?_⟩
    · exact (congrArg (·.console.out) state).trans same.out
    · exact (congrArg (·.frame.bindings.unplaced) state).trans same.bindings
    · exact (congrArg (·.frame.constants) state).trans same.constants
    · unfold SameEnd at ends ⊢
      exact ending ▸ ends

private theorem refused_alike
    (accepted : texts.mapM (Program.parseWithin Room.source · Session.file) = .ok programs)
    (read : Program.parseWithin Room.source source file = .ok program)
    (refused : Room.forCalls? (Session.headroom maxDepth) = none) (m : Machine) :
    let run := runSource source file false (Session.headroom maxDepth) m
    let fed := Session.feed maxDepth texts m
    SameEffects run fed ∧ (texts ≠ [] → SameEnd run fed) := by
  have ran : runSource source file false (Session.headroom maxDepth) m =
      (.error .tooMuchRoom, m) := by
    rw [runSource, Eval.parsing, read, Eval.meaningFor, refused]
    rfl
  dsimp only
  rw [ran]
  cases texts with
  | nil => exact ⟨⟨rfl, rfl, rfl⟩, fun some => absurd rfl some⟩
  | cons text texts =>
    obtain ⟨piece, -, -, readFirst, -⟩ := accepted_cons accepted
    have submitted : Session.submit text maxDepth = Eval.stop .tooMuchRoom := by
      rw [Session.submit_eq, Eval.parsing, Eval.meaningFor, readFirst, refused]
      rfl
    have fed : Session.feed maxDepth (text :: texts) m = (.error .tooMuchRoom, m) := by
      simp only [Session.feed, Session.feedBy, submitted]
      rfl
    rw [fed]
    exact ⟨⟨rfl, rfl, rfl⟩, fun _ => .same _⟩

private theorem read_each (readable : ∀ text ∈ texts, Session.canRead text = true) :
    ∃ pieces, texts.mapM (Program.parseWithin Room.source · Session.file) = .ok pieces := by
  induction texts with
  | nil => exact ⟨[], rfl⟩
  | cons text texts ih =>
    obtain ⟨here, later⟩ := List.forall_mem_cons.mp readable
    obtain ⟨pieces, readOthers⟩ := ih later
    cases read : Program.parseWithin Room.source text Session.file with
    | error failure =>
      rw [Session.canRead, read] at here
      cases here
    | ok piece =>
      refine ⟨piece :: pieces, ?_⟩
      rw [List.mapM_cons, read, readOthers]
      rfl

end Texts

/-- Feeding a program piece by piece equals running it whole. Whatever texts
are accepted one by one, their join is accepted and has their statements in
order, and it runs as they are fed, in every room that is large enough. A host
has only so much room, for reading as well: if it can read each of the texts, it
can read the join, and if it has room for the run, then the run has the effects
of feeding the texts. -/
theorem feeding_equals_running {texts : List String} {programs : List Program} {file : String}
    (accepted : texts.mapM (Program.parse · file) = .ok programs) (file' : String) :
    (∃ whole, Program.parse (joined texts) file' = .ok whole ∧
      AlikeStmts whole.body (programs.flatMap Program.body) ∧
      ∀ patience m, RunsAsFed whole programs patience m) ∧
    ((∀ text ∈ texts, Session.canRead text = true) →
      Session.canRead (joined texts) = true ∧
      ∀ maxDepth m,
        let run := runSource (joined texts) file' false (Session.headroom maxDepth) m
        let fed := Session.feed maxDepth texts m
        lacksRoom run.1 = true ∨ SameEffects run fed ∧ (texts ≠ [] → SameEnd run fed)) := by
  constructor
  · obtain ⟨whole, parsed, alike⟩ := joined_accepted accepted file'
    have inFile := files_of_accepted (fun _ _ parsed => file_of_read (.inl parsed)) accepted
    exact ⟨whole, parsed, alike.symm, runs_as_fed inFile alike.symm⟩
  · intro readable
    obtain ⟨pieces, readPieces⟩ := read_each readable
    constructor
    · obtain ⟨program, read, -⟩ := joined_read readPieces Session.file
      rw [Session.canRead, read]
      rfl
    · intro maxDepth m
      obtain ⟨program, read, bodies⟩ := joined_read readPieces file'
      cases allowed : Room.forCalls? (Session.headroom maxDepth) with
      | none => exact .inr (refused_alike readPieces read allowed m)
      | some room =>
        refine (runs_in_room readPieces read bodies.symm allowed m).imp_right fun same => ?_
        exact ⟨same.1, fun _ => same.2⟩

/-- Pieces that would run into the next ones, and one behind a return: a comment
that ends with its piece, a name before a parenthesis, and a bare return. -/
def typedPieces : List String :=
  ["let word = \"one\" # at first", "word", "(builtin.printval(word))", "return",
    "builtin.printval(\"two\")"]

theorem typed_pieces_run_whole :
    ∃ programs, typedPieces.mapM (Program.parse · Session.file) = .ok programs ∧
      (∃ whole, Program.parse (joined typedPieces) "whole" = .ok whole ∧
        AlikeStmts whole.body (programs.flatMap Program.body) ∧
        ∀ patience m, RunsAsFed whole programs patience m) ∧
      (∀ text ∈ typedPieces, Session.canRead text = true) ∧
      SameEffects (runSource (joined typedPieces) "whole" false 200 ⟨Session.frame 200, {}⟩)
        (Session.feed 200 typedPieces ⟨Session.frame 200, {}⟩) ∧
      (Session.feed 200 typedPieces ⟨Session.frame 200, {}⟩).2.console.out = "one" := by
  have accepted : (typedPieces.mapM (Program.parse · Session.file)).toBool = true := by
    decide +kernel
  have readable : ∀ text ∈ typedPieces, Session.canRead text = true := by decide +kernel
  have roomy : lacksRoom (runSource (joined typedPieces) "whole" false (Session.headroom 200)
      ⟨Session.frame 200, {}⟩).1 = false := by decide +kernel
  have written : (Session.feed 200 typedPieces ⟨Session.frame 200, {}⟩).2.console.out = "one" := by
    decide +kernel
  cases parsed : typedPieces.mapM (Program.parse · Session.file) with
  | error failure =>
    rw [parsed] at accepted
    cases accepted
  | ok programs =>
    obtain ⟨whole, inRoom⟩ := feeding_equals_running parsed "whole"
    rcases (inRoom readable).2 200 ⟨Session.frame 200, {}⟩ with lacks | ⟨same, -⟩
    · rw [roomy] at lacks
      cases lacks
    · exact ⟨programs, rfl, whole, readable, same, written⟩

end Feeding

end BasilLang
