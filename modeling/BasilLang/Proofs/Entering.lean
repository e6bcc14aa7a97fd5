import BasilLang.Prompt.Dialogue
import BasilLang.Proofs.Ending
import BasilLang.Proofs.Residue
import BasilLang.Proofs.Unfinished

/-! What is entered at the prompt, and whether it is finished. A return enters
the text that has been typed if it leaves no block open, and what is evaluated is
that text without its invisible characters. The parser complains about a block
that is not closed only if the text that it is given leaves one open, and nothing
that happens later makes this complaint, since the libraries are complete. So the
count tells the truth about the text it was taken of; but it is taken of the text
as typed, and an invisible character can hide a block from it. -/
namespace BasilLang

/-- The complaint that a block is not closed. -/
def Fault.IsUnterminated (fault : Fault) : Prop :=
  ∃ word stop, fault = .parse (.unterminatedBlock word stop)

namespace Entering
open Prompt

section Reading
variable {text file : String} {failure : Failure}

private theorem place_fault {pieces : List Lexer.Piece} {pos : Pos}
    (refused : Lexer.place file pos pieces = .error failure) :
    ∃ fault, failure.fault = .lex fault := by
  induction pieces generalizing pos with
  | nil => cases refused
  | cons piece pieces ih =>
    cases piece with
    | gap spelling => exact ih refused
    | fault before fault =>
      cases refused
      exact ⟨fault, rfl⟩
    | lexeme lexeme =>
      rw [Lexer.place] at refused
      cases later : Lexer.place file (pos.after lexeme.spelling) pieces with
      | ok tokens =>
        rw [later] at refused
        cases refused
      | error other =>
        rw [later] at refused
        cases refused
        exact ih later

/-- Whatever text the parser complains about in this way leaves a block open, in
any room. -/
theorem unterminated_leaves_open {room : Nat}
    (rejected : Program.parseWithin room text file = .error failure)
    (unterminated : failure.fault.IsUnterminated) : 0 < openBlocks text := by
  obtain ⟨word, stop, reported⟩ := unterminated
  have parsed : Program.parse text file = .error failure := by
    rcases Narrowing.parse_in_limited_room room text file with same | ⟨loc, tooDeep⟩
    · rw [← same, rejected]
    · rw [tooDeep] at rejected
      cases rejected
      cases reported
  cases read : tokenize text file with
  | error other =>
    obtain ⟨fault, lexed⟩ := place_fault read
    rw [Program.parse, read] at parsed
    cases parsed
    rw [reported] at lexed
    cases lexed
  | ok tokens =>
    obtain ⟨_, _, _, _, -, -, -, -, some, -⟩ :=
      Unfinished.unterminated_left_open read parsed reported
    exact some

end Reading

section Evaluating

/-- Any stop but the complaint that a block is not closed. -/
def Finished (reason : Stop) : Prop :=
  ∀ failure, reason = .failed failure → ¬ failure.fault.IsUnterminated

/-- Evaluation never finds a block that is not closed: a library may lack room,
but nothing is wrong with it. -/
def finished : Regime where
  node _ := True
  loops _ := True
  calls _ _ := True
  stops := Finished
  parting := False
  inside _ _ := trivial
  resolved _ _ := trivial
  libraries _ _ _ := trivial
  calls_sameKeys _ _ := trivial
  returns _ := nofun
  outOfRoom := nofun
  outOfPatience := nofun
  fails _ _ := by
    rintro _ ⟨⟩ ⟨_, _, ⟨⟩⟩
  locates {failure _} others _ := by
    rintro _ ⟨⟩
    exact others failure rfl
  unreadable known rejected := by
    rintro _ ⟨⟩ ⟨word, stop, reported⟩
    obtain ⟨program, -, -, reads⟩ := Library.read_in_limited_room known
    rcases reads _ with read | ⟨loc, lacks⟩
    · rw [read] at rejected
      cases rejected
    · rw [lacks] at rejected
      cases rejected
      cases reported
  undefined _ _ _ := nofun

private theorem too_deep_finished (loc : Loc) :
    finished.stops (.failed ⟨.eval .nestingTooDeep, some loc⟩) := by
  rintro _ ⟨⟩ ⟨_, _, ⟨⟩⟩

/-- What is made of a program that has been read is never that complaint. -/
theorem reply_finished (program : Program) (patience room : Nat) (m : Machine) {failure : Failure}
    (failed : (Session.reply program (interpreter patience room) m).1 = .error (.failed failure)) :
    ¬ failure.fault.IsUnterminated := by
  have obedient : Obedient finished fun _ => interpreter patience room :=
    Regime.walks_interpreter finished.beside.lasts_under finished.beside.enters_under
      (fun _ _ => ⟨fun _ _ => trivial, fun _ _ => trivial, fun _ _ => trivial⟩) patience room
  have under : m.frame.Under finished := fun _ _ _ => trivial
  have ends := (Regime.conforms_of_keeps
    (Regime.keeps_reply obedient under trivial (too_deep_finished program.loc))
    (fun _ _ _ same => ⟨same, trivial⟩) m.console False.elim).2
  exact ends.stops _ failed failure rfl

/-- A submission fails in this way only if its text leaves a block open. -/
theorem submission_leaves_open {text : String} {maxDepth : Int} {m : Machine} {failure : Failure}
    (failed : (Session.submit text maxDepth m).1 = .error (.failed failure))
    (unterminated : failure.fault.IsUnterminated) : 0 < openBlocks text := by
  rw [Session.submit_eq] at failed
  unfold Eval.parsing Eval.meaningFor at failed
  cases read : Program.parseWithin Room.source text Session.file with
  | error other =>
    rw [read] at failed
    cases failed
    exact unterminated_leaves_open read unterminated
  | ok program =>
    rw [read] at failed
    cases allowed : Room.forCalls? (Session.headroom maxDepth) with
    | none =>
      rw [allowed] at failed
      cases failed
    | some room =>
      rw [allowed] at failed
      exact absurd unterminated (reply_finished program patience room m failed)

end Evaluating

/-- What a return enters is a command or leaves no block open. -/
theorem entered_by_return {typed keys : List Char} {text : String}
    (entered : .text text ∈ entriesOfKeys typed keys) :
    isCommand text = true ∨ openBlocks text = 0 := by
  fun_induction entriesOfKeys typed keys with
  | case1 => cases entered
  | case2 typed keys text' depth complete ih =>
    rcases List.mem_cons.mp entered with same | later
    · rw [Entry.text.inj same]
      simpa [depth] using complete
    · exact ih later
  | case3 typed keys text' depth goesOn ih => exact ih entered
  | case4 typed keys _ ih => exact ih entered
  | case5 typed keys _ _ ih =>
    rcases List.mem_cons.mp entered with same | later
    · cases same
    · exact ih later
  | case6 typed key keys _ _ _ ih => exact ih entered

private theorem normalize_of_visible {text : String}
    (visible : ∀ c ∈ text.toList, isInvisible c = false) : normalize text = text := by
  have kept : text.toList.filter (!isInvisible ·) = text.toList :=
    List.filter_eq_self.mpr fun c member => by simp [visible c member]
  rw [Prompt.normalize, kept, String.ofList_toList]

/-- What is entered is finished, but for what invisible characters hide. A return
enters commands and texts that leave no block open. If the evaluation of a text
without its invisible characters complains about a block that is not closed, then
that text leaves one open; so if none was counted in the text as typed, an
invisible character stands in it. -/
theorem entered_text_is_finished (text : String) :
    (∀ typed keys, .text text ∈ entriesOfKeys typed keys → isCommand text = false →
      openBlocks text = 0) ∧
    ∀ maxDepth m failure,
      (Session.submit (normalize text) maxDepth m).1 = .error (.failed failure) →
      failure.fault.IsUnterminated →
      0 < openBlocks (normalize text) ∧
        (openBlocks text = 0 → ∃ c ∈ text.toList, isInvisible c = true) := by
  constructor
  · intro typed keys entered noCommand
    rcases entered_by_return entered with command | complete
    · rw [command] at noCommand
      cases noCommand
    · exact complete
  · intro maxDepth m failure failed unterminated
    have opened := submission_leaves_open failed unterminated
    refine ⟨opened, fun complete => ?_⟩
    by_contra visible
    simp only [not_exists, not_and, Bool.not_eq_true] at visible
    rw [normalize_of_visible visible, complete] at opened
    exact Nat.lt_irrefl 0 opened

/-- An unfinished block with an invisible space behind it, as it may be
pasted. -/
def hiddenBlock : String := "if 1 then\u200b"

/-- The complaint about it, once the space is gone. -/
def hiddenBlockFailure : Failure :=
  ⟨.parse (.unterminatedBlock "if" ⟨1, 10⟩), some ⟨Session.file, ⟨1, 1⟩⟩⟩

private theorem hiddenBlock_fails :
    (Session.submit (normalize hiddenBlock) 200 ⟨Session.frame 200, {}⟩).1 =
      .error (.failed hiddenBlockFailure) := by decide +kernel

theorem hidden_block_left_open :
    .text hiddenBlock ∈ entriesOfKeys [] (hiddenBlock.toList ++ ['\r']) ∧
    openBlocks hiddenBlock = 0 ∧ 0 < openBlocks (normalize hiddenBlock) ∧
    ∃ c ∈ hiddenBlock.toList, isInvisible c = true := by
  have entered : .text hiddenBlock ∈ entriesOfKeys [] (hiddenBlock.toList ++ ['\r']) := by
    decide +kernel
  have noCommand : isCommand hiddenBlock = false := by decide +kernel
  have complete : openBlocks hiddenBlock = 0 :=
    (entered_text_is_finished hiddenBlock).1 [] _ entered noCommand
  obtain ⟨opened, invisible⟩ := (entered_text_is_finished hiddenBlock).2 _ _ _ hiddenBlock_fails
    ⟨"if", ⟨1, 10⟩, rfl⟩
  exact ⟨entered, complete, opened, invisible complete⟩

/-- A text can be entered unfinished: the count fails at the invisible character
and takes the text for complete, which it no longer is without that character. -/
theorem invisible_character_hides_block :
    ¬ ∀ text, isCommand text = false → openBlocks text = 0 → ∀ maxDepth m failure,
      (Session.submit (normalize text) maxDepth m).1 = .error (.failed failure) →
        ¬ failure.fault.IsUnterminated := by
  intro finished
  have noCommand : isCommand hiddenBlock = false := by decide +kernel
  have complete : openBlocks hiddenBlock = 0 := by decide +kernel
  exact finished hiddenBlock noCommand complete _ _ _ hiddenBlock_fails ⟨"if", ⟨1, 10⟩, rfl⟩

end Entering

end BasilLang
