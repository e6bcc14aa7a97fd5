import BasilLang.Proofs.Reading
import BasilLang.Syntax.Part
import Mathlib.Logic.Hydra

/-! What an expression reads, and that any search finds it. The parts that
matter are reached by going down to children, and from a name to what it is
bound to unless that is resolved. The rounds in which the paths of an expression
are followed end before they run out, and their answer is told by what can be
reached alone. So is the answer of a search that keeps a list of parts still to
be looked at, whichever of them it takes next: every frame has finitely many
paths, and a part is replaced by parts that are less deep. -/
namespace BasilLang

namespace Part

/-- The name that a part is. -/
def name? : Part → Option Name
  | .expr (.identifier name) => some name
  | .stmt (.expr (.identifier name)) => some name
  | _ => none

/-- Whether a part is a call or a proc. -/
def isCallOrProc : Part → Bool
  | .expr (.call ..) | .expr (.proc _) => true
  | .stmt (.expr (.call ..)) | .stmt (.expr (.proc _)) | .stmt (.procDecl ..) => true
  | _ => false

/-- Whether a part is a token. -/
def isToken : Part → Bool
  | .token .. => true
  | _ => false

variable {part child : Part} {name : Name}

private theorem name?_of_token (token : part.isToken = true) : part.name? = none := by
  cases part with
  | token => rfl
  | _ => cases token

private theorem children_of_token (token : part.isToken = true) : part.children = [] := by
  cases part with
  | token => rfl
  | _ => cases token

private theorem not_call_of_token (token : part.isToken = true) : part.isCallOrProc = false := by
  cases part with
  | token => rfl
  | _ => cases token

private theorem children_of_name (named : part.name? = some name) :
    part.children = [ofName name] := by
  unfold name? at named
  split at named
  · cases named
    rfl
  · cases named
    rfl
  · cases named

end Part

namespace Frame

/-- One step of reading: down to a child, or from a name to what it is bound to
if that is neither a literal nor a proc. -/
inductive GoesTo (frame : Frame) : Part → Part → Prop where
  | down {part child : Part} (inside : child ∈ part.children) : GoesTo frame part child
  | across {part : Part} {name : Name} {bound : Bound} {e : Expr}
      (named : part.name? = some name) (held : frame.lookup name.path = some bound)
      (unresolved : bound.unresolved? = some e) : GoesTo frame part (.expr e)

/-- Whether steps of reading lead from one part to another. -/
abbrev Leads (frame : Frame) : Part → Part → Prop :=
  Relation.ReflTransGen frame.GoesTo

/-- Whether a part keeps it from being known what is read: a call, a proc, or a
name that is not bound. -/
def Bars (frame : Frame) (part : Part) : Prop :=
  part.isCallOrProc = true ∨ ∃ name, part.name? = some name ∧ frame.has name.path = false

/-- Whether this is what is to be said about the paths that a part reads. -/
structure ReadsExactly (frame : Frame) (part : Part) (answer : Option (List Path)) : Prop where
  /-- There is no answer exactly if something that is reached bars it. -/
  none_iff : answer = none ↔ ∃ found, frame.Leads part found ∧ frame.Bars found
  /-- An answer has the paths of the names that are reached, and no others. -/
  mem_iff : ∀ paths, answer = some paths → ∀ path,
    path ∈ paths ↔ ∃ found name, frame.Leads part found ∧ found.name? = some name ∧
      name.path = path

/-- A way to tell what is read: a set of parts that steps do not lead out of, in
which nothing bars, and a list that has the paths of all names in it. -/
theorem readsExactly_of_closed {frame : Frame} {start : Part} {paths : List Path}
    (passed : Part → Prop) (begun : passed start)
    (closed : ∀ part next, passed part → frame.GoesTo part next → passed next)
    (clear : ∀ part, passed part → ¬ frame.Bars part)
    (listed : ∀ part name, passed part → part.name? = some name → name.path ∈ paths)
    (reached : ∀ path ∈ paths, ∃ found name, frame.Leads start found ∧
      found.name? = some name ∧ name.path = path) :
    frame.ReadsExactly start (some paths) := by
  have all : ∀ found, frame.Leads start found → passed found := by
    intro found leads
    induction leads with
    | refl => exact begun
    | tail _ goes sofar => exact closed _ _ sofar goes
  refine ⟨⟨nofun, fun ⟨found, leads, bars⟩ => ?_⟩, fun listing same path => ?_⟩
  · exact absurd bars (clear found (all found leads))
  · cases same
    refine ⟨reached path, fun ⟨found, name, leads, named, same⟩ => ?_⟩
    exact same ▸ listed found name (all found leads) named

private theorem readsExactly_none {frame : Frame} {start found : Part}
    (leads : frame.Leads start found)
    (bars : frame.Bars found) : frame.ReadsExactly start none :=
  ⟨⟨fun _ => ⟨found, leads, bars⟩, fun _ => rfl⟩, nofun⟩

/-- How many bound paths have not been seen. -/
def unseen (frame : Frame) (seen : List Path) : Nat :=
  (frame.bindings.paths.filter (· ∉ seen)).length

private theorem unseen_lt {frame : Frame} {seen more : List Path} {path : Path}
    (held : frame.has path = true) (fresh : path ∉ seen) (now : path ∈ more)
    (kept : ∀ old ∈ seen, old ∈ more) : frame.unseen more < frame.unseen seen := by
  have further : frame.bindings.paths.filter (· ∉ more) =
      (frame.bindings.paths.filter (· ∉ seen)).filter (· ∉ more) := by
    rw [List.filter_filter]
    apply List.filter_congr
    intro other _
    simpa using fun new old => new (kept other old)
  have bound : path ∈ frame.bindings.paths := mem_paths_iff.mpr held
  rw [unseen, unseen, further]
  exact List.length_filter_lt_length_iff_exists.mpr
    ⟨path, List.mem_filter.mpr ⟨bound, by simpa using fresh⟩, by simpa using now⟩

section Following
variable {frame : Frame} {e : Expr} {path : Path}

private theorem behind_cases (frame : Frame) (frontier : List Path) :
    (∃ path ∈ frontier, frame.namesBehind? path = none) ∧
        frontier.mapM frame.namesBehind? = none ∨
      ∃ behind, frontier.mapM frame.namesBehind? = some behind ∧
        (∀ path ∈ frontier, ∃ names, frame.namesBehind? path = some names) ∧
        ∀ name ∈ behind.flatten, ∃ path ∈ frontier, ∃ names,
          frame.namesBehind? path = some names ∧ name ∈ names := by
  induction frontier with
  | nil => exact .inr ⟨[], rfl, nofun, nofun⟩
  | cons first rest ih =>
    rw [List.mapM_cons]
    cases here : frame.namesBehind? first with
    | none => exact .inl ⟨⟨first, List.mem_cons_self, here⟩, rfl⟩
    | some names =>
      rcases ih with ⟨⟨path, member, stuck⟩, lacking⟩ | ⟨behind, followed, all, from'⟩
      · exact .inl ⟨⟨path, List.mem_cons_of_mem _ member, stuck⟩, by rw [lacking]; rfl⟩
      · refine .inr ⟨names :: behind, by rw [followed]; rfl, ?_, ?_⟩
        · intro path member
          rcases List.mem_cons.mp member with rfl | later
          · exact ⟨names, here⟩
          · exact all path later
        · intro name member
          rcases List.mem_append.mp (List.flatten_cons ▸ member) with now | later
          · exact ⟨first, List.mem_cons_self, names, here, now⟩
          · obtain ⟨path, inside, found⟩ := from' name later
            exact ⟨path, List.mem_cons_of_mem _ inside, found⟩

private theorem leadsTo_of_behind {names : List Path} {name : Path}
    (behind : frame.namesBehind? path = some names) (member : name ∈ names) :
    frame.LeadsTo path name := by
  unfold namesBehind? at behind
  split at behind
  · cases behind
  · next bound held =>
    simp only [Readable.names?, Bound.names?] at behind
    split at behind
    · next e unresolved =>
      rw [Expr.names?_eq] at behind
      split at behind
      · cases behind
        exact ⟨bound, e, held, unresolved, member⟩
      · cases behind
    · cases behind
      cases member

private theorem follow_reached {rounds : Nat} {seen frontier paths : List Path}
    (found : frame.follow rounds seen frontier = some paths) (member : path ∈ paths) :
    path ∈ seen ∨ ∃ first ∈ frontier, Relation.ReflTransGen frame.LeadsTo first path := by
  induction rounds generalizing seen frontier with
  | zero =>
    cases frontier with
    | nil =>
      cases found
      exact .inl member
    | cons => cases found
  | succ rounds ih =>
    cases frontier with
    | nil =>
      cases found
      exact .inl member
    | cons first others =>
      obtain ⟨behind, followed, found⟩ := Option.bind_eq_some_iff.mp found
      rcases ih found with sofar | ⟨next, later, leads⟩
      · rcases List.mem_append.mp sofar with here | before
        · exact .inr ⟨path, here, .refl⟩
        · exact .inl before
      · have inside := (List.mem_filter.mp (List.mem_eraseDups.mp later)).1
        rcases behind_cases frame (first :: others) with
          ⟨-, lacking⟩ | ⟨behind', same, -, origin⟩
        · rw [followed] at lacking
          cases lacking
        · cases followed.symm.trans same
          obtain ⟨last, member', names, here, named⟩ := origin next inside
          exact .inr ⟨last, member', .head (leadsTo_of_behind here named) leads⟩

private theorem follow_stuck {rounds : Nat} {seen frontier : List Path}
    (fresh : ∀ path ∈ frontier, path ∉ seen) (enough : frame.unseen seen < rounds)
    (lacking : frame.follow rounds seen frontier = none) :
    ∃ first ∈ frontier, ∃ path, Relation.ReflTransGen frame.LeadsTo first path ∧
      frame.namesBehind? path = none := by
  induction rounds generalizing seen frontier with
  | zero => cases enough
  | succ rounds ih =>
    cases frontier with
    | nil => cases lacking
    | cons first others =>
      rcases behind_cases frame (first :: others) with
        ⟨⟨path, member, stuck⟩, -⟩ | ⟨behind, followed, all, origin⟩
      · exact ⟨path, member, path, .refl, stuck⟩
      · have going : frame.follow rounds (first :: others ++ seen)
            (behind.flatten.filter (!(first :: others ++ seen).contains ·)).eraseDups = none := by
          rw [follow] at lacking
          dsimp only at lacking
          rw [followed] at lacking
          exact lacking
        -- The first path of the frontier is bound and is seen now for the first time.
        obtain ⟨names, here⟩ := all first List.mem_cons_self
        have fewer : frame.unseen (first :: others ++ seen) < frame.unseen seen :=
          unseen_lt (has_of_namesBehind here) (fresh first List.mem_cons_self)
            (List.mem_append_left _ List.mem_cons_self) fun _ => List.mem_append_right _
        obtain ⟨next, member, path, leads, stuck⟩ := ih
          (fun path member => by simpa using (List.mem_filter.mp (List.mem_eraseDups.mp member)).2)
          (by omega) going
        have inside := (List.mem_filter.mp (List.mem_eraseDups.mp member)).1
        obtain ⟨last, member', names, here, named⟩ := origin next inside
        exact ⟨last, member', path, .head (leadsTo_of_behind here named) leads, stuck⟩

private theorem leads_of_mentions (frame : Frame) (mentioned : path ∈ e.mentions) :
    ∃ name : Name, frame.Leads (.expr e) (.expr (.identifier name)) ∧ name.path = path := by
  induction e using Expr.mentions.induct with
  | case1 | case6 | case7 => cases mentioned
  | case2 name =>
    obtain rfl := List.mem_singleton.mp mentioned
    exact ⟨name, .refl, rfl⟩
  | case3 inner _ ih =>
    obtain ⟨name, leads, same⟩ := ih mentioned
    exact ⟨name, .head (.down List.mem_cons_self) leads, same⟩
  | case4 op mark operand ih =>
    obtain ⟨name, leads, same⟩ := ih mentioned
    exact ⟨name, .head (.down (by simp [Part.children, Part.exprChildren])) leads, same⟩
  | case5 left op mark right ihLeft ihRight =>
    rcases List.mem_append.mp mentioned with inLeft | inRight
    · obtain ⟨name, leads, same⟩ := ihLeft inLeft
      exact ⟨name, .head (.down (by simp [Part.children, Part.exprChildren])) leads, same⟩
    · obtain ⟨name, leads, same⟩ := ihRight inRight
      exact ⟨name, .head (.down (by simp [Part.children, Part.exprChildren])) leads, same⟩

private theorem leads_of_not_plain (frame : Frame) (notPlain : e.isPlain = false) :
    ∃ found, frame.Leads (.expr e) found ∧ found.isCallOrProc = true := by
  induction e using Expr.isPlain.induct with
  | case1 | case2 => cases notPlain
  | case3 inner _ ih =>
    obtain ⟨found, leads, call⟩ := ih notPlain
    exact ⟨found, .head (.down List.mem_cons_self) leads, call⟩
  | case4 op mark operand ih =>
    obtain ⟨found, leads, call⟩ := ih notPlain
    exact ⟨found, .head (.down (by simp [Part.children, Part.exprChildren])) leads, call⟩
  | case5 left op mark right ihLeft ihRight =>
    rcases Bool.and_eq_false_iff.mp notPlain with inLeft | inRight
    · obtain ⟨found, leads, call⟩ := ihLeft inLeft
      exact ⟨found, .head (.down (by simp [Part.children, Part.exprChildren])) leads, call⟩
    · obtain ⟨found, leads, call⟩ := ihRight inRight
      exact ⟨found, .head (.down (by simp [Part.children, Part.exprChildren])) leads, call⟩
  | case6 | case7 => exact ⟨_, .refl, rfl⟩

private theorem leads_of_reaches (reached : frame.Reaches e path) :
    ∃ name : Name, frame.Leads (.expr e) (.expr (.identifier name)) ∧ name.path = path := by
  obtain ⟨first, mentioned, leads⟩ := reached
  induction leads with
  | refl => exact leads_of_mentions frame mentioned
  | tail _ step sofar =>
    obtain ⟨name, leads, rfl⟩ := sofar
    obtain ⟨bound, e', held, unresolved, next⟩ := step
    obtain ⟨name', further, same⟩ := leads_of_mentions frame next
    exact ⟨name', (leads.tail (.across rfl held unresolved)).trans further, same⟩

private theorem bars_of_stuck {name : Name} (stuck : frame.namesBehind? name.path = none) :
    ∃ found, frame.Leads (.expr (.identifier name)) found ∧ frame.Bars found := by
  unfold namesBehind? at stuck
  split at stuck
  · next unbound => exact ⟨_, .refl, .inr ⟨name, rfl, by simp [has, unbound]⟩⟩
  · next bound held =>
    simp only [Readable.names?, Bound.names?] at stuck
    split at stuck
    · next e unresolved =>
      rw [Expr.names?_eq] at stuck
      split at stuck
      · cases stuck
      · next notPlain =>
        obtain ⟨found, leads, call⟩ := leads_of_not_plain frame (Bool.eq_false_iff.mpr notPlain)
        exact ⟨found, .head (.across rfl held unresolved) leads, .inl call⟩
    · cases stuck

/-- Whether a part is a token, or an expression without calls and procs that
names no path outside of the list. -/
private def Inside (paths : List Path) (part : Part) : Prop :=
  (∃ kind mark, part = .token kind mark) ∨
    ∃ e, part = .expr e ∧ e.isPlain = true ∧ ∀ path ∈ e.mentions, path ∈ paths

private theorem inside_child {part : Part} {paths : List Path} (plain : e.isPlain = true)
    (named : ∀ path ∈ e.mentions, path ∈ paths) (inside : part ∈ Part.exprChildren e) :
    Inside paths part := by
  cases e with
  | literal value loc => exact .inl ⟨_, _, List.mem_singleton.mp inside⟩
  | identifier name => exact .inl ⟨_, _, List.mem_singleton.mp inside⟩
  | group inner loc => exact .inr ⟨inner, List.mem_singleton.mp inside, plain, named⟩
  | unary op mark operand =>
    simp only [Part.exprChildren, List.mem_cons, List.not_mem_nil, or_false] at inside
    rcases inside with rfl | rfl
    · exact .inl ⟨_, _, rfl⟩
    · exact .inr ⟨operand, rfl, plain, named⟩
  | binary left op mark right =>
    obtain ⟨plainLeft, plainRight⟩ := Bool.and_eq_true_iff.mp plain
    simp only [Part.exprChildren, List.mem_cons, List.not_mem_nil, or_false] at inside
    rcases inside with rfl | rfl | rfl
    · exact .inr ⟨left, rfl, plainLeft, fun path member =>
        named path (List.mem_append_left _ member)⟩
    · exact .inl ⟨_, _, rfl⟩
    · exact .inr ⟨right, rfl, plainRight, fun path member =>
        named path (List.mem_append_right _ member)⟩
  | call | proc => cases plain

private theorem inside_name {part : Part} {paths : List Path} {name : Name}
    (inside : Inside paths part) (named : part.name? = some name) : name.path ∈ paths := by
  rcases inside with ⟨kind, mark, rfl⟩ | ⟨e, rfl, -, mentioned⟩
  · cases named
  · cases e with
    | identifier other =>
      cases named
      exact mentioned _ List.mem_cons_self
    | _ => cases named

private theorem inside_not_call {part : Part} {paths : List Path} (inside : Inside paths part) :
    part.isCallOrProc = false := by
  rcases inside with ⟨kind, mark, rfl⟩ | ⟨e, rfl, plain, -⟩
  · rfl
  · cases e with
    | call | proc => cases plain
    | _ => rfl

private theorem inside_goesTo {part next : Part} {paths : List Path}
    (followed : ∀ path ∈ paths, ∃ names, frame.namesBehind? path = some names ∧
      ∀ name ∈ names, name ∈ paths)
    (inside : Inside paths part) (goes : frame.GoesTo part next) : Inside paths next := by
  cases goes with
  | down child =>
    rcases inside with ⟨kind, mark, rfl⟩ | ⟨e, rfl, plain, mentioned⟩
    · cases child
    · exact inside_child plain mentioned child
  | across named held unresolved =>
    obtain ⟨names, behind, within⟩ := followed _ (inside_name inside named)
    simp only [namesBehind?, held, Readable.names?, Bound.names?, unresolved, Expr.names?_eq]
      at behind
    split at behind
    · next plain =>
      cases behind
      exact .inr ⟨_, rfl, plain, within⟩
    · cases behind

/-- The answer of the rounds is told by what can be reached. -/
theorem readsExactly_reads? (frame : Frame) (e : Expr) :
    frame.ReadsExactly (.expr e) (frame.reads? e) := by
  cases answer : frame.reads? e with
  | none =>
    by_cases plain : e.isPlain = true
    · have lacking : frame.follow (frame.bindings.length + 1) [] e.mentions.eraseDups = none := by
        rw [reads?, Expr.names?_eq, if_pos plain] at answer
        exact answer
      have enough : frame.unseen [] < frame.bindings.length + 1 := by
        refine Nat.lt_succ_of_le ((List.length_filter_le _ _).trans ?_)
        simp [Bindings.paths]
      obtain ⟨first, member, path, leads, stuck⟩ :=
        follow_stuck (fun _ _ => List.not_mem_nil) enough lacking
      obtain ⟨name, reached, rfl⟩ := leads_of_reaches ⟨first, List.mem_eraseDups.mp member, leads⟩
      obtain ⟨found, further, bars⟩ := bars_of_stuck stuck
      exact readsExactly_none (reached.trans further) bars
    · obtain ⟨found, leads, call⟩ := leads_of_not_plain frame (Bool.eq_false_iff.mpr plain)
      exact readsExactly_none leads (.inl call)
  | some paths =>
    obtain ⟨plain, followed⟩ := reads?_followed answer
    have reached : ∀ path ∈ paths, frame.Reaches e path := by
      obtain ⟨names, named, found⟩ := Option.bind_eq_some_iff.mp answer
      rw [Expr.names?_eq, if_pos plain] at named
      cases named
      intro path member
      rcases follow_reached found member with old | ⟨first, mentioned, leads⟩
      · cases old
      · exact ⟨first, List.mem_eraseDups.mp mentioned, leads⟩
    have within : ∀ path ∈ paths, ∃ names, frame.namesBehind? path = some names ∧
        ∀ name ∈ names, name ∈ paths := by
      intro path member
      obtain ⟨⟨names, behind⟩, -⟩ := followed path (reached path member)
      obtain ⟨first, mentioned, leads⟩ := reached path member
      exact ⟨names, behind, fun name inside =>
        (followed name ⟨first, mentioned, leads.tail (leadsTo_of_behind behind inside)⟩).2⟩
    have begun : Inside paths (.expr e) :=
      .inr ⟨e, rfl, plain, fun path mentioned => (followed path ⟨path, mentioned, .refl⟩).2⟩
    refine readsExactly_of_closed _ begun (fun _ _ => inside_goesTo within) ?_
      (fun _ _ => inside_name) ?_
    · rintro part inside (call | ⟨name, named, unbound⟩)
      · rw [inside_not_call inside] at call
        cases call
      · obtain ⟨names, behind, -⟩ := within _ (inside_name inside named)
        rw [has_of_namesBehind behind] at unbound
        cases unbound
    · intro path member
      obtain ⟨name, leads, same⟩ := leads_of_reaches (reached path member)
      exact ⟨_, name, leads, rfl, same⟩

end Following

end Frame

/-- A search for the paths that a part reads: it is under way, with the paths it
has seen and the parts it still has to look at, or it is over. -/
inductive Search where
  | working (seen : List Path) (pending : List Part)
  | finished (answer : Option (List Path))

namespace Search

/-- The beginning of the search from a part. -/
def start (part : Part) : Search :=
  .working [] [part]

/-- Looks at a part, with the rest still to be looked at. -/
def visit (frame : Frame) (seen : List Path) (current : Part) (rest : List Part) : Search :=
  if current.isCallOrProc then .finished none
  else match current.name? with
    | none => .working seen (current.children ++ rest)
    | some name =>
      if name.path ∈ seen then .working seen rest
      else match frame.lookup name.path with
        | none => .finished none
        | some bound =>
          .working (name.path :: seen) (bound.unresolved?.toList.map Part.expr ++ rest)

/-- A search takes up any of the parts that it still has to look at, and is over
when there are none. -/
inductive Step (frame : Frame) : Search → Search → Prop where
  | take {seen : List Path} {pending rest : List Part} {current : Part}
      (picked : pending.Perm (current :: rest)) :
      Step frame (.working seen pending) (visit frame seen current rest)
  | finish {seen : List Path} : Step frame (.working seen []) (.finished (some seen))

variable {frame : Frame}

/-- Looking at a part ends the search, or the paths that have not been seen
become fewer, or the part is replaced by parts that are less deep. -/
theorem visit_cases (frame : Frame) (seen : List Path) (current : Part) (rest : List Part) :
    visit frame seen current rest = .finished none ∨
    (∃ name bound, current.name? = some name ∧ name.path ∉ seen ∧
      frame.lookup name.path = some bound ∧ visit frame seen current rest =
        .working (name.path :: seen) (bound.unresolved?.toList.map Part.expr ++ rest)) ∨
    ∃ parts : List Part, (∀ part ∈ parts, part.depth < current.depth) ∧
      visit frame seen current rest = .working seen (parts ++ rest) := by
  unfold visit
  split
  · exact .inl rfl
  · split
    · exact .inr (.inr ⟨current.children, fun _ => Part.depth_child, rfl⟩)
    · next name named =>
      split
      · exact .inr (.inr ⟨[], nofun, rfl⟩)
      · next fresh =>
        split
        · exact .inl rfl
        · next bound held => exact .inr (.inl ⟨name, bound, named, fresh, held, rfl⟩)

/-- Every search comes to an end, whichever part it takes up next. -/
theorem steps_wellFounded (frame : Frame) :
    WellFounded fun after before => Step frame before after := by
  have finished : ∀ answer, Acc (fun after before => Step frame before after) (.finished answer) :=
    fun answer => ⟨_, nofun⟩
  have heads := (measure Part.depth).wf.cutExpand
  have working : ∀ (count : Nat) (heap : Multiset Part) (seen : List Path) (pending : List Part),
      frame.unseen seen = count → ↑pending = heap →
      Acc (fun after before => Step frame before after) (.working seen pending) := by
    intro count
    induction count using Nat.strong_induction_on with
    | _ count fewer =>
    intro heap
    induction heap using heads.induction with
    | _ heap lighter =>
    rintro seen pending rfl rfl
    refine ⟨_, fun after step => ?_⟩
    cases step with
    | finish => exact finished _
    | @take _ _ rest current picked =>
      rcases visit_cases frame seen current rest with
        ended | ⟨name, bound, -, fresh, held, next⟩ | ⟨parts, less, next⟩
      · rw [ended]
        exact finished _
      · rw [next]
        have known : frame.has name.path = true := by simp [Frame.has, held]
        exact fewer _ (Frame.unseen_lt known fresh List.mem_cons_self
          fun _ => List.mem_cons_of_mem _) _ _ _ rfl rfl
      · rw [next]
        refine lighter _ ⟨(parts : Multiset Part), current, fun part member => ?_, ?_⟩ _ _ rfl rfl
        · exact less part (Multiset.mem_coe.mp member)
        · rw [Multiset.coe_eq_coe.mpr picked, ← Multiset.coe_add, ← Multiset.cons_coe,
            ← Multiset.singleton_add]
          ac_rfl
  refine ⟨fun search => ?_⟩
  cases search with
  | working seen pending => exact working _ _ seen pending rfl rfl
  | finished answer => exact finished answer

/-- What a search has done: all that it has to look at is reached from the
start, as are the names of the paths it has seen; and whatever the parts that it
has passed, and the paths that it has seen, lead to in one step, it has passed or
has to look at, unless it is a token. -/
private structure Covers (frame : Frame) (start : Part) (passed : Part → Prop)
    (seen : List Path) (pending : List Part) : Prop where
  reached : ∀ part ∈ pending, frame.Leads start part
  named : ∀ path ∈ seen, frame.has path = true ∧ ∃ found name, frame.Leads start found ∧
    found.name? = some name ∧ name.path = path
  begun : passed start ∨ start ∈ pending
  clear : ∀ part, passed part → part.isCallOrProc = false
  listed : ∀ part name, passed part → part.name? = some name → name.path ∈ seen
  down : ∀ part child, passed part → child ∈ part.children →
    (passed child ∨ child ∈ pending) ∨ child.isToken = true
  across : ∀ path ∈ seen, ∀ bound e, frame.lookup path = some bound →
    bound.unresolved? = some e → passed (.expr e) ∨ .expr e ∈ pending

private theorem covers_start (frame : Frame) (part : Part) :
    Covers frame part (fun _ => False) [] [part] where
  reached other member := by
    obtain rfl := List.mem_singleton.mp member
    exact .refl
  named := nofun
  begun := .inr List.mem_cons_self
  clear := nofun
  listed := nofun
  down := nofun
  across := nofun

section Covering
variable {start current : Part} {passed : Part → Prop} {seen : List Path} {pending rest : List Part}

private theorem Covers.finish (covers : Covers frame start passed seen []) :
    frame.ReadsExactly start (some seen) := by
  have none : ∀ {part}, passed part ∨ part ∈ [] → passed part :=
    fun either => either.resolve_right List.not_mem_nil
  have named : ∀ {part name}, passed part ∨ part.isToken = true → part.name? = some name →
      name.path ∈ seen := by
    rintro part name (here | token) named
    · exact covers.listed part name here named
    · rw [Part.name?_of_token token] at named
      cases named
  refine Frame.readsExactly_of_closed (fun part => passed part ∨ part.isToken = true)
    (.inl (none covers.begun)) ?_ ?_ (fun _ _ => named) fun path member =>
      (covers.named path member).2
  · intro part next here goes
    cases goes with
    | across name held unresolved =>
      exact .inl (none (covers.across _ (named here name) _ _ held unresolved))
    | down inside =>
      rcases here with here | token
      · exact (covers.down part next here inside).imp_left none
      · rw [Part.children_of_token token] at inside
        cases inside
  · rintro part here (call | ⟨name, name', unbound⟩)
    · rcases here with here | token
      · rw [covers.clear part here] at call
        cases call
      · rw [Part.not_call_of_token token] at call
        cases call
    · rw [(covers.named _ (named here name')).1] at unbound
      cases unbound

private theorem Covers.perm {other : List Part} (covers : Covers frame start passed seen pending)
    (same : pending.Perm other) : Covers frame start passed seen other := by
  obtain ⟨reached, named, begun, clear, listed, down, across⟩ := covers
  simp only [same.mem_iff] at reached begun down across
  exact ⟨reached, named, begun, clear, listed, down, across⟩

private theorem Covers.pass (covers : Covers frame start passed seen (current :: rest))
    (plain : current.isCallOrProc = false)
    (listed : ∀ name, current.name? = some name → name.path ∈ seen) {fresh : List Part}
    (reached : ∀ part ∈ fresh, frame.Leads start part)
    (down : ∀ child ∈ current.children, child ∈ fresh ∨ child.isToken = true) :
    Covers frame start (fun part => passed part ∨ part = current) seen (fresh ++ rest) := by
  have moved : ∀ {part}, passed part ∨ part ∈ current :: rest →
      (passed part ∨ part = current) ∨ part ∈ fresh ++ rest := by
    rintro part (here | pending)
    · exact .inl (.inl here)
    · rcases List.mem_cons.mp pending with rfl | later
      · exact .inl (.inr rfl)
      · exact .inr (List.mem_append_right _ later)
  refine ⟨fun part member => ?_, covers.named, moved covers.begun, ?_, ?_, ?_, ?_⟩
  · rcases List.mem_append.mp member with new | old
    · exact reached part new
    · exact covers.reached part (List.mem_cons_of_mem _ old)
  · rintro part (here | rfl)
    · exact covers.clear part here
    · exact plain
  · rintro part name (here | rfl) named
    · exact covers.listed part name here named
    · exact listed name named
  · rintro part child (here | rfl) inside
    · exact (covers.down part child here inside).imp_left moved
    · exact (down child inside).imp_left fun new => .inr (List.mem_append_left _ new)
  · exact fun path member bound e held unresolved =>
      moved (covers.across path member bound e held unresolved)

private theorem Covers.see {name : Name} {bound : Bound}
    (covers : Covers frame start passed seen pending) (leads : frame.Leads start current)
    (named : current.name? = some name) (held : frame.lookup name.path = some bound) :
    Covers frame start passed (name.path :: seen)
      (bound.unresolved?.toList.map Part.expr ++ pending) := by
  have later : ∀ {part}, passed part ∨ part ∈ pending →
      passed part ∨ part ∈ bound.unresolved?.toList.map Part.expr ++ pending :=
    fun either => either.imp_right (List.mem_append_right _)
  refine ⟨fun part member => ?_, fun path member => ?_, later covers.begun, covers.clear,
    fun part other here named => List.mem_cons_of_mem _ (covers.listed part other here named),
    fun part child here inside => (covers.down part child here inside).imp_left later,
    fun path member other e held' unresolved => ?_⟩
  · rcases List.mem_append.mp member with new | old
    · obtain ⟨e, unresolved, rfl⟩ := List.mem_map.mp new
      exact leads.tail (.across named held (Option.mem_toList.mp unresolved))
    · exact covers.reached part old
  · rcases List.mem_cons.mp member with rfl | old
    · exact ⟨by simp [Frame.has, held], current, name, leads, named, rfl⟩
    · exact covers.named path old
  · rcases List.mem_cons.mp member with rfl | old
    · cases held.symm.trans held'
      exact .inr (List.mem_append_left _ (List.mem_map.mpr ⟨e, by simp [unresolved], rfl⟩))
    · exact later (covers.across path old other e held' unresolved)

private theorem Covers.visit (covers : Covers frame start passed seen (current :: rest)) :
    (∃ found, frame.Leads start found ∧ frame.Bars found ∧
      visit frame seen current rest = .finished none) ∨
    ∃ passed' seen' pending', visit frame seen current rest = .working seen' pending' ∧
      Covers frame start passed' seen' pending' := by
  have leads : frame.Leads start current := covers.reached current List.mem_cons_self
  unfold Search.visit
  split
  · next call => exact .inl ⟨current, leads, .inl call, rfl⟩
  · next plain =>
    have plain : current.isCallOrProc = false := Bool.eq_false_iff.mpr plain
    split
    · next nameless =>
      refine .inr ⟨_, _, _, rfl, covers.pass plain ?_ ?_ fun child inside => .inl inside⟩
      · intro name named
        cases nameless.symm.trans named
      · exact fun child inside => leads.tail (.down inside)
    · next name named =>
      have token : ∀ child ∈ current.children, child ∈ [] ∨ child.isToken = true := by
        rw [Part.children_of_name named]
        intro child inside
        obtain rfl := List.mem_singleton.mp inside
        exact .inr rfl
      have noFresh : ∀ part ∈ ([] : List Part), frame.Leads start part :=
        fun part member => absurd member List.not_mem_nil
      have isName : ∀ {other}, current.name? = some other → other = name :=
        fun other => Option.some.inj (other.symm.trans named)
      split
      · next old =>
        refine .inr ⟨_, _, _, rfl, covers.pass plain (fun other same => ?_) noFresh token⟩
        exact isName same ▸ old
      · split
        · next unbound =>
          exact .inl ⟨current, leads, .inr ⟨name, named, by simp [Frame.has, unbound]⟩, rfl⟩
        · next bound held =>
          have seen := (covers.see leads named held).perm List.perm_middle
          refine .inr ⟨_, _, _, rfl, seen.pass plain (fun other same => ?_) noFresh token⟩
          exact isName same ▸ List.mem_cons_self

private theorem Covers.run (covers : Covers frame start passed seen pending)
    {answer : Option (List Path)}
    (run : Relation.ReflTransGen (Step frame) (.working seen pending) (.finished answer)) :
    frame.ReadsExactly start answer := by
  generalize begun : Search.working seen pending = first at run
  generalize ended : Search.finished answer = last at run
  induction run using Relation.ReflTransGen.head_induction_on generalizing passed seen pending with
  | refl =>
    cases begun
    cases ended
  | head step rest ih =>
    cases begun
    cases step with
    | finish =>
      rcases rest.cases_head with same | ⟨next, step, -⟩
      · cases ended.trans same.symm
        exact covers.finish
      · cases step
    | take picked =>
      rcases (covers.perm picked).visit with ⟨found, leads, bars, finished⟩ |
        ⟨passed', seen', pending', goesOn, covers'⟩
      · rw [finished] at rest
        rcases rest.cases_head with same | ⟨next, step, -⟩
        · cases ended.trans same.symm
          exact Frame.readsExactly_none leads bars
        · cases step
      · exact ih covers' goesOn.symm

end Covering

/-- What is read is known exactly. For every frame, whether or not its bindings
lead back to themselves: the paths that an expression reads are found by the
rounds, which have no answer exactly if a call, a proc or an unbound name is
reached, and else have the paths of the names that are reached. The same holds of
a search from any part that keeps a list of parts to look at, whichever of them
it takes up next: it always goes on until it is over, it cannot go on forever,
and what it answers is told by what is reached. -/
theorem reads_are_what_is_reached (frame : Frame) :
    (∀ e : Expr, frame.ReadsExactly (.expr e) (frame.reads? e)) ∧
    (WellFounded fun after before => Step frame before after) ∧
    (∀ seen pending, ∃ after, Step frame (.working seen pending) after) ∧
    ∀ (part : Part) (answer : Option (List Path)),
      Relation.ReflTransGen (Step frame) (start part) (.finished answer) →
      frame.ReadsExactly part answer := by
  refine ⟨frame.readsExactly_reads?, steps_wellFounded frame, fun seen pending => ?_,
    fun part answer => (covers_start frame part).run⟩
  cases pending with
  | nil => exact ⟨_, .finish⟩
  | cons current rest => exact ⟨_, .take (.refl _)⟩

/-- A name of one segment as a part. -/
def namePart (text : String) : Part :=
  .expr (.identifier ⟨[text], default⟩)

/-- A frame in which `x` leads to `y` and `y` back to `x`. -/
def circle : Frame where
  bindings := [(["x"], .expr (.group (.identifier ⟨["y"], default⟩) default)),
    (["y"], .expr (.identifier ⟨["x"], default⟩))]
  distinct := by decide

private theorem circle_searched :
    Relation.ReflTransGen (Step circle) (start (namePart "x"))
      (.finished (some [["y"], ["x"]])) := by
  refine .head (b := .working [["x"]] [.expr (.group _ default)]) (.take (.refl _)) ?_
  refine .head (b := .working [["x"]] [namePart "y"]) (.take (.refl _)) ?_
  refine .head (b := .working [["y"], ["x"]] [namePart "x"]) (.take (.refl _)) ?_
  refine .head (b := .working [["y"], ["x"]] []) (.take (.refl _)) ?_
  exact .single .finish

theorem circle_is_searched_once :
    Relation.ReflTransGen (Step circle) (start (namePart "x")) (.finished (some [["y"], ["x"]])) ∧
      circle.ReadsExactly (namePart "x") (some [["y"], ["x"]]) ∧
      circle.reads? (.identifier ⟨["x"], default⟩) = some [["y"], ["x"]] := by
  obtain ⟨-, -, -, exactly⟩ := reads_are_what_is_reached circle
  exact ⟨circle_searched, exactly _ _ circle_searched, by decide⟩

end Search

end BasilLang
