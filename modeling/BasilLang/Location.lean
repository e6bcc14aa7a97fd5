/-! Places in a source text. Lines and columns count from one, columns count
characters, and only a line feed begins a new line. -/
namespace BasilLang

/-- A line and a column. -/
structure Pos where
  line : Nat
  column : Nat
deriving DecidableEq, Repr, Inhabited

namespace Pos

/-- Where a text begins. -/
def first : Pos := ⟨1, 1⟩

/-- Where the next character stands, after one that stands here. -/
def next (pos : Pos) (c : Char) : Pos :=
  if c = '\n' then ⟨pos.line + 1, 1⟩ else ⟨pos.line, pos.column + 1⟩

/-- Where a text ends that begins here. -/
def after (pos : Pos) (cs : List Char) : Pos :=
  cs.foldl next pos

/-- Line and column, as diagnostics write them. -/
def text (pos : Pos) : String :=
  s!"{pos.line}:{pos.column}"

end Pos

/-- A place in a named source. -/
structure Loc where
  file : String
  pos : Pos
deriving DecidableEq, Repr, Inhabited

namespace Loc

/-- The beginning of a source. -/
def start (file : String) : Loc := ⟨file, .first⟩

/-- File, line and column, as diagnostics write them. -/
def text (loc : Loc) : String :=
  s!"{loc.file}:{loc.pos.text}"

end Loc

end BasilLang
