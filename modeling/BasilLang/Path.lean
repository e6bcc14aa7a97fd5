/-! Names. Every name is a path of segments divided by dots, and a frame
knows its bindings by whole paths. -/
namespace BasilLang

/-- The segments of a dotted name. -/
abbrev Path := List String

namespace Path

/-- The segments between the dots; a text without dots is one segment. -/
def splitDots : List Char → List (List Char)
  | [] => [[]]
  | c :: cs =>
    if c = '.' then [] :: splitDots cs
    else match splitDots cs with
      | [] => [[c]]
      | segment :: segments => (c :: segment) :: segments

/-- The path that a dotted name spells. -/
def ofText (name : String) : Path :=
  (splitDots name.toList).map String.ofList

/-- Whether a name has more than one segment. -/
def isDotted (name : String) : Bool :=
  name.toList.contains '.'

/-- The dotted name of a path. -/
def text : Path → String
  | [] => ""
  | [segment] => segment
  | segment :: segments => segment ++ "." ++ text segments

end Path

end BasilLang
