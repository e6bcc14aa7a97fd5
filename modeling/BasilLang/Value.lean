/-! Values of the language: a kind and a text. Numbers and booleans stay
textual until an operation needs them, and equality compares both parts. -/
namespace BasilLang

/-- The four kinds of value. -/
inductive Kind where
  | string
  | number
  | boolean
  | null
deriving DecidableEq, Repr, Inhabited

/-- The kind's name in diagnostics and dumps. -/
def Kind.name : Kind → String
  | .string => "String"
  | .number => "Number"
  | .boolean => "Boolean"
  | .null => "Null"

/-- A resolved value. -/
structure Value where
  kind : Kind
  text : String
deriving DecidableEq, Repr, Inhabited

namespace Value

/-- The value of statements and of procs that return nothing. -/
def null : Value := ⟨.null, "null"⟩

/-- The Boolean of a truth value. -/
def boolean (flag : Bool) : Value := ⟨.boolean, if flag then "true" else "false"⟩

/-- Kind and unescaped text, as diagnostics show a value. -/
def shown (value : Value) : String :=
  s!"({value.kind.name}, \"{value.text}\")"

end Value

end BasilLang
