/-! Room: the allowance for constructs that stand inside each other. Reading a
source and evaluating it each have so many units. A construct takes some of
them for as long as what stands inside it is worked on, and gives them back
afterwards; constructs side by side take nothing from each other. This is the
table of what each construct takes, beside the one unit that every operand,
statement and node takes for itself, and of what has to be left for the work
on the construct alone. -/
namespace BasilLang.Room

/-- Reading: the levels of operators between an expression and its operands. -/
def levels : Nat := 13

/-- Reading: an operand that holds something else. -/
def operand : Nat := 1

/-- Reading: the list of a call. -/
def callList : Nat := 1

/-- Reading: a statement that is more than an expression. -/
def statement : Nat := 1

/-- Reading: the parameters and the body of a proc. -/
def proc : Nat := 1

/-- Reading: a block up to its `end`. -/
def block : Nat := 1

/-- Reading: the most that one token can lead to. -/
def perToken : Nat := 16

/-- Evaluation: a node around the nodes inside it. -/
def node : Nat := 3

/-- Evaluation: a pair of parentheses, which is the lightest node. -/
def group : Nat := 2

/-- Evaluation: a body around its statements. -/
def body : Nat := 2

/-- Evaluation: a logical operation around its operands. -/
def logical : Nat := 1

/-- Evaluation: a declaration or an assignment around its value. -/
def binding : Nat := 1

/-- Evaluation: a call around an argument that has to be resolved. -/
def argument : Nat := 2

/-- Evaluation: a call around the body of the proc. -/
def call : Nat := 1

/-- Evaluation: a call around a parameter that is resolved at its end. -/
def settling : Nat := 2

/-- Evaluation: a built-in operation around its argument. -/
def builtin : Nat := 1

/-- Evaluation: an import around the body of the library. -/
def library : Nat := 1

/-- Evaluation: an import around the source of the library. -/
def reading : Nat := 2

/-- What has to be left inside any operand, statement or node. -/
def work : Nat := 6

/-- What has to be left to see whether an expression inside so many
parentheses names a proc. -/
def naming (groups : Nat) : Nat := groups + 4

/-- What has to be left to enter a proc. -/
def entering : Nat := 7

/-- What has to be left to note an event about a node. -/
def noting : Nat := 10

/-- What has to be left to spell out a tree of the given depth. -/
def spelling (depth : Nat) : Nat := 2 * depth + 2

/-- The units there are when no calls nest. -/
def whole : Nat := 1000

/-- The units that are taken before anything is evaluated. -/
def outset : Nat := 7

/-- What evaluation may take beside calls. -/
def plain : Nat := whole - outset

/-- What reading a source may take. -/
def source : Nat := plain - reading

/-- What each level of calls adds to what evaluation may take. -/
def perCall : Nat := 50

/-- The most units there can be. -/
def greatest : Nat := 2147483647

/-- What evaluation may take when calls may nest so deep; nothing when that
would be more than there can be. -/
def forCalls? (maxDepth : Int) : Option Nat :=
  if whole + perCall * maxDepth ≤ greatest then some (plain + perCall * maxDepth.toNat)
  else none

/-- The complaint about a call depth that asks for more than there can be. -/
def excessMessage : String := "Python int too large to convert to C int"

end BasilLang.Room
