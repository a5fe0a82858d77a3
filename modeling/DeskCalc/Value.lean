import DeskCalc.Number.Display
import DeskCalc.Table

/-!
# Values (SPEC_FULL §3, §10.1)

What an expression comes to. A value read from a variable still knows the name
and can be assigned to; arithmetic yields a bare number.
-/
namespace DeskCalc

/-- Stands for the program's `Value`, `named` for `Bound` and `bare` for `Unbound`. -/
inductive Value where
  | named (binding : Binding)
  | bare (number : Float)
  deriving BEq

/-- The binary operations. -/
inductive Op where
  | add | sub | mul | div | pow
  deriving DecidableEq, Repr

/-- Stands for the program's `Value.add`, `sub`, `mul`, `div` and `pow`, on the numbers. -/
def Op.apply : Op → Float → Float → Float
  | .add, x, y => x + y
  | .sub, x, y => x - y
  | .mul, x, y => x * y
  | .div, x, y => x / y
  | .pow, x, y => x.pow y

/-- The name under which every result without one of its own is kept.
Stands for the program's `ANSWER`. -/
def answerName : String := "ans"

namespace Value

/-- Stands for the program's `Value.magnitude`. -/
def number : Value → Float
  | .named b => b.value
  | .bare x => x

/-- Stands for the program's `Value.name`. -/
def name? : Value → Option String
  | .named b => some b.name
  | .bare _ => none

/-- The variable as the table has it now.
Stands for the program's `Value.lookup`. -/
def lookup (t : Table) (name : String) : Value := .named ⟨name, t.get name⟩

/-- Stands for the program's `Value.add`, `sub`, `mul`, `div` and `pow`. -/
def combine (op : Op) (x y : Value) : Value := .bare (op.apply x.number y.number)

/-- The binding that assigning `rhs` to the value makes. A value without a name
takes no assignment.
Stands for the program's `Value.assign`, which also writes the binding. -/
def assign? : Value → Value → Option Binding
  | .named b, rhs => some ⟨b.name, rhs.number⟩
  | .bare _, _ => none

/-- The value under the name of the last answer, whatever its own name is.
Stands for the program's `Value.into_answer`, which also writes the binding. -/
def answer (v : Value) : Binding := ⟨answerName, v.number⟩

/-- A named value shows its name, and its number once the table has the name.
Stands for the program's `Value.render`. -/
def render (t : Table) : Value → String
  | .named b => if t.contains b.name then b.name ++ " = " ++ displayNumber b.value else b.name
  | .bare x => displayNumber x

end Value

end DeskCalc
