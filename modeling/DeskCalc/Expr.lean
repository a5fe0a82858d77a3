import DeskCalc.Number.Literal
import DeskCalc.Value

/-!
# Expressions

The tree that a line's text stands for. Parentheses leave no trace in it, so a
variable in parentheses is the variable.

The program computes while it reads and keeps no tree. `Reader` does so too, and by
`Reader.agrees` it comes to the same.
-/
namespace DeskCalc

inductive Expr where
  | number (literal : Literal)
  | var (name : String)
  | binary (op : Op) (left right : Expr)
  deriving DecidableEq, Repr

namespace Expr

/-- The value of an expression. Reading is all it does with the table.
Stands for what the program's `Parser.sum`, `term`, `factor` and `value` compute
(SPEC_FULL §4.2). -/
def eval (t : Table) : Expr → Value
  | .number l => .bare l.value
  | .var x => .lookup t x
  | .binary op a b => .combine op (a.eval t) (b.eval t)

end Expr

end DeskCalc
