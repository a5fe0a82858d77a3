import DeskCalc.Expr.Parser

/-!
# Statements (SPEC_FULL §4.2)

What one line says: an expression to be answered, or an assignment. Reading does
not look at the table and carrying out does not look at the text, so what is
wrong with a line's form is the same whatever the variables hold.
-/
namespace DeskCalc

inductive Statement where
  | answer (body : Expr)
  /-- The equals sign stands at byte `position`. -/
  | assign (target : Expr) (position : Nat) (body : Expr)
  deriving DecidableEq, Repr

namespace Statement

/-- Reads the statement in front of a line and tells where it ends.
Stands for the program's `Parser.assign`, as far as it reads. -/
def read (line : String) : Except SyntaxError (Statement × Cursor) := do
  let (left, c) ← Expr.read (.start line)
  let c := c.skipSpaces
  match c.eat .assign with
  | none => return (.answer left, c)
  | some (_, c₁) =>
    let (body, c₂) ← Expr.read c₁.skipSpaces
    return (.assign left c.offset body, c₂)

/-- The binding that the statement writes.
Stands for the program's `Parser.assign`, as far as it calls `Value.assign` and
`into_answer`. -/
def outcome (t : Table) : Statement → Except EvalError Binding
  | .answer body => .ok (body.eval t).answer
  | .assign target position body =>
    match (target.eval t).assign? (body.eval t) with
    | some b => .ok b
    | none => .error (.notAssignable position)

end Statement

end DeskCalc
