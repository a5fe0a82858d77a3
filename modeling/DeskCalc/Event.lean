import DeskCalc.Error
import DeskCalc.LogLevel
import DeskCalc.Table

/-!
# Events (SPEC_FULL §10.3)

What the program tells the log library about the evaluation of lines: a level, a
message and fields. How that reads in the log is the library's business
(`Reporting`).
-/
namespace DeskCalc

inductive Event where
  /-- Stands for the event of the program's `VariableTable.set`. -/
  | variableSet (binding : Binding)
  /-- Stands for the event of `Session.evaluate` for a line with a result. -/
  | evaluated (line text : String)
  /-- Text was left over behind a statement that has been carried out.
  Stands for the event of `parse`. -/
  | leftOver (error : SyntaxError)
  /-- Stands for the event of `Session.evaluate` for a line without a result. -/
  | evaluationFailed (line : String) (error : EvalError)
  /-- The console reports a line without a result.
  Stands for the event of `main` (§10.6). -/
  | refused (error : EvalError)
  deriving BEq

/-- What a field of an event carries: a text or a number as such, or the display of
something else. -/
inductive FieldValue where
  | text (s : String)
  | number (x : Float)
  | display (s : String)
  deriving BEq

namespace Event

def level : Event → LogLevel
  | .refused _ => .warn
  | _ => .debug

def message : Event → String
  | .variableSet _ => "variable set"
  | .evaluated .. => "evaluated"
  | .leftOver _ => "input left after expression"
  | .evaluationFailed .. => "evaluation failed"
  | .refused e => e.message

/-- The fields by their names, in order. -/
def fields : Event → List (String × FieldValue)
  | .variableSet b => [("name", .text b.name), ("value", .number b.value)]
  | .evaluated line text => [("line", .text line), ("result", .display text)]
  | .leftOver e => [("err", .display e.message)]
  | .evaluationFailed line e => [("line", .text line), ("error", .display e.message)]
  | .refused e => [("kind", .text e.kind)]

end Event

end DeskCalc
