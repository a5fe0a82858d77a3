import DeskCalc.Event
import DeskCalc.Statement

/-!
# Sessions (SPEC_FULL §6, §10.5)

A session holds the variables and evaluates one line after another. A line that
fails leaves them as they were, except that a statement with text left over
behind it has already been carried out when the text is found.
-/
namespace DeskCalc

/-- Stands for the program's `Session`. -/
structure Session where
  table : Table := {}

/-- The result of a line: what it wrote and how that is shown.
Stands for the program's `FormattedValue`. -/
structure Answer where
  binding : Binding
  text : String
  deriving BEq

/-- What comes of evaluating a line. -/
structure Evaluation where
  session : Session
  result : Except EvalError Answer
  events : List Event

namespace Session

/-- A line without a result, after the given events.
Stands for the case of an error in the program's `Session.evaluate`. -/
def refuse (s : Session) (line : String) (events : List Event) (e : EvalError) : Evaluation :=
  ⟨s, .error e, events ++ [.evaluationFailed line e]⟩

/-- Carries out the binding of a statement behind which the line goes on at `c`.
Stands for the end of the program's `parse` (§4.2) and the case of a value in its
`Session.evaluate`. -/
def record (s : Session) (line : String) (b : Binding) (c : Cursor) : Evaluation :=
  let s : Session := ⟨s.table.write b⟩
  match c.rest with
  | [] =>
    let text := (Value.named b).render s.table
    ⟨s, .ok ⟨b, text⟩, [.variableSet b, .evaluated line text]⟩
  | _ :: _ =>
    let e := .trailing c.offset c.found
    s.refuse line [.variableSet b, .leftOver e] (.malformed e)

/-- Stands for the program's `Session.evaluate`, with `parse` in it. -/
def evaluate (s : Session) (line : String) : Evaluation :=
  match Statement.read line with
  | .error e => s.refuse line [] (.malformed e)
  | .ok (statement, c) =>
    match statement.outcome s.table with
    | .error e => s.refuse line [] e
    | .ok b => s.record line b c

end Session

end DeskCalc
