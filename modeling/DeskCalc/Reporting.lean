import DeskCalc.Event
import DeskCalc.Number.Display
import DeskCalc.Text.Quoted
import DeskCalc.Text.Terminal

/-!
# Reports (SPEC_FULL §10.2, §10.3)

Two texts of a run are not the program's own. The log library puts events into lines,
and the error library puts an error that ends the program into a report. Neither
library is part of the program, so a `Reporting` stands for the two wherever a run is
told, and what is proved of runs holds for any of them.

`Reporting.standard` is the one that the program is linked with, written after what
the two libraries are seen to put out.
-/
namespace DeskCalc

/-- How the libraries put into text what the program hands them. -/
structure Reporting where
  /-- The line of the log for an event that is shown. -/
  line : Event → String
  /-- The report of an error that ends the program: what was being done, and the cause. -/
  fatal : (context cause : String) → String

/-! ## The log library -/

/-- A text is quoted, a number has a fraction digit or an exponent, and the display of
something stands as it is. -/
def FieldValue.render : FieldValue → String
  | .text s => Text.quote s
  | .number x => logNumber x
  | .display s => s

/-- The level in five columns, the message, inert for whoever reads the log on a
terminal, and the fields as they are. -/
def Event.render (e : Event) : String :=
  let label := e.level.label
  "".pushn ' ' (5 - label.length) ++ label ++ " " ++ Text.inert e.message ++
    String.join (e.fields.map fun (name, value) => " " ++ name ++ "=" ++ value.render) ++ "\n"

/-! ## The error library -/

/-- The context in the first line, the cause in a paragraph of its own. -/
def fatalReport (context cause : String) : String :=
  "Error: " ++ context ++ "\n\nCaused by:\n    " ++ cause ++ "\n"

/-- The reporting of the libraries that the program is linked with. -/
def Reporting.standard : Reporting := ⟨Event.render, fatalReport⟩

end DeskCalc
