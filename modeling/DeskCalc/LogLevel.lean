import DeskCalc.Text.Quoted

/-!
# Log levels (SPEC_FULL §10.3, §10.4)

How severe an event is, and so from which setting on the log shows it.
-/
namespace DeskCalc

/-- Stands for the program's `LogLevel`. -/
inductive LogLevel where
  | debug | info | warn | error
  deriving DecidableEq, Repr

/-- A text that names no level.
Stands for the error of the program's `LogLevel.from_str`. -/
structure UnknownLevel where
  text : String
  deriving DecidableEq, Repr

def UnknownLevel.message (e : UnknownLevel) : String := "unknown log level " ++ Text.quote e.text

namespace LogLevel

def severity : LogLevel → Nat
  | .debug => 0
  | .info => 1
  | .warn => 2
  | .error => 3

/-- A log at `setting` shows this level and those above.
Stands for the filter of the program's `init_with_level`. -/
def shownAt (level setting : LogLevel) : Bool := setting.severity ≤ level.severity

/-- The level as the log library names it.
Stands for the conversion of the program's `LogLevel` to a level of the library. -/
def label : LogLevel → String
  | .debug => "DEBUG"
  | .info => "INFO"
  | .warn => "WARN"
  | .error => "ERROR"

/-- The level with the given name, in any mixture of ASCII cases.
Stands for the program's `LogLevel.from_str`. -/
def ofName (text : String) : Except UnknownLevel LogLevel :=
  let name := text.map Char.toLower
  if name = "debug" then .ok .debug
  else if name = "info" then .ok .info
  else if name = "warn" ∨ name = "warning" then .ok .warn
  else if name = "error" then .ok .error
  else .error ⟨name⟩

end LogLevel

end DeskCalc
