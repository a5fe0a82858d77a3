import DeskCalc.LogLevel

/-!
# Configuration (SPEC_FULL §10.4)

The console's two settings and the environment variables they are read from.
-/
namespace DeskCalc

/-- Stands for the program's `ReplConfig` and its defaults. -/
structure Config where
  /-- Written before each result. -/
  marker : String := ">>>"
  logLevel : LogLevel := .warn
  deriving DecidableEq, Repr

/-- An environment variable whose text makes no setting.
Stands for the error of the program's `ReplConfig.from_lookup`: a context with its cause. -/
structure ConfigError where
  name : String
  cause : UnknownLevel
  deriving DecidableEq, Repr

namespace ConfigError

/-- What was being done when the setting turned out to be none. -/
def context (e : ConfigError) : String := "reading " ++ e.name

def message (e : ConfigError) : String := e.context ++ ": " ++ e.cause.message

end ConfigError

namespace Config

/-- Stands for the program's `MARKER_VAR`. -/
def markerVariable : String := "VARCALC_MARKER"

/-- Stands for the program's `LOG_VAR`. -/
def logVariable : String := "VARCALC_LOG"

/-- The settings in an environment. A variable that is not set leaves the
default.
Stands for the program's `ReplConfig.from_lookup`. -/
def ofEnvironment (lookup : String → Option String) : Except ConfigError Config := do
  let defaults : Config := {}
  let marker := (lookup markerVariable).getD defaults.marker
  match lookup logVariable with
  | none => return { defaults with marker }
  | some text =>
    match LogLevel.ofName text with
    | .ok logLevel => return { marker, logLevel }
    | .error cause => throw ⟨logVariable, cause⟩

end Config

end DeskCalc
