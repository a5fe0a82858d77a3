import DeskCalc.Config
import DeskCalc.Console.Lines
import DeskCalc.Reporting
import DeskCalc.Session
import DeskCalc.Text.Encoding

/-!
# The console (SPEC_FULL §10.6)

Reads lines, obeys the few that are commands and evaluates the others in one
session. A run is described by a `Transcript`, from which the texts of standard
output and, given a `Reporting`, of the log follow.

`turn` is what the loop of the program's `main` does with one line and `run` is the
loop itself; `program` is `main` from the settings to the exit code.
-/
namespace DeskCalc

/-- What the user asks for with one line. -/
inductive Command where
  | skip
  | quit
  | clear
  | list
  | evaluate (line : String)
  deriving DecidableEq, Repr

/-- Commands are whole lines; with a space more they are expressions.
Stands for the cases of the loop in the program's `main`. -/
def Command.ofLine (line : String) : Command :=
  if line = "" then .skip
  else if line = "exit" then .quit
  else if line = "clear" then .clear
  else if line = "vars" then .list
  else .evaluate line

/-- What the console writes and logs in answer to one line. -/
structure Reply where
  output : String := ""
  events : List Event := []

/-- How a run ends. -/
inductive Ending where
  | finished
  /-- A line was no text. -/
  | undecodable
  deriving DecidableEq, Repr

/-- What one line comes to. -/
inductive Turn where
  | next (session : Session) (reply : Reply)
  | stop (ending : Ending)

/-- The replies to the lines of a run, in order, and its end. -/
structure Transcript where
  replies : List Reply
  ending : Ending

namespace Console

/-- Puts the cursor home on an empty screen. -/
def clearScreen : String := "\x1b[2J\x1b[H"

/-- One line of output behind the marker. -/
def outputLine (marker text : String) : String := marker ++ " " ++ text ++ "\n"

/-- The reply to a line that is evaluated. A line without a result is also
reported in the log.
Stands for the last case in `main`. -/
def evaluationReply (marker : String) (e : Evaluation) : Reply :=
  match e.result with
  | .ok answer => ⟨outputLine marker answer.text, e.events⟩
  | .error error => ⟨outputLine marker error.message, e.events ++ [.refused error]⟩

/-- One output line per variable.
Stands for the case `vars` in `main`. -/
def listing (marker : String) (t : Table) : String :=
  String.join (t.toList.map fun b => outputLine marker (b.name ++ " = " ++ displayNumber b.value))

def obey (marker : String) (s : Session) : Command → Turn
  | .skip => .next s {}
  | .quit => .stop .finished
  | .clear => .next s ⟨clearScreen, []⟩
  | .list => .next s ⟨listing marker s.table, []⟩
  | .evaluate line =>
    let e := s.evaluate line
    .next e.session (evaluationReply marker e)

/-- The turn of one line of the input; `none` stands for a line that is no text.
Stands for the body of the loop in `main`. -/
def turn (marker : String) (s : Session) : Option String → Turn
  | none => .stop .undecodable
  | some line => obey marker s (.ofLine line)

/-- The run over the lines of the input.
Stands for the loop in `main`. -/
def run (marker : String) (s : Session) : List (Option String) → Transcript
  | [] => ⟨[], .finished⟩
  | line :: rest =>
    match turn marker s line with
    | .stop ending => ⟨[], ending⟩
    | .next s' reply =>
      let t := run marker s' rest
      ⟨reply :: t.replies, t.ending⟩

end Console

/-! ## Output streams -/

/-- The log of some events at a level: those that are shown, each once and in order.
Stands for what `init_with_level` installs (§10.3). -/
def logText (reporting : Reporting) (level : LogLevel) (events : List Event) : String :=
  String.join ((events.filter (·.level.shownAt level)).map reporting.line)

namespace Ending

/-- How the end of a run is reported, if it is not the end of the input. -/
def report (reporting : Reporting) : Ending → String
  | .finished => ""
  | .undecodable => reporting.fatal "reading input" "stream did not contain valid UTF-8"

def exitCode : Ending → UInt32
  | .finished => 0
  | .undecodable => 1

end Ending

/-- What the program leaves on its two output streams, and its exit code. -/
structure Outcome where
  stdout : String
  stderr : String
  exitCode : UInt32
  deriving DecidableEq, Repr

namespace Transcript

def output (t : Transcript) : String := String.join (t.replies.map Reply.output)

def events (t : Transcript) : List Event := t.replies.flatMap Reply.events

def outcome (t : Transcript) (level : LogLevel) (reporting : Reporting) : Outcome :=
  ⟨t.output, logText reporting level t.events ++ t.ending.report reporting, t.ending.exitCode⟩

end Transcript

namespace Console

/-- The settings in an environment of bytes. A variable that is no text counts
as not set.
Stands for the program's `ReplConfig.from_env` (§10.4). -/
def configure (environment : String → Option (List UInt8)) : Except ConfigError Config :=
  Config.ofEnvironment fun name => (environment name).bind Text.decode

/-- The end of a run that does not begin, the settings being unsound. -/
def refusal (reporting : Reporting) (e : ConfigError) : Outcome :=
  ⟨"", reporting.fatal e.context e.cause.message, 1⟩

/-- The whole program, its `main`: nothing is read unless the settings are sound. -/
def program (environment : String → Option (List UInt8)) (input : List UInt8)
    (reporting : Reporting := .standard) : Outcome :=
  match configure environment with
  | .error e => refusal reporting e
  | .ok config =>
    (run config.marker {} ((Lines.split input).map Text.decode)).outcome config.logLevel reporting

end Console

end DeskCalc
