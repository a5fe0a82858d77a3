import DeskCalc.Console

/-!
# The program

Feeds the console from standard input line by line, so that each reply is out
before the next line is read. `Console.program` says what comes of it all.
-/
namespace DeskCalc.Main

/-- The bytes through the next line feed, or up to the end of the input. -/
partial def nextLine (input : IO.FS.Stream) (line : Array UInt8) : IO (Array UInt8) := do
  let read ← input.read 1
  match read.data[0]? with
  | none => return line
  | some b => if b = Lines.lineFeed then return line.push b else nextLine input (line.push b)

def emit (level : LogLevel) (reply : Reply) : IO Unit := do
  (← IO.getStderr).putStr (logText .standard level reply.events)
  let stdout ← IO.getStdout
  stdout.putStr reply.output
  stdout.flush

def finish (ending : Ending) : IO UInt32 := do
  (← IO.getStderr).putStr (ending.report .standard)
  return ending.exitCode

partial def loop (config : Config) (input : IO.FS.Stream) (s : Session) : IO UInt32 := do
  let line ← nextLine input #[]
  match Lines.split line.toList with
  | [] => finish .finished
  | bytes :: _ =>
    match Console.turn config.marker s (Text.decode bytes) with
    | .stop ending => finish ending
    | .next s' reply =>
      emit config.logLevel reply
      loop config input s'

def start : IO UInt32 := do
  let marker ← IO.getEnv Config.markerVariable
  let log ← IO.getEnv Config.logVariable
  match Config.ofEnvironment fun name => if name = Config.markerVariable then marker else log with
  | .error e =>
    let refusal := Console.refusal .standard e
    (← IO.getStderr).putStr refusal.stderr
    return refusal.exitCode
  | .ok config => loop config (← IO.getStdin) {}

end DeskCalc.Main

def main : IO UInt32 := DeskCalc.Main.start
