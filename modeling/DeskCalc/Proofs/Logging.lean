import DeskCalc.Proofs.Journal

/-!
# The level of the log

The setting of the log chooses among the events of a run and changes nothing else: what
is written and how the program ends is the same at every level. A setting that names no
level ends the program before it has read anything.

Results:
* `configure_withLog`: the settings in an environment with a setting of the log.
* `run_warnings`: what the log of a run shows above the lowest level.
* `program_logged`: the program with any setting of the log, whatever the reporting.
* `program_undecodable_level`: a setting that is no text is not refused.
-/
namespace DeskCalc

/-! ## Names of levels -/

def levelNames : List (String × LogLevel) :=
  [("debug", .debug), ("info", .info), ("warn", .warn), ("warning", .warn), ("error", .error)]

namespace LogLevel

theorem ofName_of_mem {text : String} {level : LogLevel} (h : (text.map Char.toLower, level) ∈ levelNames) :
    ofName text = .ok level := by
  simp only [levelNames, List.mem_cons, Prod.mk.injEq, List.not_mem_nil, or_false] at h
  rcases h with ⟨h, rfl⟩ | ⟨h, rfl⟩ | ⟨h, rfl⟩ | ⟨h, rfl⟩ | ⟨h, rfl⟩ <;> simp [ofName, h]

theorem ofName_of_not_mem {text : String} (h : ∀ level, (text.map Char.toLower, level) ∉ levelNames) :
    ofName text = .error ⟨text.map Char.toLower⟩ := by
  have hne {name : String} {level : LogLevel} (hname : (name, level) ∈ levelNames) : text.map Char.toLower ≠ name :=
    fun e => h level (e ▸ hname)
  have hdebug := @hne "debug" .debug (by decide)
  have hinfo := @hne "info" .info (by decide)
  have hwarn := @hne "warn" .warn (by decide)
  have hwarning := @hne "warning" .warn (by decide)
  have herror := @hne "error" .error (by decide)
  simp [ofName, hdebug, hinfo, hwarn, hwarning, herror]

end LogLevel

/-! ## Events that are shown -/

/-- No event is severer than a warning. -/
theorem Event.severity_level_le (e : Event) : e.level.severity ≤ LogLevel.warn.severity := by
  cases e <;> simp [level, LogLevel.severity]

def Evaluation.error? (e : Evaluation) : Option EvalError :=
  match e.result with
  | .ok _ => none
  | .error e => some e

/-- The events of a run that are as severe as the level. -/
def Transcript.eventsFrom (t : Transcript) (level : LogLevel) : List Event :=
  t.events.filter (level.severity ≤ ·.level.severity)

/-- Above the lowest level a line shows its error, if it has one. -/
theorem Session.Logged.warnings {s : Session} {line : String} {events : List Event} (h : s.Logged line events)
    {level : LogLevel} (hl : level = .info ∨ level = .warn) :
    events.filter (level.severity ≤ ·.level.severity) = (s.evaluate line).error?.toList.map .refused := by
  cases h with
  | answered h | failed h | leftOver h =>
    rcases hl with rfl | rfl <;> simp [Evaluation.error?, h, Event.level, LogLevel.severity]

theorem Session.evaluations_append (s : Session) (ls ls' : List String) :
    s.evaluations (ls ++ ls') = s.evaluations ls ++ (s.after ls).evaluations ls' := by
  induction ls generalizing s with
  | nil => rfl
  | cons line rest ih => exact congrArg (s.evaluate line :: ·) (ih _)

namespace Console

/-- The errors of the lines that are evaluated and have no result, in order. -/
def failures (s : Session) (lines : List (Option String)) : List EvalError :=
  (s.evaluations ((processed lines).filter isEvaluated)).filterMap Evaluation.error?

theorem failures_line (s : Session) {line : String} (rest : List (Option String)) (h : line ≠ "exit") :
    failures s (some line :: rest) =
      (s.evaluations ([line].filter isEvaluated)).filterMap Evaluation.error? ++
        failures (s.after ([line].filter isEvaluated)) rest := by
  rw [failures, failures, processed_line rest h, ← List.singleton_append, List.filter_append,
    Session.evaluations_append, List.filterMap_append]

theorem LoggedLine.warnings {s : Session} {line : String} {events : List Event} (h : LoggedLine s line events)
    {level : LogLevel} (hl : level = .info ∨ level = .warn) :
    events.filter (level.severity ≤ ·.level.severity) =
      ((s.evaluations ([line].filter isEvaluated)).filterMap Evaluation.error?).map .refused := by
  unfold LoggedLine at h
  split at h
  · rename_i he
    rw [h.warnings hl, List.filter_cons_of_pos he, List.filter_nil, Session.evaluations, Session.evaluations]
    cases hr : (s.evaluate line).error? <;> simp [hr]
  · rename_i he
    rw [h, List.filter_cons_of_neg he]
    rfl

/-- Above the lowest level the log of a run shows the errors of its lines. -/
theorem run_warnings (marker : String) (s : Session) (lines : List (Option String)) {level : LogLevel}
    (hl : level = .info ∨ level = .warn) :
    (run marker s lines).eventsFrom level = (failures s lines).map .refused := by
  induction lines using lines_induction generalizing s with
  | nil => rfl
  | undecodable rest => rfl
  | exit rest => simp [run, turn_exit, Transcript.eventsFrom, Transcript.events, failures, Session.evaluations]
  | line l rest h ih =>
    obtain ⟨reply, ht, -, hlog⟩ := turn_logged marker s h
    have hevents : (run marker s (some l :: rest)).events =
        reply.events ++ (run marker (s.after ([l].filter isEvaluated)) rest).events := by
      rw [run, ht]
      rfl
    have hrest := ih (s.after ([l].filter isEvaluated))
    rw [Transcript.eventsFrom] at hrest ⊢
    rw [hevents, List.filter_append, hlog.warnings hl, hrest, failures_line s rest h, List.map_append]

/-! ## Settings -/

/-- The environment with this setting of the log, or without any. -/
def withLog (environment : String → Option (List UInt8)) (value : Option (List UInt8)) : String → Option (List UInt8) :=
  fun name => if name = Config.logVariable then value else environment name

/-- The marker in an environment. -/
def markerOf (environment : String → Option (List UInt8)) : String :=
  ((environment Config.markerVariable).bind Text.decode).getD ">>>"

/-- The run over the input, with the marker in the environment. -/
def transcript (environment : String → Option (List UInt8)) (input : List UInt8) : Transcript :=
  run (markerOf environment) {} (inputLines input)

theorem withLog_marker (environment : String → Option (List UInt8)) (value : Option (List UInt8)) :
    withLog environment value Config.markerVariable = environment Config.markerVariable := if_neg (by decide)

theorem withLog_log (environment : String → Option (List UInt8)) (value : Option (List UInt8)) :
    withLog environment value Config.logVariable = value := if_pos rfl

theorem configure_withLog (environment : String → Option (List UInt8)) {value : List UInt8} {text : String}
    (h : Text.decode value = some text) : configure (withLog environment (some value)) =
      match LogLevel.ofName text with
      | .ok level => .ok ⟨markerOf environment, level⟩
      | .error cause => .error ⟨Config.logVariable, cause⟩ := by
  simp only [configure, Config.ofEnvironment, withLog_marker, withLog_log, Option.bind_some, h]
  rfl

/-- A setting of the log that is no text counts as none. -/
theorem configure_withLog_undecodable (environment : String → Option (List UInt8)) {value : List UInt8}
    (h : Text.decode value = none) :
    configure (withLog environment (some value)) = configure (withLog environment none) := by
  simp only [configure, Config.ofEnvironment, withLog_marker, withLog_log, Option.bind_some, Option.bind_none, h]

/-- Two settings of the log that name levels differ in nothing but the events that are
shown: those of the run that are as severe as the level. That is all of them, or one for
each line without a result, or none. A text that names no level ends the program at
once, whatever the marker and the input are; a setting that is no text counts as none.
How the log puts an event into text does not matter, and neither does how an error that
ends the program is reported. -/
theorem program_logged (environment : String → Option (List UInt8)) (input : List UInt8) (reporting : Reporting) :
    (∀ value text level, Text.decode value = some text → (text.map Char.toLower, level) ∈ levelNames →
      program (withLog environment (some value)) input reporting =
        ⟨(transcript environment input).output,
          String.join (((transcript environment input).eventsFrom level).map reporting.line) ++
            (transcript environment input).ending.report reporting,
          (transcript environment input).ending.exitCode⟩) ∧
    (transcript environment input).eventsFrom .debug = (transcript environment input).events ∧
    (transcript environment input).eventsFrom .info = (failures {} (inputLines input)).map .refused ∧
    (transcript environment input).eventsFrom .warn = (failures {} (inputLines input)).map .refused ∧
    (transcript environment input).eventsFrom .error = [] ∧
    (∀ value text, Text.decode value = some text → (∀ level, (text.map Char.toLower, level) ∉ levelNames) →
      program (withLog environment (some value)) input reporting =
        ⟨"", reporting.fatal "reading VARCALC_LOG" ("unknown log level " ++ Text.quote (text.map Char.toLower)), 1⟩) ∧
    ∀ value, Text.decode value = none →
      program (withLog environment (some value)) input reporting =
        program (withLog environment none) input reporting := by
  refine ⟨fun value text level h hlevel => ?_, ?_, run_warnings _ {} _ (.inl rfl), run_warnings _ {} _ (.inr rfl), ?_,
    fun value text h hlevel => ?_, fun value h => ?_⟩
  · have hc := configure_withLog environment h
    rw [LogLevel.ofName_of_mem hlevel] at hc
    exact program_eq hc input reporting
  · exact Event.filter_shownAt_debug _
  · refine List.filter_eq_nil_iff.mpr fun e _ he => ?_
    exact absurd (Nat.le_trans (of_decide_eq_true he) e.severity_level_le) (by decide)
  · rw [program, configure_withLog environment h, LogLevel.ofName_of_not_mem hlevel]
    rfl
  · rw [program, program, configure_withLog_undecodable environment h]

/-- One line fails and one has a result. -/
theorem program_logged_of_two :
    let environment (name : String) : Option (List UInt8) :=
      if name = "VARCALC_MARKER" then some "=>".toUTF8.data.toList else none
    let input := "1 = 2\n3".toUTF8.data.toList
    program (withLog environment (some "Info".toUTF8.data.toList)) input =
      ⟨"=> AssignmentError: value cannot be assigned (\"=\" at 2)\n=> ans = 3\n",
        " WARN AssignmentError: value cannot be assigned (\"=\" at 2) kind=\"AssignmentError\"\n", 0⟩ ∧
    program (withLog environment (some "Loud".toUTF8.data.toList)) input =
      ⟨"", "Error: reading VARCALC_LOG\n\nCaused by:\n    unknown log level \"loud\"\n", 1⟩ ∧
    program (withLog environment (some [0xff])) input = program (withLog environment none) input := by
  intro environment input
  obtain ⟨hlevel, -, hinfo, -, -, hunknown, hundecodable⟩ := program_logged environment input .standard
  refine ⟨?_, ?_, hundecodable [0xff] (by decide +kernel)⟩
  · rw [hlevel _ "Info" .info (by decide +kernel) (by decide +kernel), hinfo]
    decide +kernel
  · have hnone : ∀ level, ("Loud".map Char.toLower, level) ∉ levelNames := by
      intro level
      cases level <;> decide +kernel
    rw [hunknown _ "Loud" (by decide +kernel) hnone]
    decide +kernel

/-- The byte with an upper-case ASCII letter made lower. -/
def lowerByte (b : UInt8) : UInt8 := if 65 ≤ b ∧ b ≤ 90 then b + 32 else b

/-- Not every setting of the log whose bytes name no level ends the program: one that is
no text does not. -/
theorem program_undecodable_level : ¬ ∀ value : List UInt8,
    (∀ name ∈ levelNames.map Prod.fst, value.map lowerByte ≠ name.toUTF8.data.toList) → ∀ environment input,
      (program (withLog environment (some value)) input).stdout = "" ∧
      (program (withLog environment (some value)) input).exitCode = 1 := by
  intro h
  obtain ⟨-, hexit⟩ := h [0xff] (by decide +kernel) (fun _ => none) "1".toUTF8.data.toList
  exact absurd hexit (by decide +kernel)

end Console

end DeskCalc
