import DeskCalc.Proofs.Dialogue
import DeskCalc.Proofs.Independence
import DeskCalc.Proofs.Mending

/-!
# The log as a journal

At its lowest level the log tells all that happens to the variables: each line that is
evaluated leaves one of three sequences of events, and whoever carries out the writes
that are logged has the session's table at every line of the run.

Results:
* `Session.logged`: the events of one line.
* `Session.Logged.replay_eq`: what they tell of the table.
* `run_logged`: both for the lines of a run.
* `program_journal`: the same for the bytes of the input, whatever the reporting.
-/
namespace DeskCalc

/-! ## Writes that were logged -/

/-- The write that the event tells of. -/
def Event.binding? : Event → Option Binding
  | .variableSet b => some b
  | _ => none

/-- The table after the writes that the events tell of. -/
def Table.replay (t : Table) (events : List Event) : Table := (events.filterMap Event.binding?).foldl Table.write t

@[simp] theorem Table.replay_nil (t : Table) : t.replay [] = t := rfl

theorem Table.replay_append (t : Table) (es es' : List Event) : t.replay (es ++ es') = (t.replay es).replay es' := by
  rw [replay, List.filterMap_append, List.foldl_append]
  rfl

/-- At its lowest level the log shows every event. -/
theorem Event.filter_shownAt_debug (events : List Event) : events.filter (·.level.shownAt .debug) = events :=
  List.filter_eq_self.mpr fun e _ => decide_eq_true (Nat.zero_le e.level.severity)

/-! ## The events of a line -/

namespace Session

/-- The events of a line that is evaluated, by what comes of it. -/
inductive Logged (s : Session) (line : String) : List Event → Prop
  | answered {a : Answer} (h : (s.evaluate line).result = .ok a) :
      Logged s line [.variableSet a.binding, .evaluated line a.text]
  | failed {e : EvalError} (h : (s.evaluate line).result = .error e) (he : ∀ p f, e ≠ .malformed (.trailing p f)) :
      Logged s line [.evaluationFailed line e, .refused e]
  /-- What stands in front of the position has been carried out. -/
  | leftOver {p : Nat} {f : Found} {a : Answer} (h : (s.evaluate line).result = .error (.malformed (.trailing p f)))
      (ha : (s.evaluate (cut p line)).result = .ok a) :
      Logged s line [.variableSet a.binding, .leftOver (.trailing p f),
        .evaluationFailed line (.malformed (.trailing p f)), .refused (.malformed (.trailing p f))]

variable {s : Session} {line : String}

/-- What the console logs for a line. -/
theorem logged (s : Session) (line marker : String) :
    s.Logged line (Console.evaluationReply marker (s.evaluate line)).events := by
  rcases evaluate_cases s line with ⟨e, hr, he⟩ | ⟨d, c, e, -, ho, he⟩ | ⟨d, c, b, hd, ho, he⟩
  · have hne (p : Nat) (f : Found) : EvalError.malformed e ≠ .malformed (.trailing p f) := fun h =>
      Statement.read_ne_trailing line p f (hr.trans (congrArg _ (EvalError.malformed.inj h)))
    have := Logged.failed (congrArg Evaluation.result he) hne
    rwa [he]
  · obtain ⟨p, rfl⟩ := Clause.outcome_error ho
    have := Logged.failed (congrArg Evaluation.result he) nofun
    rwa [he]
  · obtain ⟨o, r⟩ := c
    obtain rfl : o = d.text.length := hd.offset_eq
    cases r with
    | nil =>
      have := Logged.answered (congrArg Evaluation.result he)
      rwa [he]
    | cons x r =>
      obtain ⟨a, hcut, rfl⟩ : ∃ a, (s.evaluate (cut d.text.length line)).result = .ok a ∧ a.binding = b := by
        rw [cut_of_heads hd, evaluate_of_heads (Clause.heads_text hd.nesting_le) ho]
        exact ⟨_, rfl, rfl⟩
      have := Logged.leftOver (congrArg Evaluation.result he) hcut
      rwa [he]

/-- The writes in the log are those of the line. -/
theorem Logged.replay_eq {events : List Event} (h : s.Logged line events) :
    s.table.replay events = (s.evaluate line).session.table := by
  cases h with
  | answered h => exact (table_of_result_ok h).symm
  | failed h he =>
    rcases s.mend_cases line with ⟨-, -, hs⟩ | ⟨line', hm, -⟩
    · rw [hs]
      rfl
    · rw [Evaluation.mend, h] at hm
      split at hm
      · rename_i heq
        cases heq
      · rename_i heq
        exact absurd (Except.error.inj heq) (he _ _)
      · cases hm
  | leftOver h ha =>
    obtain ⟨d, b, x, r, hd, ho, rfl, hs⟩ := exists_of_leftOver h
    have hcut := (s.evaluate_clause hd.nesting_le ho).2
    rw [← cut_of_heads hd, ← hs] at hcut
    rw [← hcut]
    exact (table_of_result_ok ha).symm

end Session

/-! ## Runs -/

/-- What has been logged when `n` lines have been replied to. -/
def Transcript.journal (t : Transcript) (n : Nat) : List Event := (t.replies.take n).flatMap Reply.events

namespace Console

/-- The session in which line `i` of those that are processed is. -/
def sessionAt (s : Session) (lines : List (Option String)) (i : Nat) : Session :=
  s.after (((processed lines).take i).filter isEvaluated)

theorem sessionAt_succ (s : Session) {line : String} (rest : List (Option String)) (h : line ≠ "exit") (i : Nat) :
    sessionAt s (some line :: rest) (i + 1) = sessionAt (s.after ([line].filter isEvaluated)) rest i := by
  rw [sessionAt, sessionAt, processed_line rest h, List.take_succ_cons, ← List.singleton_append, List.filter_append,
    Session.after_append]

/-- That session is the one with which the run goes on. -/
theorem replies_drop (marker : String) (s : Session) (lines : List (Option String)) {i : Nat}
    (hi : i ≤ (processed lines).length) :
    (run marker s lines).replies.drop i = (run marker (sessionAt s lines i) (lines.drop i)).replies := by
  induction lines using lines_induction generalizing s i with
  | nil | undecodable rest =>
    obtain rfl : i = 0 := Nat.le_zero.mp hi
    rfl
  | exit rest =>
    obtain rfl : i = 0 := by simpa using hi
    rfl
  | line l rest h ih =>
    cases i with
    | zero => rfl
    | succ i =>
      obtain ⟨reply, -, hr⟩ := run_line marker s h
      rw [processed_line rest h] at hi
      rw [hr, sessionAt_succ s rest h]
      exact ih _ (Nat.le_of_succ_le_succ hi)

/-- What a line logs that is no command, and a command logs nothing. -/
def LoggedLine (s : Session) (line : String) (events : List Event) : Prop :=
  if isEvaluated line then s.Logged line events else events = []

theorem LoggedLine.replay_eq {s : Session} {line : String} {events : List Event} (h : LoggedLine s line events) :
    s.table.replay events = (s.after ([line].filter isEvaluated)).table := by
  unfold LoggedLine at h
  split at h
  · rename_i he
    rw [h.replay_eq, List.filter_cons_of_pos he]
    rfl
  · rename_i he
    rw [h, List.filter_cons_of_neg he]
    rfl

/-- A line that does not end the run. -/
theorem turn_logged (marker : String) (s : Session) {line : String} (h : line ≠ "exit") :
    ∃ reply, turn marker s (some line) = .next (s.after ([line].filter isEvaluated)) reply ∧
      reply.output = shown marker s line ∧ LoggedLine s line reply.events := by
  obtain ⟨reply, ht, ho⟩ := turn_of_line marker s h
  refine ⟨reply, ht, ho, ?_⟩
  unfold LoggedLine
  split
  · rename_i he
    obtain ⟨hskip, hclear, hlist⟩ : line ≠ "" ∧ line ≠ "clear" ∧ line ≠ "vars" := by simpa [isEvaluated] using he
    have hc : Command.ofLine line = .evaluate line := by simp [Command.ofLine, hskip, h, hclear, hlist]
    rw [turn, hc] at ht
    obtain ⟨-, rfl⟩ := Turn.next.inj ht
    exact s.logged line marker
  · rename_i he
    have hcommand : line = "" ∨ line = "clear" ∨ line = "vars" := by
      simp only [isEvaluated, decide_eq_true_eq] at he
      tauto
    rcases hcommand with rfl | rfl | rfl <;> cases ht <;> rfl

/-- A run that ends at once has logged nothing. -/
theorem replay_journal_of_ended {marker : String} {s : Session} {lines : List (Option String)} (hp : processed lines = [])
    (hr : (run marker s lines).replies = []) (i : Nat) :
    s.table.replay ((run marker s lines).journal i) = (sessionAt s lines i).table := by
  rw [Transcript.journal, sessionAt, hr, hp, List.take_nil, List.take_nil]
  rfl

/-- The log of a run up to each line and behind it. -/
theorem run_logged (marker : String) (s : Session) (lines : List (Option String)) :
    (run marker s lines).replies.length = (processed lines).length ∧
    ∀ i, s.table.replay ((run marker s lines).journal i) = (sessionAt s lines i).table ∧
      ∀ line, (processed lines)[i]? = some line → ∃ reply, (run marker s lines).replies[i]? = some reply ∧
        reply.output = shown marker (sessionAt s lines i) line ∧ LoggedLine (sessionAt s lines i) line reply.events := by
  induction lines using lines_induction generalizing s with
  | nil => exact ⟨rfl, fun i => ⟨replay_journal_of_ended rfl rfl i, fun line hline => by simp at hline⟩⟩
  | undecodable rest => exact ⟨rfl, fun i => ⟨replay_journal_of_ended rfl rfl i, fun line hline => by simp at hline⟩⟩
  | exit rest =>
    have hp := processed_exit rest
    exact ⟨by rw [hp]; rfl, fun i => ⟨replay_journal_of_ended hp rfl i, fun line hline => by simp at hline⟩⟩
  | line l rest h ih =>
    obtain ⟨reply, ht, ho, hl⟩ := turn_logged marker s h
    obtain ⟨hlength, hlines⟩ := ih (s.after ([l].filter isEvaluated))
    rw [run, ht, processed_line rest h]
    refine ⟨congrArg (· + 1) hlength, fun i => ?_⟩
    cases i with
    | zero =>
      refine ⟨rfl, fun line hline => ⟨reply, rfl, ?_⟩⟩
      cases hline
      exact ⟨ho, hl⟩
    | succ i =>
      obtain ⟨hreplay, hline⟩ := hlines i
      rw [sessionAt_succ s rest h]
      refine ⟨?_, hline⟩
      -- the first line's events come first, and the others start from the table they leave
      rw [← hreplay, ← hl.replay_eq, ← Table.replay_append]
      rfl

/-- With the log at its lowest level, it has each event once, in order, and no others
than these: every line that is processed logs what `LoggedLine` says. In front of each
line the writes logged so far, carried out on an empty table, are the variables of the
session with which the run goes on, and what `vars` lists. How the log puts an event
into text does not matter. -/
theorem program_journal {environment : String → Option (List UInt8)} {config : Config}
    (hc : configure environment = .ok config) (hlevel : config.logLevel = .debug) (input : List UInt8)
    (reporting : Reporting) :
    let lines := inputLines input
    let t := run config.marker {} lines
    program environment input reporting =
      ⟨t.output, String.join (t.events.map reporting.line) ++ t.ending.report reporting, t.ending.exitCode⟩ ∧
    t.replies.length = (processed lines).length ∧
    ∀ i ≤ (processed lines).length,
      t.replies.drop i = (run config.marker (sessionAt {} lines i) (lines.drop i)).replies ∧
      Table.replay {} (t.journal i) = (sessionAt {} lines i).table ∧
      ∀ line, (processed lines)[i]? = some line → ∃ reply, t.replies[i]? = some reply ∧
        LoggedLine (sessionAt {} lines i) line reply.events ∧
        (line = "vars" → reply.output = listing config.marker (Table.replay {} (t.journal i))) := by
  intro lines t
  obtain ⟨hlength, hlines⟩ := run_logged config.marker {} lines
  refine ⟨?_, hlength, fun i hi => ?_⟩
  · rw [program_eq hc, hlevel, Transcript.outcome, logText, Event.filter_shownAt_debug]
  · obtain ⟨hreplay, hline⟩ := hlines i
    refine ⟨replies_drop config.marker {} lines hi, hreplay, fun line hl => ?_⟩
    obtain ⟨reply, hr, ho, hlog⟩ := hline line hl
    refine ⟨reply, hr, hlog, ?_⟩
    rintro rfl
    rw [ho, hreplay]
    rfl

/-- A line that fails and still writes, and one that only fails. -/
theorem program_journal_of_three :
    let environment (name : String) : Option (List UInt8) :=
      if name = "VARCALC_LOG" then some "debug".toUTF8.data.toList else none
    let input := "x = 2 3\n2 +\nvars".toUTF8.data.toList
    (program environment input).stderr =
      "DEBUG variable set name=\"x\" value=2.0\n" ++
      "DEBUG input left after expression err=unexpected character at 6: \"3\"\n" ++
      "DEBUG evaluation failed line=\"x = 2 3\" error=SyntaxError: unexpected character at 6: \"3\"\n" ++
      " WARN SyntaxError: unexpected character at 6: \"3\" kind=\"SyntaxError\"\n" ++
      "DEBUG evaluation failed line=\"2 +\" error=SyntaxError: unexpected end of input at 3, expected \"(\", identifier, number\n" ++
      " WARN SyntaxError: unexpected end of input at 3, expected \"(\", identifier, number kind=\"SyntaxError\"\n" ∧
    (Table.replay {} ((run ">>>" {} (inputLines input)).journal 2)).toList = [⟨"x", 2⟩] ∧
    ((run ">>>" {} (inputLines input)).replies.map Reply.output)[2]? = some ">>> x = 2\n" := by
  intro environment input
  have hc : configure environment = .ok ⟨">>>", .debug⟩ := by decide +kernel
  obtain ⟨hprogram, -, hlines⟩ := program_journal hc rfl input .standard
  obtain ⟨-, hreplay, hline⟩ := hlines 2 (by decide +kernel)
  have htable : (Table.replay {} ((run ">>>" {} (inputLines input)).journal 2)).toList = [⟨"x", 2⟩] := by
    rw [hreplay]
    decide +kernel
  obtain ⟨reply, hreply, -, hlisting⟩ := hline "vars" (by decide +kernel)
  refine ⟨?_, htable, ?_⟩
  · rw [hprogram]
    decide +kernel
  · rw [List.getElem?_map, hreply, Option.map_some, hlisting rfl, listing, htable]
    decide +kernel

end Console

end DeskCalc
