import Mathlib
import DeskCalc.Console
import DeskCalc.Proofs.Runs

/-!
# What the console answers

A run of the console told line by line: which lines are processed, what is shown for
each of them, and how the run ends. The session behind a line is the one that has
evaluated the lines in front of it that are no commands.

Results:
* `turn_of_line`: one line and what is shown for it.
* `run_spec`: a whole run.
* `run_eq_of_take`: nothing counts behind the line that ends the run.
* `outputs_inserted`: a line that is not evaluated counts for no other line.
* `program_reporting`: standard output and the exit code do not depend on the reporting.
* `program_answers`: all of this for the bytes of the input, whatever the reporting.
-/
namespace DeskCalc.Console

/-! ## Lines and what is shown for them -/

/-- The lines of the input, as far as they are texts. -/
def inputLines (input : List UInt8) : List (Option String) := (Lines.split input).map Text.decode

/-- The lines in front of the first one that is `exit` or no text. -/
def processed (lines : List (Option String)) : List String :=
  (lines.takeWhile fun line => line.any (· ≠ "exit")).reduceOption

/-- The line is handed to the session. -/
def isEvaluated (line : String) : Bool := line ≠ "" ∧ line ≠ "clear" ∧ line ≠ "vars"

/-- What is shown for a line in a session. -/
def shown (marker : String) (s : Session) (line : String) : String :=
  if line = "" then ""
  else if line = "clear" then "\x1b[2J\x1b[H"
  else if line = "vars" then
    String.join (s.table.toList.map fun b => marker ++ " " ++ (b.name ++ " = " ++ displayNumber b.value) ++ "\n")
  else
    match (s.evaluate line).result with
    | .ok a => marker ++ " " ++ a.text ++ "\n"
    | .error e => marker ++ " " ++ e.message ++ "\n"

/-- What is shown for each line that is processed, in the session that has evaluated
the lines in front of it. -/
def outputs (marker : String) (s : Session) (lines : List (Option String)) : List String :=
  (processed lines).mapIdx fun i line =>
    shown marker (s.after (((processed lines).take i).filter isEvaluated)) line

section

variable (marker : String) (s : Session) (rest : List (Option String))

@[simp] theorem processed_nil : processed [] = [] := rfl

@[simp] theorem processed_none : processed (none :: rest) = [] := rfl

@[simp] theorem processed_exit : processed (some "exit" :: rest) = [] := by simp [processed]

theorem processed_line {line : String} (h : line ≠ "exit") : processed (some line :: rest) = line :: processed rest := by
  simp [processed, h]

@[simp] theorem outputs_nil : outputs marker s [] = [] := rfl

@[simp] theorem outputs_none : outputs marker s (none :: rest) = [] := rfl

@[simp] theorem outputs_exit : outputs marker s (some "exit" :: rest) = [] := by simp [outputs]

theorem outputs_line {line : String} (h : line ≠ "exit") :
    outputs marker s (some line :: rest) =
      shown marker s line :: outputs marker (s.after ([line].filter isEvaluated)) rest := by
  rw [outputs, outputs, processed_line rest h, List.mapIdx_cons]
  congr 2
  funext i l
  rw [List.take_succ_cons, ← List.singleton_append, List.filter_append, Session.after_append]

end

/-- The lines of a run one after the other, as far as it goes. -/
@[elab_as_elim]
theorem lines_induction {motive : List (Option String) → Prop} (nil : motive [])
    (undecodable : ∀ rest, motive (none :: rest)) (exit : ∀ rest, motive (some "exit" :: rest))
    (line : ∀ line rest, line ≠ "exit" → motive rest → motive (some line :: rest)) :
    ∀ lines, motive lines
  | [] => nil
  | none :: rest => undecodable rest
  | some l :: rest => by
    by_cases h : l = "exit"
    · exact h ▸ exit rest
    · exact line l rest h (lines_induction nil undecodable exit line rest)

/-! ## Runs -/

/-- A line that does not end the run is shown, and the session has evaluated it unless
it is a command. -/
theorem turn_of_line (marker : String) (s : Session) {line : String} (h : line ≠ "exit") :
    ∃ reply, turn marker s (some line) = .next (s.after ([line].filter isEvaluated)) reply ∧
      reply.output = shown marker s line := by
  by_cases hskip : line = ""
  · subst hskip
    exact ⟨_, rfl, rfl⟩
  by_cases hclear : line = "clear"
  · subst hclear
    exact ⟨_, rfl, rfl⟩
  by_cases hlist : line = "vars"
  · subst hlist
    exact ⟨_, rfl, rfl⟩
  have hc : Command.ofLine line = .evaluate line := by simp [Command.ofLine, hskip, h, hclear, hlist]
  have hs : s.after ([line].filter isEvaluated) = (s.evaluate line).session := by
    simp [isEvaluated, hskip, hclear, hlist, Session.after]
  refine ⟨evaluationReply marker (s.evaluate line), ?_, ?_⟩
  · rw [turn, hc, hs, obey]
  · simp only [shown, hskip, hclear, hlist, if_false, evaluationReply]
    cases (s.evaluate line).result <;> rfl

/-- The run goes on behind such a line. -/
theorem run_line (marker : String) (s : Session) {line : String} (h : line ≠ "exit") :
    ∃ reply, reply.output = shown marker s line ∧ ∀ rest,
      run marker s (some line :: rest) =
        ⟨reply :: (run marker (s.after ([line].filter isEvaluated)) rest).replies,
          (run marker (s.after ([line].filter isEvaluated)) rest).ending⟩ := by
  obtain ⟨reply, ht, ho⟩ := turn_of_line marker s h
  exact ⟨reply, ho, fun rest => by rw [run, ht]⟩

theorem turn_exit (marker : String) (s : Session) : turn marker s (some "exit") = .stop .finished := rfl

/-- What is shown in a run, line by line, and how it ends. -/
theorem run_spec (marker : String) (s : Session) (lines : List (Option String)) :
    (run marker s lines).replies.map Reply.output = outputs marker s lines ∧
    (run marker s lines).ending = if lines[(processed lines).length]? = some none then .undecodable else .finished := by
  induction lines using lines_induction generalizing s with
  | nil => exact ⟨rfl, rfl⟩
  | undecodable rest => exact ⟨rfl, rfl⟩
  | exit rest => simp [run, turn_exit]
  | line l rest h ih =>
    obtain ⟨reply, ho, hr⟩ := run_line marker s h
    obtain ⟨h₁, h₂⟩ := ih (s.after ([l].filter isEvaluated))
    rw [hr, outputs_line marker s rest h, processed_line rest h]
    exact ⟨congr (congrArg _ ho) h₁, h₂⟩

theorem exists_cons_of_take_succ {α : Type} {n : Nat} {a : α} {l l' : List α}
    (h : l'.take (n + 1) = (a :: l).take (n + 1)) : ∃ r, l' = a :: r := by
  cases l' with
  | nil => cases h
  | cons b r => exact ⟨r, congrArg (· :: r) (List.head_eq_of_cons_eq h)⟩

/-- Behind the line that ends a run nothing counts. -/
theorem run_eq_of_take (marker : String) (s : Session) {lines lines' : List (Option String)}
    (h : lines'.take ((processed lines).length + 1) = lines.take ((processed lines).length + 1)) :
    run marker s lines' = run marker s lines := by
  induction lines using lines_induction generalizing s lines' with
  | nil =>
    obtain rfl : lines' = [] := by simpa using h
    rfl
  | undecodable rest =>
    obtain ⟨rest', rfl⟩ := exists_cons_of_take_succ h
    rfl
  | exit rest =>
    obtain ⟨rest', rfl⟩ := exists_cons_of_take_succ h
    rfl
  | line l rest hl ih =>
    obtain ⟨rest', rfl⟩ := exists_cons_of_take_succ h
    obtain ⟨reply, -, hr⟩ := run_line marker s hl
    rw [processed_line rest hl, List.length_cons, List.take_succ_cons, List.take_succ_cons] at h
    rw [hr, hr, ih _ (List.tail_eq_of_cons_eq h)]

/-- A line that is not evaluated counts for no other line, and not for the end. -/
theorem outputs_inserted (marker : String) (s : Session) (pre post : List (Option String)) {line : String}
    (h : line = "" ∨ line = "clear" ∨ line = "vars") :
    (outputs marker s (pre ++ some line :: post)).eraseIdx pre.length = outputs marker s (pre ++ post) ∧
    (run marker s (pre ++ some line :: post)).ending = (run marker s (pre ++ post)).ending := by
  induction pre using lines_induction generalizing s with
  | nil =>
    have hexit : line ≠ "exit" := by rcases h with rfl | rfl | rfl <;> decide
    have hskip : s.after ([line].filter isEvaluated) = s := by rcases h with rfl | rfl | rfl <;> rfl
    obtain ⟨reply, -, hr⟩ := run_line marker s hexit
    rw [List.nil_append, outputs_line marker s post hexit, hr, hskip]
    exact ⟨rfl, rfl⟩
  | undecodable rest => exact ⟨rfl, rfl⟩
  | exit rest => simp [run, turn_exit]
  | line l rest hl ih =>
    obtain ⟨reply, -, hr⟩ := run_line marker s hl
    obtain ⟨h₁, h₂⟩ := ih (s.after ([l].filter isEvaluated))
    rw [List.cons_append, List.cons_append, outputs_line marker s _ hl, outputs_line marker s _ hl, hr, hr]
    exact ⟨congrArg _ h₁, h₂⟩

/-! ## The program -/

/-- The reporting shows in nothing but the log. -/
theorem program_reporting (environment : String → Option (List UInt8)) (input : List UInt8)
    (reporting reporting' : Reporting) :
    (program environment input reporting).stdout = (program environment input reporting').stdout ∧
    (program environment input reporting).exitCode = (program environment input reporting').exitCode := by
  rw [program, program]
  cases configure environment with
  | error e => exact ⟨rfl, rfl⟩
  | ok config => exact ⟨rfl, rfl⟩

theorem program_eq {environment : String → Option (List UInt8)} {config : Config}
    (hc : configure environment = .ok config) (input : List UInt8) (reporting : Reporting) :
    program environment input reporting =
      (run config.marker {} (inputLines input)).outcome config.logLevel reporting := by
  rw [program, hc]
  rfl

theorem inputLines_inserted {input input' : List UInt8} {pre post : List (List UInt8)} {line : List UInt8}
    (h : Lines.split input = pre ++ post) (h' : Lines.split input' = pre ++ line :: post) :
    inputLines input = pre.map Text.decode ++ post.map Text.decode ∧
    inputLines input' = pre.map Text.decode ++ Text.decode line :: post.map Text.decode := by
  rw [inputLines, inputLines, h, h']
  exact ⟨List.map_append .., List.map_append ..⟩

/-- With sound settings the program writes, line by line, what is shown for the lines
in front of the first one that is `exit` or no text, and exits with 1 exactly if that
one is no text. Behind that line nothing counts; an empty line, `clear` and `vars` count
for no other line; and a carriage return in front of the line feed counts for nothing. -/
theorem program_answers {environment : String → Option (List UInt8)} {config : Config}
    (hc : configure environment = .ok config) (input : List UInt8) (reporting : Reporting) :
    (program environment input reporting).stdout = String.join (outputs config.marker {} (inputLines input)) ∧
    (program environment input reporting).exitCode =
      (if (inputLines input)[(processed (inputLines input)).length]? = some none then 1 else 0) ∧
    (∀ input', (Lines.split input').take ((processed (inputLines input)).length + 1) =
        (Lines.split input).take ((processed (inputLines input)).length + 1) →
      program environment input' reporting = program environment input reporting) ∧
    (∀ input' pre line post, Lines.split input = pre ++ post → Lines.split input' = pre ++ line :: post →
      Text.decode line = some "" ∨ Text.decode line = some "clear" ∨ Text.decode line = some "vars" →
      (outputs config.marker {} (inputLines input')).eraseIdx pre.length =
        outputs config.marker {} (inputLines input) ∧
      (program environment input' reporting).exitCode = (program environment input reporting).exitCode) ∧
    ∀ before behind, input = before ++ Lines.lineFeed :: behind → before.getLast? ≠ some Lines.carriageReturn →
      program environment (before ++ Lines.carriageReturn :: Lines.lineFeed :: behind) reporting =
        program environment input reporting := by
  obtain ⟨hreplies, hending⟩ := run_spec config.marker {} (inputLines input)
  refine ⟨?_, ?_, fun input' h => ?_, fun input' pre line post h h' hl => ?_, fun before behind h hb => ?_⟩
  · rw [program_eq hc, ← hreplies]
    rfl
  · rw [program_eq hc, Transcript.outcome, hending]
    split <;> rfl
  · have hlines := congrArg (List.map Text.decode) h
    rw [List.map_take, List.map_take] at hlines
    rw [program_eq hc, program_eq hc]
    exact congrArg (Transcript.outcome · config.logLevel reporting) (run_eq_of_take config.marker {} hlines)
  · obtain ⟨h₁, h₂⟩ := inputLines_inserted h h'
    obtain ⟨l, hdecode, hl⟩ : ∃ l, Text.decode line = some l ∧ (l = "" ∨ l = "clear" ∨ l = "vars") := by
      rcases hl with hl | hl | hl <;> exact ⟨_, hl, by simp⟩
    obtain ⟨houtputs, hsame⟩ := outputs_inserted config.marker {} (pre.map Text.decode) (post.map Text.decode) hl
    rw [program_eq hc, program_eq hc, h₁, h₂, hdecode]
    rw [List.length_map] at houtputs
    exact ⟨houtputs, congrArg Ending.exitCode hsame⟩
  · rw [h, program_eq hc, program_eq hc, inputLines, Lines.split_crlf hb]
    rfl

/-- Look-alikes of commands, a line that fails and still writes, and text behind `exit`. -/
theorem program_answers_of_seven :
    let environment (name : String) : Option (List UInt8) :=
      if name = "VARCALC_MARKER" then some "=>".toUTF8.data.toList else none
    let line := "x = 2 3".toUTF8.data.toList
    let rest := "vars\n\nvars \n(clear\nexit\n1".toUTF8.data.toList
    (program environment (line ++ 10 :: rest)).stdout =
      "=> SyntaxError: unexpected character at 6: \"3\"\n=> x = 2\n=> ans = 0\n" ++
        "=> SyntaxError: unmatched left parenthesis at 0: found end of input at 6\n" ∧
    (program environment (line ++ 10 :: rest)).exitCode = 0 ∧
    program environment (line ++ 13 :: 10 :: rest) = program environment (line ++ 10 :: rest) := by
  intro environment line rest
  have hc : configure environment = .ok ⟨"=>", .warn⟩ := by decide +kernel
  obtain ⟨hout, hexit, -, -, hcrlf⟩ := program_answers hc (line ++ 10 :: rest) .standard
  refine ⟨?_, ?_, hcrlf line rest rfl (by decide +kernel)⟩
  · rw [hout]
    decide +kernel
  · rw [hexit]
    decide +kernel

end DeskCalc.Console
