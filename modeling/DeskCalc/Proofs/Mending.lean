import DeskCalc.Proofs.Positions
import DeskCalc.Proofs.Runs

/-!
# Mending a run

A line with text left over behind its statement has carried the statement out. Cut
off where the error says, it does the same and has a result, and all other lines
without a result do nothing. So a run can be mended into one without errors.

Results:
* `exists_of_leftOver`: what such a line is made of.
* `mend_cases`: one line and what becomes of it.
* `evaluate_mended`: a run and what becomes of it.
-/
namespace DeskCalc

/-! ## Lines with text left over -/

/-- One of two beginnings of a text is the longer one. -/
theorem exists_of_utf8ByteSize_lt {u v w cs : List Char} (h : u ++ v = w ++ cs)
    (hlt : (String.ofList w).utf8ByteSize < (String.ofList u).utf8ByteSize) :
    ∃ c r, u = w ++ c :: r ∧ c :: r <+: cs := by
  rcases List.append_eq_append_iff.mp h with ⟨z, hz, -⟩ | ⟨z, hz, hcs⟩
  · rw [hz, String.ofList_append, String.utf8ByteSize_append] at hlt
    omega
  · cases z with
    | nil =>
      rw [List.append_nil] at hz
      rw [hz] at hlt
      exact absurd hlt (Nat.lt_irrefl _)
    | cons c r => exact ⟨c, r, hz, v, hcs.symm⟩

namespace Session

variable {s : Session} {line : String}

theorem exists_of_leftOver {p : Nat} {f : Found}
    (h : (s.evaluate line).result = .error (.malformed (.trailing p f))) :
    ∃ d b x r, Clause.Heads d line ⟨d.text.length, x :: r⟩ ∧ d.statement.outcome s.table = .ok b ∧
      p = d.text.length ∧ (s.evaluate line).session = ⟨s.table.write b⟩ := by
  rcases malformed_cases h with ⟨w, cs, hw, hb, -⟩ | ⟨d, b, x, r, hd, ho, he, hs⟩
  · exact absurd rfl hb.ne_trailing
  · cases he
    exact ⟨d, b, x, r, hd, ho, rfl, hs⟩

theorem cut_of_heads {d : Clause} {cs : List Char} (hd : d.Heads line ⟨d.text.length, cs⟩) :
    cut d.text.length line = .ofList d.text := by
  rw [cut, hd.toList_eq, ← d.utf8ByteSize_text, front_append]

/-- No longer beginning of the line has a result. -/
theorem evaluate_longer {d : Clause} {b : Binding} {cs u v : List Char}
    (hd : d.Heads line ⟨d.text.length, cs⟩) (ho : d.statement.outcome s.table = .ok b)
    (huv : line.toList = u ++ v) (hlt : d.text.length < (String.ofList u).utf8ByteSize) (a : Answer) :
    (s.evaluate (.ofList u)).result ≠ .ok a := by
  rw [← d.utf8ByteSize_text] at hlt
  obtain ⟨c, r, rfl, hr⟩ := exists_of_utf8ByteSize_lt (huv.symm.trans hd.toList_eq) hlt
  have hd' : d.Heads (.ofList (d.text ++ c :: r)) ⟨d.text.length, c :: r⟩ :=
    hd.of_take_two ((List.take_prefix 2 _).trans hr)
  rw [(evaluate_leftOver hd' ho).1]
  exact nofun

end Session

/-! ## Runs -/

/-- The statement in front of the line has been carried out. -/
def Evaluation.carriedOut (e : Evaluation) : Bool :=
  match e.result with
  | .ok _ | .error (.malformed (.trailing ..)) => true
  | .error _ => false

/-- The line without what was left over, or nothing if the line did nothing. -/
def Evaluation.mend (e : Evaluation) (line : String) : Option String :=
  match e.result with
  | .ok _ => some line
  | .error (.malformed (.trailing p _)) => some (cut p line)
  | .error _ => none

namespace Session

/-- The lines of a run, mended. -/
def mended (s : Session) : List String → List String
  | [] => []
  | line :: rest => ((s.evaluate line).mend line).toList ++ (s.evaluate line).session.mended rest

theorem session_of_notAssignable {s : Session} {line : String} {p : Nat}
    (h : (s.evaluate line).result = .error (.notAssignable p)) : (s.evaluate line).session = s := by
  rcases evaluate_cases s line with ⟨e, -, he⟩ | ⟨d, c, e, -, -, he⟩ | ⟨d, ⟨o, r⟩, b, -, -, he⟩
  · rw [he]; rfl
  · rw [he]; rfl
  · rw [he] at h
    cases r <;> cases h

/-- A line does nothing, or what is left of it has a result and does the same. If
the line has a result, all of it is left. -/
theorem mend_cases (s : Session) (line : String) :
    ((s.evaluate line).mend line = none ∧ (s.evaluate line).carriedOut = false ∧ (s.evaluate line).session = s) ∨
    ∃ line', (s.evaluate line).mend line = some line' ∧ (s.evaluate line).carriedOut = true ∧
      (∃ a, (s.evaluate line').result = .ok a) ∧ (s.evaluate line').session = (s.evaluate line).session ∧
      ∀ a, (s.evaluate line).result = .ok a → (s.evaluate line').result = .ok a := by
  unfold Evaluation.mend Evaluation.carriedOut
  cases hr : (s.evaluate line).result with
  | ok a => exact .inr ⟨line, rfl, rfl, ⟨a, hr⟩, rfl, fun b hb => hr.trans hb⟩
  | error e =>
    cases e with
    | notAssignable p => exact .inl ⟨rfl, rfl, session_of_notAssignable hr⟩
    | malformed e =>
      rcases malformed_cases hr with ⟨w, cs, hw, hb, hs⟩ | ⟨d, b, x, r, hd, ho, rfl, hs⟩
      · cases e with
        | trailing => exact absurd rfl hb.ne_trailing
        | unexpected | unmatchedParen | tooDeep => exact .inl ⟨rfl, rfl, hs⟩
      · obtain ⟨h₁, h₂⟩ := evaluate_clause hd.nesting_le ho
        exact .inr ⟨_, congrArg some (cut_of_heads hd), rfl, h₁, h₂.trans hs.symm, nofun⟩

/-- What a mended line does in place of the line it was. -/
def Replaces (e' e : Evaluation) : Prop :=
  e'.session = e.session ∧ ∀ a, e.result = .ok a → e'.result = .ok a

theorem forall₂_mended (s : Session) (lines : List String) :
    List.Forall₂ (fun e' e => (∃ a, e'.result = .ok a) ∧ Replaces e' e)
      (s.evaluations (s.mended lines)) ((s.evaluations lines).filter Evaluation.carriedOut) ∧
    s.after (s.mended lines) = s.after lines := by
  induction lines generalizing s with
  | nil => exact ⟨.nil, rfl⟩
  | cons line rest ih =>
    obtain ⟨h₁, h₂⟩ := ih (s.evaluate line).session
    rw [mended, evaluations, after]
    rcases s.mend_cases line with ⟨hm, hc, hs⟩ | ⟨line', hm, hc, hok, hs, hr⟩
    · rw [hm, List.filter_cons_of_neg (by simp [hc])]
      rw [hs] at h₁ h₂ ⊢
      exact ⟨h₁, h₂⟩
    · rw [hm, List.filter_cons_of_pos hc]
      simp only [Option.toList_some, List.singleton_append, evaluations, after, hs]
      exact ⟨.cons ⟨hok, hs, hr⟩ h₁, h₂⟩

/-- A line with text left over, cut off where the error says, has a result and does
what the line did, and no longer beginning of the line has a result. A run without
the other lines that fail and with those cut off has no error, yields every result
that was there before, and leaves the same variables. -/
theorem evaluate_mended (s : Session) :
    (∀ line p f, (s.evaluate line).result = .error (.malformed (.trailing p f)) →
      (∃ a, (s.evaluate (cut p line)).result = .ok a) ∧
      (s.evaluate (cut p line)).session.table = (s.evaluate line).session.table ∧
      ∀ before after, line.toList = before ++ after → p < (String.ofList before).utf8ByteSize →
        ∀ a, (s.evaluate (.ofList before)).result ≠ .ok a) ∧
    ∀ lines,
      (∀ e ∈ s.evaluations (s.mended lines), ∃ a, e.result = .ok a) ∧
      List.Forall₂ Replaces (s.evaluations (s.mended lines))
        ((s.evaluations lines).filter Evaluation.carriedOut) ∧
      (s.after (s.mended lines)).table = (s.after lines).table := by
  refine ⟨fun line p f h => ?_, fun lines => ?_⟩
  · obtain ⟨d, b, x, r, hd, ho, rfl, hs⟩ := exists_of_leftOver h
    obtain ⟨h₁, h₂⟩ := s.evaluate_clause hd.nesting_le ho
    rw [cut_of_heads hd, h₂, hs]
    exact ⟨h₁, rfl, fun _ _ hbv hlt => evaluate_longer hd ho hbv hlt⟩
  · obtain ⟨h₁, h₂⟩ := s.forall₂_mended lines
    obtain ⟨hok, h₁⟩ := (List.forall₂_and_left _ _).mp h₁
    exact ⟨hok, h₁, congrArg table h₂⟩

/-- A second equals sign and a point are cut off, and a sum without its second
operand is left out. -/
theorem evaluate_mended_of_four :
    (∀ a, (({} : Session).evaluate "x = 5 =").result ≠ .ok a) ∧
    ({} : Session).mended ["x = 5 = 3", "y +", "x + 1.", "ans"] = ["x = 5 ", "x + 1", "ans"] ∧
    (∀ e ∈ ({} : Session).evaluations ["x = 5 ", "x + 1", "ans"], ∃ a, e.result = .ok a) ∧
    (({} : Session).after ["x = 5 ", "x + 1", "ans"]).table =
      (({} : Session).after ["x = 5 = 3", "y +", "x + 1.", "ans"]).table := by
  have h : (({} : Session).evaluate "x = 5 = 3").result = .error (.malformed (.trailing 6 (.char '='))) := by
    decide +kernel
  obtain ⟨-, -, hlonger⟩ := (evaluate_mended {}).1 _ _ _ h
  have hm : ({} : Session).mended ["x = 5 = 3", "y +", "x + 1.", "ans"] = ["x = 5 ", "x + 1", "ans"] := by
    decide +kernel
  obtain ⟨hok, -, ht⟩ := (evaluate_mended {}).2 ["x = 5 = 3", "y +", "x + 1.", "ans"]
  rw [hm] at hok ht
  exact ⟨hlonger "x = 5 =".toList " 3".toList (by decide) (by decide), hm, hok, ht⟩

end Session

end DeskCalc
