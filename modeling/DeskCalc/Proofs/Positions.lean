import DeskCalc.Proofs.Alphabet
import DeskCalc.Proofs.Breaks
import DeskCalc.Proofs.Effect
import DeskCalc.Proofs.Nesting

/-!
# Positions of errors

A line that is refused is refused for what stands at the error's position: the
text in front of it can be gone on with, and beyond the next two characters the
line does not matter. One character is not enough, since a point or a sign belongs
to a literal only if a digit follows.

Results:
* `Clause.Stops.of_take_two`, `Breaks.of_take_two`: where a phrase ends or breaks
  off is decided by two characters.
* `Breaks.exists_completed`: what breaks off can be gone on with.
* `evaluate_malformed`: both for the lines of a session.
-/
namespace DeskCalc

/-! ## Two characters ahead -/

section

variable {cs cs' : List Char}

theorem mem_head?_of_take_two (h : cs'.take 2 <+: cs) {c : Char} (hc : c ∈ cs'.head?) : c ∈ cs.head? := by
  obtain ⟨r, rfl⟩ := h
  cases cs' with
  | nil => cases hc
  | cons d cs' => simpa using hc

theorem exists_cons_cons_of_take_two (h : cs'.take 2 <+: cs) {c d : Char} {r : List Char} (e : cs' = c :: d :: r) :
    ∃ r', cs = c :: d :: r' := by
  obtain ⟨r', rfl⟩ := h
  exact ⟨r', by simp [e]⟩

/-- Behind a common text two characters show no more than they do alone. -/
theorem take_two_append (h : cs'.take 2 <+: cs) : ∀ w : List Char, (w ++ cs').take 2 <+: w ++ cs
  | [] => h
  | [c] => by
    have : cs'.take 1 <+: cs'.take 2 := List.take_prefix_take_left (by decide)
    simpa using this.trans h
  | c :: d :: w => ⟨w ++ cs, rfl⟩

theorem NameEnds.of_take_two (hn : NameEnds cs) (h : cs'.take 2 <+: cs) : NameEnds cs' := fun c hc =>
  hn c (mem_head?_of_take_two h hc)

theorem Literal.Ends.of_take_two {l : Literal} (hl : l.Ends cs) (h : cs'.take 2 <+: cs) : l.Ends cs' := by
  refine ⟨fun c hc => hl.1 c (mem_head?_of_take_two h hc), fun hf c r e => ?_⟩
  obtain ⟨r', e'⟩ := exists_cons_cons_of_take_two h e
  exact hl.2 hf c r' e'

theorem Phrase.Ends.of_take_two {r : Rank} {p : Phrase r} (hp : p.Ends cs) (h : cs'.take 2 <+: cs) :
    p.Ends cs' := by
  induction p with
  | group => trivial
  | name => exact NameEnds.of_take_two hp h
  | literal => exact Literal.Ends.of_take_two hp h
  | single _ ih => exact ih hp
  | more _ _ _ _ _ _ _ ih => exact ih hp

theorem Rank.Stops.of_take_two {r : Rank} (hs : r.Stops cs) (h : cs'.take 2 <+: cs) : r.Stops cs' := fun c hc =>
  hs c (mem_head?_of_take_two h hc)

/-- Two characters decide where a clause ends. -/
theorem Clause.Stops.of_take_two {d : Clause} (hd : d.Stops cs) (h : cs'.take 2 <+: cs) : d.Stops cs' := by
  cases d with
  | answer p k =>
    obtain ⟨h₁, h₂, h₃⟩ := hd
    exact ⟨h₁.of_take_two (take_two_append h _), h₂.of_take_two h, fun e => h₃ (mem_head?_of_take_two h e)⟩
  | equation _ _ _ q k =>
    obtain ⟨h₁, h₂⟩ := hd
    exact ⟨h₁.of_take_two (take_two_append h _), h₂.of_take_two h⟩

theorem NoOperand.of_take_two (hn : NoOperand cs) (h : cs'.take 2 <+: cs) : NoOperand cs' := by
  intro c hc
  obtain ⟨h₁, h₂, h₃, h₄⟩ := hn c (mem_head?_of_take_two h hc)
  refine ⟨h₁, h₂, h₃, fun hsign d hd => h₄ hsign d ?_⟩
  obtain ⟨c, r, rfl⟩ : ∃ c r, cs' = c :: d :: r := by
    cases cs' with
    | nil => cases hc
    | cons c cs' =>
      cases cs' with
      | nil => cases hd
      | cons d' r => cases hd; exact ⟨c, r, rfl⟩
  obtain ⟨r', rfl⟩ := exists_cons_cons_of_take_two h rfl
  rfl

theorem take_two_of_eq (h : cs'.take 2 = cs.take 2) : cs'.take 2 <+: cs := h ▸ List.take_prefix 2 cs

theorem head?_eq_of_take_two (h : cs'.take 2 = cs.take 2) : cs'.head? = cs.head? := by
  simpa [List.head?_take] using congrArg List.head? h

theorem exists_cons_of_take_two {c : Char} {r : List Char} (h : cs'.take 2 = (c :: r).take 2) :
    ∃ r', cs' = c :: r' := by
  have := head?_eq_of_take_two h
  cases cs' with
  | nil => cases this
  | cons d r' => cases this; exact ⟨r', rfl⟩

theorem found_eq_of_take_two (h : cs'.take 2 = cs.take 2) (o : Nat) :
    (Cursor.mk o cs').found = (Cursor.mk o cs).found := by
  have := head?_eq_of_take_two h
  cases cs <;> cases cs' <;> simp_all [Cursor.found]

end

theorem head?_append_of_take_two {w cs cs' : List Char} (h : cs'.take 2 = cs.take 2)
    (hs : (w ++ cs).head? ≠ some ' ') : (w ++ cs').head? ≠ some ' ' := by
  cases w with
  | nil => simpa [head?_eq_of_take_two h] using hs
  | cons c w => simpa using hs

/-- Two characters decide where and how a phrase breaks off. -/
theorem Breaks.of_take_two {n o : Nat} {r : Rank} {w cs cs' : List Char} {e : SyntaxError}
    (hb : Breaks n r o w cs e) (h : cs'.take 2 = cs.take 2) : Breaks n r o w cs' e := by
  have hle := take_two_of_eq h
  induction hb with
  | operand hn =>
    rw [← found_eq_of_take_two h]
    exact .operand (hn.of_take_two hle)
  | nested =>
    obtain ⟨r, rfl⟩ := exists_cons_of_take_two h
    exact .nested
  | inside hs _ ih => exact .inside (head?_append_of_take_two h hs) (ih h hle)
  | unclosed p hn he hs hc =>
    rw [← found_eq_of_take_two h]
    exact .unclosed p hn (he.of_take_two (take_two_append hle _)) (hs.of_take_two hle)
      fun e => hc (mem_head?_of_take_two hle e)
  | first _ ih => exact .first (ih h hle)
  | right p hn hs _ ih => exact .right p hn (head?_append_of_take_two h hs) (ih h hle)

theorem LineBreaks.of_take_two {w cs cs' : List Char} {e : SyntaxError} (hb : LineBreaks w cs e)
    (h : cs'.take 2 = cs.take 2) : LineBreaks w cs' e := by
  cases hb with
  | left hb => exact .left (hb.of_take_two h)
  | right p hn hs hb => exact .right p hn (head?_append_of_take_two h hs) (hb.of_take_two h)

/-! ## Going on -/

/-- What is missing at the error's position, closing parentheses apart. -/
def SyntaxError.missing : SyntaxError → List Char
  | .unexpected .. | .tooDeep .. => ['0']
  | .unmatchedParen .. | .trailing .. => []

/-- What completes the text in front of the error's position: what is missing
there, and a parenthesis for each that has been left open. -/
def SyntaxError.completion (e : SyntaxError) (before : List Char) : List Char :=
  e.missing ++ List.replicate (unclosed 0 before) ')'

/-- An operand to put where one is missing. -/
def Phrase.zero : Phrase .value := .literal ⟨none, ['0'], []⟩ (by decide)

theorem Breaks.position_eq {n o : Nat} {r : Rank} {w cs : List Char} {e : SyntaxError}
    (h : Breaks n r o w cs e) : e.position = o + w.length := by
  induction h with
  | operand | nested => rfl
  | first _ ih => exact ih
  | inside _ _ ih => rw [ih]; simp [spaces]; omega
  | unclosed => simp [SyntaxError.position, spaces]; omega
  | right _ _ _ _ ih => rw [ih]; simp [spaces]; omega

/-- What breaks off leaves some parentheses open, and with what is missing and
these closed it is a phrase. -/
theorem Breaks.exists_completed {n o : Nat} {r : Rank} {w cs : List Char} {e : SyntaxError}
    (h : Breaks n r o w cs e) : ∃ k, (∀ m, DeskCalc.unclosed m w = m + k) ∧
      ∃ p : Phrase r, p.nesting ≤ n ∧ p.text = w ++ (e.missing ++ List.replicate k ')') := by
  induction h with
  | operand => exact ⟨0, fun _ => rfl, Phrase.zero, Nat.zero_le _, rfl⟩
  | nested => exact ⟨0, fun _ => rfl, Phrase.zero, Nat.zero_le _, rfl⟩
  | @inside n o a w cs e _ _ ih =>
    obtain ⟨k, hk, p, hn, ht⟩ := ih
    refine ⟨k + 1, fun m => ?_, .group a p 0, Nat.succ_le_succ hn, ?_⟩
    · rw [unclosed_open, unclosed_plain (plain_spaces a), hk]
      omega
    · simp [Phrase.text, ht, spaces, List.replicate_succ']
  | @unclosed n o a b cs p hn =>
    refine ⟨1, fun m => ?_, .group a p b, Nat.succ_le_succ hn, ?_⟩
    · rw [unclosed_open, unclosed_plain (plain_spaces a), p.unclosed_text, unclosed_of_plain (plain_spaces b)]
    · simp [Phrase.text, SyntaxError.missing]
  | first _ ih =>
    obtain ⟨k, hk, p, hn, ht⟩ := ih
    exact ⟨k, hk, .single p, hn, ht⟩
  | @right n o a b op w cs e q hq _ _ ih =>
    obtain ⟨k, hk, p, hn, ht⟩ := ih
    refine ⟨k, fun m => ?_, .more q a op rfl b p, Nat.max_le.mpr ⟨hq, hn⟩, ?_⟩
    · rw [q.unclosed_text, unclosed_plain (plain_spaces a), unclosed_symbol, unclosed_plain (plain_spaces b), hk]
    · simp [Phrase.text, ht]

namespace LineBreaks

variable {w cs : List Char} {e : SyntaxError}

theorem exists_completed (h : LineBreaks w cs e) :
    ∃ d : Clause, d.nesting ≤ maxNesting ∧ d.text = w ++ e.completion w := by
  cases h with
  | left h =>
    obtain ⟨k, hk, p, hn, ht⟩ := h.exists_completed
    refine ⟨.answer p 0, hn, ?_⟩
    rw [SyntaxError.completion, hk, Nat.zero_add, ← ht]
    simp [Clause.text, spaces]
  | @right n m w cs e p hn _ h =>
    obtain ⟨k, hk, q, hq, ht⟩ := h.exists_completed
    refine ⟨.equation p n m q 0, Nat.max_le.mpr ⟨hn, hq⟩, ?_⟩
    rw [SyntaxError.completion, p.unclosed_text, unclosed_plain (plain_spaces n), unclosed_equals,
      unclosed_plain (plain_spaces m), hk, Nat.zero_add]
    simp [Clause.text, spaces, ht]

/-- In front of the place stand characters of one byte only. -/
theorem utf8Size_of_mem (h : LineBreaks w cs e) {c : Char} (hc : c ∈ w) : c.utf8Size = 1 := by
  obtain ⟨d, -, hd⟩ := h.exists_completed
  refine d.utf8Size_of_mem ?_
  rw [hd]
  exact List.mem_append_left _ hc

/-- The text in front of the place has as many bytes as the position says. -/
theorem utf8ByteSize_eq (h : LineBreaks w cs e) : (String.ofList w).utf8ByteSize = e.position := by
  have hposition : e.position = w.length := by
    cases h with
    | left h => rw [h.position_eq, Nat.zero_add]
    | right p _ _ h => rw [h.position_eq]; simp [spaces]; omega
  rw [hposition]
  exact utf8ByteSize_ofList fun _ => h.utf8Size_of_mem

end LineBreaks

/-! ## Cutting a line -/

/-- The characters that end at a byte offset or in front of it. -/
def front : Nat → List Char → List Char
  | _, [] => []
  | n, c :: cs => if c.utf8Size ≤ n then c :: front (n - c.utf8Size) cs else []

/-- The line up to a byte offset. -/
def cut (offset : Nat) (line : String) : String := .ofList (front offset line.toList)

theorem front_append (w cs : List Char) : front (String.ofList w).utf8ByteSize (w ++ cs) = w := by
  induction w with
  | nil =>
    cases cs with
    | nil => rfl
    | cons c cs => exact if_neg (Nat.not_le_of_lt c.utf8Size_pos)
  | cons c w ih =>
    rw [utf8ByteSize_cons, List.cons_append, front, if_pos (Nat.le_add_right _ _), Nat.add_sub_cancel_left, ih]

/-! ## Sessions -/

theorem Clause.unclosed_text (d : Clause) : unclosed 0 d.text = 0 := by
  cases d with
  | answer p k => rw [text, p.unclosed_text, unclosed_of_plain (plain_spaces k)]
  | equation p n m q k =>
    rw [text, p.unclosed_text, unclosed_plain (plain_spaces n), unclosed_equals, unclosed_plain (plain_spaces m),
      q.unclosed_text, unclosed_of_plain (plain_spaces k)]

/-- With other text behind it that starts with the same two characters, a clause
still stands in front of the line. -/
theorem Clause.Heads.of_take_two {d : Clause} {line : String} {o : Nat} {cs cs' : List Char}
    (h : d.Heads line ⟨o, cs⟩) (ht : cs'.take 2 <+: cs) : d.Heads (.ofList (d.text ++ cs')) ⟨o, cs'⟩ :=
  ⟨h.nesting_le, by simp, h.offset_eq, h.stops.of_take_two ht⟩

namespace Session

variable {s : Session} {line : String}

/-- A clause from end to end is not malformed. -/
theorem evaluate_ne_malformed {d : Clause} (hn : d.nesting ≤ maxNesting) (e : SyntaxError) :
    (s.evaluate (.ofList d.text)).result ≠ .error (.malformed e) := by
  have hr := Statement.read_of_heads (Clause.heads_text hn)
  cases ho : d.statement.outcome s.table with
  | error e' =>
    obtain ⟨p, rfl⟩ := Clause.outcome_error ho
    simp [evaluate, hr, ho, refuse]
  | ok b => simp [evaluate, hr, ho, record]

/-- A malformed line breaks off, or something is left over behind a clause that has
been carried out. -/
theorem malformed_cases {e : SyntaxError} (h : (s.evaluate line).result = .error (.malformed e)) :
    (∃ w cs, line.toList = w ++ cs ∧ LineBreaks w cs e ∧ (s.evaluate line).session = s) ∨
    ∃ d b x r, Clause.Heads d line ⟨d.text.length, x :: r⟩ ∧ d.statement.outcome s.table = .ok b ∧
      e = .trailing d.text.length (.char x) ∧ (s.evaluate line).session = ⟨s.table.write b⟩ := by
  rcases evaluate_cases s line with ⟨e', hr, he⟩ | ⟨d, c, e', -, ho, he⟩ | ⟨d, c, b, hd, ho, he⟩
  · rw [he] at h ⊢
    cases h
    obtain ⟨w, cs, hw, hb⟩ := Statement.read_error_iff.mp hr
    exact .inl ⟨w, cs, hw, hb, rfl⟩
  · obtain ⟨p, rfl⟩ := Clause.outcome_error ho
    rw [he] at h
    cases h
  · obtain ⟨o, r⟩ := c
    obtain rfl : o = d.text.length := hd.offset_eq
    rw [he] at h ⊢
    cases r with
    | nil => cases h
    | cons x r =>
      cases h
      exact .inr ⟨d, b, x, r, hd, ho, rfl, rfl⟩

theorem evaluate_of_breaks {w cs : List Char} {e : SyntaxError} (h : LineBreaks w cs e) :
    (s.evaluate (.ofList (w ++ cs))).result = .error (.malformed e) ∧
    (s.evaluate (.ofList (w ++ cs))).session = s := by
  have hr : Statement.read (.ofList (w ++ cs)) = .error e := Statement.read_of_breaks (by simp) h
  rw [evaluate, hr]
  exact ⟨rfl, rfl⟩

/-- A clause that can be carried out, with text left over behind it. -/
theorem evaluate_leftOver {d : Clause} {b : Binding} {x : Char} {r : List Char}
    (hd : d.Heads line ⟨d.text.length, x :: r⟩) (ho : d.statement.outcome s.table = .ok b) :
    (s.evaluate line).result = .error (.malformed (.trailing d.text.length (.char x))) ∧
    (s.evaluate line).session = ⟨s.table.write b⟩ := by
  rw [evaluate_of_heads hd ho]
  exact ⟨rfl, rfl⟩

/-- A clause that can be carried out, with nothing behind it. -/
theorem evaluate_clause {d : Clause} {b : Binding} (hn : d.nesting ≤ maxNesting)
    (ho : d.statement.outcome s.table = .ok b) :
    (∃ a, (s.evaluate (.ofList d.text)).result = .ok a) ∧
    (s.evaluate (.ofList d.text)).session = ⟨s.table.write b⟩ := by
  rw [evaluate_of_heads (Clause.heads_text hn) ho]
  exact ⟨⟨_, rfl⟩, rfl⟩

/-- In front of the position of a syntax error stands a text that has a result if
something was left over there, and that otherwise is completed by what is missing
and a parenthesis for each one left open. Every line that goes on there with the same
two characters, or that ends where this one does, fails with the same error and
leaves the same variables. -/
theorem evaluate_malformed (s : Session) (line : String) (e : SyntaxError)
    (h : (s.evaluate line).result = .error (.malformed e)) :
    ∃ before after, line.toList = before ++ after ∧ (String.ofList before).utf8ByteSize = e.position ∧
      (∀ p f, e = .trailing p f → ∃ a, (s.evaluate (.ofList before)).result = .ok a) ∧
      (∀ e', (s.evaluate (.ofList (before ++ e.completion before))).result ≠ .error (.malformed e')) ∧
      ∀ after', after'.take 2 = after.take 2 →
        (s.evaluate (.ofList (before ++ after'))).result = .error (.malformed e) ∧
        (s.evaluate (.ofList (before ++ after'))).session.table = (s.evaluate line).session.table := by
  rcases malformed_cases h with ⟨w, cs, hw, hb, hs⟩ | ⟨d, b, x, r, hd, ho, rfl, hs⟩
  · refine ⟨w, cs, hw, hb.utf8ByteSize_eq, fun p f he => ?_, fun e' => ?_, fun cs' hcs => ?_⟩
    · exact absurd he hb.ne_trailing
    · obtain ⟨d, hn, hd⟩ := hb.exists_completed
      exact hd ▸ evaluate_ne_malformed hn e'
    · obtain ⟨h₁, h₂⟩ := evaluate_of_breaks (hb.of_take_two hcs)
      exact ⟨h₁, by rw [h₂, hs]⟩
  · refine ⟨d.text, x :: r, hd.toList_eq, d.utf8ByteSize_text, fun _ _ _ => (evaluate_clause hd.nesting_le ho).1,
      fun e' => ?_, fun cs' hcs => ?_⟩
    · have : d.text ++ SyntaxError.completion (.trailing d.text.length (.char x)) d.text = d.text := by
        simp [SyntaxError.completion, SyntaxError.missing, d.unclosed_text]
      rw [this]
      exact evaluate_ne_malformed hd.nesting_le e'
    · obtain ⟨r', rfl⟩ := exists_cons_of_take_two hcs
      obtain ⟨h₁, h₂⟩ := evaluate_leftOver (hd.of_take_two (take_two_of_eq hcs)) ho
      exact ⟨h₁, by rw [h₂, hs]⟩

/-- A sign is no operand if no digit follows, whatever else does. -/
theorem evaluate_malformed_at_sign :
    (∀ e, (({} : Session).evaluate "(2 + 0)").result ≠ .error (.malformed e)) ∧
    (({} : Session).evaluate "(2 + -x) * 3").result =
      .error (.malformed (.unexpected 5 (.char '-') Production.operandStarts)) := by
  have h : (({} : Session).evaluate "(2 + -x").result =
      .error (.malformed (.unexpected 5 (.char '-') Production.operandStarts)) := by decide +kernel
  obtain ⟨before, after, hl, hb, -, hc, hlocal⟩ := evaluate_malformed {} "(2 + -x" _ h
  have hbefore := front_append before after
  rw [hb, ← hl] at hbefore
  obtain rfl : "(2 + ".toList = before := .trans (by decide) hbefore
  obtain rfl : "-x".toList = after := List.append_cancel_left (.trans (by decide) hl)
  exact ⟨hc, (hlocal "-x) * 3".toList rfl).1⟩

end Session

end DeskCalc
