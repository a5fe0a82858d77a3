import DeskCalc.Proofs.Positions

/-!
# What an error says

The payload of an error is about the text: its position is that of a character or the
end of the line, and what is said to stand there does.

Results:
* `Phrase.balanced_text`: the parentheses of a phrase are balanced.
* `Breaks.exists_opened`: the parenthesis that an error calls unmatched is the last one
  left open.
* `evaluate_truthful`: what the error of a line says about the text around its position.
-/
namespace DeskCalc

/-! ## Balanced texts -/

/-- Every parenthesis that is closed in the text was opened in front, and every one that
is opened is closed. -/
structure Balanced (cs : List Char) : Prop where
  opened : ∀ u, u <+: cs → u.count ')' ≤ u.count '('
  closed : cs.count '(' = cs.count ')'

namespace Balanced

variable {u v w : List Char}

theorem of_plain (h : Plain w) : Balanced w := by
  have hopen : '(' ∉ w := fun hc => (h _ hc).1 rfl
  have hclose : ')' ∉ w := fun hc => (h _ hc).2 rfl
  refine ⟨fun u hu => ?_, ?_⟩
  · rw [List.count_eq_zero.mpr fun hc => hclose (hu.subset hc)]
    exact Nat.zero_le _
  · rw [List.count_eq_zero.mpr hopen, List.count_eq_zero.mpr hclose]

theorem append (hu : Balanced u) (hv : Balanced v) : Balanced (u ++ v) := by
  refine ⟨fun x hx => ?_, by simp only [List.count_append, hu.closed, hv.closed]⟩
  rcases List.prefix_or_prefix_of_prefix hx (List.prefix_append u v) with h | ⟨y, rfl⟩
  · exact hu.opened x h
  · have := hv.opened y ((List.prefix_append_right_inj u).mp hx)
    have := hu.closed
    simp only [List.count_append]
    omega

theorem group (h : Balanced w) : Balanced ('(' :: (w ++ [')'])) := by
  have hw := h.closed
  refine ⟨fun x hx => ?_, by simp [hw]⟩
  rcases List.prefix_cons_iff.mp hx with rfl | ⟨y, rfl, hy⟩
  · exact Nat.le_refl _
  · rcases List.prefix_concat_iff.mp hy with rfl | hy
    · simp [hw]
    · have := h.opened y hy
      simp only [List.count_cons_self, List.count_cons_of_ne (show '(' ≠ ')' by decide)]
      omega

end Balanced

theorem Phrase.balanced_text {r : Rank} (p : Phrase r) : Balanced p.text := by
  induction p with
  | group a p b ih =>
    exact (((Balanced.of_plain (plain_spaces a)).append ih).append (.of_plain (plain_spaces b))).group
  | name x h => exact .of_plain (plain_of_isNameChar h.isNameChar)
  | literal l h => exact .of_plain h.plain
  | single _ ih => exact ih
  | more p a op _ b q ih₁ ih₂ =>
    have hright := (Balanced.of_plain (plain_spaces b)).append ih₂
    have hsymbol := (Balanced.of_plain (plain_symbol op)).append hright
    exact (ih₁.append (.of_plain (plain_spaces a))).append hsymbol

/-! ## What errors say -/

/-- What the error says about the text in front of its position and the text there. -/
def SyntaxError.Truthful (before after : List Char) : SyntaxError → Prop
  | .unexpected p _ _ => ∀ c ∈ after.head?, c ≠ '(' ∧ c.isAlphanum = false ∧ (c = ' ' → p = 0) ∧
      (c = '+' ∨ c = '-' → ∀ d ∈ after.tail.head?, d.isDigit = false)
  | .unmatchedParen o p _ => o < p ∧
      (∃ outer inner, before = outer ++ '(' :: inner ∧ (String.ofList outer).utf8ByteSize = o ∧ Balanced inner) ∧
      ∀ c ∈ after.head?, c ∉ [')', ' ', '+', '-', '*', '/', '^']
  | .trailing p _ => 0 < p ∧ p < (String.ofList (before ++ after)).utf8ByteSize ∧
      ∀ c ∈ after.head?, c ∉ [' ', '+', '-', '*', '/', '^'] ∧ (c = '=' → '=' ∈ before)
  | .tooDeep .. => after.head? = some '('

def EvalError.Truthful (before after : List Char) : EvalError → Prop
  | .malformed e => e.Truthful before after
  | .notAssignable _ => '=' ∉ before ∧ after.head? = some '='

/-- What is said to stand at the position, if the error says it. -/
def EvalError.found? : EvalError → Option Found
  | .malformed e => some e.found
  | .notAssignable _ => none

theorem Rank.Stops.not_mem {cs : List Char} (h : Rank.sum.Stops cs) {c : Char} (hc : c ∈ cs.head?) :
    c ∉ [' ', '+', '-', '*', '/', '^'] := by
  obtain ⟨hspace, hop⟩ := h c hc
  simp only [List.mem_cons, List.not_mem_nil, or_false, not_or]
  exact ⟨hspace, hop .add (Nat.zero_le _), hop .sub (Nat.zero_le _), hop .mul (Nat.zero_le _), hop .div (Nat.zero_le _),
    hop .pow (Nat.zero_le _)⟩

/-! ## Where a phrase breaks off -/

namespace Breaks

variable {n o p k : Nat} {r : Rank} {w cs : List Char} {e : SyntaxError} {f : Found} {ks : List TokenKind}

theorem found_eq (h : Breaks n r o w cs e) (q : Nat) : e.found = (Cursor.mk q cs).found := by
  induction h with
  | operand | nested | unclosed => rfl
  | inside _ _ ih | first _ ih | right _ _ _ _ ih => exact ih

theorem noOperand (h : Breaks n r o w cs (.unexpected p f ks)) : NoOperand cs := by
  generalize he : SyntaxError.unexpected p f ks = e at h
  induction h with
  | operand h => exact h
  | nested | unclosed => cases he
  | inside _ _ ih | first _ ih | right _ _ _ _ ih => exact ih he

/-- Spaces are skipped everywhere but in front of the phrase. -/
theorem eq_nil_of_space (h : Breaks n r o w cs (.unexpected p f ks)) (hc : cs.head? = some ' ') : w = [] := by
  generalize he : SyntaxError.unexpected p f ks = e at h
  induction h with
  | operand => rfl
  | nested | unclosed => cases he
  | inside hs _ ih | right _ _ hs _ ih =>
    cases ih hc he
    exact absurd hc hs
  | first _ ih => exact ih hc he

theorem head_of_tooDeep (h : Breaks n r o w cs (.tooDeep p k)) : cs.head? = some '(' := by
  generalize he : SyntaxError.tooDeep p k = e at h
  induction h with
  | operand | unclosed => cases he
  | nested => rfl
  | inside _ _ ih | first _ ih | right _ _ _ _ ih => exact ih he

/-- What stands behind the parenthesis that is called unmatched is balanced, and does
not go on. -/
theorem exists_opened (h : Breaks n r o w cs (.unmatchedParen k p f)) :
    (∃ outer inner, w = outer ++ '(' :: inner ∧ k = o + outer.length ∧ Balanced inner) ∧
    Rank.sum.Stops cs ∧ cs.head? ≠ some ')' := by
  generalize he : SyntaxError.unmatchedParen k p f = e at h
  induction h with
  | operand | nested => cases he
  | @unclosed _ _ a b _ p _ _ hs hc =>
    cases he
    have hinner := (Balanced.of_plain (plain_spaces a)).append (p.balanced_text.append (.of_plain (plain_spaces b)))
    exact ⟨⟨[], _, rfl, rfl, hinner⟩, hs, hc⟩
  | @inside _ _ a _ _ _ _ _ ih =>
    -- the unmatched parenthesis is one further in
    obtain ⟨⟨outer, inner, rfl, rfl, hinner⟩, hstop⟩ := ih he
    exact ⟨⟨'(' :: (spaces a ++ outer), inner, by simp, by simp [spaces]; omega, hinner⟩, hstop⟩
  | first _ ih => exact ih he
  | @right _ _ a b op _ _ _ q _ _ _ ih =>
    obtain ⟨⟨outer, inner, rfl, rfl, hinner⟩, hstop⟩ := ih he
    exact ⟨⟨q.text ++ (spaces a ++ op.symbol :: (spaces b ++ outer)), inner, by simp, by simp [spaces]; omega, hinner⟩,
      hstop⟩

end Breaks

/-! ## Lines -/

theorem Cursor.found_eq_endOfInput_iff {c : Cursor} : c.found = .endOfInput ↔ c.rest = [] := by
  cases h : c.rest <;> simp [found, h]

theorem Cursor.found_eq_char_iff {c : Cursor} {x : Char} : c.found = .char x ↔ c.rest.head? = some x := by
  cases h : c.rest <;> simp [found, h]

namespace LineBreaks

variable {w cs : List Char} {e : SyntaxError}

theorem found_eq (h : LineBreaks w cs e) (q : Nat) : e.found = (Cursor.mk q cs).found := by
  cases h with
  | left h => exact h.found_eq q
  | right _ _ _ h => exact h.found_eq q

theorem exists_side (h : LineBreaks w cs e) : ∃ u v, w = u ++ v ∧ Breaks maxNesting .sum u.length v cs e ∧
    (u = [] ∨ (v ++ cs).head? ≠ some ' ') := by
  cases h with
  | left h => exact ⟨[], w, rfl, h, .inl rfl⟩
  | @right n m w _ _ p _ hs h =>
    have hlength : p.text.length + (n + (1 + m)) = (p.text ++ (spaces n ++ '=' :: spaces m)).length := by
      simp [spaces]
      omega
    exact ⟨p.text ++ (spaces n ++ '=' :: spaces m), w, by simp, hlength ▸ h, .inr hs⟩

theorem truthful (h : LineBreaks w cs e) : e.Truthful w cs := by
  obtain ⟨u, v, rfl, hb, hu⟩ := h.exists_side
  have hp := hb.position_eq
  cases e with
  | unexpected p f ks =>
    intro c hc
    obtain ⟨hparen, halpha, hdigit, hsign⟩ := hb.noOperand c hc
    refine ⟨hparen, by simp [Char.isAlphanum, halpha, hdigit], ?_, hsign⟩
    rintro rfl
    -- spaces are skipped behind every word, so this one comes first in the line
    obtain rfl := hb.eq_nil_of_space hc
    obtain rfl := hu.resolve_right fun hs => hs hc
    exact hp
  | unmatchedParen o p f =>
    obtain ⟨⟨outer, inner, rfl, rfl, hinner⟩, hs, hclose⟩ := hb.exists_opened
    refine ⟨?_, ⟨u ++ outer, inner, by simp, ?_, hinner⟩, fun c hc => ?_⟩
    · simp [SyntaxError.position] at hp
      omega
    · rw [utf8ByteSize_ofList fun c hc => h.utf8Size_of_mem (by simp at hc ⊢; tauto), List.length_append]
    · refine List.not_mem_cons_of_ne_of_not_mem ?_ (hs.not_mem hc)
      rintro rfl
      exact hclose hc
  | trailing => exact absurd rfl hb.ne_trailing
  | tooDeep => exact hb.head_of_tooDeep

end LineBreaks

namespace Clause

variable {d : Clause} {line : String}

theorem text_ne_nil (d : Clause) : d.text ≠ [] := by
  cases d with
  | answer p k =>
    obtain ⟨c, w, e, -⟩ := p.head_text
    simp [text, e]
  | equation p n m q k => simp [text]

/-- Only an equation fails, at its equals sign, and the first one of the line is that. -/
theorem Heads.truthful_of_error {c : Cursor} {t : Table} {e : EvalError} (h : d.Heads line c)
    (ho : d.statement.outcome t = .error e) : ∃ before after, line.toList = before ++ after ∧
      (String.ofList before).utf8ByteSize = e.position ∧ e.Truthful before after := by
  cases d with
  | answer => cases ho
  | equation p n m q k =>
    obtain ⟨o, rfl⟩ := outcome_error ho
    have hposition : o = (p.text ++ spaces n).length := by
      simp only [statement, Statement.outcome] at ho
      split at ho <;> cases ho
      simp [spaces]
    refine ⟨p.text ++ spaces n, '=' :: (spaces m ++ (q.text ++ (spaces k ++ c.rest))), ?_, ?_,
      Line.equals_not_mem_answer p n, rfl⟩
    · rw [h.toList_eq, text]
      simp
    · rw [EvalError.position, hposition]
      refine utf8ByteSize_ofList fun c hc => (equation p n m q k).utf8Size_of_mem ?_
      rw [text, ← List.append_assoc]
      exact List.mem_append_left _ hc

/-- A clause is not empty, and what is left over behind it does not go on with it. -/
theorem Heads.truthful_of_leftOver {x : Char} {r : List Char} (h : d.Heads line ⟨d.text.length, x :: r⟩) :
    (SyntaxError.trailing d.text.length (.char x)).Truthful d.text (x :: r) := by
  have hsize : (String.ofList (d.text ++ x :: r)).utf8ByteSize =
      d.text.length + (String.ofList (x :: r)).utf8ByteSize := by
    rw [String.ofList_append, String.utf8ByteSize_append, d.utf8ByteSize_text]
  have hx := x.utf8Size_pos
  rw [utf8ByteSize_cons] at hsize
  refine ⟨List.length_pos_iff.mpr d.text_ne_nil, by omega, fun c hc => ?_⟩
  cases d with
  | answer p k =>
    obtain ⟨-, hs, hne⟩ := h.stops
    exact ⟨hs.not_mem hc, fun e => absurd (e ▸ hc) hne⟩
  | equation p n m q k => exact ⟨h.stops.2.not_mem hc, fun _ => by simp [text]⟩

end Clause

namespace Session

variable {s : Session} {line : String} {e : EvalError}

theorem exists_truthful (h : (s.evaluate line).result = .error e) :
    ∃ before after, line.toList = before ++ after ∧ (String.ofList before).utf8ByteSize = e.position ∧
      (∀ f, e.found? = some f → f = (Cursor.mk e.position after).found) ∧ e.Truthful before after := by
  cases e with
  | malformed e =>
    rcases malformed_cases h with ⟨w, cs, hw, hb, -⟩ | ⟨d, b, x, r, hd, -, rfl, -⟩
    · refine ⟨w, cs, hw, hb.utf8ByteSize_eq, fun f hf => ?_, hb.truthful⟩
      cases hf
      exact hb.found_eq _
    · refine ⟨d.text, x :: r, hd.toList_eq, d.utf8ByteSize_text, fun f hf => ?_, hd.truthful_of_leftOver⟩
      cases hf
      rfl
  | notAssignable p =>
    rcases evaluate_cases s line with ⟨e, -, he⟩ | ⟨d, c, e, hd, ho, he⟩ | ⟨d, c, b, -, -, he⟩
    · rw [he] at h
      cases h
    · rw [he] at h
      cases h
      obtain ⟨before, after, hline, hsize, ht⟩ := hd.truthful_of_error ho
      exact ⟨before, after, hline, hsize, nofun, ht⟩
    · obtain ⟨o, r⟩ := c
      rw [he] at h
      cases r <;> cases h

/-- The position of an error is that of a character or the end of the line, and what
the error says about the text in front of it and the text there is true. -/
theorem evaluate_truthful (s : Session) (line : String) (e : EvalError) (h : (s.evaluate line).result = .error e) :
    e.position ≤ line.utf8ByteSize ∧
    ∃ before after, line.toList = before ++ after ∧ (String.ofList before).utf8ByteSize = e.position ∧
      (∀ f, e.found? = some f →
        (f = .endOfInput ↔ e.position = line.utf8ByteSize) ∧ ∀ c, f = .char c ↔ after.head? = some c) ∧
      e.Truthful before after := by
  obtain ⟨before, after, hline, hsize, hfound, ht⟩ := exists_truthful h
  have hlength : line.utf8ByteSize = e.position + (String.ofList after).utf8ByteSize := by
    rw [← hsize, ← String.utf8ByteSize_append, ← String.ofList_append, ← hline, String.ofList_toList]
  refine ⟨by omega, before, after, hline, hsize, fun f hf => ?_, ht⟩
  rw [hfound f hf]
  refine ⟨Cursor.found_eq_endOfInput_iff.trans ?_, fun c => Cursor.found_eq_char_iff⟩
  cases after with
  | nil => simpa using hlength.symm
  | cons x r =>
    have := x.utf8Size_pos
    rw [utf8ByteSize_cons] at hlength
    exact iff_of_false (List.cons_ne_nil x r) (by omega)

/-- The group in front is closed, so the parenthesis around it is the unmatched one. -/
theorem evaluate_truthful_unmatched : ∃ before after,
    "2 * ((1) é".toList = before ++ after ∧ (String.ofList before).utf8ByteSize = 9 ∧ after.head? = some 'é' ∧
    ∃ outer inner, before = outer ++ '(' :: inner ∧ (String.ofList outer).utf8ByteSize = 4 ∧ Balanced inner := by
  have h : (({} : Session).evaluate "2 * ((1) é").result = .error (.malformed (.unmatchedParen 4 9 (.char 'é'))) := by
    decide +kernel
  obtain ⟨-, before, after, hline, hsize, hfound, -, hopened, -⟩ := evaluate_truthful {} _ _ h
  exact ⟨before, after, hline, hsize, ((hfound _ rfl).2 'é').mp rfl, hopened⟩

end Session

end DeskCalc
