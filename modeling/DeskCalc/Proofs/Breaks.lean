import DeskCalc.Proofs.Clause

/-!
# Where reading breaks off

A text that is not read breaks off at a place: in front of it stands the beginning
of a phrase, and what follows does not go on with it. `Breaks` derives the two parts
and the error, as `Phrase` derives the texts that are read.

Results:
* `breaks_of_run`, `run_of_breaks`: the reader refuses a text exactly if it breaks
  off, and with that error.
* `Statement.read_error_iff`: the same for lines.
* `Statement.read_ne_trailing`: the reader itself never complains of text that is
  left over, so that complaint means that the statement in front has been carried
  out.
-/
namespace DeskCalc

/-! ## Texts without an operand in front -/

/-- No operand starts like this text. -/
def NoOperand (cs : List Char) : Prop :=
  ∀ c ∈ cs.head?, c ≠ '(' ∧ c.isAlpha = false ∧ c.isDigit = false ∧
    (c = '+' ∨ c = '-' → ∀ d ∈ cs.tail.head?, d.isDigit = false)

theorem Literal.split_eq_none_iff {cs : List Char} :
    split cs = none ↔ ∀ d ∈ (splitSign cs).2.head?, d.isDigit = false := by
  cases hd : (splitSign cs).2 with
  | nil => simp [split, hd]
  | cons d ds => by_cases h : d.isDigit <;> simp [split, hd, h]

theorem Cursor.eat_number_none_iff {c : Cursor} : c.eat .number = none ↔ Literal.split c.rest = none := by
  rw [eat_eq_none_iff]
  simp only [TokenKind.lexeme]
  cases h : Literal.split c.rest with
  | none => simp
  | some r =>
    obtain ⟨l, r⟩ := r
    obtain ⟨x, w, e, -⟩ := Literal.head_chars (Literal.wellFormed_of_split h).1
    simp [e]

theorem Cursor.eat_identifier_none_iff {c : Cursor} :
    c.eat .identifier = none ↔ ∀ x ∈ c.rest.head?, x.isAlpha = false := by
  rw [eat_eq_none_iff]
  simp only [TokenKind.lexeme]
  cases c.rest with
  | nil => simp
  | cons x r => by_cases h : x.isAlpha <;> simp [h]

theorem noOperand_iff {cs : List Char} :
    NoOperand cs ↔ cs.head? ≠ some '(' ∧ (∀ c ∈ cs.head?, c.isAlpha = false) ∧ Literal.split cs = none := by
  rw [Literal.split_eq_none_iff]
  cases cs with
  | nil => simp [NoOperand, Literal.splitSign]
  | cons c r =>
    simp only [NoOperand, List.head?_cons, Option.mem_some_iff, forall_eq', List.tail_cons, ne_eq,
      Option.some.injEq]
    by_cases hp : c = '+'
    · subst hp
      simp [Literal.splitSign]
    · by_cases hm : c = '-'
      · subst hm
        simp [Literal.splitSign]
      · have : Literal.splitSign (c :: r) = (none, c :: r) := by
          unfold Literal.splitSign
          split <;> simp_all
        simp [this, hp, hm]

namespace Production

variable {o : Nat} {cs : List Char} {c : Cursor} {e : SyntaxError}

theorem word_of_noOperand (h : NoOperand cs) :
    word ⟨o, cs⟩ = .error (.unexpected o (Cursor.mk o cs).found operandStarts) := by
  obtain ⟨-, h₁, h₂⟩ := noOperand_iff.mp h
  have h₁ : Cursor.eat .identifier ⟨o, cs⟩ = none := Cursor.eat_identifier_none_iff.mpr h₁
  have h₂ : Cursor.eat .number ⟨o, cs⟩ = none := Cursor.eat_number_none_iff.mpr h₂
  simp [word, h₁, h₂]

theorem noOperand_of_word (hp : c.rest.head? ≠ some '(') (h : word c = .error e) :
    NoOperand c.rest ∧ e = .unexpected c.offset c.found operandStarts := by
  unfold word at h
  split at h
  · cases h
  · rename_i h₁
    split at h
    · cases h
    · rename_i h₂
      cases h
      refine ⟨noOperand_iff.mpr ⟨hp, Cursor.eat_identifier_none_iff.mp h₁, ?_⟩, rfl⟩
      rw [← Cursor.eat_number_none_iff]
      cases hn : c.eat .number with
      | none => rfl
      | some r =>
        -- a literal that is eaten is one, so the reader would have taken it
        obtain ⟨w, c'⟩ := r
        obtain ⟨l, hl, rfl, -⟩ := Cursor.eat_number_iff.mp hn
        simp [hn, Literal.ofChars?_chars hl] at h₂

end Production

/-! ## Beginnings of phrases -/

/-- Where `n` more parentheses may be opened, a phrase of rank `r` that starts at
offset `o` breaks off between `w` and `cs` with the error `e`. -/
inductive Breaks : (n : Nat) → (r : Rank) → (o : Nat) → (w cs : List Char) → (e : SyntaxError) → Prop
  /-- An operand is due. -/
  | operand {n o : Nat} {cs : List Char} (h : NoOperand cs) :
      Breaks n .value o [] cs (.unexpected o (Cursor.mk o cs).found Production.operandStarts)
  /-- An operand is due, and what is there would open a parenthesis too many. -/
  | nested {o : Nat} {cs : List Char} : Breaks 0 .value o [] ('(' :: cs) (.tooDeep o maxNesting)
  | inside {n o a : Nat} {w cs : List Char} {e : SyntaxError} (hs : (w ++ cs).head? ≠ some ' ')
      (h : Breaks n .sum (o + (1 + a)) w cs e) : Breaks (n + 1) .value o ('(' :: (spaces a ++ w)) cs e
  /-- A closing parenthesis is due. -/
  | unclosed {n o a b : Nat} {cs : List Char} (p : Phrase .sum) (hn : p.nesting ≤ n)
      (he : p.Ends (spaces b ++ cs)) (hs : Rank.sum.Stops cs) (hc : cs.head? ≠ some ')') :
      Breaks (n + 1) .value o ('(' :: (spaces a ++ (p.text ++ spaces b))) cs
        (.unmatchedParen o (o + (1 + (a + (p.text.length + b)))) (Cursor.mk o cs).found)
  | first {n o : Nat} {level : Level} {w cs : List Char} {e : SyntaxError}
      (h : Breaks n level.operand o w cs e) : Breaks n (.chain level) o w cs e
  | right {n o a b : Nat} {op : Op} {w cs : List Char} {e : SyntaxError} (p : Phrase (.chain op.level))
      (hn : p.nesting ≤ n) (hs : (w ++ cs).head? ≠ some ' ')
      (h : Breaks n op.level.operand (o + (p.text.length + (a + (1 + b)))) w cs e) :
      Breaks n (.chain op.level) o (p.text ++ (spaces a ++ op.symbol :: (spaces b ++ w))) cs e

theorem Breaks.ne_trailing {n o p : Nat} {r : Rank} {w cs : List Char} {e : SyntaxError} {f : Found}
    (h : Breaks n r o w cs e) : e ≠ .trailing p f := by
  induction h with
  | operand | nested | unclosed => exact nofun
  | first _ ih => exact ih
  | inside _ _ ih => exact ih
  | right _ _ _ _ ih => exact ih

/-! ## Completeness -/

theorem Production.more_symbol_error {p : Production} {op : Op} {left : Expr} {o m : Nat} {cs : List Char}
    {e : SyntaxError} (hs : cs.head? ≠ some ' ') (h : p.run ⟨o + (1 + m), cs⟩ = .error e) :
    p.more op.level left ⟨o, op.symbol :: (spaces m ++ cs)⟩ = .error e := by
  have he := Cursor.eat_symbol (o := o) (r := spaces m ++ cs) op.level.single_token (Level.isSymbol_symbol op)
  rw [← Nat.add_assoc] at h
  exact more_error he (by rw [Cursor.skipSpaces_spaces hs, h])

namespace Breaks

open Production (ofRank ofRank_chain operandWithin)

variable {n o : Nat} {r : Rank} {w cs : List Char} {e : SyntaxError}

theorem eat_parenthesis (cs : List Char) : Cursor.eat .leftParen ⟨o, '(' :: cs⟩ = some (['('], ⟨o + 1, cs⟩) :=
  Cursor.eat_only TokenKind.only_leftParen

theorem run_of_breaks (h : Breaks n r o w cs e) : (ofRank n r).run ⟨o, w ++ cs⟩ = .error e := by
  induction h with
  | operand h =>
    exact (Production.operandWithin_word _ (noOperand_iff.mp h).1).trans (Production.word_of_noOperand h)
  | nested => simp [ofRank, operandWithin, Production.operand, eat_parenthesis]
  | @inside n o a w cs e hs h ih =>
    rw [← Nat.add_assoc] at ih
    have ih : (operandWithin n).sum.run ⟨o + 1 + a, w ++ cs⟩ = .error e := ih
    simp [ofRank, operandWithin, Production.operand, eat_parenthesis, Production.closed,
      Cursor.skipSpaces_spaces hs, ih]
  | @unclosed n o a b cs p hn he hs hc =>
    obtain ⟨c', hr, hc'⟩ := (p.taken hn).run (o := o + 1 + a) he hs
    have hr : (operandWithin n).sum.run ⟨o + 1 + a, p.text ++ (spaces b ++ cs)⟩ = .ok (p.expr, c') := hr
    have hclose (o : Nat) : Cursor.eat .rightParen ⟨o, cs⟩ = none :=
      (Cursor.eat_only_none_iff TokenKind.only_rightParen).mpr hc
    simp only [ofRank, operandWithin, Production.operand, List.cons_append, List.append_assoc, eat_parenthesis,
      Production.closed, Cursor.skipSpaces_spaces (p.head_ne_space _), hr, hc', hclose]
    simp only [Nat.add_assoc]
    rfl
  | first _ ih =>
    rw [ofRank_chain]
    exact Production.chain_run_error ih
  | @right n o a b op w cs e p hn hs h ih =>
    have hp := (p.taken hn) o a (op.symbol :: (spaces b ++ (w ++ cs)))
      (p.ends_symbol a op _) (Rank.stops_symbol op _)
    simp only [List.append_assoc, List.cons_append]
    refine hp.trans (Production.more_symbol_error hs ?_)
    simpa only [Nat.add_assoc] using ih

end Breaks

/-! ## Soundness -/

namespace Production

/-- Whatever the reader refuses breaks off. -/
def Explains (n : Nat) (r : Rank) (reader : Production) : Prop :=
  ∀ c e, reader.run c = .error e → ∃ w cs, c.rest = w ++ cs ∧ Breaks n r c.offset w cs e

variable {n : Nat} {level : Level} {reader : Production} {c : Cursor} {e : SyntaxError}

theorem breaks_of_word (hp : c.eat .leftParen = none) (h : word c = .error e) :
    ∃ w cs, c.rest = w ++ cs ∧ Breaks n .value c.offset w cs e := by
  obtain ⟨hn, rfl⟩ := noOperand_of_word ((Cursor.eat_only_none_iff TokenKind.only_leftParen).mp hp) h
  exact ⟨[], c.rest, rfl, .operand hn⟩

theorem breaks_of_closed (hs : reader.Sound n .sum) (hr : reader.Explains n .sum) {c₁ : Cursor} {u : List Char}
    (hl : c.eat .leftParen = some (u, c₁)) (h : closed reader c.offset c₁ = .error e) :
    ∃ w cs, c.rest = w ++ cs ∧ Breaks (n + 1) .value c.offset w cs e := by
  obtain ⟨hopen, hopen'⟩ := Cursor.rest_of_eat_only TokenKind.only_leftParen hl
  obtain ⟨a, ha, ho, hne⟩ := c₁.exists_spaces
  have hspaces : c₁.rest = spaces a ++ c₁.skipSpaces.rest := congrArg Cursor.rest ha
  unfold closed at h
  split at h
  · rename_i hr'
    cases h
    obtain ⟨w, cs, hw, hb⟩ := hr _ _ hr'
    refine ⟨'(' :: (spaces a ++ w), cs, by rw [hopen, hspaces, hw]; simp, .inside (hw ▸ hne) ?_⟩
    rwa [ho, hopen', Nat.add_assoc] at hb
  · rename_i c₂ hr'
    split at h
    · cases h
    · rename_i hn
      cases h
      obtain ⟨p, hp, -, b, h₁, h₂, h₃, h₄⟩ := hs _ _ _ hr'
      have hclose := (Cursor.eat_only_none_iff TokenKind.only_rightParen).mp hn
      refine ⟨'(' :: (spaces a ++ (p.text ++ spaces b)), c₂.skipSpaces.rest, ?_, ?_⟩
      · rw [hopen, hspaces, h₁]
        simp
      · have ho₂ : c₂.skipSpaces.offset = c.offset + (1 + (a + (p.text.length + b))) := by omega
        rw [ho₂]
        exact .unclosed p hp h₃ h₄ hclose

/-- A chain read so far, with the spaces behind it, and where the reader breaks off. -/
theorem breaks_of_more (hs : reader.Sound n level.operand) (hr : reader.Explains n level.operand) {left : Expr}
    (h : reader.more level left c = .error e) {c₀ : Cursor} (q : Phrase (.chain level)) (hn : q.nesting ≤ n)
    (he : q.expr = left) (hq : q.Spans level.operand c₀ c) :
    ∃ w cs, c₀.rest = w ++ cs ∧ Breaks n (.chain level) c₀.offset w cs e := by
  fun_induction reader.more level left c generalizing q with
  | case1 => cases h
  | case2 left c u c₁ h₁ e' h₂ =>
    cases h
    obtain ⟨x, rfl, hx, hc, hc₁⟩ := Cursor.symbol_of_eat level.single_token h₁
    obtain ⟨op, rfl, rfl⟩ := Level.exists_op hx
    obtain ⟨b, hb, ho, hne⟩ := c₁.exists_spaces
    obtain ⟨w, cs, hw, hbr⟩ := hr _ _ h₂
    obtain ⟨a, h₃, h₄, -, -⟩ := hq
    have e₁ : c.rest = op.symbol :: c₁.rest := congrArg Cursor.rest hc
    have e₂ : c₁.rest = spaces b ++ c₁.skipSpaces.rest := congrArg Cursor.rest hb
    have e₃ : c₁.offset = c.offset + 1 := congrArg Cursor.offset hc₁
    refine ⟨q.text ++ (spaces a ++ op.symbol :: (spaces b ++ w)), cs, ?_, .right q hn (hw ▸ hne) ?_⟩
    · rw [h₃, e₁, e₂, hw]
      simp
    · have ho₁ : c₁.skipSpaces.offset = c₀.offset + (q.text.length + (a + (1 + b))) := by omega
      rwa [ho₁] at hbr
  | case3 left c u c₁ h₁ right c₂ h₂ ih =>
    obtain ⟨q', hn', he', hq'⟩ := spans_more hs q hn he hq h₁ h₂
    exact ih h q' hn' he' hq'

theorem Explains.chain (hs : reader.Sound n level.operand) (hr : reader.Explains n level.operand) :
    (reader.chain level).Explains n (.chain level) := by
  intro c e h
  cases h₁ : reader.run c with
  | error e' =>
    rw [chain_run_error h₁] at h
    cases h
    obtain ⟨w, cs, hw, hb⟩ := hr _ _ h₁
    exact ⟨w, cs, hw, .first hb⟩
  | ok r =>
    obtain ⟨left, c₁⟩ := r
    rw [chain_run h₁] at h
    obtain ⟨q, hn, he, hq⟩ := hs _ _ _ h₁
    exact breaks_of_more hs hr h (.single q) hn he hq

theorem explains_sum (hs : reader.Sound n .value) (hr : reader.Explains n .value) :
    reader.sum.Explains n .sum :=
  have factor := @Explains.chain n .exponential _ hs hr
  have term := @Explains.chain n .multiplicative _ (@Sound.chain n .exponential _ hs) factor
  @Explains.chain n .additive _ (@Sound.chain n .multiplicative _ (@Sound.chain n .exponential _ hs)) term

theorem explains_operandWithin (n : Nat) : (operandWithin n).Explains n .value := by
  induction n with
  | zero =>
    intro c e h
    simp only [operandWithin, operand] at h
    split at h
    · rename_i u c₁ hl
      cases h
      exact ⟨[], '(' :: c₁.rest, (Cursor.rest_of_eat_only TokenKind.only_leftParen hl).1, .nested⟩
    · rename_i hl
      exact breaks_of_word hl h
  | succ n ih =>
    intro c e h
    simp only [operandWithin, operand] at h
    split at h
    · rename_i hl
      exact breaks_of_closed (sound_sum (sound_operandWithin n)) (explains_sum (sound_operandWithin n) ih) hl h
    · rename_i hl
      exact breaks_of_word hl h

end Production

theorem Expr.read_error_iff {c : Cursor} {e : SyntaxError} :
    Expr.read c = .error e ↔ ∃ w cs, c.rest = w ++ cs ∧ Breaks maxNesting .sum c.offset w cs e := by
  constructor
  · exact Production.explains_sum (Production.sound_operandWithin maxNesting)
      (Production.explains_operandWithin maxNesting) c e
  · intro ⟨w, cs, hw, hb⟩
    obtain ⟨o, r⟩ := c
    obtain rfl : r = w ++ cs := hw
    exact hb.run_of_breaks

/-! ## Lines -/

/-- A line breaks off in its expression or behind its equals sign. -/
inductive LineBreaks : (w cs : List Char) → (e : SyntaxError) → Prop
  | left {w cs : List Char} {e : SyntaxError} (h : Breaks maxNesting .sum 0 w cs e) : LineBreaks w cs e
  | right {n m : Nat} {w cs : List Char} {e : SyntaxError} (p : Phrase .sum) (hn : p.nesting ≤ maxNesting)
      (hs : (w ++ cs).head? ≠ some ' ')
      (h : Breaks maxNesting .sum (p.text.length + (n + (1 + m))) w cs e) :
      LineBreaks (p.text ++ (spaces n ++ '=' :: (spaces m ++ w))) cs e

theorem LineBreaks.ne_trailing {p : Nat} {w cs : List Char} {e : SyntaxError} {f : Found}
    (h : LineBreaks w cs e) : e ≠ .trailing p f := by
  cases h with
  | left h => exact h.ne_trailing
  | right _ _ _ h => exact h.ne_trailing

namespace Statement

variable {line : String} {e : SyntaxError}

theorem read_of_breaks {w cs : List Char} (hw : line.toList = w ++ cs) (h : LineBreaks w cs e) :
    read line = .error e := by
  cases h with
  | left h =>
    have := (Expr.read_error_iff (c := .start line)).mpr ⟨w, cs, hw, h⟩
    simp [read, this, bind, Except.bind]
  | @right n m w cs e p hn hs h =>
    have hline : line.toList = p.text ++ (spaces n ++ '=' :: (spaces m ++ (w ++ cs))) := by simpa using hw
    have hp := spans_equals hline
    rw [← Nat.add_assoc, ← Nat.add_assoc] at h
    have := (Expr.read_error_iff (c := ⟨p.text.length + n + 1 + m, w ++ cs⟩)).mpr ⟨w, cs, rfl, h⟩
    simp [read, Expr.read_of_spans hn hp, bind, Except.bind, skipSpaces_of_spans hp,
      Cursor.eat_only TokenKind.only_assign, Cursor.skipSpaces_spaces hs, this]

theorem exists_breaks (h : read line = .error e) : ∃ w cs, line.toList = w ++ cs ∧ LineBreaks w cs e := by
  simp only [read, bind, Except.bind] at h
  split at h
  · rename_i hr
    cases h
    obtain ⟨w, cs, hw, hb⟩ := Expr.read_error_iff.mp hr
    exact ⟨w, cs, hw, .left hb⟩
  · rename_i r hr
    obtain ⟨left, c₁⟩ := r
    obtain ⟨_, -, -, hs⟩ := Expr.read_iff.mp hr
    simp only [skipSpaces_of_spans hs] at h
    split at h
    · cases h
    · rename_i u c₂ he
      split at h
      · rename_i hr'
        cases h
        obtain ⟨p, n, m, hp, -, -, ht, ho, hne⟩ := exists_left hr he
        obtain ⟨w, cs, hw, hb⟩ := Expr.read_error_iff.mp hr'
        rw [hw] at ht hne
        refine ⟨p.text ++ (spaces n ++ '=' :: (spaces m ++ w)), cs, ?_, .right p hp hne (ho ▸ hb)⟩
        rw [ht]
        simp
      · cases h

/-- A line is refused by the reader exactly if it breaks off. -/
theorem read_error_iff :
    read line = .error e ↔ ∃ w cs, line.toList = w ++ cs ∧ LineBreaks w cs e := by
  constructor
  · exact exists_breaks
  · intro ⟨w, cs, hw, hb⟩
    exact read_of_breaks hw hb

/-- The reader itself never complains of text that is left over. -/
theorem read_ne_trailing (line : String) (p : Nat) (f : Found) : read line ≠ .error (.trailing p f) := by
  intro he
  obtain ⟨_, _, -, hb⟩ := exists_breaks he
  exact hb.ne_trailing rfl

end Statement

end DeskCalc
