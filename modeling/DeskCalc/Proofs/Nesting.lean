import DeskCalc.Proofs.Words

/-!
# Parentheses in a text

How deep the parentheses of a text nest can be told by counting, without a
derivation.

Results:
* `Phrase.deepest_text`: the count agrees with the derivation, whatever stands
  around the text.
* `Phrase.unclosed_text`: a derivation leaves no parenthesis open.
-/
namespace DeskCalc

/-- The most parentheses that are open at a time in a text, of which `n` are open
in front of it. -/
def deepest (n : Nat) : List Char → Nat
  | [] => n
  | c :: cs =>
    if c = '(' then deepest (n + 1) cs
    else if c = ')' then max n (deepest (n - 1) cs)
    else deepest n cs

theorem le_deepest (n : Nat) (cs : List Char) : n ≤ deepest n cs := by
  induction cs generalizing n with
  | nil => exact Nat.le_refl n
  | cons c cs ih =>
    rw [deepest]
    split
    · exact Nat.le_trans (Nat.le_succ n) (ih (n + 1))
    · split
      · exact Nat.le_max_left _ _
      · exact ih n

/-! ## Texts without parentheses -/

def Plain (cs : List Char) : Prop := ∀ c ∈ cs, c ≠ '(' ∧ c ≠ ')'

theorem deepest_plain {w : List Char} (h : Plain w) (n : Nat) (cs : List Char) :
    deepest n (w ++ cs) = deepest n cs := by
  induction w with
  | nil => rfl
  | cons c w ih =>
    obtain ⟨h₁, h₂⟩ := h c (by simp)
    simp only [List.cons_append, deepest, h₁, h₂, if_false]
    exact ih fun x hx => h x (by simp [hx])

theorem deepest_of_plain {w : List Char} (h : Plain w) (n : Nat) : deepest n w = n := by
  simpa [deepest] using deepest_plain h n []

theorem plain_spaces (n : Nat) : Plain (spaces n) := by
  intro c h
  obtain rfl := List.eq_of_mem_replicate h
  decide

theorem plain_equals : Plain ['='] := by
  intro c h
  obtain rfl := List.mem_singleton.mp h
  decide

theorem plain_symbol (op : Op) : Plain [op.symbol] := by
  intro c h
  obtain rfl := List.mem_singleton.mp h
  cases op <;> decide

theorem plain_of_isNameChar {w : List Char} (h : ∀ c ∈ w, TokenKind.isNameChar c) : Plain w := by
  intro c hc
  have := h c hc
  constructor <;> intro e <;> subst e <;> exact absurd this (by decide)

theorem Literal.WellFormed.plain {l : Literal} (h : l.WellFormed) : Plain l.chars := by
  intro c hc
  rcases h.mem_chars hc with rfl | rfl | rfl | hd
  · decide
  · decide
  · decide
  · exact plain_of_isNameChar (w := [c]) (by simpa using isNameChar_of_isDigit hd) c (by simp)

/-! ## Derivations -/

theorem Phrase.deepest_text {r : Rank} (p : Phrase r) (n : Nat) (cs : List Char) :
    deepest n (p.text ++ cs) = max (n + p.nesting) (deepest n cs) := by
  induction p generalizing n cs with
  | name x h =>
    have := le_deepest n cs
    rw [text, deepest_plain (plain_of_isNameChar h.isNameChar), nesting]
    omega
  | literal l h =>
    have := le_deepest n cs
    rw [text, deepest_plain h.plain, nesting]
    omega
  | single p ih => exact ih n cs
  | group a p b ih =>
    have hopen (w : List Char) : deepest n ('(' :: w) = deepest (n + 1) w := by simp [deepest]
    have hclose : deepest (n + 1) (')' :: cs) = max (n + 1) (deepest n cs) := by simp [deepest]
    simp only [text, List.cons_append, List.append_assoc, List.nil_append]
    rw [hopen, deepest_plain (plain_spaces a), ih, deepest_plain (plain_spaces b), hclose, nesting]
    omega
  | more p a op _ b q ih₁ ih₂ =>
    have hsymbol (w : List Char) : deepest n (op.symbol :: w) = deepest n w :=
      deepest_plain (plain_symbol op) n w
    simp only [text, List.append_assoc, List.cons_append]
    rw [ih₁, deepest_plain (plain_spaces a), hsymbol, deepest_plain (plain_spaces b), ih₂, nesting]
    omega

theorem Line.deepest_text (d : Line) : deepest 0 d.text = d.nesting := by
  have hequals (w : List Char) : deepest 0 ('=' :: w) = deepest 0 w := deepest_plain plain_equals 0 w
  have hend (n : Nat) : deepest 0 (spaces n) = 0 := deepest_of_plain (plain_spaces n) 0
  cases d with
  | answer p k => simp [text, p.deepest_text, hend, nesting]
  | assign q n m p k =>
    rw [text, ← q.text_toValue, List.append_assoc, List.append_assoc, q.toValue.deepest_text,
      deepest_plain (plain_spaces n), hequals, deepest_plain (plain_spaces m), p.deepest_text, hend,
      q.nesting_toValue]
    simp [nesting]

/-! ## Parentheses left open -/

/-- How many parentheses are open behind a text, of which `n` are open in front of
it. -/
def unclosed (n : Nat) : List Char → Nat
  | [] => n
  | c :: cs =>
    if c = '(' then unclosed (n + 1) cs
    else if c = ')' then unclosed (n - 1) cs
    else unclosed n cs

theorem unclosed_open (n : Nat) (cs : List Char) : unclosed n ('(' :: cs) = unclosed (n + 1) cs := by
  simp [unclosed]

theorem unclosed_close (n : Nat) (cs : List Char) : unclosed n (')' :: cs) = unclosed (n - 1) cs := by
  simp [unclosed]

theorem unclosed_plain {w : List Char} (h : Plain w) (n : Nat) (cs : List Char) :
    unclosed n (w ++ cs) = unclosed n cs := by
  induction w with
  | nil => rfl
  | cons c w ih =>
    obtain ⟨h₁, h₂⟩ := h c (by simp)
    simp only [List.cons_append, unclosed, h₁, h₂, if_false]
    exact ih fun x hx => h x (by simp [hx])

theorem unclosed_of_plain {w : List Char} (h : Plain w) (n : Nat) : unclosed n w = n := by
  simpa [unclosed] using unclosed_plain h n []

theorem unclosed_equals (n : Nat) (cs : List Char) : unclosed n ('=' :: cs) = unclosed n cs :=
  unclosed_plain plain_equals n cs

theorem unclosed_symbol (op : Op) (n : Nat) (cs : List Char) :
    unclosed n (op.symbol :: cs) = unclosed n cs := unclosed_plain (plain_symbol op) n cs

theorem Phrase.unclosed_text {r : Rank} (p : Phrase r) (n : Nat) (cs : List Char) :
    unclosed n (p.text ++ cs) = unclosed n cs := by
  induction p generalizing n cs with
  | name x h => rw [text, unclosed_plain (plain_of_isNameChar h.isNameChar)]
  | literal l h => rw [text, unclosed_plain h.plain]
  | single p ih => exact ih n cs
  | group a p b ih =>
    simp only [text, List.cons_append, List.append_assoc, List.nil_append]
    rw [unclosed_open, unclosed_plain (plain_spaces a), ih, unclosed_plain (plain_spaces b), unclosed_close]
    rfl
  | more p a op _ b q ih₁ ih₂ =>
    simp only [text, List.append_assoc, List.cons_append]
    rw [ih₁, unclosed_plain (plain_spaces a), unclosed_symbol, unclosed_plain (plain_spaces b), ih₂]

end DeskCalc
