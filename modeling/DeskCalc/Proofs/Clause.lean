import DeskCalc.Proofs.Reading

/-!
# What stands in front of a line

A `Clause` is what the reader takes from the front of a line: a sum, or two with
an equals sign between them.

Results:
* `Statement.read_iff`: the reader takes a clause from the front of a line
  exactly if it stands there and does not go on into the text behind it.
-/
namespace DeskCalc

inductive Clause where
  | answer (body : Phrase .sum) (after : Nat)
  | equation (left : Phrase .sum) (before after : Nat) (right : Phrase .sum) (behind : Nat)

namespace Clause

def text : Clause → List Char
  | .answer p k => p.text ++ spaces k
  | .equation p n m q k => p.text ++ (spaces n ++ '=' :: (spaces m ++ (q.text ++ spaces k)))

def nesting : Clause → Nat
  | .answer p _ => p.nesting
  | .equation p _ _ q _ => max p.nesting q.nesting

/-- What the clause says. -/
def statement : Clause → Statement
  | .answer p _ => .answer p.expr
  | .equation p n _ q _ => .assign p.expr (p.text.length + n) q.expr

/-- The clause does not go on into the text. -/
def Stops : Clause → List Char → Prop
  | .answer p k, cs => p.Ends (spaces k ++ cs) ∧ Rank.sum.Stops cs ∧ cs.head? ≠ some '='
  | .equation _ _ _ q k, cs => q.Ends (spaces k ++ cs) ∧ Rank.sum.Stops cs

theorem stops_nil (d : Clause) : d.Stops [] := by
  cases d with
  | answer p k => exact ⟨p.ends_of_delimited (Delimited.nil.spaces k), Rank.stops_nil _, by simp⟩
  | equation _ _ _ q k => exact ⟨q.ends_of_delimited (Delimited.nil.spaces k), Rank.stops_nil _⟩

/-- The clause stands in front of the line, and what does not belong to it starts
at `c`. -/
structure Heads (d : Clause) (line : String) (c : Cursor) : Prop where
  nesting_le : d.nesting ≤ maxNesting
  toList_eq : line.toList = d.text ++ c.rest
  offset_eq : c.offset = d.text.length
  stops : d.Stops c.rest

/-- A clause stands in front of its own text. -/
theorem heads_text {d : Clause} (hn : d.nesting ≤ maxNesting) :
    d.Heads (.ofList d.text) ⟨d.text.length, []⟩ :=
  ⟨hn, by simp, rfl, d.stops_nil⟩

end Clause

namespace Statement

variable {line : String} {s : Statement} {c : Cursor}

/-- Behind a sum no space is left. -/
theorem skipSpaces_of_spans {p : Phrase .sum} {c c' : Cursor} (h : p.Spans .sum c c') :
    c'.skipSpaces = c' := by
  obtain ⟨_, -, -, -, hs⟩ := h
  exact Cursor.skipSpaces_of_head (o := c'.offset) hs.head_ne

/-- An expression in front of an equals sign is read up to it. -/
theorem spans_equals {p : Phrase .sum} {n : Nat} {cs : List Char}
    (h : line.toList = p.text ++ (spaces n ++ '=' :: cs)) :
    p.Spans .sum (.start line) ⟨p.text.length + n, '=' :: cs⟩ :=
  ⟨n, h, (Nat.zero_add _).symm, p.ends_equals n cs, Rank.stops_equals _ _⟩

theorem read_answer {p : Phrase .sum} (hn : p.nesting ≤ maxNesting) (hs : p.Spans .sum (.start line) c)
    (he : c.rest.head? ≠ some '=') : read line = .ok (.answer p.expr, c) := by
  simp [read, Expr.read_of_spans hn hs, bind, Except.bind, skipSpaces_of_spans hs,
    (Cursor.eat_only_none_iff TokenKind.only_assign).mpr he, pure, Except.pure]

theorem read_equation {p q : Phrase .sum} {o : Nat} {cs : List Char} (hp : p.nesting ≤ maxNesting)
    (hq : q.nesting ≤ maxNesting) (hs : p.Spans .sum (.start line) ⟨o, '=' :: cs⟩)
    (hs' : q.Spans .sum (Cursor.skipSpaces ⟨o + 1, cs⟩) c) :
    read line = .ok (.assign p.expr o q.expr, c) := by
  simp [read, Expr.read_of_spans hp hs, bind, Except.bind, skipSpaces_of_spans hs,
    Cursor.eat_only TokenKind.only_assign, Expr.read_of_spans hq hs', pure, Except.pure]

theorem read_of_heads {d : Clause} (h : d.Heads line c) : read line = .ok (d.statement, c) := by
  obtain ⟨hn, ht, ho, hs⟩ := h
  cases d with
  | answer p k =>
    obtain ⟨h₁, h₂, h₃⟩ := hs
    refine read_answer hn ⟨k, ?_, ?_, h₁, h₂⟩ h₃
    · rw [Cursor.start, ht, Clause.text, List.append_assoc]
    · simpa [Clause.text, Cursor.start, spaces] using ho
  | equation p n m q k =>
    obtain ⟨h₁, h₂⟩ := hs
    have hp : line.toList = p.text ++ (spaces n ++ '=' :: (spaces m ++ (q.text ++ (spaces k ++ c.rest)))) := by
      rw [ht, Clause.text]
      simp
    have hp := spans_equals hp
    refine read_equation (Nat.max_le.mp hn).1 (Nat.max_le.mp hn).2 hp ?_
    rw [Cursor.skipSpaces_spaces (q.head_ne_space _)]
    refine ⟨k, rfl, ?_, h₁, h₂⟩
    simp [Clause.text, spaces] at ho
    simp only [ho]
    omega

/-- What has been read up to behind an equals sign. -/
theorem exists_left {left : Expr} {u : List Char} {c₁ c₂ : Cursor} (hr : Expr.read (.start line) = .ok (left, c₁))
    (he : c₁.eat .assign = some (u, c₂)) :
    ∃ (p : Phrase .sum) (n m : Nat), p.nesting ≤ maxNesting ∧ p.expr = left ∧ c₁.offset = p.text.length + n ∧
      line.toList = p.text ++ (spaces n ++ '=' :: (spaces m ++ c₂.skipSpaces.rest)) ∧
      c₂.skipSpaces.offset = p.text.length + (n + (1 + m)) ∧ c₂.skipSpaces.rest.head? ≠ some ' ' := by
  obtain ⟨p, hp, hpe, n, h₁, h₂, -, -⟩ := Expr.read_iff.mp hr
  obtain ⟨m, hm, ho, hne⟩ := c₂.exists_spaces
  obtain ⟨hequals, hequals'⟩ := Cursor.rest_of_eat_only TokenKind.only_assign he
  have e : c₂.rest = spaces m ++ c₂.skipSpaces.rest := congrArg Cursor.rest hm
  simp only [Cursor.start, Nat.zero_add] at h₁ h₂
  refine ⟨p, n, m, hp, hpe, h₂, ?_, by omega, hne⟩
  rw [h₁, hequals, e]

theorem exists_heads (h : read line = .ok (s, c)) : ∃ d : Clause, d.statement = s ∧ d.Heads line c := by
  simp only [read, bind, Except.bind] at h
  split at h
  · cases h
  · rename_i r hr
    obtain ⟨left, c₁⟩ := r
    obtain ⟨p, hp, rfl, hs⟩ := Expr.read_iff.mp hr
    simp only [skipSpaces_of_spans hs] at h
    split at h
    · rename_i he
      cases h
      obtain ⟨n, h₁, h₂, h₃, h₄⟩ := hs
      refine ⟨.answer p n, rfl, hp, ?_, ?_, h₃, h₄, (Cursor.eat_only_none_iff TokenKind.only_assign).mp he⟩
      · simpa [Clause.text, Cursor.start] using h₁
      · simpa [Clause.text, Cursor.start, spaces] using h₂
    · rename_i w c₂ he
      split at h
      · cases h
      · rename_i r hr'
        cases h
        obtain ⟨right, c⟩ := r
        obtain ⟨p, n, m, hp, hpe, ho, ht, ho', -⟩ := exists_left hr he
        obtain ⟨q, hq, rfl, k, h₅, h₆, h₇, h₈⟩ := Expr.read_iff.mp hr'
        refine ⟨.equation p n m q k, ?_, Nat.max_le.mpr ⟨hp, hq⟩, ?_, ?_, h₇, h₈⟩
        · rw [Clause.statement, hpe, ho]
        · rw [ht, h₅]
          simp [Clause.text]
        · simp [Clause.text, spaces]
          omega

theorem read_iff : read line = .ok (s, c) ↔ ∃ d : Clause, d.statement = s ∧ d.Heads line c := by
  constructor
  · exact exists_heads
  · intro ⟨d, hd, h⟩
    exact hd ▸ read_of_heads h

end Statement

end DeskCalc
