import DeskCalc.Proofs.Positions

/-!
# Assignments

What may stand on the left of an equals sign, and which error comes first if several
things are wrong: one on the right of the sign, then the left side, and last what is left
over behind.

Results:
* `Phrase.expr_unique`: all derivations of a text stand for the same expression.
* `Clause.outcome_target`, `Clause.outcome_not_target`: an equation can be carried out
  exactly if its left side derives as a target.
* `evaluate_assignment`: what becomes of an equation with any text behind it.
-/
namespace DeskCalc

/-! ## Texts and their expressions -/

/-- All derivations of a text stand for the same expression, and spaces behind it do not
count. -/
theorem Phrase.expr_unique {r : Rank} {p q : Phrase r} {k m : Nat} (h : p.text ++ spaces k = q.text ++ spaces m) :
    p.expr = q.expr := by
  have hp := p.ends_of_delimited (Delimited.nil.spaces k)
  have hq := q.ends_of_delimited (Delimited.nil.spaces m)
  obtain ⟨_, hreadp, -⟩ := (p.taken (Nat.le_max_left _ q.nesting)).run (o := 0) hp (Rank.stops_nil r)
  obtain ⟨_, hreadq, -⟩ := (q.taken (Nat.le_max_right p.nesting _)).run (o := 0) hq (Rank.stops_nil r)
  -- one reader takes both texts, and they are the same
  simp only [List.append_nil] at hreadp hreadq
  rw [h, hreadq] at hreadp
  exact (Prod.mk.inj (Except.ok.inj hreadp)).1.symm

/-- A text that derives as a target is that variable, however else it derives. -/
theorem Phrase.expr_of_target {p : Phrase .sum} {q : Target} (h : q.text = p.text) :
    p.expr = .var (.ofList q.target) := by
  rw [← q.expr_toValue, ← Phrase.expr_ofValue]
  apply Phrase.expr_unique (k := 0) (m := 0)
  rw [Phrase.text_ofValue, q.text_toValue, h]

/-- Where `text` stands in front of `after`, an expression is read up to there and no
further. -/
def Expr.ReadUpTo (text after : List Char) : Prop :=
  ∃ c e c', c.rest = text ++ after ∧ Expr.read c = .ok (e, c') ∧ c'.rest = after

theorem Expr.readUpTo_iff {text after : List Char} : ReadUpTo text after ↔
    ∃ (p : Phrase .sum) (k : Nat), text = p.text ++ spaces k ∧ p.nesting ≤ maxNesting ∧
      p.Ends (spaces k ++ after) ∧ Rank.sum.Stops after := by
  constructor
  · rintro ⟨c, e, c', hc, hr, rfl⟩
    obtain ⟨p, hn, -, k, hrest, -, hends, hstops⟩ := Expr.read_iff.mp hr
    refine ⟨p, k, ?_, hn, hends, hstops⟩
    rw [hc, ← List.append_assoc] at hrest
    exact List.append_cancel_right hrest
  · rintro ⟨p, k, rfl, hn, hends, hstops⟩
    refine ⟨⟨0, p.text ++ (spaces k ++ after)⟩, p.expr, ⟨p.text.length + k, after⟩, (List.append_assoc ..).symm, ?_,
      rfl⟩
    exact Expr.read_of_spans hn ⟨k, rfl, (Nat.zero_add _).symm, hends, hstops⟩

/-! ## Equations -/

namespace Clause

variable {t : Table} {p r : Phrase .sum} {n m k : Nat}

theorem outcome_target {q : Target} (h : q.text = p.text) :
    (equation p n m r k).statement.outcome t = .ok ⟨.ofList q.target, r.value t⟩ := by
  simp [statement, Statement.outcome, Phrase.expr_of_target h, Expr.eval, Value.lookup, Value.assign?, r.value_expr]

theorem outcome_not_target (h : ¬ ∃ q : Target, q.text = p.text) :
    (equation p n m r k).statement.outcome t = .error (.notAssignable (p.text.length + n)) := by
  simp only [statement, Statement.outcome]
  split
  · rename_i hb
    obtain ⟨x, hx, -⟩ := exists_var hb
    obtain ⟨q, hq, -⟩ := p.exists_target hx
    exact absurd ⟨q, hq⟩ h
  · rfl

end Clause

/-! ## Sessions -/

namespace Session

variable {s : Session} {line : String}

theorem evaluate_of_outcome_error {d : Clause} {c : Cursor} {e : EvalError} (h : d.Heads line c)
    (ho : d.statement.outcome s.table = .error e) : s.evaluate line = s.refuse line [] e := by
  simp [evaluate, Statement.read_of_heads h, ho]

/-- What is wrong on the right of an equals sign comes before all else. -/
theorem evaluate_right_error {p : Phrase .sum} (hn : p.nesting ≤ maxNesting) {n : Nat} {right : List Char}
    {e : SyntaxError} (hline : line.toList = p.text ++ (spaces n ++ '=' :: right))
    (h : Expr.read (Cursor.skipSpaces ⟨p.text.length + n + 1, right⟩) = .error e) :
    s.evaluate line = s.refuse line [] (.malformed e) := by
  have hp := Statement.spans_equals hline
  have hr : Statement.read line = .error e := by
    simp [Statement.read, Expr.read_of_spans hn hp, bind, Except.bind, Statement.skipSpaces_of_spans hp,
      Cursor.eat_only TokenKind.only_assign, h]
  rw [evaluate, hr]

/-- An equation with text behind it that is not part of it. If its left side is a variable
in any number of parentheses, the variable is written with the value of the right side,
and only then does the text behind count; otherwise the left side is the error, whatever
stands behind. An error on the right comes before both, whatever the left side is. -/
theorem evaluate_assignment (s : Session) (l : Phrase .sum) (hl : l.nesting ≤ maxNesting) (n : Nat) :
    (∀ (m : Nat) (r : Phrase .sum) (k : Nat) (after : List Char), Expr.ReadUpTo (r.text ++ spaces k) after →
      let before := l.text ++ spaces n ++ '=' :: (spaces m ++ (r.text ++ spaces k))
      let evaluation := s.evaluate (.ofList (before ++ after))
      (evaluation.result = .error (.notAssignable (String.ofList (l.text ++ spaces n)).utf8ByteSize) ∧
        evaluation.session.table = s.table ↔ ¬ ∃ q : Target, q.text = l.text) ∧
      ∀ q : Target, q.text = l.text →
        evaluation.session.table = s.table.write ⟨.ofList q.target, r.value s.table⟩ ∧
        (after = [] → ∃ a, evaluation.result = .ok a ∧ a.binding = ⟨.ofList q.target, r.value s.table⟩) ∧
        ∀ x ∈ after.head?,
          evaluation.result = .error (.malformed (.trailing (String.ofList before).utf8ByteSize (.char x)))) ∧
    ∀ right e,
      Expr.read (Cursor.skipSpaces ⟨(String.ofList (l.text ++ spaces n)).utf8ByteSize + 1, right⟩) = .error e →
      (s.evaluate (.ofList (l.text ++ spaces n ++ '=' :: right))).result = .error (.malformed e) ∧
      (s.evaluate (.ofList (l.text ++ spaces n ++ '=' :: right))).session.table = s.table := by
  have hposition : (String.ofList (l.text ++ spaces n)).utf8ByteSize = l.text.length + n := by
    rw [show l.text ++ spaces n = (Clause.answer l n).text from rfl, Clause.utf8ByteSize_text]
    simp [Clause.text, spaces]
  rw [hposition]
  refine ⟨fun m r k after h => ?_, fun right e h => ?_⟩
  · intro before evaluation
    obtain ⟨r', k', ht, hr, hends, hstops⟩ := Expr.readUpTo_iff.mp h
    have hvalue : r'.value s.table = r.value s.table := by
      rw [← r'.value_expr, ← r.value_expr, Phrase.expr_unique ht]
    let d : Clause := .equation l n m r' k'
    have htext : d.text = before := by simp [d, before, Clause.text, ht]
    have hd : d.Heads (.ofList (before ++ after)) ⟨d.text.length, after⟩ :=
      ⟨Nat.max_le.mpr ⟨hl, hr⟩, by rw [String.toList_ofList, htext], rfl, hends, hstops⟩
    have hassigned (q : Target) (hq : q.text = l.text) : evaluation =
        s.record (.ofList (before ++ after)) ⟨.ofList q.target, r.value s.table⟩ ⟨d.text.length, after⟩ :=
      evaluate_of_heads hd (hvalue ▸ Clause.outcome_target hq)
    refine ⟨⟨?_, fun hno => ?_⟩, fun q hq => ?_⟩
    · rintro ⟨hresult, -⟩ ⟨q, hq⟩
      rw [hassigned q hq] at hresult
      cases after <;> cases hresult
    · have := evaluate_of_outcome_error (s := s) hd (Clause.outcome_not_target hno)
      exact ⟨congrArg Evaluation.result this, congrArg (·.session.table) this⟩
    · rw [hassigned q hq]
      cases after with
      | nil => exact ⟨rfl, fun _ => ⟨_, rfl, rfl⟩, fun _ hx => by cases hx⟩
      | cons x z =>
        refine ⟨rfl, fun e => absurd e (List.cons_ne_nil x z), fun y hy => ?_⟩
        cases hy
        rw [← htext, d.utf8ByteSize_text]
        rfl
  · rw [List.append_assoc, evaluate_right_error hl (String.toList_ofList ..) h]
    exact ⟨rfl, rfl⟩

/-- A variable in parentheses is written before a second equals sign counts, that sign does
not hide that a sum is no variable, and a missing operand does. -/
theorem evaluate_assignment_of_three :
    let s : Session := ⟨({} : Table).write ⟨"x", 1⟩⟩
    (s.evaluate "( x) = x+2 = y").result = .error (.malformed (.trailing 11 (.char '='))) ∧
    (s.evaluate "( x) = x+2 = y").session.table = s.table.write ⟨"x", 3⟩ ∧
    (s.evaluate "x+2 = x = y").result = .error (.notAssignable 4) ∧
    (s.evaluate "x+2 = x = y").session.table = s.table ∧
    (s.evaluate "x+2 = x +").result = .error (.malformed (.unexpected 9 .endOfInput Production.operandStarts)) := by
  intro s
  let x : Phrase .value := .name ['x'] (by decide)
  let two : Phrase .value := .literal ⟨none, ['2'], []⟩ (by decide)
  let sum : Phrase .sum := .more x.ofValue 0 .add rfl 0 (.single (.single two))
  let enclosed : Phrase .sum := (Phrase.group 1 x.ofValue 0).ofValue
  let target : Target := .group 1 (.name ['x'] (by decide)) 0
  have hnone : ¬ ∃ q : Target, q.text = sum.text := by
    rintro ⟨q, hq⟩
    cases Phrase.expr_of_target hq
  have hsum : Expr.ReadUpTo (sum.text ++ spaces 1) "= y".toList :=
    Expr.readUpTo_iff.mpr ⟨sum, 1, rfl, by decide, sum.ends_equals 1 _, Rank.stops_equals _ _⟩
  have hx : Expr.ReadUpTo (x.ofValue.text ++ spaces 1) "= y".toList :=
    Expr.readUpTo_iff.mpr ⟨x.ofValue, 1, rfl, by decide, x.ofValue.ends_equals 1 _, Rank.stops_equals _ _⟩
  have hmissing : Expr.read (Cursor.skipSpaces ⟨5, " x +".toList⟩) =
      .error (.unexpected 9 .endOfInput Production.operandStarts) :=
    Expr.read_error_iff.mpr ⟨"x +".toList, [], rfl, @Breaks.right _ _ 1 0 .add _ _ _ x.ofValue (by decide)
      (by decide) (.first (.first (.operand (by simp [NoOperand]))))⟩
  have hvalue : sum.value s.table = 3 := by decide +kernel
  obtain ⟨ht, -, hr⟩ := ((evaluate_assignment s enclosed (by decide) 1).1 1 sum 1 "= y".toList hsum).2 target rfl
  obtain ⟨hsums, hrights⟩ := evaluate_assignment s sum (by decide) 1
  obtain ⟨hr', ht'⟩ := (hsums 1 x.ofValue 1 "= y".toList hx).1.mpr hnone
  obtain ⟨hr'', -⟩ := hrights _ _ hmissing
  have h₁ : String.ofList (enclosed.text ++ spaces 1 ++ '=' :: (spaces 1 ++ (sum.text ++ spaces 1)) ++ "= y".toList) =
      "( x) = x+2 = y" := rfl
  have h₂ : String.ofList (sum.text ++ spaces 1 ++ '=' :: (spaces 1 ++ (x.ofValue.text ++ spaces 1)) ++ "= y".toList) =
      "x+2 = x = y" := rfl
  have h₃ : String.ofList (sum.text ++ spaces 1 ++ '=' :: " x +".toList) = "x+2 = x +" := rfl
  rw [h₁] at ht hr
  rw [h₂] at hr' ht'
  rw [h₃] at hr''
  rw [hvalue] at ht
  exact ⟨hr '=' rfl, ht, hr', ht', hr''⟩

end Session

end DeskCalc
