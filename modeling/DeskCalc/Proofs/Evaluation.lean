import DeskCalc.Proofs.Clause

/-!
# What a line comes to

A line is refused by the reader, or a clause stands in front of it. The clause
writes one binding if it derives as a `Line`, and the line has a result if
nothing stands behind the clause.

Results:
* `evaluate_cases`: the four things that can become of a line.
* `exists_line`: a clause that writes derives as a line, and this tells what.
* `evaluate_ok_iff_derivable`: a line has a result exactly if the grammar derives
  it, and the result is the value of each of its derivations.
-/
namespace DeskCalc

/-! ## Clauses that write -/

namespace Line

/-- The clause that the line is. -/
def toClause : Line → Clause
  | .answer p k => .answer p k
  | .assign q n m p k => .equation q.toValue.ofValue n m p k

theorem text_toClause (d : Line) : d.toClause.text = d.text := by
  cases d with
  | answer => rfl
  | assign q => simp [toClause, Clause.text, text, q.text_toValue]

theorem nesting_toClause (d : Line) : d.toClause.nesting = d.nesting := by
  cases d with
  | answer => rfl
  | assign q => simp [toClause, Clause.nesting, nesting, q.nesting_toValue]

theorem heads_toClause (d : Line) (hn : d.nesting ≤ maxNesting) :
    d.toClause.Heads (.ofList d.text) ⟨d.toClause.text.length, []⟩ :=
  d.text_toClause ▸ Clause.heads_text (d.nesting_toClause ▸ hn)

theorem outcome_toClause (t : Table) (d : Line) :
    d.toClause.statement.outcome t = .ok ⟨d.name, d.value t⟩ := by
  cases d with
  | answer p k =>
    simp [toClause, Clause.statement, Statement.outcome, Value.answer, name, value, p.value_expr]
  | assign q n m p k =>
    simp [toClause, Clause.statement, Statement.outcome, q.expr_toValue, Expr.eval, Value.lookup,
      Value.assign?, name, value, p.value_expr]

end Line

namespace Clause

/-- Only variables can be assigned to. -/
theorem exists_var {t : Table} {e : Expr} {v : Value} {b : Binding} (h : (e.eval t).assign? v = some b) :
    ∃ x, e = .var x ∧ b = ⟨x, v.number⟩ := by
  cases e with
  | number => cases h
  | var x => cases h; exact ⟨x, rfl, rfl⟩
  | binary => cases h

/-- The only thing that can be wrong with a clause is its left side. -/
theorem outcome_error {t : Table} {d : Clause} {e : EvalError} (h : d.statement.outcome t = .error e) :
    ∃ p, e = .notAssignable p := by
  cases d with
  | answer => cases h
  | equation =>
    simp only [statement, Statement.outcome] at h
    split at h
    · cases h
    · cases h; exact ⟨_, rfl⟩

theorem exists_line {t : Table} {d : Clause} {b : Binding} (h : d.statement.outcome t = .ok b) :
    ∃ l : Line, l.text = d.text ∧ l.nesting = d.nesting ∧ b = ⟨l.name, l.value t⟩ := by
  cases d with
  | answer p k =>
    refine ⟨.answer p k, rfl, rfl, ?_⟩
    cases h
    rw [Value.answer, p.value_expr]
    rfl
  | equation p n m q k =>
    simp only [statement, Statement.outcome] at h
    split at h
    · rename_i b' hb
      cases h
      obtain ⟨x, hx, rfl⟩ := exists_var hb
      obtain ⟨r, h₁, h₂, h₃⟩ := p.exists_target hx
      refine ⟨.assign r n m q k, ?_, ?_, ?_⟩
      · simp [Line.text, text, h₁]
      · simp [Line.nesting, nesting, h₂]
      · rw [q.value_expr, Line.name, h₃]
        rfl
    · cases h

end Clause

/-! ## Results -/

deriving instance DecidableEq for Binding, Answer

instance : DecidableEq (Except EvalError Answer)
  | .ok a, .ok b => decidable_of_iff (a = b) ⟨congrArg _, Except.ok.inj⟩
  | .error a, .error b => decidable_of_iff (a = b) ⟨congrArg _, Except.error.inj⟩
  | .ok _, .error _ | .error _, .ok _ => isFalse nofun

namespace Session

variable {s : Session} {line : String}

/-- What becomes of a line: it is refused by the reader or by the statement in
front of it, or this writes a binding. -/
theorem evaluate_cases (s : Session) (line : String) :
    (∃ e, Statement.read line = .error e ∧ s.evaluate line = s.refuse line [] (.malformed e)) ∨
    (∃ d c e, Clause.Heads d line c ∧ d.statement.outcome s.table = .error e ∧
      s.evaluate line = s.refuse line [] e) ∨
    ∃ d c b, Clause.Heads d line c ∧ d.statement.outcome s.table = .ok b ∧
      s.evaluate line = s.record line b c := by
  cases h : Statement.read line with
  | error e => exact .inl ⟨e, rfl, by simp [evaluate, h]⟩
  | ok r =>
    obtain ⟨st, c⟩ := r
    obtain ⟨d, rfl, hd⟩ := Statement.read_iff.mp h
    right
    cases ho : d.statement.outcome s.table with
    | error e => exact .inl ⟨d, c, e, hd, ho, by simp [evaluate, h, ho]⟩
    | ok b => exact .inr ⟨d, c, b, hd, ho, by simp [evaluate, h, ho]⟩

theorem evaluate_of_heads {d : Clause} {c : Cursor} {b : Binding} (h : d.Heads line c)
    (ho : d.statement.outcome s.table = .ok b) : s.evaluate line = s.record line b c := by
  simp [evaluate, Statement.read_of_heads h, ho]

/-- A line with a result is a clause from end to end. -/
theorem exists_of_result_ok {a : Answer} (h : (s.evaluate line).result = .ok a) :
    ∃ d : Clause, d.Heads line ⟨d.text.length, []⟩ ∧ d.statement.outcome s.table = .ok a.binding := by
  rcases evaluate_cases s line with ⟨e, -, he⟩ | ⟨d, c, e, -, -, he⟩ | ⟨d, c, b, hd, ho, he⟩
  · rw [he] at h; cases h
  · rw [he] at h; cases h
  · obtain ⟨o, r⟩ := c
    rw [he] at h
    cases r with
    | nil =>
      cases h
      obtain rfl := hd.offset_eq
      exact ⟨d, hd, ho⟩
    | cons => cases h

/-- A line with a result derives as a line. -/
theorem exists_line_of_result_ok {a : Answer} (h : (s.evaluate line).result = .ok a) :
    ∃ d : Line, .ofList d.text = line ∧ d.nesting ≤ maxNesting := by
  obtain ⟨d, hd, ho⟩ := exists_of_result_ok h
  obtain ⟨l, h₁, h₂, -⟩ := Clause.exists_line ho
  refine ⟨l, ?_, h₂ ▸ hd.nesting_le⟩
  rw [h₁, ← String.ofList_toList (s := line), hd.toList_eq, List.append_nil]

/-- What the whole of a line derives is its result. -/
theorem evaluate_of_line {d : Line} (ht : .ofList d.text = line) (hn : d.nesting ≤ maxNesting) :
    ∃ text, s.evaluate line = ⟨⟨s.table.write ⟨d.name, d.value s.table⟩⟩,
      .ok ⟨⟨d.name, d.value s.table⟩, text⟩,
      [.variableSet ⟨d.name, d.value s.table⟩, .evaluated line text]⟩ := by
  subst ht
  exact ⟨_, evaluate_of_heads (d.heads_toClause hn) (d.outcome_toClause s.table)⟩

/-- A line has a result exactly if the grammar derives it with no more
parentheses open at a time than may be, and then the result is the value of each
of its derivations, in the variables as they were before. -/
theorem evaluate_ok_iff_derivable (s : Session) (line : String) :
    ((∃ a, (s.evaluate line).result = .ok a) ↔
      ∃ d : Line, .ofList d.text = line ∧ d.nesting ≤ maxNesting) ∧
    ∀ d : Line, .ofList d.text = line → d.nesting ≤ maxNesting →
      ∃ a, (s.evaluate line).result = .ok a ∧ a.binding.value = d.value s.table := by
  have derived (d : Line) (ht : .ofList d.text = line) (hn : d.nesting ≤ maxNesting) :
      ∃ a, (s.evaluate line).result = .ok a ∧ a.binding.value = d.value s.table := by
    obtain ⟨text, h⟩ := evaluate_of_line (s := s) ht hn
    exact ⟨_, congrArg Evaluation.result h, rfl⟩
  refine ⟨⟨?_, ?_⟩, derived⟩
  · intro ⟨a, h⟩
    obtain ⟨d, hd, ho⟩ := exists_of_result_ok h
    obtain ⟨l, h₁, h₂, -⟩ := Clause.exists_line ho
    refine ⟨l, ?_, h₂ ▸ hd.nesting_le⟩
    rw [h₁, ← String.ofList_toList (s := line), hd.toList_eq, List.append_nil]
  · intro ⟨d, ht, hn⟩
    obtain ⟨a, h, -⟩ := derived d ht hn
    exact ⟨a, h⟩

/-- The minus sign in the middle is an operator, the others belong to literals. -/
theorem evaluate_signs : ∃ a, (({} : Session).evaluate "-1 - -2").result = .ok a ∧ a.binding.value = 1 := by
  let one : Phrase .value := .literal ⟨some .minus, ['1'], []⟩ (by decide)
  let two : Phrase .value := .literal ⟨some .minus, ['2'], []⟩ (by decide)
  let d : Line := .answer (.more one.ofValue 1 .sub rfl 1 (.single (.single two))) 0
  obtain ⟨a, ha, hv⟩ := (evaluate_ok_iff_derivable {} "-1 - -2").2 d rfl (by decide)
  have hd : d.value {} = 1 := by decide +kernel
  exact ⟨a, ha, hv.trans hd⟩

end Session

end DeskCalc
