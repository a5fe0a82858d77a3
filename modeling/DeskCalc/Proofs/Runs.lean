import DeskCalc.Proofs.Evaluation

/-!
# Runs of lines

Results:
* `evaluate_writes`: a line leaves the variables alone or writes one binding, and
  the name it writes is an identifier.
* `Reachable.identifiers`: so all names are identifiers, however many lines there were.
-/
namespace DeskCalc

theorem Line.isIdentifier_name (d : Line) : IsIdentifier d.name.toList := by
  cases d with
  | answer =>
    show IsIdentifier answerName.toList
    decide
  | assign q => simpa [name] using q.isIdentifier_target

namespace Session

/-- The session that a sequence of lines leaves behind. -/
def after (s : Session) : List String → Session
  | [] => s
  | line :: rest => (s.evaluate line).session.after rest

theorem after_append (s : Session) (ls ls' : List String) : s.after (ls ++ ls') = (s.after ls).after ls' := by
  induction ls generalizing s with
  | nil => rfl
  | cons line rest ih => exact ih _

/-- What comes of the lines of a sequence. -/
def evaluations (s : Session) : List String → List Evaluation
  | [] => []
  | line :: rest => s.evaluate line :: (s.evaluate line).session.evaluations rest

/-- What one line does to the variables. -/
theorem evaluate_writes (s : Session) (line : String) :
    (s.evaluate line).session.table = s.table ∨
    ∃ b, IsIdentifier b.name.toList ∧ (s.evaluate line).session.table = s.table.write b := by
  rcases evaluate_cases s line with ⟨e, -, he⟩ | ⟨d, c, e, -, -, he⟩ | ⟨d, c, b, -, ho, he⟩
  · exact .inl (by rw [he]; rfl)
  · exact .inl (by rw [he]; rfl)
  · obtain ⟨l, -, -, rfl⟩ := Clause.exists_line ho
    refine .inr ⟨⟨l.name, l.value s.table⟩, l.isIdentifier_name, ?_⟩
    rw [he, record]
    split <;> rfl

/-- All names are identifiers. -/
def Identifiers (s : Session) : Prop := ∀ b ∈ s.table.toList, IsIdentifier b.name.toList

theorem Identifiers.evaluate {s : Session} (h : s.Identifiers) (line : String) :
    (s.evaluate line).session.Identifiers := by
  intro b hb
  rcases s.evaluate_writes line with ht | ⟨b', hb', ht⟩
  · exact h b (ht ▸ hb)
  · rw [ht] at hb
    rcases mem_insertBinding hb with rfl | hb
    · exact hb'
    · exact h b hb

theorem Identifiers.after {s : Session} (h : s.Identifiers) (lines : List String) :
    (s.after lines).Identifiers := by
  induction lines generalizing s with
  | nil => exact h
  | cons line rest ih => exact ih (h.evaluate line)

/-- What some sequence of lines leaves behind of a new session. -/
def Reachable (s : Session) : Prop := ∃ lines, ({} : Session).after lines = s

theorem Reachable.identifiers {s : Session} (h : s.Reachable) : s.Identifiers := by
  obtain ⟨lines, rfl⟩ := h
  exact Identifiers.after (fun b hb => by cases hb) lines

end Session

end DeskCalc
