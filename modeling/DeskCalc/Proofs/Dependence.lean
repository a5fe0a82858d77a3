import DeskCalc.Proofs.Effect
import DeskCalc.Proofs.Names

/-!
# What a line depends on

One line is evaluated in two sessions. Reading does not see the variables at all,
and of what they hold only the variables that the line computes with are looked at.

Results:
* `outcome_agrees`: whether a statement can be carried out, and which name it
  writes, is the same in all tables.
* `evaluate_agrees`: the same line in two sessions.
-/
namespace DeskCalc

/-- In two tables a statement fails in the same way, or it writes the same name. -/
theorem Statement.outcome_agrees (t₁ t₂ : Table) (st : Statement) :
    (∃ e, st.outcome t₁ = .error e ∧ st.outcome t₂ = .error e) ∨
    ∃ b₁ b₂, st.outcome t₁ = .ok b₁ ∧ st.outcome t₂ = .ok b₂ ∧ b₁.name = b₂.name := by
  cases st with
  | answer => exact .inr ⟨_, _, rfl, rfl, rfl⟩
  | assign target p body =>
    cases target with
    | number | binary => exact .inl ⟨_, rfl, rfl⟩
    | var x => exact .inr ⟨_, _, rfl, rfl, rfl⟩

namespace Session

/-- In two sessions a line fails in the same way, or its results have the same name. -/
theorem evaluate_pair (s₁ s₂ : Session) (line : String) :
    (∃ e, (s₁.evaluate line).result = .error e ∧ (s₂.evaluate line).result = .error e) ∨
    ∃ a₁ a₂, (s₁.evaluate line).result = .ok a₁ ∧ (s₂.evaluate line).result = .ok a₂ ∧
      a₁.binding.name = a₂.binding.name := by
  unfold evaluate
  split
  · exact .inl ⟨_, rfl, rfl⟩
  · rename_i st c _
    rcases st.outcome_agrees s₁.table s₂.table with ⟨e, h₁, h₂⟩ | ⟨b₁, b₂, h₁, h₂, hn⟩
    · rw [h₁, h₂]
      exact .inl ⟨e, rfl, rfl⟩
    · rw [h₁, h₂]
      simp only [record]
      split
      · exact .inr ⟨_, _, rfl, rfl, hn⟩
      · exact .inl ⟨_, rfl, rfl⟩

/-- Whether a line has a result, the error if it has none, and the name of the
result are the same whatever the variables hold. If the variables that the line
computes with hold the same numbers, its result is the same, and so is what is
written. -/
theorem evaluate_agrees (s₁ s₂ : Session) (line : String) :
    (∀ e, (s₁.evaluate line).result = .error e ↔ (s₂.evaluate line).result = .error e) ∧
    (∀ a₁, (s₁.evaluate line).result = .ok a₁ →
      ∃ a₂, (s₂.evaluate line).result = .ok a₂ ∧ a₂.binding.name = a₁.binding.name) ∧
    (∀ a, (s₁.evaluate line).result = .ok a → (∀ x, Reads line x → s₁.table.get x = s₂.table.get x) →
      (s₂.evaluate line).result = .ok a ∧
      (s₁.evaluate line).session.table = s₁.table.write a.binding ∧
      (s₂.evaluate line).session.table = s₂.table.write a.binding) := by
  refine ⟨fun e => ?_, fun a₁ h => ?_, fun a h hr => ?_⟩
  · rcases evaluate_pair s₁ s₂ line with ⟨e', h₁, h₂⟩ | ⟨a₁, a₂, h₁, h₂, -⟩ <;> rw [h₁, h₂]
    exact ⟨nofun, nofun⟩
  · rcases evaluate_pair s₁ s₂ line with ⟨e', h₁, -⟩ | ⟨b₁, b₂, h₁, h₂, hn⟩
    · cases h.symm.trans h₁
    · cases h.symm.trans h₁
      exact ⟨b₂, h₂, hn.symm⟩
  · obtain ⟨d, rfl, hn⟩ := exists_line_of_result_ok h
    obtain ⟨h₁, ht₁⟩ := s₁.evaluate_line rfl hn
    obtain ⟨h₂, ht₂⟩ := s₂.evaluate_line rfl hn
    rw [← d.value_congr hr] at h₂ ht₂
    cases h.symm.trans h₁
    exact ⟨h₂, ht₁, ht₂⟩

/-- The old value of the variable that is assigned to does not matter. -/
theorem evaluate_agrees_of_two :
    let s₁ : Session := ⟨(({} : Table).write ⟨"x", 1⟩).write ⟨"y", 2⟩⟩
    let s₂ : Session := ⟨(({} : Table).write ⟨"ans", 3⟩).write ⟨"y", 2⟩⟩
    (∀ x, Reads "x = (y + 1)" x → x = "y") ∧
    (s₁.evaluate "x = (y + 1)").result = .ok ⟨⟨"x", 3⟩, "x = 3"⟩ ∧
    (s₂.evaluate "x = (y + 1)").result = .ok ⟨⟨"x", 3⟩, "x = 3"⟩ ∧
    (s₁.evaluate "x = (y + 1)").session.table = s₁.table.write ⟨"x", 3⟩ ∧
    (s₂.evaluate "x = (y + 1)").session.table = s₂.table.write ⟨"x", 3⟩ := by
  intro s₁ s₂
  have hp : pieces (computed "x = (y + 1)".toList) = [[' '], ['('], ['y'], [' '], ['+'], [' '], ['1'], [')']] := by
    decide +kernel
  have hreads : ∀ x, Reads "x = (y + 1)" x → x = "y" := by
    intro x hx
    have only : ∀ w ∈ pieces (computed "x = (y + 1)".toList), IsIdentifier w → w = ['y'] := by
      rw [hp]
      decide +kernel
    exact String.toList_inj.mp (only _ hx.2 hx.1)
  have h : (s₁.evaluate "x = (y + 1)").result = .ok ⟨⟨"x", 3⟩, "x = 3"⟩ := by decide +kernel
  have hsame := (evaluate_agrees s₁ s₂ "x = (y + 1)").2.2 _ h fun x hx => by
    rw [hreads x hx]
    decide +kernel
  exact ⟨hreads, h, hsame⟩

end Session

end DeskCalc
