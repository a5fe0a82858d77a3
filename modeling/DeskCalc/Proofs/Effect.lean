import DeskCalc.Proofs.Alphabet
import DeskCalc.Proofs.Breaks
import DeskCalc.Proofs.Evaluation

/-!
# What a line does to the variables

Only a statement that has been read and may be carried out writes, and it writes
one binding. Its name can be told from the text alone.

Results:
* `Line.writes`: the name that a derivation writes is the one its text shows.
* `evaluate_effect`: what each outcome of a line says about the variables.
-/
namespace DeskCalc

/-! ## The name that is written -/

/-- The name that a statement of this text writes: that of the last answer if
there is no equals sign in it, or else the identifier on the left of the first
one, around which only parentheses and spaces stand. -/
def Writes (cs : List Char) (name : String) : Prop :=
  ('=' ∉ cs ∧ name = answerName) ∨
  ∃ before after right, cs = before ++ (name.toList ++ (after ++ '=' :: right)) ∧ IsIdentifier name.toList ∧
    (∀ c ∈ before, c = '(' ∨ c = ' ') ∧ ∀ c ∈ after, c = ')' ∨ c = ' '

/-- Around the variable of a target only parentheses and spaces stand. -/
theorem Target.exists_around (q : Target) : ∃ before after, q.text = before ++ (q.target ++ after) ∧
    (∀ c ∈ before, c = '(' ∨ c = ' ') ∧ ∀ c ∈ after, c = ')' ∨ c = ' ' := by
  induction q with
  | name x h => exact ⟨[], [], by simp [text, target], by simp, by simp⟩
  | group n q m ih =>
    obtain ⟨before, after, e, h₁, h₂⟩ := ih
    refine ⟨'(' :: (spaces n ++ before), after ++ (spaces m ++ [')']), by simp [text, target, e], ?_, ?_⟩
    · intro c hc
      simp only [List.mem_cons, List.mem_append] at hc
      rcases hc with rfl | hc | hc
      · exact .inl rfl
      · exact .inr (List.eq_of_mem_replicate hc)
      · exact h₁ c hc
    · intro c hc
      simp only [List.mem_cons, List.mem_append, List.not_mem_nil, or_false] at hc
      rcases hc with hc | hc | rfl
      · exact h₂ c hc
      · exact .inr (List.eq_of_mem_replicate hc)
      · exact .inl rfl

theorem Line.writes (d : Line) : Writes d.text d.name := by
  cases d with
  | answer p k =>
    exact .inl ⟨equals_not_mem_answer p k, rfl⟩
  | assign q n m p k =>
    obtain ⟨before, after, e, h₁, h₂⟩ := q.exists_around
    refine .inr ⟨before, after ++ spaces n, spaces m ++ p.text ++ spaces k, ?_, ?_, h₁, ?_⟩
    · simp [text, name, e]
    · simpa [name] using q.isIdentifier_target
    · intro c hc
      rcases List.mem_append.mp hc with hc | hc
      · exact h₂ c hc
      · exact .inr (List.eq_of_mem_replicate hc)

/-! ## Outcomes -/

namespace Session

theorem render_write (t : Table) (b : Binding) :
    (Value.named b).render (t.write b) = b.name ++ " = " ++ displayNumber b.value := by
  simp [Value.render, Table.contains_write]

/-- What a derivation writes is the line's result, and the text shows it. -/
theorem evaluate_line (s : Session) {line : String} {d : Line} (ht : .ofList d.text = line)
    (hn : d.nesting ≤ maxNesting) :
    (s.evaluate line).result =
      .ok ⟨⟨d.name, d.value s.table⟩, d.name ++ " = " ++ displayNumber (d.value s.table)⟩ ∧
    (s.evaluate line).session.table = s.table.write ⟨d.name, d.value s.table⟩ := by
  subst ht
  rw [evaluate_of_heads (d.heads_toClause hn) (d.outcome_toClause s.table), record]
  exact ⟨by rw [render_write], rfl⟩

/-- A line with a result has written it under the name that the line shows, and
nothing else; any error but the one for text that is left over means that nothing
was written; and that one means that the text before it has been carried out. -/
theorem evaluate_effect (s : Session) (line : String) :
    (∀ a, (s.evaluate line).result = .ok a →
      Writes line.toList a.binding.name ∧
      (s.evaluate line).session.table = s.table.write a.binding ∧
      (∀ x, x ≠ a.binding.name → (s.evaluate line).session.table.find? x = s.table.find? x) ∧
      a.text = a.binding.name ++ " = " ++ displayNumber a.binding.value) ∧
    (∀ e, (s.evaluate line).result = .error e → (∀ p f, e ≠ .malformed (.trailing p f)) →
      (s.evaluate line).session.table = s.table) ∧
    (∀ p f, (s.evaluate line).result = .error (.malformed (.trailing p f)) →
      ∃ b before after, line.toList = before ++ after ∧ (String.ofList before).utf8ByteSize = p ∧
        Writes before b.name ∧
        (s.evaluate line).session.table = s.table.write b ∧
        ∀ x, x ≠ b.name → (s.evaluate line).session.table.find? x = s.table.find? x) := by
  have elsewhere (b : Binding) (x : String) (h : x ≠ b.name) :
      (s.table.write b).find? x = s.table.find? x := by
    rw [Table.find?_write, if_neg (Ne.symm h)]
  rcases evaluate_cases s line with ⟨e, hr, he⟩ | ⟨d, c, e, hd, ho, he⟩ | ⟨d, c, b, hd, ho, he⟩
  · rw [he]
    refine ⟨nofun, fun _ _ _ => rfl, fun p f h => ?_⟩
    cases h
    exact absurd hr (Statement.read_ne_trailing line p f)
  · rw [he]
    refine ⟨nofun, fun _ _ _ => rfl, fun p f h => ?_⟩
    cases h
    obtain ⟨q, hq⟩ := Clause.outcome_error ho
    cases hq
  · obtain ⟨l, hl, -, rfl⟩ := Clause.exists_line ho
    obtain ⟨o, r⟩ := c
    have hw : Writes d.text l.name := hl ▸ l.writes
    rw [he]
    cases r with
    | nil =>
      refine ⟨fun a h => ?_, nofun, nofun⟩
      cases h
      refine ⟨?_, rfl, elsewhere _, render_write _ _⟩
      rwa [hd.toList_eq, List.append_nil]
    | cons x r =>
      refine ⟨nofun, fun e h hne => ?_, fun p f h => ?_⟩
      · cases h
        exact absurd rfl (hne _ _)
      · cases h
        refine ⟨_, d.text, x :: r, hd.toList_eq, ?_, hw, rfl, elsewhere _⟩
        exact d.utf8ByteSize_text.trans hd.offset_eq.symm

/-- A result, a left side that is no variable, and an assignment with text left over. -/
theorem evaluate_effect_of_two :
    (({} : Session).evaluate "(x) = 2").session.table.toList = [⟨"x", 2⟩] ∧
    (({} : Session).evaluate "2 = x").session.table = {} ∧
    ∃ b before after, "x = 2 y".toList = before ++ after ∧ (String.ofList before).utf8ByteSize = 6 ∧
      Writes before b.name ∧
      (({} : Session).evaluate "x = 2 y").session.table = ({} : Table).write b ∧
      ∀ x, x ≠ b.name → (({} : Session).evaluate "x = 2 y").session.table.find? x = ({} : Table).find? x := by
  refine ⟨?_, ?_, ?_⟩
  · have h : (({} : Session).evaluate "(x) = 2").result = .ok ⟨⟨"x", 2⟩, "x = 2"⟩ := by decide +kernel
    obtain ⟨-, ht, -⟩ := (evaluate_effect {} "(x) = 2").1 _ h
    rw [ht]
    decide +kernel
  · have h : (({} : Session).evaluate "2 = x").result = .error (.notAssignable 2) := by decide +kernel
    exact (evaluate_effect {} "2 = x").2.1 _ h nofun
  · have h : (({} : Session).evaluate "x = 2 y").result = .error (.malformed (.trailing 6 (.char 'y'))) := by
      decide +kernel
    exact (evaluate_effect {} "x = 2 y").2.2 _ _ h

end Session

end DeskCalc
