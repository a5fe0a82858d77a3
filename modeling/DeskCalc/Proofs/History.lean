import DeskCalc.Proofs.Mending
import DeskCalc.Proofs.Names
import DeskCalc.Proofs.Tables

/-!
# The history of the variables

What the lines of a run write, one after the other, is all that the variables are
made of. A line that has been carried out, or the part of it in front of what was left
over, derives, and it writes what the derivation says.

Results:
* `carried_cases`: what one line does to the variables, told by its derivation.
* `History.table_eq`: the variables after a run are its writes.
* `History.mentions`: a name that is written stands on the left of an equals sign.
* `after_written`: what the variables are after any lines.
-/
namespace DeskCalc

/-! ## Lines that have been carried out -/

/-- Derivations of the same text write the same. -/
theorem Line.writes_unique {d d' : Line} (h : d.text = d'.text) (hn : d'.nesting ≤ maxNesting) (t : Table) :
    (⟨d.name, d.value t⟩ : Binding) = ⟨d'.name, d'.value t⟩ := by
  have hn' : d.nesting ≤ maxNesting := by
    rw [← d.deepest_text, h, d'.deepest_text]
    exact hn
  have h₁ := (Session.evaluate_line ⟨t⟩ (congrArg String.ofList h) hn').1
  have h₂ := (Session.evaluate_line ⟨t⟩ rfl hn).1
  exact congrArg Answer.binding (Except.ok.inj (h₁.symm.trans h₂))

theorem front_prefix (n : Nat) (cs : List Char) : front n cs <+: cs := by
  induction cs generalizing n with
  | nil => exact List.prefix_rfl
  | cons c cs ih =>
    rw [front]
    split
    · exact List.cons_prefix_cons.mpr ⟨rfl, ih _⟩
    · exact List.nil_prefix

/-- What is left of a line stands in front of it. -/
theorem Evaluation.prefix_of_mend {e : Evaluation} {line part : String} (h : e.mend line = some part) :
    part.toList <+: line.toList := by
  unfold mend at h
  split at h
  · cases h
    exact List.prefix_rfl
  · cases h
    rw [cut, String.toList_ofList]
    exact front_prefix _ _
  · cases h

/-- The variable of a target stands in its text. -/
theorem Target.target_mem_pieces (q : Target) : q.target ∈ pieces q.text := by
  induction q with
  | name x h => simp [target, text, pieces_of_isIdentifier h]
  | group n q m ih =>
    have hp := Phrase.pieces_group n q.toValue.ofValue m
    rw [Phrase.text_ofValue, q.text_toValue] at hp
    rw [← (Target.group n q m).text_toValue, toValue, hp]
    simp [target, ih]

/-- The name that a line writes is that of the last answer, or it stands on the left of
the first equals sign, whatever goes on behind the line. -/
theorem Line.mentions_name (d : Line) (cs : List Char) :
    d.name = answerName ∨ Mentions (uncomputed (d.text ++ cs)) d.name := by
  cases d with
  | answer => exact .inl rfl
  | assign q n m p k =>
    have ht : (assign q n m p k).text ++ cs = (q.text ++ spaces n) ++ '=' :: (spaces m ++ p.text ++ spaces k ++ cs) := by
      simp [text]
    have hq : q.target ∈ pieces (q.text ++ (spaces n ++ ['='])) := by
      rw [← q.text_toValue, q.toValue.pieces_append (q.toValue.ends_equals n []), q.text_toValue]
      exact List.mem_append_left _ q.target_mem_pieces
    refine .inr ⟨(assign q n m p k).isIdentifier_name, ?_⟩
    rw [ht, (sides_equals (equals_not_mem_target q n) _).1, List.append_assoc]
    simpa [name] using hq

namespace Session

/-- A line does nothing, or what is left of it derives, and the variables are written
as the derivation says. -/
theorem carried_cases (s : Session) (line : String) :
    ((s.evaluate line).mend line = none ∧ (s.evaluate line).session = s) ∨
    ∃ d : Line, (s.evaluate line).mend line = some (.ofList d.text) ∧ d.nesting ≤ maxNesting ∧
      (s.evaluate line).session = ⟨s.table.write ⟨d.name, d.value s.table⟩⟩ := by
  rcases s.mend_cases line with ⟨hm, -, hs⟩ | ⟨part, hm, -, ⟨a, ha⟩, hs, -⟩
  · exact .inl ⟨hm, hs⟩
  · obtain ⟨d, rfl, hn⟩ := exists_line_of_result_ok ha
    refine .inr ⟨d, hm, hn, ?_⟩
    rw [← hs]
    exact congrArg Session.mk (s.evaluate_line rfl hn).2

/-! ## Runs -/

/-- What the lines of a run write, in order. A line that has been carried out, without
what was left over behind it, derives and so says which name it writes and which number
it comes to; the other lines write nothing. -/
inductive History : Session → List String → List Binding → Prop where
  | nil (s : Session) : History s [] []
  | idle {s : Session} {line : String} {rest : List String} {bs : List Binding}
      (h : (s.evaluate line).mend line = none) (hrest : History (s.evaluate line).session rest bs) :
      History s (line :: rest) bs
  | carried {s : Session} {line : String} {rest : List String} {bs : List Binding} (d : Line)
      (h : (s.evaluate line).mend line = some (.ofList d.text))
      (hrest : History (s.evaluate line).session rest bs) :
      History s (line :: rest) (⟨d.name, d.value s.table⟩ :: bs)

theorem exists_history (s : Session) (lines : List String) : ∃ bs, History s lines bs := by
  induction lines generalizing s with
  | nil => exact ⟨[], .nil s⟩
  | cons line rest ih =>
    obtain ⟨bs, hbs⟩ := ih (s.evaluate line).session
    rcases s.carried_cases line with ⟨hm, -⟩ | ⟨d, hm, -⟩
    · exact ⟨bs, .idle hm hbs⟩
    · exact ⟨_, .carried d hm hbs⟩

namespace History

variable {s : Session} {lines : List String} {bs : List Binding}

/-- The variables after a run are what it has written. -/
theorem table_eq (h : History s lines bs) : (s.after lines).table = bs.foldl Table.write s.table := by
  induction h with
  | nil => rfl
  | @idle s line rest bs hm _ ih =>
    rcases s.carried_cases line with ⟨-, hs⟩ | ⟨d, hm', -⟩
    · rw [after, ih, hs]
    · cases hm.symm.trans hm'
  | @carried s line rest bs d hm _ ih =>
    rcases s.carried_cases line with ⟨hm', -⟩ | ⟨d', hm', hn, hs⟩
    · cases hm.symm.trans hm'
    · have ht : d.text = d'.text := String.ofList_injective (Option.some.inj (hm.symm.trans hm'))
      rw [after, ih, hs, List.foldl_cons, Line.writes_unique ht hn]

/-- From a new session on, a name has the last binding that was written under it. -/
theorem find?_eq (h : History {} lines bs) (x : String) :
    (({} : Session).after lines).table.find? x = (bs.filter (·.name = x)).getLast? := by
  rw [h.table_eq, Table.find?_foldl_write]
  exact Option.or_none

theorem contains_iff (h : History {} lines bs) (x : String) :
    (({} : Session).after lines).table.contains x ↔ ∃ b ∈ bs, b.name = x := by
  rw [Table.contains, h.find?_eq, List.getLast?_isSome]
  simp [List.filter_eq_nil_iff]

theorem get_eq (h : History {} lines bs) (x : String) :
    (({} : Session).after lines).table.get x = ((bs.filter (·.name = x)).getLast?.map Binding.value).getD 0 := by
  rw [Table.get, h.find?_eq]
  cases (bs.filter (·.name = x)).getLast? <;> rfl

/-- What is written is the last answer, or it stands on the left of an equals sign. -/
theorem mentions (h : History s lines bs) {b : Binding} (hb : b ∈ bs) :
    b.name = answerName ∨ ∃ line ∈ lines, Mentions (uncomputed line.toList) b.name := by
  induction h with
  | nil => cases hb
  | idle _ _ ih =>
    rcases ih hb with h | ⟨line, hl, h⟩
    · exact .inl h
    · exact .inr ⟨line, by simp [hl], h⟩
  | @carried s line rest bs d hm _ ih =>
    rcases List.mem_cons.mp hb with rfl | hb
    · obtain ⟨cs, hcs⟩ := Evaluation.prefix_of_mend hm
      rw [String.toList_ofList] at hcs
      rcases d.mentions_name cs with h | h
      · exact .inl h
      · exact .inr ⟨line, by simp, hcs ▸ h⟩
    · rcases ih hb with h | ⟨line, hl, h⟩
      · exact .inl h
      · exact .inr ⟨line, by simp [hl], h⟩

end History

/-- After any lines all names are identifiers, and one line more loses none and adds at
most one. A name has a variable exactly if it has been written, its number is the one
last written, and a name that is read at most has none. -/
theorem after_written {lines : List String} {s : Session} (hs : ({} : Session).after lines = s) :
    (∀ b ∈ s.table.toList, IsIdentifier b.name.toList) ∧
    (∀ line x, s.table.contains x → (s.evaluate line).session.table.contains x) ∧
    (∀ line, (s.evaluate line).session.table.size ≤ s.table.size + 1) ∧
    (∃ bs, History {} lines bs) ∧
    (∀ bs, History {} lines bs → ∀ x,
      (s.table.contains x ↔ ∃ b ∈ bs, b.name = x) ∧
      s.table.get x = ((bs.filter (·.name = x)).getLast?.map Binding.value).getD 0) ∧
    ∀ x, x ≠ answerName → (∀ line ∈ lines, ¬ Mentions (uncomputed line.toList) x) → ¬ s.table.contains x := by
  subst hs
  refine ⟨?_, ?_, ?_, exists_history {} lines, ?_, ?_⟩
  · exact Reachable.identifiers ⟨lines, rfl⟩
  · intro line x hx
    rcases evaluate_writes _ line with ht | ⟨b, -, ht⟩
    · rwa [ht]
    · rw [ht, Table.contains_write, hx, Bool.or_true]
  · intro line
    rcases evaluate_writes _ line with ht | ⟨b, -, ht⟩
    · rw [ht]
      exact Nat.le_succ _
    · rw [ht, Table.size_write]
      split
      · exact Nat.le_succ _
      · exact Nat.le_refl _
  · exact fun bs h x => ⟨h.contains_iff x, h.get_eq x⟩
  · intro x hx hl hc
    obtain ⟨bs, h⟩ := exists_history {} lines
    obtain ⟨b, hb, rfl⟩ := (h.contains_iff x).mp hc
    rcases h.mentions hb with h | ⟨line, hline, h⟩
    · exact hx h
    · exact hl line hline h

/-- Two lines with text left over, one that is refused, and an assignment that reads a
name that nobody writes. -/
theorem after_written_of_four :
    let lines := ["x = 5 = 3", "y +", "x + 1.", "(z) = y"]
    let s := ({} : Session).after lines
    History {} lines [⟨"x", 5⟩, ⟨"ans", 6⟩, ⟨"z", 0⟩] ∧ s.table.size = 3 ∧ s.table.get "ans" = 6 ∧
    s.table.contains "z" ∧ ¬ s.table.contains "y" := by
  intro lines s
  let five : Phrase .value := .literal ⟨none, ['5'], []⟩ (by decide)
  let one : Phrase .value := .literal ⟨none, ['1'], []⟩ (by decide)
  let x : Phrase .value := .name ['x'] (by decide)
  let y : Phrase .value := .name ['y'] (by decide)
  let first : Line := .assign (.name ['x'] (by decide)) 1 1 five.ofValue 1
  let third : Line := .answer (.more x.ofValue 1 .add rfl 1 (.single (.single one))) 0
  let fourth : Line := .assign (.group 0 (.name ['z'] (by decide)) 0) 1 1 y.ofValue 0
  have h₁ : (⟨first.name, first.value ({} : Session).table⟩ : Binding) = ⟨"x", 5⟩ := by decide +kernel
  have h₃ : (⟨third.name, third.value (({} : Session).after ["x = 5 = 3", "y +"]).table⟩ : Binding) = ⟨"ans", 6⟩ := by
    decide +kernel
  have h₄ : (⟨fourth.name, fourth.value (({} : Session).after ["x = 5 = 3", "y +", "x + 1."]).table⟩ : Binding) =
      ⟨"z", 0⟩ := by
    decide +kernel
  have h : History {} lines [⟨"x", 5⟩, ⟨"ans", 6⟩, ⟨"z", 0⟩] := by
    rw [← h₁, ← h₃, ← h₄]
    exact .carried first (by decide +kernel) <| .idle (by decide +kernel) <| .carried third (by decide +kernel) <|
      .carried fourth (by decide +kernel) (.nil _)
  obtain ⟨-, -, -, -, hwritten, hread⟩ := after_written (show ({} : Session).after lines = s from rfl)
  refine ⟨h, by decide +kernel, ?_, ?_, hread "y" (by decide) (by decide +kernel)⟩
  · rw [(hwritten _ h "ans").2]
    rfl
  · exact (hwritten _ h "z").1.mpr ⟨⟨"z", 0⟩, by simp, rfl⟩

end Session

end DeskCalc
