import DeskCalc.Proofs.Effect
import DeskCalc.Proofs.Names
import DeskCalc.Proofs.Runs
import DeskCalc.Proofs.Tables

/-!
# Lines that do not notice each other

A write that a line does not read leaves its result as it is. So lines that read
nothing of each other may be evaluated in any order, and a line that does not read
what it writes itself may be evaluated again and again.

Results:
* `Line.value_write`: a line and a write in front of it.
* `evaluations_of_independent`: independent lines have the results that each of them
  has alone, and their writes add up.
* `evaluations_reordered`: so their order does not matter.
* `Phrase.value_of_pieces`: an expression with no characters but parentheses and
  spaces around a variable is the variable.
* `evaluate_repeated`: the same line any number of times.
-/
namespace DeskCalc

/-- What a line does not read may be written before it. -/
theorem Line.value_write {d : Line} {b : Binding} {t : Table} (hb : ¬ Reads (.ofList d.text) b.name) :
    d.value (t.write b) = d.value t := d.value_congr fun x hx => by
  rw [Table.get_write, if_neg fun e : b.name = x => hb (e ▸ hx)]

namespace Session

variable {s : Session} {line : String}

/-- A line that derives is recorded from end to end. -/
theorem evaluate_eq_record {d : Line} (ht : .ofList d.text = line) (hn : d.nesting ≤ maxNesting) :
    s.evaluate line = s.record line ⟨d.name, d.value s.table⟩ ⟨d.text.length, []⟩ := by
  subst ht
  rw [evaluate_of_heads (d.heads_toClause hn) (d.outcome_toClause s.table), d.text_toClause]

/-- A line with a result has written it. -/
theorem table_of_result_ok {a : Answer} (h : (s.evaluate line).result = .ok a) :
    (s.evaluate line).session.table = s.table.write a.binding := by
  obtain ⟨d, rfl, hn⟩ := exists_line_of_result_ok h
  obtain ⟨hr, ht⟩ := s.evaluate_line rfl hn
  cases h.symm.trans hr
  exact ht

/-- A line with a result has the same one behind a write that it does not read. -/
theorem result_of_not_reads {a : Answer} (h : (s.evaluate line).result = .ok a) {b : Binding}
    (hb : ¬ Reads line b.name) : (evaluate ⟨s.table.write b⟩ line).result = .ok a := by
  obtain ⟨d, rfl, hn⟩ := exists_line_of_result_ok h
  rw [(s.evaluate_line rfl hn).1] at h
  rw [(evaluate_line ⟨s.table.write b⟩ rfl hn).1, d.value_write hb]
  exact h

/-! ## Lines in any order -/

/-- Two lines write different names, and neither reads what the other writes. The
name that a line writes is that of its result. -/
def Independent (s : Session) (l₁ l₂ : String) : Prop :=
  ∀ a₁ a₂, (s.evaluate l₁).result = .ok a₁ → (s.evaluate l₂).result = .ok a₂ →
    a₁.binding.name ≠ a₂.binding.name ∧ ¬ Reads l₁ a₂.binding.name ∧ ¬ Reads l₂ a₁.binding.name

theorem independent_iff {l₁ l₂ : String} {a₁ a₂ : Answer} (h₁ : (s.evaluate l₁).result = .ok a₁)
    (h₂ : (s.evaluate l₂).result = .ok a₂) :
    s.Independent l₁ l₂ ↔
      a₁.binding.name ≠ a₂.binding.name ∧ ¬ Reads l₁ a₂.binding.name ∧ ¬ Reads l₂ a₁.binding.name := by
  refine ⟨fun h => h a₁ a₂ h₁ h₂, fun h b₁ b₂ e₁ e₂ => ?_⟩
  cases h₁.symm.trans e₁
  cases h₂.symm.trans e₂
  exact h

theorem Independent.symm {l₁ l₂ : String} (h : s.Independent l₁ l₂) : s.Independent l₂ l₁ := by
  intro a₂ a₁ h₂ h₁
  obtain ⟨hn, hr₁, hr₂⟩ := h a₁ a₂ h₁ h₂
  exact ⟨hn.symm, hr₂, hr₁⟩

/-- The binding that is written by a line with a result. -/
def written (s : Session) (line : String) : Option Binding :=
  (s.evaluate line).result.toOption.map Answer.binding

theorem written_eq_some_iff {b : Binding} :
    s.written line = some b ↔ ∃ a, (s.evaluate line).result = .ok a ∧ a.binding = b := by
  rw [written, Option.map_eq_some_iff]
  cases (s.evaluate line).result <;> simp [Except.toOption]

/-- Behind a line, one that is independent of it has the same result. -/
theorem Independent.result_eq {l₁ l₂ : String} (h : s.Independent l₁ l₂)
    (h₁ : ∃ a, (s.evaluate l₁).result = .ok a) (h₂ : ∃ a, (s.evaluate l₂).result = .ok a) :
    ((s.evaluate l₁).session.evaluate l₂).result = (s.evaluate l₂).result := by
  obtain ⟨a₁, h₁⟩ := h₁
  obtain ⟨a₂, h₂⟩ := h₂
  obtain ⟨-, -, hr⟩ := (independent_iff h₁ h₂).mp h
  have hs : (s.evaluate l₁).session = ⟨s.table.write a₁.binding⟩ := congrArg Session.mk (table_of_result_ok h₁)
  rw [hs, result_of_not_reads h₂ hr, h₂]

/-- Independent lines have the results that each of them has alone, and what they
write is added to the table. -/
theorem evaluations_of_independent (s : Session) (lines : List String)
    (hok : ∀ line ∈ lines, ∃ a, (s.evaluate line).result = .ok a) (hi : lines.Pairwise s.Independent) :
    (s.evaluations lines).map Evaluation.result = lines.map (fun line => (s.evaluate line).result) ∧
    (s.after lines).table = (lines.filterMap s.written).foldl Table.write s.table := by
  induction lines generalizing s with
  | nil => exact ⟨rfl, rfl⟩
  | cons line rest ih =>
    obtain ⟨hline, hrest⟩ := List.pairwise_cons.mp hi
    obtain ⟨a, ha⟩ := hok line (by simp)
    have hsame : ∀ l ∈ rest, ((s.evaluate line).session.evaluate l).result = (s.evaluate l).result := fun l hl =>
      (hline l hl).result_eq ⟨a, ha⟩ (hok l (by simp [hl]))
    -- what was said about the rest still holds behind the first line
    have hok' : ∀ l ∈ rest, ∃ a, ((s.evaluate line).session.evaluate l).result = .ok a := fun l hl => by
      rw [hsame l hl]
      exact hok l (by simp [hl])
    have hi' : rest.Pairwise (s.evaluate line).session.Independent := hrest.imp_of_mem fun hx hy h => by
      rw [Independent, hsame _ hx, hsame _ hy]
      exact h
    obtain ⟨h₁, h₂⟩ := ih (s.evaluate line).session hok' hi'
    have hw : rest.filterMap (s.evaluate line).session.written = rest.filterMap s.written :=
      List.filterMap_congr fun l hl => by rw [written, written, hsame l hl]
    refine ⟨?_, ?_⟩
    · rw [evaluations, List.map_cons, List.map_cons, h₁]
      exact congrArg _ (List.map_congr_left hsame)
    · rw [after, h₂, hw, table_of_result_ok ha, List.filterMap_cons_some (written_eq_some_iff.mpr ⟨a, ha, rfl⟩), List.foldl_cons]

/-- Lines with results of which no two write the same name, and none reads what
another one writes, may be evaluated in any order: each has the result that it has
alone, and the variables are the same in the end. -/
theorem evaluations_reordered (s : Session) {lines lines' : List String} (perm : lines'.Perm lines)
    (hok : ∀ line ∈ lines, ∃ a, (s.evaluate line).result = .ok a) (hi : lines.Pairwise s.Independent) :
    (s.evaluations lines').map Evaluation.result = lines'.map (fun line => (s.evaluate line).result) ∧
    (lines'.zip ((s.evaluations lines').map Evaluation.result)).Perm
      (lines.zip ((s.evaluations lines).map Evaluation.result)) ∧
    (s.after lines').table = (s.after lines).table := by
  have hok' : ∀ line ∈ lines', ∃ a, (s.evaluate line).result = .ok a := fun line h => hok line (perm.mem_iff.mp h)
  have hi' : lines'.Pairwise s.Independent := hi.perm perm.symm fun h => h.symm
  obtain ⟨h₁, h₂⟩ := s.evaluations_of_independent lines hok hi
  obtain ⟨h₁', h₂'⟩ := s.evaluations_of_independent lines' hok' hi'
  have distinct : (lines'.filterMap s.written).Pairwise fun a b => a.name ≠ b.name := by
    refine List.pairwise_filterMap.mpr (hi'.imp fun h b₁ e₁ b₂ e₂ => ?_)
    obtain ⟨a₁, h₁, rfl⟩ := written_eq_some_iff.mp e₁
    obtain ⟨a₂, h₂, rfl⟩ := written_eq_some_iff.mp e₂
    exact (h a₁ a₂ h₁ h₂).1
  refine ⟨h₁', ?_, ?_⟩
  · rw [h₁, h₁', ← List.map_prod_left_eq_zip, ← List.map_prod_left_eq_zip]
    exact perm.map _
  · rw [h₂, h₂']
    exact Table.foldl_write_perm s.table (perm.filterMap _) distinct

/-- Two assignments and an expression in terms of a third variable. -/
theorem evaluations_reordered_of_three :
    let s : Session := ⟨({} : Table).write ⟨"y", 2⟩⟩
    (s.evaluations ["x1 = 2 * (y)", "x = y + 1", "y - z"]).map Evaluation.result =
      [.ok ⟨⟨"x1", 4⟩, "x1 = 4"⟩, .ok ⟨⟨"x", 3⟩, "x = 3"⟩, .ok ⟨⟨"ans", 2⟩, "ans = 2"⟩] ∧
    (s.after ["x1 = 2 * (y)", "x = y + 1", "y - z"]).table =
      (s.after ["x = y + 1", "y - z", "x1 = 2 * (y)"]).table := by
  intro s
  have h₁ : (s.evaluate "x = y + 1").result = .ok ⟨⟨"x", 3⟩, "x = 3"⟩ := by decide +kernel
  have h₂ : (s.evaluate "y - z").result = .ok ⟨⟨"ans", 2⟩, "ans = 2"⟩ := by decide +kernel
  have h₃ : (s.evaluate "x1 = 2 * (y)").result = .ok ⟨⟨"x1", 4⟩, "x1 = 4"⟩ := by decide +kernel
  have hok : ∀ line ∈ ["x = y + 1", "y - z", "x1 = 2 * (y)"], ∃ a, (s.evaluate line).result = .ok a := by
    simp [h₁, h₂, h₃]
  have hi : ["x = y + 1", "y - z", "x1 = 2 * (y)"].Pairwise s.Independent := by
    simp [independent_iff h₁ h₂, independent_iff h₁ h₃, independent_iff h₂ h₃]
    decide +kernel
  have perm : ["x1 = 2 * (y)", "x = y + 1", "y - z"].Perm ["x = y + 1", "y - z", "x1 = 2 * (y)"] := by decide
  obtain ⟨hr, -, ht⟩ := evaluations_reordered s perm hok hi
  refine ⟨?_, ht⟩
  rw [hr]
  simp [h₁, h₂, h₃]

end Session

/-! ## A variable alone -/

/-- Nothing but parentheses and spaces stands around the identifier. -/
def Encloses (cs : List Char) (x : String) : Prop :=
  ∃ before after, cs = before ++ (x.toList ++ after) ∧
    (∀ c ∈ before, c = '(' ∨ c = ' ') ∧ ∀ c ∈ after, c = ')' ∨ c = ' '

/-- The piece is the identifier, or one of the characters that may stand around it. -/
def Enclosed (x w : List Char) : Prop := w = x ∨ w = ['('] ∨ w = [')'] ∨ w = [' ']

theorem Enclosed.char {x : List Char} (hx : IsIdentifier x) {c : Char} (hc : c.isAlpha = false)
    (h : Enclosed x [c]) : c = '(' ∨ c = ')' ∨ c = ' ' := by
  rcases h with h | h | h | h
  · exact absurd h (hx.ne_singleton hc)
  all_goals
    cases h
    simp

/-- With nothing but parentheses and spaces around it, a variable is all there is to
an expression. -/
theorem Phrase.value_of_pieces {x : List Char} (hx : IsIdentifier x) {r : Rank} (p : Phrase r) (t : Table)
    (h : ∀ w ∈ pieces p.text, Enclosed x w) : p.value t = t.get (.ofList x) := by
  induction p with
  | group a p b ih => exact ih fun w hw => h w (by simp [pieces_group, hw])
  | name y hy =>
    rcases h y (by simp [text, pieces_of_isIdentifier hy]) with rfl | rfl | rfl | rfl
    · rfl
    all_goals exact absurd hy (by decide)
  | literal l hl =>
    obtain ⟨c, w, e, hc⟩ := Literal.head_chars hl
    have hp : [c] ∈ pieces l.chars := by rw [pieces_eq_map hl.not_isAlpha, e]; simp
    rcases (h [c] hp).char hx (hl.not_isAlpha c (by simp [e])) with rfl | rfl | rfl
    all_goals exact absurd hc (by decide)
  | single _ ih => exact ih h
  | more p a op hop b q =>
    have hp : [op.symbol] ∈ pieces (more p a op hop b q).text := by simp [pieces_more]
    have hsymbol := (h _ hp).char hx (by cases op <;> decide)
    exact absurd hsymbol (by cases op <;> decide)

/-- Such a text has no pieces but the variable and what stands around it. -/
theorem Encloses.pieces {cs : List Char} {x : String} (hx : IsIdentifier x.toList) (h : Encloses cs x) :
    ∀ w ∈ pieces cs, Enclosed x.toList w := by
  obtain ⟨before, after, rfl, hb, ha⟩ := h
  have hb' : ∀ c ∈ before, c.isAlpha = false := fun c hc => by rcases hb c hc with rfl | rfl <;> decide
  have ha' : ∀ c ∈ after, c.isAlpha = false := fun c hc => by rcases ha c hc with rfl | rfl <;> decide
  have hends : NameEnds after := fun c hc => by
    rcases ha c (List.mem_of_mem_head? hc) with rfl | rfl <;> decide
  intro w hw
  rw [pieces_of_not_isAlpha hb', pieces_name hx hends, pieces_eq_map ha'] at hw
  simp only [List.mem_append, List.mem_map, List.mem_cons] at hw
  rcases hw with ⟨c, hc, rfl⟩ | rfl | ⟨c, hc, rfl⟩
  · rcases hb c hc with rfl | rfl <;> simp [Enclosed]
  · exact .inl rfl
  · rcases ha c hc with rfl | rfl <;> simp [Enclosed]

theorem Encloses.equals_not_mem {cs : List Char} {x : String} (hx : IsIdentifier x.toList) (h : Encloses cs x) :
    '=' ∉ cs := by
  obtain ⟨before, after, rfl, hb, ha⟩ := h
  intro hmem
  simp only [List.mem_append] at hmem
  rcases hmem with h | h | h
  · exact absurd (hb _ h) (by decide)
  · exact absurd (hx.isNameChar _ h) (by decide)
  · exact absurd (ha _ h) (by decide)

/-- A line that is a variable alone answers with it. -/
theorem Line.value_of_encloses {x : String} (hx : IsIdentifier x.toList) (d : Line) (h : Encloses d.text x) :
    d.name = answerName ∧ ∀ t, d.value t = t.get x := by
  cases d with
  | assign q n m p k => exact absurd (by simp [text]) (h.equals_not_mem hx)
  | answer p k =>
    refine ⟨rfl, fun t => ?_⟩
    have hp : ∀ w ∈ DeskCalc.pieces p.text, Enclosed x.toList w := fun w hw => by
      refine h.pieces hx w ?_
      rw [text, p.pieces_append (p.ends_spaces k)]
      exact List.mem_append_left _ hw
    have := p.value_of_pieces hx t hp
    rwa [String.ofList_toList] at this

/-! ## The same line again -/

namespace Session

variable {s : Session} {line : String}

/-- Recording a binding twice is recording it once. -/
theorem record_again (s : Session) (line : String) (b : Binding) (n : Nat) :
    (s.record line b ⟨n, []⟩).session.record line b ⟨n, []⟩ = s.record line b ⟨n, []⟩ := by
  simp [record, Table.write_write]

/-- The line does not notice what it has written itself: it does not read it, or it
answers with the last answer. -/
theorem evaluate_again {a : Answer} (h : (s.evaluate line).result = .ok a)
    (hr : ¬ Reads line a.binding.name ∨ Encloses line.toList answerName) :
    (s.evaluate line).session.evaluate line = s.evaluate line := by
  obtain ⟨d, rfl, hn⟩ := exists_line_of_result_ok h
  have hsame : d.value (s.table.write ⟨d.name, d.value s.table⟩) = d.value s.table := by
    rcases hr with hr | hr
    · cases h.symm.trans (s.evaluate_line rfl hn).1
      exact d.value_write hr
    · have hans : IsIdentifier answerName.toList := by decide
      obtain ⟨hname, hv⟩ := d.value_of_encloses hans (by simpa using hr)
      rw [hv, Table.get_write, if_pos hname]
  rw [evaluate_eq_record rfl hn, evaluate_eq_record rfl hn]
  exact hsame.symm ▸ record_again s _ _ _

/-- A line that does not read the name it writes, and one that is the last answer
alone, may be evaluated any number of times more: each time the result, the variables
and the events are those of the first time. -/
theorem evaluate_repeated (s : Session) {line : String} {a : Answer} (h : (s.evaluate line).result = .ok a)
    (hr : ¬ Reads line a.binding.name ∨ Encloses line.toList answerName) (n : Nat) :
    (s.evaluate line).session.evaluations (List.replicate n line) = List.replicate n (s.evaluate line) ∧
    (s.evaluate line).session.after (List.replicate n line) = (s.evaluate line).session := by
  induction n with
  | zero => exact ⟨rfl, rfl⟩
  | succ n ih =>
    rw [List.replicate_succ, List.replicate_succ, evaluations, after, evaluate_again h hr]
    exact ⟨congrArg _ ih.1, ih.2⟩

/-- An assignment that does not read its variable, and the last answer in parentheses. -/
theorem evaluate_repeated_of_two :
    let s : Session := ⟨(({} : Table).write ⟨"x", 1⟩).write ⟨"ans", 3⟩⟩
    (s.evaluate "x = ans * 2").result = .ok ⟨⟨"x", 6⟩, "x = 6"⟩ ∧
    (s.evaluate "x = ans * 2").session.evaluations ["x = ans * 2", "x = ans * 2"] =
      [s.evaluate "x = ans * 2", s.evaluate "x = ans * 2"] ∧
    (s.evaluate "(( ans)) ").session.after ["(( ans)) ", "(( ans)) ", "(( ans)) "] =
      (s.evaluate "(( ans)) ").session := by
  intro s
  have h₁ : (s.evaluate "x = ans * 2").result = .ok ⟨⟨"x", 6⟩, "x = 6"⟩ := by decide +kernel
  have h₂ : (s.evaluate "(( ans)) ").result = .ok ⟨⟨"ans", 3⟩, "ans = 3"⟩ := by decide +kernel
  have hr : ¬ Reads "x = ans * 2" "x" := by decide +kernel
  have hw : Encloses "(( ans)) ".toList answerName := ⟨"(( ".toList, ")) ".toList, by decide, by simp, by simp⟩
  exact ⟨h₁, (evaluate_repeated s h₁ (.inl hr) 2).1, (evaluate_repeated s h₂ (.inr hw) 3).2⟩

end Session

end DeskCalc
