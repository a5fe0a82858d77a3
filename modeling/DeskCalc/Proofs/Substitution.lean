import DeskCalc.Proofs.Effect
import DeskCalc.Proofs.Names
import DeskCalc.Proofs.Nesting

/-!
# Variables and their definitions

A variable that has just been defined may be replaced by its definition in
parentheses. On texts an identifier is replaced piece by piece, on derivations
operand by operand.

Results:
* `Phrase.text_inlined`: the two agree.
* `Phrase.value_inlined`: reading a variable after its definition has been carried
  out is evaluating the definition in its place.
* `evaluate_inlined`: a definition and a line one after the other come to what the
  line with the definition inlined comes to.
-/
namespace DeskCalc

/-! ## Texts -/

/-- The text with `w` for each identifier `x` in it. -/
def replaced (x w cs : List Char) : List Char :=
  (pieces cs).flatMap fun u => if u = x then w else u

/-- The definition in parentheses. -/
def parenthesized (definition : String) : List Char := '(' :: (definition.toList ++ [')'])

/-- The line with the definition of `x` for each `x` in the part that is computed. -/
def inlined (x definition line : String) : String :=
  .ofList (uncomputed line.toList ++ replaced x.toList (parenthesized definition) (computed line.toList))

theorem replaced_nil (x w : List Char) : replaced x w [] = [] := by rw [replaced, pieces_nil, List.flatMap_nil]

section

variable {x : List Char} (hx : IsIdentifier x) (w : List Char)
include hx

theorem replaced_cons {c : Char} (h : c.isAlpha = false) (cs : List Char) :
    replaced x w (c :: cs) = c :: replaced x w cs := by
  unfold replaced
  rw [pieces_cons h, List.flatMap_cons, if_neg (hx.ne_singleton h), List.singleton_append]

/-- Without letters there is no name to replace. -/
theorem replaced_of_not_isAlpha {u : List Char} (h : ∀ c ∈ u, c.isAlpha = false) (cs : List Char) :
    replaced x w (u ++ cs) = u ++ replaced x w cs := by
  induction u with
  | nil => rfl
  | cons c u ih =>
    rw [List.cons_append, replaced_cons hx w (h c (by simp)), ih fun d hd => h d (by simp [hd])]
    rfl

theorem replaced_eq_self {u : List Char} (h : ∀ c ∈ u, c.isAlpha = false) : replaced x w u = u := by
  simpa [replaced_nil] using replaced_of_not_isAlpha hx w h []

theorem replaced_spaces (n : Nat) (cs : List Char) : replaced x w (spaces n ++ cs) = spaces n ++ replaced x w cs :=
  replaced_of_not_isAlpha hx w not_isAlpha_spaces cs

end

theorem Phrase.replaced_append {r : Rank} (p : Phrase r) {cs : List Char} (h : p.Ends cs) (x w : List Char) :
    replaced x w (p.text ++ cs) = replaced x w p.text ++ replaced x w cs := by
  rw [replaced, p.pieces_append h, List.flatMap_append]
  rfl

/-! ## Derivations -/

namespace Phrase

/-- The phrase with `q` for each operand that is the name `x`. -/
def inlined : {r : Rank} → Phrase r → List Char → Phrase .value → Phrase r
  | _, .group n p m, x, q => .group n (p.inlined x q) m
  | _, .name y h, x, q => if y = x then q else .name y h
  | _, .literal l h, _, _ => .literal l h
  | _, .single p, x, q => .single (p.inlined x q)
  | _, .more p n op h m p', x, q => .more (p.inlined x q) n op h m (p'.inlined x q)

variable {x : List Char} {q : Phrase .value} {r : Rank}

theorem text_inlined (hx : IsIdentifier x) (p : Phrase r) :
    (p.inlined x q).text = replaced x q.text p.text := by
  induction p with
  | name y hy =>
    rw [inlined, text, replaced, pieces_of_isIdentifier hy, List.flatMap_singleton]
    split <;> rfl
  | literal l hl => rw [inlined, text, replaced_eq_self hx _ hl.not_isAlpha]
  | single _ ih => exact ih
  | group a p b ih =>
    have hopen := replaced_cons hx q.text (c := '(') (by decide)
    have hclose := replaced_cons hx q.text (c := ')') (by decide) []
    simp only [inlined, text, List.append_assoc, hopen, replaced_spaces hx,
      p.replaced_append (p.ends_parenthesis b []), hclose, replaced_nil, ih]
  | more p a op h b p' ih₁ ih₂ =>
    have hop := replaced_cons hx q.text (c := op.symbol) (by cases op <;> decide)
    simp only [inlined, text, List.append_assoc, p.replaced_append (p.ends_symbol a op _), replaced_spaces hx, hop,
      ih₁, ih₂]

/-- Reading a name that has just been written is evaluating what was written. -/
theorem value_inlined (p : Phrase r) (t : Table) :
    (p.inlined x q).value t = p.value (t.write ⟨.ofList x, q.value t⟩) := by
  induction p with
  | name y hy =>
    rw [inlined, value, Table.get_write]
    by_cases h : y = x
    · rw [if_pos h, if_pos (by rw [h])]
    · rw [if_neg h, if_neg (fun e => h (String.ofList_injective e.symm)), value]
  | literal => rfl
  | single _ ih => exact ih
  | group _ _ _ ih => exact ih
  | more _ _ _ _ _ _ ih₁ ih₂ => rw [inlined, value_more, value_more, ih₁, ih₂]

end Phrase

/-! ## Lines -/

namespace Line

variable {x : List Char} {q : Phrase .value}

theorem text_inlined (hx : IsIdentifier x) (d : Line) :
    (d.withBody (d.body.inlined x q)).text = uncomputed d.text ++ replaced x q.text (computed d.text) := by
  obtain ⟨n, m, hd, hw⟩ := d.exists_sides
  rw [hw, hd, replaced_spaces hx, d.body.replaced_append (d.body.ends_spaces m),
    replaced_eq_self hx _ not_isAlpha_spaces, Phrase.text_inlined hx d.body]

/-- The definition of a variable. -/
def define (x : List Char) (hx : IsIdentifier x) (p : Phrase .sum) (k : Nat) : Line :=
  .assign (.name x hx) 1 1 p k

end Line

namespace Session

/-- A line with a result and without an equals sign is an expression. -/
theorem exists_expression_of_result_ok {s : Session} {line : String} {a : Answer}
    (h : (s.evaluate line).result = .ok a) (he : '=' ∉ line.toList) :
    ∃ (p : Phrase .sum) (k : Nat), line.toList = p.text ++ spaces k ∧ p.nesting ≤ maxNesting := by
  obtain ⟨d, rfl, hn⟩ := exists_line_of_result_ok h
  cases d with
  | answer p k => exact ⟨p, k, by simp [Line.text], hn⟩
  | assign => simp [Line.text] at he

/-- Evaluating the definition of a variable and then a line yields the same result
as evaluating the line with the definition in parentheses in place of the
variable, and except for that variable the same table. -/
theorem evaluate_inlined (s : Session) {x definition line : String} (hx : IsIdentifier x.toList)
    (hd : '=' ∉ definition.toList) (h₁ : ∃ a, (s.evaluate definition).result = .ok a)
    (h₂ : ∃ a, (s.evaluate line).result = .ok a)
    (hn : deepest 0 (inlined x definition line).toList ≤ maxNesting) :
    (∃ a, (s.evaluate (x ++ " = " ++ definition)).result = .ok a) ∧
    ∃ a, ((s.evaluate (x ++ " = " ++ definition)).session.evaluate line).result = .ok a ∧
      (s.evaluate (inlined x definition line)).result = .ok a ∧
      ∀ y, y ≠ x →
        ((s.evaluate (x ++ " = " ++ definition)).session.evaluate line).session.table.find? y =
          (s.evaluate (inlined x definition line)).session.table.find? y := by
  obtain ⟨a, h₁⟩ := h₁
  obtain ⟨b, h₂⟩ := h₂
  obtain ⟨p, k, hp, hpn⟩ := exists_expression_of_result_ok h₁ hd
  obtain ⟨d, rfl, hdn⟩ := exists_line_of_result_ok h₂
  let q : Phrase .value := .group 0 p k
  have hq : q.text = parenthesized definition := by simp [q, Phrase.text, parenthesized, hp, spaces]
  have hassign : .ofList (Line.define x.toList hx p k).text = x ++ " = " ++ definition := by
    apply String.toList_inj.mp
    simp [Line.define, Line.text, Target.text, spaces, hp]
  have hinlined : .ofList (d.withBody (d.body.inlined x.toList q)).text = inlined x definition (.ofList d.text) := by
    rw [d.text_inlined hx, hq, inlined, String.toList_ofList]
  rw [← hinlined, String.toList_ofList, Line.deepest_text] at hn
  obtain ⟨r₁, t₁⟩ := s.evaluate_line hassign (Nat.max_le.mpr ⟨Nat.zero_le _, hpn⟩)
  obtain ⟨r₂, t₂⟩ := (s.evaluate (x ++ " = " ++ definition)).session.evaluate_line rfl hdn
  obtain ⟨r₃, t₃⟩ := s.evaluate_line hinlined hn
  have hvalue : (d.withBody (d.body.inlined x.toList q)).value s.table =
      d.value (s.evaluate (x ++ " = " ++ definition)).session.table := by
    rw [t₁, Line.value_body, Line.body_withBody, Phrase.value_inlined, d.value_body]
    rfl
  rw [hvalue, Line.name_withBody] at r₃ t₃
  refine ⟨⟨_, r₁⟩, _, r₂, r₃, fun y hy => ?_⟩
  rw [t₂, t₃, t₁, Table.find?_write, Table.find?_write, Table.find?_write]
  have hx' : (Line.define x.toList hx p k).name ≠ y := by
    simpa [Line.define, Line.name, Target.target] using Ne.symm hy
  rw [if_neg hx']

/-- A definition in terms of the old value, and a line that mentions the variable
twice and another one of a longer name. -/
theorem evaluate_inlined_twice :
    let s : Session := ⟨({} : Table).write ⟨"x", 5⟩⟩
    inlined "x" "x - 2 " "x1 = 10 - x*x + x1" = "x1 = 10 - (x - 2 )*(x - 2 ) + x1" ∧
    (∃ a, (s.evaluate "x = x - 2 ").result = .ok a) ∧
    ∃ a, ((s.evaluate "x = x - 2 ").session.evaluate "x1 = 10 - x*x + x1").result = .ok a ∧
      (s.evaluate "x1 = 10 - (x - 2 )*(x - 2 ) + x1").result = .ok a ∧
      ∀ y, y ≠ "x" → ((s.evaluate "x = x - 2 ").session.evaluate "x1 = 10 - x*x + x1").session.table.find? y =
        (s.evaluate "x1 = 10 - (x - 2 )*(x - 2 ) + x1").session.table.find? y := by
  intro s
  have hi : inlined "x" "x - 2 " "x1 = 10 - x*x + x1" = "x1 = 10 - (x - 2 )*(x - 2 ) + x1" := by
    decide +kernel
  have h₁ : (s.evaluate "x - 2 ").result = .ok ⟨⟨"ans", 3⟩, "ans = 3"⟩ := by decide +kernel
  have h₂ : (s.evaluate "x1 = 10 - x*x + x1").result = .ok ⟨⟨"x1", -15⟩, "x1 = -15"⟩ := by decide +kernel
  have h := evaluate_inlined s (x := "x") (by decide) (by decide) ⟨_, h₁⟩ ⟨_, h₂⟩ (by rw [hi]; decide)
  rw [hi] at h
  exact ⟨hi, h⟩

end Session

end DeskCalc
