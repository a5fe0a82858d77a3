import DeskCalc.Proofs.Alphabet
import DeskCalc.Proofs.Evaluation

/-!
# The names in a line

Which variables the text of a line mentions, told without a derivation: the text
is cut into its identifiers and the single characters between them.

Results:
* `Phrase.pieces_append`: a phrase is cut into the same pieces whatever stands
  behind it, as long as it does not go on into that.
* `Phrase.value_congr`: the value of a phrase depends on the variables that its
  text mentions, and on no others.
* `Line.exists_sides`: which part of a line's text is computed.
-/
namespace DeskCalc

/-! ## Pieces -/

/-- A text cut into its identifiers and the single characters between them. -/
def pieces : List Char → List (List Char)
  | [] => []
  | c :: cs =>
    if c.isAlpha then (c :: cs.takeWhile TokenKind.isNameChar) :: pieces (cs.dropWhile TokenKind.isNameChar)
    else [c] :: pieces cs
termination_by cs => cs.length
decreasing_by
  · exact Nat.lt_succ_of_le (List.length_dropWhile_le ..)
  · exact Nat.lt_succ_self _

@[simp] theorem pieces_nil : pieces [] = [] := by rw [pieces]

theorem pieces_cons {c : Char} (h : c.isAlpha = false) (cs : List Char) :
    pieces (c :: cs) = [c] :: pieces cs := by
  rw [pieces, if_neg (by simp [h])]

theorem pieces_name {x cs : List Char} (hx : IsIdentifier x) (hc : NameEnds cs) :
    pieces (x ++ cs) = x :: pieces cs := by
  cases x with
  | nil => exact hx.elim
  | cons c x =>
    obtain ⟨h₁, h₂⟩ := takeWhile_append_of_stop hx.2 hc
    rw [List.cons_append, pieces, if_pos hx.1, h₁, h₂]

theorem pieces_of_isIdentifier {x : List Char} (hx : IsIdentifier x) : pieces x = [x] := by
  simpa using pieces_name hx Delimited.nil.nameEnds

theorem IsIdentifier.ne_singleton {x : List Char} (hx : IsIdentifier x) {c : Char} (hc : c.isAlpha = false) :
    [c] ≠ x := by
  obtain ⟨d, w, rfl, hd⟩ := hx.head
  intro e
  cases e
  simp [hc] at hd

theorem flatten_pieces (cs : List Char) : (pieces cs).flatten = cs := by
  fun_induction pieces cs with
  | case1 => rfl
  | case2 c cs _ ih =>
    rw [List.flatten_cons, ih, List.cons_append, List.takeWhile_append_dropWhile]
  | case3 c cs _ ih => rw [List.flatten_cons, ih, List.singleton_append]

/-- Without letters there are only single characters. -/
theorem pieces_of_not_isAlpha {w : List Char} (h : ∀ c ∈ w, c.isAlpha = false) (cs : List Char) :
    pieces (w ++ cs) = w.map ([·]) ++ pieces cs := by
  induction w with
  | nil => rfl
  | cons c w ih =>
    rw [List.cons_append, pieces_cons (h c (by simp)), ih fun x hx => h x (by simp [hx])]
    rfl

theorem pieces_eq_map {w : List Char} (h : ∀ c ∈ w, c.isAlpha = false) : pieces w = w.map ([·]) := by
  simpa using pieces_of_not_isAlpha h []

theorem not_isAlpha_spaces {n : Nat} : ∀ c ∈ spaces n, c.isAlpha = false := by
  intro c hc
  obtain rfl := List.eq_of_mem_replicate hc
  decide

theorem pieces_spaces (n : Nat) (cs : List Char) :
    pieces (spaces n ++ cs) = (spaces n).map ([·]) ++ pieces cs :=
  pieces_of_not_isAlpha not_isAlpha_spaces cs

theorem pieces_open (cs : List Char) : pieces ('(' :: cs) = ['('] :: pieces cs := pieces_cons (by decide) cs

theorem pieces_close (cs : List Char) : pieces (')' :: cs) = [')'] :: pieces cs := pieces_cons (by decide) cs

theorem pieces_symbol (op : Op) (cs : List Char) : pieces (op.symbol :: cs) = [op.symbol] :: pieces cs :=
  pieces_cons (by cases op <;> decide) cs

theorem Literal.WellFormed.not_isAlpha {l : Literal} (h : l.WellFormed) : ∀ c ∈ l.chars, c.isAlpha = false := by
  intro c hc
  rcases h.mem_chars hc with rfl | rfl | rfl | hd
  · decide
  · decide
  · decide
  · exact isAlpha_of_isDigit hd

namespace Phrase

/-- The pieces of a phrase are those of its parts, and they do not depend on what
stands behind it. -/
theorem pieces_append {r : Rank} (p : Phrase r) {cs : List Char} (h : p.Ends cs) :
    pieces (p.text ++ cs) = pieces p.text ++ pieces cs := by
  induction p generalizing cs with
  | name x hx => rw [text, pieces_name hx h, pieces_of_isIdentifier hx, List.singleton_append]
  | literal l hl => rw [text, pieces_eq_map hl.not_isAlpha, pieces_of_not_isAlpha hl.not_isAlpha]
  | single _ ih => exact ih h
  | group a p b ih =>
    simp only [text, List.cons_append, List.append_assoc, List.nil_append, pieces_open, pieces_close,
      pieces_spaces, ih (p.ends_parenthesis b _), pieces_nil]
  | more p a op _ b q ih₁ ih₂ =>
    simp only [text, List.cons_append, List.append_assoc, pieces_symbol, pieces_spaces,
      ih₁ (p.ends_symbol a op _), ih₂ h]

theorem pieces_group (a : Nat) (p : Phrase .sum) (b : Nat) :
    pieces (group a p b).text =
      ['('] :: ((spaces a).map ([·]) ++ (pieces p.text ++ ((spaces b).map ([·]) ++ [[')']]))) := by
  simp only [text, List.append_assoc, pieces_open, pieces_close, pieces_nil, pieces_spaces,
    p.pieces_append (p.ends_parenthesis b [])]

theorem pieces_more {level : Level} (p : Phrase (.chain level)) (a : Nat) (op : Op) (h : op.level = level)
    (b : Nat) (q : Phrase level.operand) :
    pieces (more p a op h b q).text =
      pieces p.text ++ ((spaces a).map ([·]) ++ [op.symbol] :: ((spaces b).map ([·]) ++ pieces q.text)) := by
  simp only [text, List.append_assoc, pieces_symbol, pieces_spaces,
    p.pieces_append (p.ends_symbol a op _)]

end Phrase

/-! ## Names -/

/-- The identifier stands in the text. -/
def Mentions (cs : List Char) (x : String) : Prop := IsIdentifier x.toList ∧ x.toList ∈ pieces cs

instance (cs : List Char) (x : String) : Decidable (Mentions cs x) :=
  inferInstanceAs (Decidable (IsIdentifier x.toList ∧ x.toList ∈ pieces cs))

/-- Phrases do not look at variables that they do not mention. -/
theorem Phrase.value_congr {t₁ t₂ : Table} {r : Rank} (p : Phrase r)
    (h : ∀ x, Mentions p.text x → t₁.get x = t₂.get x) : p.value t₁ = p.value t₂ := by
  induction p with
  | name x hx => exact h (.ofList x) ⟨by simpa using hx, by simp [text, pieces_of_isIdentifier hx]⟩
  | literal => rfl
  | single _ ih => exact ih h
  | group a p b ih => exact ih fun x hx => h x ⟨hx.1, by simp [pieces_group, hx.2]⟩
  | more p a op hop b q ih₁ ih₂ =>
    have h₁ := ih₁ fun x hx => h x ⟨hx.1, by simp [pieces_more, hx.2]⟩
    have h₂ := ih₂ fun x hx => h x ⟨hx.1, by simp [pieces_more, hx.2]⟩
    rw [value_more, value_more, h₁, h₂]

/-! ## Lines -/

/-- The part of a line whose value is computed: what follows the first equals
sign, or all of it if there is none. -/
def computed (cs : List Char) : List Char :=
  if '=' ∈ cs then (cs.dropWhile (· ≠ '=')).tail else cs

/-- What stands in front of the part that is computed, the equals sign included. -/
def uncomputed (cs : List Char) : List Char :=
  if '=' ∈ cs then cs.takeWhile (· ≠ '=') ++ ['='] else []

theorem sides_of_not_mem {cs : List Char} (h : '=' ∉ cs) : uncomputed cs = [] ∧ computed cs = cs :=
  ⟨if_neg h, if_neg h⟩

theorem sides_equals {w : List Char} (h : '=' ∉ w) (cs : List Char) :
    uncomputed (w ++ '=' :: cs) = w ++ ['='] ∧ computed (w ++ '=' :: cs) = cs := by
  have hw : ∀ c ∈ w, decide (c ≠ '=') := fun c hc => decide_eq_true fun e => h (e ▸ hc)
  obtain ⟨h₁, h₂⟩ := takeWhile_append_of_stop (r := '=' :: cs) hw (by simp)
  have hmem : '=' ∈ w ++ '=' :: cs := by simp
  exact ⟨by rw [uncomputed, if_pos hmem, h₁], by rw [computed, if_pos hmem, h₂, List.tail_cons]⟩

/-- The variables that the value of a line is computed from. -/
def Reads (line : String) (x : String) : Prop := Mentions (computed line.toList) x

instance (line x : String) : Decidable (Reads line x) :=
  inferInstanceAs (Decidable (Mentions (computed line.toList) x))

namespace Line

/-- The expression whose value the line writes. -/
def body : Line → Phrase .sum
  | .answer p _ | .assign _ _ _ p _ => p

/-- The line with another expression in that place. -/
def withBody (p : Phrase .sum) : Line → Line
  | .answer _ k => .answer p k
  | .assign q n m _ k => .assign q n m p k

@[simp] theorem name_withBody (p : Phrase .sum) (d : Line) : (d.withBody p).name = d.name := by cases d <;> rfl

@[simp] theorem body_withBody (p : Phrase .sum) (d : Line) : (d.withBody p).body = p := by cases d <;> rfl

theorem value_body (t : Table) (d : Line) : d.value t = d.body.value t := by cases d <;> rfl

/-- The computed part of a line is its expression between spaces, and another
expression there leaves the rest of the line as it is. -/
theorem exists_sides (d : Line) : ∃ n m, computed d.text = spaces n ++ (d.body.text ++ spaces m) ∧
    ∀ p, (d.withBody p).text = uncomputed d.text ++ (spaces n ++ (p.text ++ spaces m)) := by
  cases d with
  | answer p k =>
    obtain ⟨h₁, h₂⟩ := sides_of_not_mem (equals_not_mem_answer p k)
    exact ⟨0, k, h₂, fun q => by rw [text, h₁]; rfl⟩
  | assign q n m p k =>
    obtain ⟨h₁, h₂⟩ := sides_equals (equals_not_mem_target q n) (spaces m ++ p.text ++ spaces k)
    refine ⟨m, k, ?_, fun p' => ?_⟩
    · rw [text, h₂]
      exact List.append_assoc ..
    · rw [text, h₁]
      simp [withBody, text]

theorem value_congr {t₁ t₂ : Table} (d : Line)
    (h : ∀ x, Reads (.ofList d.text) x → t₁.get x = t₂.get x) : d.value t₁ = d.value t₂ := by
  obtain ⟨n, m, hd, -⟩ := d.exists_sides
  rw [value_body, value_body]
  refine d.body.value_congr fun x hx => h x ⟨hx.1, ?_⟩
  rw [String.toList_ofList, hd, pieces_spaces, d.body.pieces_append (d.body.ends_spaces m)]
  simp [hx.2]

end Line

end DeskCalc
