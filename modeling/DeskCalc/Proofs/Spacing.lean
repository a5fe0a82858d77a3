import DeskCalc.Proofs.Effect

/-!
# Spaces in a line

A line is made of words with spaces behind them, and how many spaces there are does
not matter: put any numbers in their place, and the text derives as the same
expression. So a line with a result may lose its spaces, or get more of them next to
an operator, an equals sign or a parenthesis.

Results:
* `Line.exists_layout`, `Line.exists_line_of_layout`: a line is a layout of its words,
  and every layout of them is a line that writes the same.
* `Line.separated_words`: an operator, an equals sign or a parenthesis is a word of its
  own; a sign in front of a literal stands where an operand is due.
* `evaluate_respaced`: lines that differ in their spaces.
-/
namespace DeskCalc

/-- What stands in two lists put together stands in the first or in the second. -/
theorem exists_of_append_eq {α : Type} {u v pre post : List α} {c : α} (h : u ++ v = pre ++ c :: post) :
    (∃ z, u = pre ++ c :: z ∧ post = z ++ v) ∨ ∃ z, pre = u ++ z ∧ v = z ++ c :: post := by
  rcases List.append_eq_append_iff.mp h with ⟨z, hpre, hv⟩ | ⟨z, hu, hpost⟩
  · exact .inr ⟨z, hpre, hv⟩
  · cases z with
    | nil => exact .inr ⟨[], by simpa using hu.symm, by simpa using hpost.symm⟩
    | cons d z =>
      cases hpost
      exact .inl ⟨z, hu, rfl⟩

/-! ## Layouts -/

/-- Words, each with the number of spaces behind it. -/
abbrev Layout := List (List Char × Nat)

namespace Layout

def words (l : Layout) : List (List Char) := l.map Prod.fst

def text (l : Layout) : List Char := l.flatMap fun (w, n) => w ++ spaces n

/-- The layout of the same words without any spaces. -/
def squeezed (l : Layout) : Layout := l.map fun (w, _) => (w, 0)

@[simp] theorem text_nil : text [] = [] := rfl

@[simp] theorem text_cons (w : List Char) (n : Nat) (l : Layout) :
    text ((w, n) :: l) = w ++ (spaces n ++ text l) := by simp [text]

@[simp] theorem text_append (l l' : Layout) : text (l ++ l') = text l ++ text l' := by simp [text]

@[simp] theorem words_nil : words [] = [] := rfl

@[simp] theorem words_cons (w : List Char) (n : Nat) (l : Layout) : words ((w, n) :: l) = w :: words l := rfl

@[simp] theorem words_append (l l' : Layout) : words (l ++ l') = words l ++ words l' := List.map_append

@[simp] theorem words_squeezed (l : Layout) : l.squeezed.words = l.words := by simp [words, squeezed]

theorem words_eq_nil {l : Layout} (h : l.words = []) : l = [] := List.map_eq_nil_iff.mp h

theorem exists_cons {l : Layout} {w : List Char} {ws : List (List Char)} (h : l.words = w :: ws) :
    ∃ n l', l = (w, n) :: l' ∧ words l' = ws := by
  obtain ⟨⟨w, n⟩, l', rfl, rfl, hl⟩ := List.map_eq_cons_iff.mp h
  exact ⟨n, l', rfl, hl⟩

theorem exists_append {l : Layout} {ws vs : List (List Char)} (h : l.words = ws ++ vs) :
    ∃ l₁ l₂, l = l₁ ++ l₂ ∧ words l₁ = ws ∧ words l₂ = vs :=
  List.map_eq_append_iff.mp h

theorem text_squeezed (l : Layout) : l.squeezed.text = l.words.flatten := by
  induction l with
  | nil => rfl
  | cons p l ih =>
    rw [words_cons, List.flatten_cons, ← ih]
    simp [squeezed, spaces]

theorem filter_text (l : Layout) : l.text.filter (· ≠ ' ') = l.words.flatten.filter (· ≠ ' ') := by
  induction l with
  | nil => rfl
  | cons p l ih =>
    have hspaces (n : Nat) : (spaces n).filter (· ≠ ' ') = [] := by simp [spaces]
    rw [text_cons, words_cons, List.flatten_cons, List.filter_append, List.filter_append, List.filter_append, hspaces, ih,
      List.nil_append]

/-- A character that is no space stands in one of the words. -/
theorem exists_word {l : Layout} {pre post : List Char} {c : Char} (hc : c ≠ ' ') (h : l.text = pre ++ c :: post) :
    ∃ (l₁ l₂ : Layout) (w : List Char) (n : Nat) (u v : List Char), l = l₁ ++ (w, n) :: l₂ ∧ w = u ++ c :: v ∧
      pre = l₁.text ++ u ∧ post = v ++ (spaces n ++ l₂.text) := by
  induction l generalizing pre with
  | nil => simp at h
  | cons p l ih =>
    obtain ⟨w, n⟩ := p
    rw [text_cons] at h
    rcases exists_of_append_eq h with ⟨z, hw, rfl⟩ | ⟨z, rfl, hz⟩
    · exact ⟨[], l, w, n, pre, z, rfl, hw, by simp, rfl⟩
    · rcases exists_of_append_eq hz with ⟨y, hs, -⟩ | ⟨y, rfl, hy⟩
      · have : c ∈ spaces n := by simp [hs]
        exact absurd (List.eq_of_mem_replicate this) hc
      · obtain ⟨l₁, l₂, w', n', u, v, rfl, hw, rfl, rfl⟩ := ih hy
        exact ⟨(w, n) :: l₁, l₂, w', n', u, v, rfl, hw, by simp, rfl⟩

end Layout

/-! ## Derivations -/

namespace Phrase

/-- The words of the text. -/
def words : {r : Rank} → Phrase r → List (List Char)
  | _, .group _ p _ => ['('] :: (p.words ++ [[')']])
  | _, .name x _ => [x]
  | _, .literal l _ => [l.chars]
  | _, .single p => p.words
  | _, .more p _ op _ _ q => p.words ++ [op.symbol] :: q.words

variable {r : Rank}

theorem exists_layout (p : Phrase r) (k : Nat) : ∃ l : Layout, l.words = p.words ∧ l.text = p.text ++ spaces k := by
  induction p generalizing k with
  | group a p b ih =>
    obtain ⟨l, hw, ht⟩ := ih b
    exact ⟨(['('], a) :: (l ++ [([')'], k)]), by simp [words, hw], by simp [text, ht]⟩
  | name x => exact ⟨[(x, k)], rfl, by simp [text]⟩
  | literal l => exact ⟨[(l.chars, k)], rfl, by simp [text]⟩
  | single _ ih => exact ih k
  | more p a op _ b q ih₁ ih₂ =>
    obtain ⟨l₁, hw₁, ht₁⟩ := ih₁ a
    obtain ⟨l₂, hw₂, ht₂⟩ := ih₂ k
    refine ⟨l₁ ++ ([op.symbol], b) :: l₂, by simp [words, hw₁, hw₂], ?_⟩
    rw [Layout.text_append, Layout.text_cons, ht₁, ht₂]
    simp [text]

/-- However the words are laid out, they derive as the same expression. -/
theorem exists_phrase_of_layout (p : Phrase r) {l : Layout} (h : l.words = p.words) :
    ∃ (p' : Phrase r) (k : Nat), l.text = p'.text ++ spaces k ∧ p'.expr = p.expr ∧ p'.nesting = p.nesting := by
  induction p generalizing l with
  | group a p b ih =>
    obtain ⟨a, l, rfl, hl⟩ := Layout.exists_cons h
    obtain ⟨l, l', rfl, hp, hclose⟩ := Layout.exists_append hl
    obtain ⟨k, l', rfl, hnil⟩ := Layout.exists_cons hclose
    obtain rfl := Layout.words_eq_nil hnil
    obtain ⟨q, b, ht, he, hn⟩ := ih hp
    exact ⟨.group a q b, k, by simp [text, ht], he, congrArg (· + 1) hn⟩
  | name x hx =>
    obtain ⟨k, l, rfl, hl⟩ := Layout.exists_cons h
    obtain rfl := Layout.words_eq_nil hl
    exact ⟨.name x hx, k, by simp [text], rfl, rfl⟩
  | literal lit hlit =>
    obtain ⟨k, l, rfl, hl⟩ := Layout.exists_cons h
    obtain rfl := Layout.words_eq_nil hl
    exact ⟨.literal lit hlit, k, by simp [text], rfl, rfl⟩
  | single _ ih =>
    obtain ⟨q, k, ht, he, hn⟩ := ih h
    exact ⟨.single q, k, ht, he, hn⟩
  | more p a op hop b q ih₁ ih₂ =>
    obtain ⟨l₁, l, rfl, h₁, hl⟩ := Layout.exists_append h
    obtain ⟨b, l₂, rfl, h₂⟩ := Layout.exists_cons hl
    obtain ⟨p', a, ht₁, he₁, hn₁⟩ := ih₁ h₁
    obtain ⟨q', k, ht₂, he₂, hn₂⟩ := ih₂ h₂
    refine ⟨.more p' a op hop b q', k, ?_, by rw [expr, expr, he₁, he₂], by rw [nesting, nesting, hn₁, hn₂]⟩
    rw [Layout.text_append, Layout.text_cons, ht₁, ht₂]
    simp [text]

theorem space_not_mem_words (p : Phrase r) : ∀ w ∈ p.words, ' ' ∉ w := by
  induction p with
  | group a p b ih =>
    intro w hw
    simp only [words, List.mem_cons, List.mem_append, List.not_mem_nil, or_false] at hw
    rcases hw with rfl | hw | rfl
    · decide
    · exact ih w hw
    · decide
  | name x hx =>
    intro w hw hs
    obtain rfl := List.mem_singleton.mp hw
    exact absurd (hx.isNameChar _ hs) (by decide)
  | literal l hl =>
    intro w hw hs
    obtain rfl := List.mem_singleton.mp hw
    exact absurd (hl.mem_chars hs) (by decide)
  | single _ ih => exact ih
  | more p a op _ b q ih₁ ih₂ =>
    intro w hw
    simp only [words, List.mem_cons, List.mem_append] at hw
    rcases hw with hw | rfl | hw
    · exact ih₁ w hw
    · cases op <;> decide
    · exact ih₂ w hw

end Phrase

namespace Line

/-- The words of the text. -/
def words : Line → List (List Char)
  | .answer p _ => p.words
  | .assign q _ _ p _ => q.toValue.words ++ ['='] :: p.words

theorem exists_layout (d : Line) : ∃ l : Layout, l.words = d.words ∧ l.text = d.text := by
  cases d with
  | answer p k => exact p.exists_layout k
  | assign q n m p k =>
    obtain ⟨l₁, hw₁, ht₁⟩ := q.toValue.exists_layout n
    obtain ⟨l₂, hw₂, ht₂⟩ := p.exists_layout k
    refine ⟨l₁ ++ (['='], m) :: l₂, by simp [words, hw₁, hw₂], ?_⟩
    rw [Layout.text_append, Layout.text_cons, ht₁, ht₂, q.text_toValue]
    simp [text]

/-- However the words are laid out, they derive as a line that writes the same. -/
theorem exists_line_of_layout (d : Line) {l : Layout} (h : l.words = d.words) :
    ∃ d' : Line, d'.text = l.text ∧ d'.nesting = d.nesting ∧ d'.name = d.name ∧ ∀ t, d'.value t = d.value t := by
  cases d with
  | answer p k =>
    obtain ⟨p', k', ht, he, hn⟩ := p.exists_phrase_of_layout h
    refine ⟨.answer p' k', ht.symm, hn, rfl, fun t => ?_⟩
    rw [value, value, ← p'.value_expr, he, p.value_expr]
  | assign q n m p k =>
    obtain ⟨l₁, l, rfl, h₁, hl⟩ := Layout.exists_append h
    obtain ⟨m', l₂, rfl, h₂⟩ := Layout.exists_cons hl
    obtain ⟨v, n', ht₁, he₁, hn₁⟩ := q.toValue.exists_phrase_of_layout h₁
    obtain ⟨q', hq, hqn, hqx⟩ := v.exists_target (he₁.trans q.expr_toValue)
    obtain ⟨p', k', ht₂, he₂, hn₂⟩ := p.exists_phrase_of_layout h₂
    refine ⟨.assign q' n' m' p' k', ?_, ?_, hqx, fun t => ?_⟩
    · rw [Layout.text_append, Layout.text_cons, ht₁, ht₂, text, hq]
      simp
    · rw [nesting, nesting, hqn, hn₁, q.nesting_toValue, hn₂]
    · rw [value, value, ← p'.value_expr, he₂, p.value_expr]

theorem space_not_mem_words (d : Line) : ∀ w ∈ d.words, ' ' ∉ w := by
  cases d with
  | answer p => exact p.space_not_mem_words
  | assign q _ _ p =>
    intro w hw
    simp only [words, List.mem_append, List.mem_cons] at hw
    rcases hw with hw | rfl | hw
    · exact q.toValue.space_not_mem_words w hw
    · decide
    · exact p.space_not_mem_words w hw

end Line

/-! ## Punctuation -/

/-- Operators, the equals sign and parentheses. -/
def punctuation : List Char := ['+', '-', '*', '/', '^', '=', '(', ')']

/-- An operand is due behind the text: there is nothing but spaces, or the last
character in front of them is punctuation and does not close a parenthesis. -/
def OperandDue (cs : List Char) : Prop :=
  ∀ c ∈ (cs.filter (· ≠ ' ')).getLast?, c ∈ punctuation ∧ c ≠ ')'

instance (cs : List Char) : Decidable (OperandDue cs) :=
  decidable_of_iff ((cs.filter (· ≠ ' ')).getLast?.all fun c => c ∈ punctuation ∧ c ≠ ')')
    (by simp [OperandDue, Option.all_eq_true])

/-- A sign where an operand is due, with a digit behind it: the two belong to a literal. -/
def SignsLiteral (before : List Char) (c : Char) (behind : List Char) : Prop :=
  (c = '+' ∨ c = '-') ∧ OperandDue before ∧ behind.head?.any Char.isDigit

instance (before : List Char) (c : Char) (behind : List Char) : Decidable (SignsLiteral before c behind) :=
  inferInstanceAs (Decidable (_ ∧ _ ∧ _))

/-- Where punctuation occurs in the words, it is a word of its own or the sign in front
of a literal. -/
def Separated (ws : List (List Char)) : Prop :=
  ∀ us w vs u c v, ws = us ++ w :: vs → w = u ++ c :: v → c ∈ punctuation →
    u = [] ∧ (v = [] ∨ SignsLiteral us.flatten c v)

theorem OperandDue.append {cs : List Char} (h : OperandDue cs) {c : Char} (hc : c ∈ punctuation ∧ c ≠ ')')
    (before : List Char) : OperandDue (before ++ c :: cs) := by
  intro x hx
  have hspace : c ≠ ' ' := fun e => absurd (e ▸ hc.1) (by decide)
  rw [List.filter_append, List.filter_cons_of_pos (by simpa using hspace), List.getLast?_append, List.getLast?_cons] at hx
  cases hl : (cs.filter (· ≠ ' ')).getLast? with
  | none =>
    rw [hl] at hx
    obtain rfl : c = x := by simpa using hx
    exact hc
  | some y =>
    rw [hl] at hx
    obtain rfl : y = x := by simpa using hx
    exact h y hl

theorem not_mem_punctuation {c : Char} (h : TokenKind.isNameChar c) : c ∉ punctuation := by
  intro hc
  simp only [punctuation, List.mem_cons, List.not_mem_nil, or_false] at hc
  rcases hc with rfl | rfl | rfl | rfl | rfl | rfl | rfl | rfl <;> exact absurd h (by decide)

namespace Separated

theorem nil : Separated [] := fun us w vs _ _ _ h => by simp at h

/-- A word without punctuation. -/
theorem word {w : List Char} (h : ∀ c ∈ w, c ∉ punctuation) : Separated [w] := by
  intro us w' vs u c v hws hw hc
  cases us with
  | nil =>
    cases hws
    exact absurd hc (h c (by simp [hw]))
  | cons => simp at hws

/-- Words with punctuation between them; behind a closing parenthesis no operand is due. -/
theorem join {ws₁ ws₂ : List (List Char)} (h₁ : Separated ws₁) (h₂ : Separated ws₂) {c : Char} (hc : c ∈ punctuation)
    (hclose : c ≠ ')' ∨ ws₂ = []) : Separated (ws₁ ++ [c] :: ws₂) := by
  intro us w vs u d v hws hw hd
  rcases exists_of_append_eq hws with ⟨z, hz, -⟩ | ⟨z, rfl, hz⟩
  · exact h₁ us w z u d v hz hw hd
  · cases z with
    | nil =>
      -- the punctuation in between
      cases hz
      cases u with
      | nil => exact ⟨rfl, .inl (List.tail_eq_of_cons_eq hw).symm⟩
      | cons => simp at hw
    | cons x z =>
      obtain ⟨rfl, hrest⟩ : [c] = x ∧ ws₂ = z ++ w :: vs := by simpa using hz
      obtain ⟨hu, hv⟩ := h₂ z w vs u d v hrest hw hd
      refine ⟨hu, hv.imp_right fun ⟨hsign, hdue, hdigit⟩ => ⟨hsign, ?_, hdigit⟩⟩
      have hne : c ≠ ')' := hclose.resolve_right fun e => by simp [e] at hrest
      rw [List.flatten_append, List.flatten_cons]
      exact hdue.append ⟨hc, hne⟩ ws₁.flatten

/-- The sign of a literal stands at its very front. -/
theorem literal {l : Literal} (hl : l.WellFormed) : Separated [l.chars] := by
  have hdigits : ∀ x ∈ l.whole ++ (if l.fraction = [] then [] else '.' :: l.fraction), x ∉ punctuation := by
    intro x hx
    rcases List.mem_append.mp hx with hx | hx
    · exact not_mem_punctuation (isNameChar_of_isDigit (hl.whole_digit x hx))
    · split at hx
      · cases hx
      · rcases List.mem_cons.mp hx with rfl | hx
        · decide
        · exact not_mem_punctuation (isNameChar_of_isDigit (hl.fraction_digit x hx))
  rcases hs : l.sign with _ | s
  · refine word fun c hc => hdigits c ?_
    simpa [Literal.chars, hs] using hc
  · intro us w vs u c v hws hw hc
    obtain ⟨rfl, rfl⟩ : us = [] ∧ w = l.chars := by
      cases us with
      | nil => exact ⟨rfl, (List.head_eq_of_cons_eq hws).symm⟩
      | cons => simp at hws
    have hchars : l.chars = s.char :: (l.whole ++ if l.fraction = [] then [] else '.' :: l.fraction) := by
      simp [Literal.chars, hs]
    rw [hchars] at hw
    cases u with
    | nil =>
      obtain rfl : s.char = c := List.head_eq_of_cons_eq hw
      obtain ⟨d, ds, hd⟩ := List.exists_cons_of_ne_nil hl.whole_ne
      refine ⟨rfl, .inr ⟨by cases s <;> decide, by simp [OperandDue], ?_⟩⟩
      rw [← List.tail_eq_of_cons_eq hw, hd]
      exact hl.whole_digit d (by simp [hd])
    | cons x u => exact absurd hc (hdigits c (by simp [List.tail_eq_of_cons_eq hw]))

end Separated

theorem Phrase.separated_words {r : Rank} (p : Phrase r) : Separated p.words := by
  induction p with
  | group a p b ih => exact Separated.nil.join (ih.join .nil (by decide) (.inr rfl)) (by decide) (.inl (by decide))
  | name x hx => exact .word fun c hc => not_mem_punctuation (hx.isNameChar c hc)
  | literal l hl => exact .literal hl
  | single _ ih => exact ih
  | more p a op _ b q ih₁ ih₂ =>
    exact ih₁.join ih₂ (by cases op <;> decide) (.inl (by cases op <;> decide))

theorem Line.separated_words (d : Line) : Separated d.words := by
  cases d with
  | answer p => exact p.separated_words
  | assign q _ _ p => exact q.toValue.separated_words.join p.separated_words (by decide) (.inl (by decide))

/-- Next to punctuation that is no sign of a literal there is room for spaces. -/
theorem Layout.exists_inserted {l : Layout} (hs : Separated l.words) {pre post : List Char} {c : Char}
    (h : l.text = pre ++ c :: post) (hc : c ∈ punctuation) (hsign : ¬ SignsLiteral pre c post) (n : Nat) :
    (pre ≠ [] → ∃ l' : Layout, l'.words = l.words ∧ l'.text = pre ++ (spaces n ++ c :: post)) ∧
    ∃ l' : Layout, l'.words = l.words ∧ l'.text = pre ++ c :: (spaces n ++ post) := by
  have hspace : c ≠ ' ' := fun e => absurd (e ▸ hc) (by decide)
  have hadd (m k : Nat) : spaces (m + k) = spaces m ++ spaces k := List.replicate_append_replicate.symm
  obtain ⟨l₁, l₂, w, m, u, v, rfl, hw, rfl, rfl⟩ := exists_word hspace h
  obtain ⟨rfl, hv⟩ := hs l₁.words w l₂.words u c v (by simp) hw hc
  rw [List.append_nil] at hsign ⊢
  obtain rfl : v = [] := by
    rcases hv with hv | ⟨hpm, hdue, hdigit⟩
    · exact hv
    · cases v with
      | nil => rfl
      | cons d v =>
        have hdue : OperandDue l₁.text := by
          rw [OperandDue, filter_text]
          exact hdue
        exact absurd ⟨hpm, hdue, hdigit⟩ hsign
  obtain rfl : w = [c] := hw
  refine ⟨fun hpre => ?_, l₁ ++ ([c], n + m) :: l₂, by simp, by simp [hadd]⟩
  cases l₁ using List.reverseRecOn with
  | nil => exact absurd rfl hpre
  | append_singleton l₁ p =>
    obtain ⟨w, k⟩ := p
    exact ⟨(l₁ ++ [(w, k + n)]) ++ ([c], m) :: l₂, by simp, by simp [hadd]⟩

/-! ## Lines -/

/-- The line without its spaces. -/
def squeezed (line : String) : String := .ofList (line.toList.filter (· ≠ ' '))

namespace Session

/-- The two lines have the same result and leave the same variables behind. -/
def SameOutcome (s : Session) (line line' : String) : Prop :=
  (s.evaluate line').result = (s.evaluate line).result ∧ (s.evaluate line').session = (s.evaluate line).session

variable {s : Session} {line line' : String}

theorem SameOutcome.symm (h : s.SameOutcome line line') : s.SameOutcome line' line := ⟨h.1.symm, h.2.symm⟩

theorem SameOutcome.trans {line'' : String} (h : s.SameOutcome line line') (h' : s.SameOutcome line' line'') :
    s.SameOutcome line line'' := ⟨h'.1.trans h.1, h'.2.trans h.2⟩

/-- However the words of a line are laid out, it comes to the same. -/
theorem sameOutcome_of_layout (s : Session) {d : Line} (hn : d.nesting ≤ maxNesting) {l : Layout}
    (hl : l.words = d.words) : s.SameOutcome (.ofList d.text) (.ofList l.text) := by
  obtain ⟨d', ht, hn', hname, hvalue⟩ := d.exists_line_of_layout hl
  obtain ⟨hr, htable⟩ := s.evaluate_line (d := d) rfl hn
  obtain ⟨hr', htable'⟩ := s.evaluate_line (congrArg String.ofList ht) (hn'.trans_le hn)
  rw [hname, hvalue] at hr' htable'
  exact ⟨hr'.trans hr.symm, congrArg Session.mk (htable'.trans htable.symm)⟩

/-- A line with a result comes to the same without its spaces. -/
theorem sameOutcome_squeezed {a : Answer} (h : (s.evaluate line).result = .ok a) :
    s.SameOutcome line (squeezed line) := by
  obtain ⟨d, rfl, hn⟩ := exists_line_of_result_ok h
  obtain ⟨l, hl, ht⟩ := d.exists_layout
  have hwords : l.words.flatten.filter (· ≠ ' ') = l.words.flatten := by
    refine List.filter_eq_self.mpr fun c hc => ?_
    obtain ⟨w, hw, hcw⟩ := List.mem_flatten.mp hc
    exact decide_eq_true fun e => d.space_not_mem_words w (hl ▸ hw) (e ▸ hcw)
  have : squeezed (.ofList d.text) = .ofList l.squeezed.text := by
    rw [squeezed, String.toList_ofList, ← ht, l.filter_text, hwords, l.text_squeezed]
  rw [this]
  exact s.sameOutcome_of_layout hn (l.words_squeezed.trans hl)

/-- A line with a result has the same one without its spaces, and so have any two such
lines that are the same without them. Spaces more next to an operator, an equals sign
or a parenthesis make no difference either, unless they come first. -/
theorem evaluate_respaced (s : Session) {line : String} {a : Answer} (h : (s.evaluate line).result = .ok a) :
    s.SameOutcome line (squeezed line) ∧
    (∀ line' a', (s.evaluate line').result = .ok a' → squeezed line' = squeezed line → s.SameOutcome line line') ∧
    ∀ pre c post n, line.toList = pre ++ c :: post → c ∈ punctuation → ¬ SignsLiteral pre c post →
      (pre ≠ [] → s.SameOutcome line (.ofList (pre ++ (spaces n ++ c :: post)))) ∧
      s.SameOutcome line (.ofList (pre ++ c :: (spaces n ++ post))) := by
  refine ⟨sameOutcome_squeezed h, fun line' a' h' heq => ?_, fun pre c post n htext hc hsign => ?_⟩
  · have := (sameOutcome_squeezed h').symm
    rw [heq] at this
    exact (sameOutcome_squeezed h).trans this
  · obtain ⟨d, rfl, hn⟩ := exists_line_of_result_ok h
    obtain ⟨l, hl, ht⟩ := d.exists_layout
    rw [String.toList_ofList, ← ht] at htext
    obtain ⟨hbefore, l', hl', ht'⟩ := Layout.exists_inserted (hl ▸ d.separated_words) htext hc hsign n
    refine ⟨fun hpre => ?_, ht' ▸ s.sameOutcome_of_layout hn (hl'.trans hl)⟩
    obtain ⟨l₁, hl₁, ht₁⟩ := hbefore hpre
    exact ht₁ ▸ s.sameOutcome_of_layout hn (hl₁.trans hl)

/-- The first minus sign may get any room, the second one belongs to its number. -/
theorem evaluate_respaced_difference :
    SameOutcome {} "x = (1 - -2) * 3" "x=(1--2)*3" ∧
    SameOutcome {} "x = (1 - -2) * 3" "x =(1--2)*3" ∧
    SameOutcome {} "x = (1 - -2) * 3" "x = (1    - -2) * 3" ∧
    SameOutcome {} "x = (1 - -2) * 3" "x = (1 -    -2) * 3" := by
  have h : (({} : Session).evaluate "x = (1 - -2) * 3").result = .ok ⟨⟨"x", 9⟩, "x = 9"⟩ := by decide +kernel
  have h' : (({} : Session).evaluate "x =(1--2)*3").result = .ok ⟨⟨"x", 9⟩, "x = 9"⟩ := by decide +kernel
  obtain ⟨hsqueezed, hother, hroom⟩ := evaluate_respaced {} h
  obtain ⟨hbefore, hbehind⟩ := hroom "x = (1 ".toList '-' " -2) * 3".toList 3 (by decide) (by decide) (by decide)
  exact ⟨hsqueezed, hother _ _ h' (by decide), hbefore (by decide), hbehind⟩

end Session

end DeskCalc
