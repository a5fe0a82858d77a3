import DeskCalc.Proofs.Alphabet

/-!
# Lexemes

The tokens of a kind are the words of a small language. The lexeme in front of a text is
one of them, and no longer one stands there. For literals this needs a look at the point,
which belongs to the longest one only with a digit behind it.

Results:
* `word_lexeme`: a lexeme is a word of its kind.
* `Word.length_le_lexeme`: no word in front of the text is longer.
* `Word.utf8Size`: the characters of words are single bytes.
-/
namespace DeskCalc

/-- The language of a kind. Identifiers are `[A-Za-z][A-Za-z0-9_]*`, and numbers are
`[+-]?[0-9]+(\.[0-9]+)?`. -/
def TokenKind.Word : TokenKind → List Char → Prop
  | .identifier, w => IsIdentifier w
  | .number, w => ∃ l : Literal, l.WellFormed ∧ w = l.chars
  | .space, w => w ≠ [] ∧ ∀ c ∈ w, c = ' '
  | .assign, w => w = ['=']
  | .addSub, w => w = ['+'] ∨ w = ['-']
  | .mulDiv, w => w = ['*'] ∨ w = ['/']
  | .exponent, w => w = ['^']
  | .leftParen, w => w = ['(']
  | .rightParen, w => w = [')']

variable {kind : TokenKind} {w cs : List Char}

namespace TokenKind

theorem Single.word_iff (h : kind.Single) : kind.Word w ↔ ∃ c, w = [c] ∧ kind.isSymbol c := by
  obtain ⟨h₁, h₂, h₃⟩ := h
  cases kind with
  | identifier | number | space => contradiction
  | assign | addSub | mulDiv | exponent | leftParen | rightParen =>
    simp only [Word, isSymbol, Bool.or_eq_true, decide_eq_true_eq]
    grind

/-- The characters of words are single bytes. -/
theorem Word.utf8Size (h : kind.Word w) : ∀ c ∈ w, c.utf8Size = 1 := by
  intro c hc
  cases kind with
  | identifier => exact utf8Size_of_isNameChar (h.isNameChar c hc)
  | number =>
    obtain ⟨l, hl, rfl⟩ := h
    exact utf8Size_of_isPhraseChar ((Phrase.literal l hl).isPhraseChar c hc)
  | space => rw [h.2 c hc]; decide
  | assign | exponent | leftParen | rightParen =>
    cases h
    rw [List.mem_singleton.mp hc]
    decide
  | addSub | mulDiv =>
    rcases h with rfl | rfl <;>
    · rw [List.mem_singleton.mp hc]
      decide

/-! ## Lexemes are words -/

theorem word_lexeme (h : kind.lexeme cs ≠ []) : kind.Word (kind.lexeme cs) := by
  obtain ⟨c, he⟩ : ∃ c, Cursor.eat kind ⟨0, cs⟩ = some (kind.lexeme cs, c) := by
    unfold Cursor.eat
    split
    · contradiction
    · exact ⟨_, rfl⟩
  cases kind with
  | identifier => exact (Cursor.eat_identifier_iff.mp he).1
  | number =>
    obtain ⟨l, hl, hw, -⟩ := Cursor.eat_number_iff.mp he
    exact ⟨l, hl, hw⟩
  | space => exact ⟨h, fun c hc => by simpa using mem_takeWhile c hc⟩
  | assign | addSub | mulDiv | exponent | leftParen | rightParen =>
    obtain ⟨x, hx, hs, -⟩ := Cursor.symbol_of_eat (by decide) he
    exact (Single.word_iff (by decide)).mpr ⟨x, hx, hs⟩

/-! ## No longer words -/

theorem length_le_takeWhile {p : Char → Bool} (hw : ∀ c ∈ w, p c) (r : List Char) :
    w.length ≤ ((w ++ r).takeWhile p).length := by
  rw [List.takeWhile_append_of_pos hw, List.length_append]
  exact Nat.le_add_right _ _

/-- A literal is as long as its parts, and its point counts with the fraction. -/
theorem length_lexeme_number {sign : Option Sign} {ds : List Char} (hs : Literal.splitSign cs = (sign, ds)) :
    (lexeme .number cs).length =
      if ds.takeWhile Char.isDigit = [] then 0
      else (sign.map Sign.char).toList.length + (ds.takeWhile Char.isDigit).length +
        if (Literal.splitFraction (ds.dropWhile Char.isDigit)).1 = [] then 0
        else 1 + (Literal.splitFraction (ds.dropWhile Char.isDigit)).1.length := by
  simp only [lexeme, Literal.split, hs]
  split
  · rename_i l r h
    split at h
    · cases h
    · rename_i hw
      cases h
      rw [if_neg hw]
      simp only [Literal.chars, List.length_append]
      split
      · rfl
      · rw [List.length_cons, Nat.add_comm 1]
  · rename_i h
    split at h
    · rename_i hw
      rw [if_pos hw]
      rfl
    · cases h

/-- Digits behind a literal only make it longer. -/
theorem length_chars_le_lexeme {l : Literal} (hl : l.WellFormed) (r : List Char) :
    l.chars.length ≤ (lexeme .number (l.chars ++ r)).length := by
  have hhead (cs : List Char) : ∀ c ∈ (l.whole ++ cs).head?, c.isDigit := by
    obtain ⟨d, w, hw⟩ := List.exists_cons_of_ne_nil hl.whole_ne
    simpa [hw] using hl.whole_digit d (by simp [hw])
  by_cases hf : l.fraction = []
  · have hchars : l.chars ++ r = (l.sign.map Sign.char).toList ++ (l.whole ++ r) := by simp [Literal.chars, hf]
    have hle := length_le_takeWhile hl.whole_digit r
    have hne : (l.whole ++ r).takeWhile Char.isDigit ≠ [] := fun e => hl.whole_ne (by simpa [e] using hle)
    rw [hchars, length_lexeme_number (Literal.splitSign_sign l.sign (hhead r)), if_neg hne]
    simp only [Literal.chars, hf, if_true, List.append_nil, List.length_append]
    omega
  · have hchars : l.chars ++ r = (l.sign.map Sign.char).toList ++ (l.whole ++ '.' :: (l.fraction ++ r)) := by
      simp [Literal.chars, hf]
    obtain ⟨hwhole, hrest⟩ := takeWhile_append_of_stop (r := '.' :: (l.fraction ++ r)) hl.whole_digit
      fun c hc => by cases hc; decide
    have hle := length_le_takeWhile hl.fraction_digit r
    have hne : (l.fraction ++ r).takeWhile Char.isDigit ≠ [] := fun e => hf (by simpa [e] using hle)
    have hfraction : (Literal.splitFraction ('.' :: (l.fraction ++ r))).1 =
        (l.fraction ++ r).takeWhile Char.isDigit := by
      simp only [Literal.splitFraction, hne, if_false]
    rw [hchars, length_lexeme_number (Literal.splitSign_sign l.sign (hhead _)), hwhole, hrest, hfraction,
      if_neg hl.whole_ne, if_neg hne]
    simp only [Literal.chars, hf, if_false, List.length_append, List.length_cons]
    omega

/-- No word of the kind in front of a text is longer than the lexeme. -/
theorem Word.length_le_lexeme (hw : kind.Word w) (h : w <+: cs) : w.length ≤ (kind.lexeme cs).length := by
  obtain ⟨r, rfl⟩ := h
  cases kind with
  | identifier =>
    obtain ⟨c, w, rfl, hc⟩ := hw.head
    have hle := length_le_takeWhile hw.2 r
    simpa [lexeme, hc] using hle
  | number =>
    obtain ⟨l, hl, rfl⟩ := hw
    exact length_chars_le_lexeme hl r
  | space => exact length_le_takeWhile (fun c hc => by simpa using hw.2 c hc) r
  | assign | addSub | mulDiv | exponent | leftParen | rightParen =>
    obtain ⟨c, rfl, hc⟩ := (Single.word_iff (by decide)).mp hw
    simp [lexeme, hc]

end TokenKind

end DeskCalc
