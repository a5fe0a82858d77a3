import DeskCalc.Proofs.Grammar

/-!
# Words in a text

Which word the scanner takes from the front of a text: the one that does not go
on into what stands behind it.

Results:
* `eat_identifier_iff`, `eat_number_iff`: a name or a literal is taken just where
  it stands and does not go on.
* `symbol_of_eat`, `eat_symbol`: the same for tokens of a single character.
* `rest_of_eat_only`, `eat_only`: and for kinds that have only one of these.
* `exists_spaces`, `skipSpaces_spaces`: a run of spaces is skipped whole.
-/
namespace DeskCalc

/-- A text in front of which a run of characters ends is where it ends. -/
theorem takeWhile_append_of_stop {p : Char → Bool} {w r : List Char} (hw : ∀ c ∈ w, p c)
    (hr : ∀ c ∈ r.head?, p c = false) :
    (w ++ r).takeWhile p = w ∧ (w ++ r).dropWhile p = r := by
  have h : r.takeWhile p = [] ∧ r.dropWhile p = r := by
    cases r with
    | nil => exact ⟨rfl, rfl⟩
    | cons c r => simp [hr c rfl]
  rw [List.takeWhile_append_of_pos hw, List.dropWhile_append_of_pos hw, h.1, h.2, List.append_nil]
  exact ⟨rfl, rfl⟩

theorem mem_takeWhile {p : Char → Bool} {cs : List Char} : ∀ c ∈ cs.takeWhile p, p c :=
  List.all_eq_true.mp List.all_takeWhile

theorem head_dropWhile {p : Char → Bool} {cs : List Char} : ∀ c ∈ (cs.dropWhile p).head?, p c = false := by
  intro c hc
  have := List.head?_dropWhile_not p cs
  rw [hc] at this
  exact this

/-! ## Characters of words -/

theorem isAlpha_of_isDigit {c : Char} (h : c.isDigit) : c.isAlpha = false := by
  simp only [Char.isDigit, Bool.and_eq_true, decide_eq_true_eq] at h
  simp only [Char.isAlpha, Char.isUpper, Char.isLower, Bool.or_eq_false_iff, Bool.and_eq_false_iff,
    decide_eq_false_iff_not]
  simp only [ge_iff_le, UInt32.le_iff_toNat_le] at h ⊢
  have : '9'.val.toNat = 57 := rfl
  have : 'A'.val.toNat = 65 := rfl
  have : 'a'.val.toNat = 97 := rfl
  omega

theorem IsIdentifier.head {x : List Char} (h : IsIdentifier x) : ∃ c w, x = c :: w ∧ c.isAlpha := by
  cases x with
  | nil => exact h.elim
  | cons c x => exact ⟨c, x, rfl, h.1⟩

theorem isNameChar_of_isDigit {c : Char} (h : c.isDigit) : TokenKind.isNameChar c := by
  simp [TokenKind.isNameChar, Char.isAlphanum, h]

theorem IsIdentifier.isNameChar {w : List Char} (h : IsIdentifier w) : ∀ c ∈ w, TokenKind.isNameChar c := by
  cases w with
  | nil => exact h.elim
  | cons c w =>
    intro x hx
    rcases List.mem_cons.mp hx with rfl | hx
    · simp [TokenKind.isNameChar, Char.isAlphanum, h.1]
    · exact h.2 x hx

/-- The characters of a literal besides digits. -/
theorem Literal.WellFormed.mem_chars {l : Literal} (h : l.WellFormed) {c : Char} (hc : c ∈ l.chars) :
    c = '+' ∨ c = '-' ∨ c = '.' ∨ c.isDigit := by
  simp only [Literal.chars, List.mem_append] at hc
  rcases hc with (hc | hc) | hc
  · obtain ⟨s, -, rfl⟩ : ∃ s, l.sign = some s ∧ s.char = c := by simpa using hc
    cases s <;> decide
  · exact .inr (.inr (.inr (h.whole_digit c hc)))
  · split at hc
    · cases hc
    · rcases List.mem_cons.mp hc with rfl | hc
      · exact .inr (.inr (.inl rfl))
      · exact .inr (.inr (.inr (h.fraction_digit c hc)))

/-! ## Ends of words -/

/-- A name does not go on into the text. -/
def NameEnds (cs : List Char) : Prop := ∀ c ∈ cs.head?, TokenKind.isNameChar c = false

/-- The literal does not go on into the text. -/
def Literal.Ends (l : Literal) (cs : List Char) : Prop :=
  (∀ c ∈ cs.head?, c.isDigit = false) ∧ (l.fraction = [] → ∀ c r, cs = '.' :: c :: r → c.isDigit = false)

/-- No word at all goes on into the text. -/
def Delimited (cs : List Char) : Prop :=
  ∀ c ∈ cs.head?, TokenKind.isNameChar c = false ∧ c ≠ '.'

namespace Delimited

variable {cs : List Char}

theorem nameEnds (h : Delimited cs) : NameEnds cs := fun c hc => (h c hc).1

theorem literalEnds (h : Delimited cs) (l : Literal) : l.Ends cs := by
  constructor
  · intro c hc
    have := (h c hc).1
    simp only [TokenKind.isNameChar, Char.isAlphanum, Bool.or_eq_false_iff] at this
    exact this.1.2
  · intro _ c r e
    subst e
    exact absurd rfl (h '.' rfl).2

theorem nil : Delimited [] := fun _ h => by cases h

theorem cons {c : Char} (h : TokenKind.isNameChar c = false ∧ c ≠ '.') : Delimited (c :: cs) := by
  intro x hx
  cases hx
  exact h

/-- Spaces delimit, and so does what delimits behind them. -/
theorem spaces (h : Delimited cs) (n : Nat) : Delimited (spaces n ++ cs) := by
  cases n with
  | zero => exact h
  | succ n =>
    intro c hc
    cases hc
    decide

end Delimited

/-! ## Literals -/

namespace Literal

variable {l : Literal} {cs r : List Char}

theorem splitSign_sign (s : Option Sign) (h : ∀ c ∈ cs.head?, c.isDigit) :
    splitSign ((s.map Sign.char).toList ++ cs) = (s, cs) := by
  cases s with
  | some s => cases s <;> rfl
  | none =>
    -- digits do not look like a sign
    show splitSign cs = (none, cs)
    unfold splitSign
    split
    · exact absurd (h '+' rfl) (by decide)
    · exact absurd (h '-' rfl) (by decide)
    · rfl

theorem splitFraction_fraction (hf : ∀ c ∈ l.fraction, c.isDigit) (hr : l.Ends r) :
    splitFraction ((if l.fraction = [] then [] else '.' :: l.fraction) ++ r) = (l.fraction, r) := by
  by_cases he : l.fraction = []
  · simp only [he, if_true, List.nil_append]
    unfold splitFraction
    split
    · rename_i ds
      have hd : ds.takeWhile Char.isDigit = [] := by
        cases ds with
        | nil => rfl
        | cons d ds => simp [hr.2 he d ds rfl]
      simp [hd]
    · rfl
  · obtain ⟨h₁, h₂⟩ := takeWhile_append_of_stop hf hr.1
    simp [splitFraction, he, h₁, h₂]

theorem split_chars (hl : l.WellFormed) (hr : l.Ends r) : split (l.chars ++ r) = some (l, r) := by
  have hhead (cs : List Char) : ∀ c ∈ (l.whole ++ cs).head?, c.isDigit := by
    obtain ⟨d, w, hw⟩ := List.exists_cons_of_ne_nil hl.whole_ne
    simpa [hw] using hl.whole_digit d (by simp [hw])
  have hs := splitSign_sign l.sign (hhead ((if l.fraction = [] then [] else '.' :: l.fraction) ++ r))
  have hstop : ∀ c ∈ ((if l.fraction = [] then [] else '.' :: l.fraction) ++ r).head?, c.isDigit = false := by
    by_cases he : l.fraction = []
    · simpa [he] using hr.1
    · simp only [he, if_false, List.cons_append, List.head?_cons, Option.mem_some_iff]
      intro c hc
      subst hc
      decide
  obtain ⟨h₁, h₂⟩ := takeWhile_append_of_stop hl.whole_digit hstop
  have hf := splitFraction_fraction hl.fraction_digit hr
  simp only [split, chars, List.append_assoc, hs, h₁, h₂, hf]
  split
  · rename_i e; exact absurd e hl.whole_ne
  · rfl

theorem splitFraction_ends (cs : List Char) (h : ∀ c ∈ cs.head?, c.isDigit = false) (s : Option Sign)
    (w : List Char) : (⟨s, w, (splitFraction cs).1⟩ : Literal).Ends (splitFraction cs).2 := by
  unfold splitFraction
  split
  · rename_i ds
    split
    · rename_i hd
      refine ⟨h, fun _ c r e => ?_⟩
      cases e
      by_cases hc : c.isDigit
      · simp [hc] at hd
      · simpa using hc
    · rename_i hd
      exact ⟨head_dropWhile, fun e => absurd e hd⟩
  · rename_i hne
    exact ⟨h, fun _ c r e => absurd e (hne _)⟩

theorem wellFormed_of_split (h : split cs = some (l, r)) : l.WellFormed ∧ l.Ends r := by
  unfold split at h
  simp only at h
  split at h
  · cases h
  · rename_i hne
    cases h
    refine ⟨⟨hne, mem_takeWhile, ?_⟩, splitFraction_ends _ head_dropWhile _ _⟩
    unfold splitFraction
    split
    · split
      · simp
      · exact mem_takeWhile
    · simp

theorem split_iff : split cs = some (l, r) ↔ l.WellFormed ∧ cs = l.chars ++ r ∧ l.Ends r := by
  constructor
  · intro h
    obtain ⟨h₁, h₂⟩ := wellFormed_of_split h
    exact ⟨h₁, (split_eq h).symm, h₂⟩
  · intro h
    obtain ⟨h₁, rfl, h₂⟩ := h
    exact split_chars h₁ h₂

theorem ofChars?_chars (hl : l.WellFormed) : ofChars? l.chars = some l := by
  have := split_chars hl (r := []) ⟨by simp, by simp⟩
  rw [List.append_nil] at this
  simp [ofChars?, this]

/-- The first character of a literal is a sign or a digit. -/
theorem head_chars (hl : l.WellFormed) :
    ∃ c w, l.chars = c :: w ∧ (c = '+' ∨ c = '-' ∨ c.isDigit) := by
  obtain ⟨s, w, f⟩ := l
  obtain ⟨d, w, rfl⟩ := List.exists_cons_of_ne_nil hl.whole_ne
  cases s with
  | none => exact ⟨d, _, rfl, .inr (.inr (hl.whole_digit d (by simp)))⟩
  | some s =>
    cases s with
    | plus => exact ⟨'+', _, rfl, .inl rfl⟩
    | minus => exact ⟨'-', _, rfl, .inr (.inl rfl)⟩

end Literal

/-! ## Single characters -/

/-- The kinds whose tokens are single characters. -/
def TokenKind.Single (kind : TokenKind) : Prop := kind ≠ .identifier ∧ kind ≠ .number ∧ kind ≠ .space

instance (kind : TokenKind) : Decidable kind.Single :=
  inferInstanceAs (Decidable (kind ≠ .identifier ∧ kind ≠ .number ∧ kind ≠ .space))

theorem Level.single_token (level : Level) : level.token.Single := by
  cases level <;> decide

theorem TokenKind.Single.lexeme_eq {kind : TokenKind} (h : kind.Single) (cs : List Char) :
    kind.lexeme cs = (cs.take 1).filter kind.isSymbol := by
  obtain ⟨h₁, h₂, h₃⟩ := h
  cases kind <;> first | rfl | contradiction

/-- The kind has one token, and that is one character. -/
def TokenKind.Only (kind : TokenKind) (y : Char) : Prop :=
  kind.Single ∧ ∀ x, kind.isSymbol x = decide (x = y)

namespace TokenKind

theorem only_assign : Only .assign '=' := ⟨by decide, fun _ => rfl⟩

theorem only_leftParen : Only .leftParen '(' := ⟨by decide, fun _ => rfl⟩

theorem only_rightParen : Only .rightParen ')' := ⟨by decide, fun _ => rfl⟩

end TokenKind

/-! ## Moving the cursor -/

namespace Cursor

variable {c c' : Cursor} {o n : Nat} {w r : List Char} {kind : TokenKind}

theorem lexeme_of_eat (h : c.eat kind = some (w, c')) : kind.lexeme c.rest = w := by
  unfold eat at h
  split at h
  · cases h
  · cases h; rfl

theorem eat_eq_none_iff : c.eat kind = none ↔ kind.lexeme c.rest = [] := by
  unfold eat
  split <;> simp_all

theorem eat_of_lexeme (h : kind.lexeme (w ++ r) = w) (hw : w ≠ []) :
    eat kind ⟨o, w ++ r⟩ = some (w, ⟨o + w.length, r⟩) := by
  cases he : eat kind ⟨o, w ++ r⟩ with
  | none => exact absurd (h.symm.trans (eat_eq_none_iff.mp he)) hw
  | some p =>
    obtain ⟨w', o', r'⟩ := p
    obtain rfl : w = w' := h.symm.trans (lexeme_of_eat he)
    obtain ⟨-, h₁, rfl⟩ := eat_eq he
    obtain rfl : r = r' := List.append_cancel_left h₁
    rfl

/-! ### Single characters -/

theorem eat_symbol {x : Char} (hk : kind.Single) (h : kind.isSymbol x) :
    eat kind ⟨o, x :: r⟩ = some ([x], ⟨o + 1, r⟩) :=
  eat_of_lexeme (w := [x]) (by simp [hk.lexeme_eq, h]) (by simp)

theorem eat_symbol_none_iff (hk : kind.Single) :
    c.eat kind = none ↔ ∀ x ∈ c.rest.head?, kind.isSymbol x = false := by
  rw [eat_eq_none_iff, hk.lexeme_eq]
  cases c.rest with
  | nil => simp
  | cons x r => simp

/-- What is eaten as a single character. -/
theorem symbol_of_eat (hk : kind.Single) (h : c.eat kind = some (w, c')) :
    ∃ x, w = [x] ∧ kind.isSymbol x ∧ c = ⟨c.offset, x :: c'.rest⟩ ∧ c' = ⟨c.offset + 1, c'.rest⟩ := by
  obtain ⟨o, r⟩ := c
  obtain ⟨hne, hr, ho⟩ := eat_eq h
  have hl := lexeme_of_eat h
  rw [hk.lexeme_eq] at hl
  cases r with
  | nil => simp [hl.symm] at hne
  | cons x r =>
    by_cases hx : kind.isSymbol x
    · obtain rfl : [x] = w := by simpa [hx] using hl
      obtain rfl : r = c'.rest := by simpa using hr
      exact ⟨x, rfl, hx, rfl, congrArg (Cursor.mk · c'.rest) ho⟩
    · exact absurd (by simpa [hx] using hl.symm) hne

/-! ### The one character of a kind -/

section

variable {y : Char}

theorem eat_only (h : kind.Only y) : eat kind ⟨o, y :: r⟩ = some ([y], ⟨o + 1, r⟩) :=
  eat_symbol h.1 (by simp [h.2])

theorem eat_only_none_iff (h : kind.Only y) : c.eat kind = none ↔ c.rest.head? ≠ some y := by
  rw [eat_symbol_none_iff h.1]
  cases c.rest <;> simp [h.2]

theorem rest_of_eat_only (h : kind.Only y) (he : c.eat kind = some (w, c')) :
    c.rest = y :: c'.rest ∧ c'.offset = c.offset + 1 := by
  obtain ⟨x, -, hx, hc, hc'⟩ := symbol_of_eat h.1 he
  obtain rfl : x = y := by simpa [h.2] using hx
  exact ⟨congrArg rest hc, congrArg offset hc'⟩

end

/-! ### Names and literals -/

theorem lexeme_identifier (hw : IsIdentifier w) (hr : NameEnds r) :
    TokenKind.lexeme .identifier (w ++ r) = w := by
  cases w with
  | nil => exact hw.elim
  | cons x w =>
    have := (takeWhile_append_of_stop hw.2 hr).1
    simp [TokenKind.lexeme, hw.1, this]

theorem eat_identifier_iff : c.eat .identifier = some (w, c') ↔
    IsIdentifier w ∧ NameEnds c'.rest ∧ c.rest = w ++ c'.rest ∧ c'.offset = c.offset + w.length := by
  obtain ⟨o, r⟩ := c
  constructor
  · intro h
    obtain ⟨hne, hr, ho⟩ := eat_eq h
    have hl := lexeme_of_eat h
    cases r with
    | nil => exact absurd hl.symm hne
    | cons x r =>
      by_cases hx : x.isAlpha
      · obtain rfl : x :: r.takeWhile TokenKind.isNameChar = w := by simpa [TokenKind.lexeme, hx] using hl
        have hd : r.dropWhile TokenKind.isNameChar = c'.rest := by
          have : r = r.takeWhile TokenKind.isNameChar ++ c'.rest := by simpa using hr
          exact List.append_cancel_left (List.takeWhile_append_dropWhile.trans this)
        exact ⟨⟨hx, mem_takeWhile⟩, hd ▸ head_dropWhile, hr, ho⟩
      · exact absurd (by simpa [TokenKind.lexeme, hx] using hl.symm) hne
  · intro h
    obtain ⟨hw, hc, hr, ho⟩ := h
    obtain ⟨o', r'⟩ := c'
    simp only at hc hr ho
    subst hr ho
    exact eat_of_lexeme (lexeme_identifier hw hc) (fun e => by rw [e] at hw; exact hw)

theorem eat_number_iff : c.eat .number = some (w, c') ↔ ∃ l : Literal, l.WellFormed ∧ w = l.chars ∧
    l.Ends c'.rest ∧ c.rest = w ++ c'.rest ∧ c'.offset = c.offset + w.length := by
  obtain ⟨o, r⟩ := c
  constructor
  · intro h
    obtain ⟨hne, hr, ho⟩ := eat_eq h
    have hl := lexeme_of_eat h
    simp only [TokenKind.lexeme] at hl
    split at hl
    · rename_i l r' hs
      obtain ⟨h₁, h₂, h₃⟩ := Literal.split_iff.mp hs
      simp only at h₂ hr
      rw [h₂, ← hl] at hr
      exact ⟨l, h₁, hl.symm, List.append_cancel_left hr ▸ h₃, by rw [h₂, hr, hl], ho⟩
    · exact absurd hl.symm hne
  · intro h
    obtain ⟨l, h₁, e, h₂, hr, ho⟩ := h
    obtain ⟨o', r'⟩ := c'
    simp only at h₂ hr ho
    subst e hr ho
    obtain ⟨x, w, e, -⟩ := Literal.head_chars h₁
    exact eat_of_lexeme (by simp [TokenKind.lexeme, Literal.split_chars h₁ h₂]) (by simp [e])

/-! ### Spaces -/

theorem skipSpaces_of_head (h : r.head? ≠ some ' ') : skipSpaces ⟨o, r⟩ = ⟨o, r⟩ := by
  have : eat .space ⟨o, r⟩ = none := by
    rw [eat_eq_none_iff]
    cases r with
    | nil => rfl
    | cons x r =>
      have hx : x ≠ ' ' := by simpa using h
      simp [TokenKind.lexeme, hx]
  simp [skipSpaces, this]

/-- A run of spaces is skipped whole. -/
theorem skipSpaces_spaces (h : r.head? ≠ some ' ') : skipSpaces ⟨o, spaces n ++ r⟩ = ⟨o + n, r⟩ := by
  cases n with
  | zero => exact skipSpaces_of_head h
  | succ n =>
    have hl : TokenKind.lexeme .space (spaces (n + 1) ++ r) = spaces (n + 1) := by
      refine (takeWhile_append_of_stop ?_ ?_).1
      · simp [spaces]
      · intro x hx
        have : x ≠ ' ' := fun e => h (e ▸ hx)
        simpa using this
    rw [skipSpaces, eat_of_lexeme hl (by simp [spaces])]
    simp [spaces]

/-- What is skipped is spaces, and no space is left. -/
theorem exists_spaces (c : Cursor) :
    ∃ n, c = ⟨c.offset, spaces n ++ c.skipSpaces.rest⟩ ∧ c.skipSpaces.offset = c.offset + n ∧
      c.skipSpaces.rest.head? ≠ some ' ' := by
  obtain ⟨o, r⟩ := c
  have hs : r = spaces (r.takeWhile (· = ' ')).length ++ r.dropWhile (· = ' ') := by
    conv => lhs; rw [← List.takeWhile_append_dropWhile (p := (· = ' ')) (l := r)]
    congr 1
    exact List.eq_replicate_of_mem fun x hx => by simpa using mem_takeWhile x hx
  have hd : (r.dropWhile (· = ' ')).head? ≠ some ' ' := fun e => by
    simpa using head_dropWhile ' ' e
  have := skipSpaces_spaces (o := o) (n := (r.takeWhile (· = ' ')).length) hd
  rw [← hs] at this
  rw [this]
  exact ⟨_, congrArg (Cursor.mk o) hs, rfl, hd⟩

end Cursor
end DeskCalc
