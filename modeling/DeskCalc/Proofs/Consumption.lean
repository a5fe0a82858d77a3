import DeskCalc.Proofs.Reading

/-!
# What readers consume

What a reader of expressions takes off a text are tokens, one right behind the other, and no
equals sign is among them. Each step over a token counts its bytes, so an operator and an
operand take two bytes at least. A chain of operands ends where no space is left, an operand
may end in front of one.

Results:
* `Consumed.offset_add_length`: what is consumed counts in the offset.
* `consumes_ofRank`: every production consumes tokens.
* `head_chain`: a chain leaves no space in front.
* `offset_turn`: each operator with its operand takes two bytes or more.
-/
namespace DeskCalc

/-- From one place to the other there are tokens, none of them an equals sign. -/
inductive Consumed : Cursor → Cursor → Prop where
  | done (c : Cursor) : Consumed c c
  | token {kind : TokenKind} {w : List Char} {c c₁ c' : Cursor} (hk : kind ≠ .assign)
      (h : c.eat kind = some (w, c₁)) (hr : Consumed c₁ c') : Consumed c c'

namespace Consumed

variable {kind : TokenKind} {w : List Char} {c c₁ c' : Cursor}

theorem eat (hk : kind ≠ .assign) (h : c.eat kind = some (w, c')) : Consumed c c' := .token hk h (.done c')

theorem trans (h : Consumed c c₁) (h' : Consumed c₁ c') : Consumed c c' := by
  induction h with
  | done => exact h'
  | token hk he _ ih => exact .token hk he (ih h')

theorem skipSpaces (c : Cursor) : Consumed c c.skipSpaces := by
  unfold Cursor.skipSpaces
  split
  · rename_i h
    exact eat (by decide) h
  · exact .done c

/-- What is no longer in the text is counted in the offset. -/
theorem offset_add_length (h : Consumed c c') : c'.offset + c'.rest.length = c.offset + c.rest.length := by
  induction h with
  | done => rfl
  | token _ he _ ih =>
    obtain ⟨-, hr, ho⟩ := Cursor.eat_eq he
    rw [ih, hr, ho, List.length_append]
    omega

end Consumed

theorem Level.token_ne_assign (level : Level) : level.token ≠ .assign := by cases level <;> decide

namespace Production

/-- What the reader takes off a text are tokens. -/
def Consumes (reader : Production) : Prop := ∀ c c' e, reader.run c = .ok (e, c') → Consumed c c'

variable {reader : Production} {level : Level} {c c₁ c₂ c' : Cursor} {w : List Char} {left right e : Expr}

theorem Consumes.more (hr : reader.Consumes) (h : reader.more level left c = .ok (e, c')) : Consumed c c' := by
  fun_induction reader.more level left c with
  | case1 => cases h; exact .done _
  | case2 => cases h
  | case3 left c w c₁ h₁ right c₂ h₂ ih =>
    have hop := Consumed.eat level.token_ne_assign h₁
    exact hop.trans ((Consumed.skipSpaces c₁).trans ((hr _ _ _ h₂).trans ((Consumed.skipSpaces c₂).trans (ih h))))

theorem Consumes.chain (hr : reader.Consumes) : (reader.chain level).Consumes := by
  intro c c' e h
  obtain ⟨left, c₁, h₁, h₂⟩ := exists_of_chain h
  exact (hr _ _ _ h₁).trans ((Consumed.skipSpaces c₁).trans (hr.more h₂))

theorem consumed_word (h : word c = .ok (e, c')) : Consumed c c' := by
  unfold word at h
  split at h
  · rename_i he
    cases h
    exact .eat (by decide) he
  · split at h
    · rename_i he
      cases h
      obtain ⟨⟨w, c₁⟩, h₁, h₂⟩ := Option.bind_eq_some_iff.mp he
      obtain ⟨_, -, h₃⟩ := Option.map_eq_some_iff.mp h₂
      cases h₃
      exact .eat (by decide) h₁
    · cases h

theorem Consumes.closed {start : Nat} (hr : reader.Consumes) (h : closed reader start c = .ok (e, c')) :
    Consumed c c' := by
  unfold Production.closed at h
  split at h
  · cases h
  · rename_i c₁ h₁
    split at h
    · rename_i h₂
      cases h
      exact (Consumed.skipSpaces c).trans ((hr _ _ _ h₁).trans ((Consumed.skipSpaces c₁).trans
        (.eat (by decide) h₂)))
    · cases h

theorem Consumes.sum (hr : reader.Consumes) : reader.sum.Consumes := hr.chain.chain.chain

theorem consumes_operandWithin (n : Nat) : (operandWithin n).Consumes := by
  induction n with
  | zero =>
    intro c c' e h
    simp only [operandWithin, operand] at h
    split at h
    · cases h
    · exact consumed_word h
  | succ n ih =>
    intro c c' e h
    simp only [operandWithin, operand] at h
    split at h
    · rename_i he
      exact (Consumed.eat (by decide) he).trans (ih.sum.closed h)
    · exact consumed_word h

theorem consumes_ofRank (n : Nat) (r : Rank) : (ofRank n r).Consumes := by
  have hn := consumes_operandWithin n
  match r with
  | .value => exact hn
  | .chain .exponential => exact hn.chain
  | .chain .multiplicative => exact hn.chain.chain
  | .chain .additive => exact hn.sum

/-! ## Chains -/

theorem head_more (hs : c.rest.head? ≠ some ' ') (h : reader.more level left c = .ok (e, c')) :
    c'.rest.head? ≠ some ' ' := by
  fun_induction reader.more level left c with
  | case1 => cases h; exact hs
  | case2 => cases h
  | case3 left c w c₁ h₁ right c₂ h₂ ih =>
    obtain ⟨-, -, -, hs₂⟩ := c₂.exists_spaces
    exact ih hs₂ h

/-- A chain leaves no space in front of what follows. -/
theorem head_chain (h : (reader.chain level).run c = .ok (e, c')) : c'.rest.head? ≠ some ' ' := by
  obtain ⟨left, c₁, -, h₂⟩ := exists_of_chain h
  obtain ⟨-, -, -, hs⟩ := c₁.exists_spaces
  exact head_more hs h₂

/-- An operator and the operand behind it take a byte each, or more. -/
theorem offset_turn (hr : reader.Consumes) (h₁ : c.eat level.token = some (w, c₁))
    (h₂ : reader.run c₁.skipSpaces = .ok (right, c₂)) : c.offset + 2 ≤ c₂.skipSpaces.offset := by
  have hop := (Consumed.eat level.token_ne_assign h₁).offset_add_length
  have hspaces := (Consumed.skipSpaces c₁).offset_add_length
  have hoperand := (hr _ _ _ h₂).offset_add_length
  have hbehind := (Consumed.skipSpaces c₂).offset_add_length
  have := Cursor.eat_shrinks h₁
  have := c₁.skipSpaces_le
  have := reader.shrinks h₂
  have := c₂.skipSpaces_le
  omega

end Production

end DeskCalc
