import DeskCalc.Proofs.Words
import DeskCalc.Session

/-!
# What the reader reads
-/
namespace DeskCalc

/-! ## Where phrases end -/

namespace Level

variable {level : Level} {c : Char}

theorem isSymbol_symbol (op : Op) : op.level.token.isSymbol op.symbol := by cases op <;> rfl

theorem op_symbol (op : Op) : op.level.op [op.symbol] = op := by cases op <;> rfl

theorem exists_op (h : level.token.isSymbol c) : ∃ op : Op, op.level = level ∧ op.symbol = c := by
  cases level
  · rcases (show c = '+' ∨ c = '-' by simpa [token, TokenKind.isSymbol] using h) with rfl | rfl
    · exact ⟨.add, rfl, rfl⟩
    · exact ⟨.sub, rfl, rfl⟩
  · rcases (show c = '*' ∨ c = '/' by simpa [token, TokenKind.isSymbol] using h) with rfl | rfl
    · exact ⟨.mul, rfl, rfl⟩
    · exact ⟨.div, rfl, rfl⟩
  · obtain rfl : c = '^' := by simpa [token, TokenKind.isSymbol] using h
    exact ⟨.pow, rfl, rfl⟩

end Level

namespace Rank

/-- Operators from this strength on belong to a phrase of the rank. -/
def strength : Rank → Nat
  | .value => 3
  | .chain level => level.strength

/-- The text starts with no space and with no operator of a phrase of the rank. -/
def Stops (r : Rank) (cs : List Char) : Prop :=
  ∀ c ∈ cs.head?, c ≠ ' ' ∧ ∀ op : Op, r.strength ≤ op.level.strength → c ≠ op.symbol

theorem strength_operand (level : Level) : level.operand.strength = level.strength + 1 := by
  cases level <;> rfl

theorem Stops.operand {level : Level} {cs : List Char} (h : (chain level).Stops cs) :
    level.operand.Stops cs := fun c hc =>
  ⟨(h c hc).1, fun op ho => (h c hc).2 op (by rw [strength_operand] at ho; exact Nat.le_of_succ_le ho)⟩

theorem strength_le (r : Rank) : r.strength ≤ 3 := by
  cases r with
  | value => exact Nat.le_refl 3
  | chain level => cases level <;> decide

theorem eq_of_strength {r r' : Rank} (h : r.strength = r'.strength) : r = r' := by
  rcases r with _ | (_ | _ | _) <;> rcases r' with _ | (_ | _ | _) <;> first | rfl | cases h

theorem stops_nil (r : Rank) : r.Stops [] := fun _ h => by cases h

theorem stops_parenthesis (r : Rank) (cs : List Char) : r.Stops (')' :: cs) := by
  intro c hc
  cases hc
  exact ⟨by decide, fun op _ => by cases op <;> decide⟩

theorem stops_equals (r : Rank) (cs : List Char) : r.Stops ('=' :: cs) := by
  intro c hc
  cases hc
  exact ⟨by decide, fun op _ => by cases op <;> decide⟩

theorem stops_symbol (op : Op) (cs : List Char) : op.level.operand.Stops (op.symbol :: cs) := by
  intro c hc
  cases hc
  refine ⟨by cases op <;> decide, fun op' h e => ?_⟩
  rw [strength_operand] at h
  revert h e
  cases op <;> cases op' <;> decide

/-- What may go on with stronger operators only does not go on with those of the
level if none is there. -/
theorem Stops.chain {level : Level} {cs : List Char} (h : level.operand.Stops cs)
    (hs : ∀ c ∈ cs.head?, level.token.isSymbol c = false) : (chain level).Stops cs := by
  intro c hc
  refine ⟨(h c hc).1, fun op hop e => ?_⟩
  by_cases hl : op.level = level
  · subst hl
    simpa [e, Level.isSymbol_symbol] using hs c hc
  · refine (h c hc).2 op ?_ e
    revert hop hl
    cases level <;> cases op <;> decide

theorem Stops.head_ne {r : Rank} {cs : List Char} (h : r.Stops cs) : cs.head? ≠ some ' ' :=
  fun e => (h ' ' e).1 rfl

end Rank

namespace Phrase

/-- The last word of the phrase does not go on into the text. -/
def Ends : {r : Rank} → Phrase r → List Char → Prop
  | _, .group .., _ => True
  | _, .name .., cs => NameEnds cs
  | _, .literal l _, cs => l.Ends cs
  | _, .single p, cs => p.Ends cs
  | _, .more _ _ _ _ _ q, cs => q.Ends cs

theorem ends_of_delimited {r : Rank} (p : Phrase r) {cs : List Char} (h : Delimited cs) : p.Ends cs := by
  induction p with
  | group => trivial
  | name => exact h.nameEnds
  | literal l => exact h.literalEnds l
  | single _ ih => exact ih
  | more _ _ _ _ _ _ _ ih => exact ih

theorem ends_spaces {r : Rank} (p : Phrase r) (k : Nat) : p.Ends (spaces k) := by
  simpa using p.ends_of_delimited (Delimited.nil.spaces k)

theorem ends_parenthesis {r : Rank} (p : Phrase r) (k : Nat) (cs : List Char) : p.Ends (spaces k ++ ')' :: cs) :=
  p.ends_of_delimited (.spaces (.cons (by decide)) k)

theorem ends_equals {r : Rank} (p : Phrase r) (k : Nat) (cs : List Char) : p.Ends (spaces k ++ '=' :: cs) :=
  p.ends_of_delimited (.spaces (.cons (by decide)) k)

theorem ends_symbol {r : Rank} (p : Phrase r) (k : Nat) (op : Op) (cs : List Char) :
    p.Ends (spaces k ++ op.symbol :: cs) :=
  p.ends_of_delimited (.spaces (.cons (by cases op <;> decide)) k)

/-- What a phrase starts with. -/
theorem head_text {r : Rank} (p : Phrase r) :
    ∃ c w, p.text = c :: w ∧ (c = '(' ∨ c.isAlpha ∨ c = '+' ∨ c = '-' ∨ c.isDigit) := by
  induction p with
  | group => exact ⟨'(', _, rfl, .inl rfl⟩
  | name x h =>
    obtain ⟨c, w, e, hc⟩ := h.head
    exact ⟨c, w, e, .inr (.inl hc)⟩
  | literal l h =>
    obtain ⟨c, w, e, hc⟩ := Literal.head_chars h
    exact ⟨c, w, e, .inr (.inr hc)⟩
  | single _ ih => exact ih
  | more p _ _ _ _ _ ih =>
    obtain ⟨c, w, e, hc⟩ := ih
    exact ⟨c, _, by simp [text, e]; rfl, hc⟩

theorem head_ne_space {r : Rank} (p : Phrase r) (cs : List Char) : (p.text ++ cs).head? ≠ some ' ' := by
  obtain ⟨c, w, e, hc⟩ := p.head_text
  rw [e]
  intro h
  cases h
  exact absurd hc (by decide)

end Phrase

/-! ## Completeness -/

namespace Production

/-- The reader of a production. -/
def ofRank (n : Nat) : Rank → Production
  | .value => operandWithin n
  | .chain .exponential => (operandWithin n).factor
  | .chain .multiplicative => (operandWithin n).term
  | .chain .additive => (operandWithin n).sum

theorem ofRank_chain (n : Nat) (level : Level) :
    ofRank n (.chain level) = (ofRank n level.operand).chain level := by
  cases level <;> rfl

/-! What becomes of a chain: it ends, an operand is missing, or it goes on. -/

section

variable {p : Production} {level : Level} {left right : Expr} {c c₁ c₂ : Cursor} {w : List Char}

theorem more_none (h : c.eat level.token = none) : p.more level left c = .ok (left, c) := by
  rw [more]
  split
  · rfl
  · rename_i h'; rw [h] at h'; cases h'

theorem more_error {e : SyntaxError} (h₁ : c.eat level.token = some (w, c₁))
    (h₂ : p.run c₁.skipSpaces = .error e) : p.more level left c = .error e := by
  rw [more]
  split
  · rename_i h'; rw [h₁] at h'; cases h'
  · rename_i h'
    rw [h₁] at h'
    cases h'
    split
    · rename_i h'; rw [h₂] at h'; cases h'; rfl
    · rename_i h'; rw [h₂] at h'; cases h'

theorem more_ok (h₁ : c.eat level.token = some (w, c₁)) (h₂ : p.run c₁.skipSpaces = .ok (right, c₂)) :
    p.more level left c = p.more level (.binary (level.op w) left right) c₂.skipSpaces := by
  rw [more]
  split
  · rename_i h'; rw [h₁] at h'; cases h'
  · rename_i h'
    rw [h₁] at h'
    cases h'
    split
    · rename_i h'; rw [h₂] at h'; cases h'
    · rename_i h'; rw [h₂] at h'; cases h'; rfl

end

theorem more_of_stops {p : Production} {level : Level} {e : Expr} {o : Nat} {cs : List Char}
    (h : (Rank.chain level).Stops cs) : p.more level e ⟨o, cs⟩ = .ok (e, ⟨o, cs⟩) := by
  refine more_none ((Cursor.eat_symbol_none_iff level.single_token).mpr fun c hc =>
    Bool.eq_false_iff.mpr fun hs => ?_)
  obtain ⟨op, rfl, rfl⟩ := Level.exists_op hs
  exact (h _ hc).2 op (Nat.le_refl _) rfl

theorem more_symbol {p : Production} {op : Op} {e e' : Expr} {o m : Nat} {cs : List Char} {c : Cursor}
    (hs : cs.head? ≠ some ' ') (h : p.run ⟨o + (1 + m), cs⟩ = .ok (e', c)) :
    p.more op.level e ⟨o, op.symbol :: (spaces m ++ cs)⟩ =
      p.more op.level (.binary op e e') c.skipSpaces := by
  have he := Cursor.eat_symbol (o := o) (r := spaces m ++ cs) op.level.single_token (Level.isSymbol_symbol op)
  rw [← Nat.add_assoc] at h
  rw [more_ok he (by rw [Cursor.skipSpaces_spaces hs, h]), Level.op_symbol]

/-- Where no parenthesis is opened, an operand is a word. -/
theorem operandWithin_word (n : Nat) {o : Nat} {cs : List Char} (h : cs.head? ≠ some '(') :
    (operandWithin n).run ⟨o, cs⟩ = word ⟨o, cs⟩ := by
  have he : Cursor.eat .leftParen ⟨o, cs⟩ = none := (Cursor.eat_only_none_iff TokenKind.only_leftParen).mpr h
  cases n <;> simp [operandWithin, operand, he]

theorem word_name {x cs : List Char} {o : Nat} (hx : IsIdentifier x) (he : NameEnds cs) :
    word ⟨o, x ++ cs⟩ = .ok (.var (.ofList x), ⟨o + x.length, cs⟩) := by
  have : Cursor.eat .identifier ⟨o, x ++ cs⟩ = some (x, ⟨o + x.length, cs⟩) :=
    Cursor.eat_identifier_iff.mpr ⟨hx, he, rfl, rfl⟩
  simp [word, this]

theorem word_literal {l : Literal} {cs : List Char} {o : Nat} (hl : l.WellFormed) (he : l.Ends cs) :
    word ⟨o, l.chars ++ cs⟩ = .ok (.number l, ⟨o + l.chars.length, cs⟩) := by
  obtain ⟨c, w, e, hc⟩ := Literal.head_chars hl
  have h₁ : Cursor.eat .identifier ⟨o, l.chars ++ cs⟩ = none := by
    have : c.isAlpha = false := by
      rcases hc with rfl | rfl | hc
      · decide
      · decide
      · exact isAlpha_of_isDigit hc
    simp [Cursor.eat_eq_none_iff, e, TokenKind.lexeme, this]
  have h₂ : Cursor.eat .number ⟨o, l.chars ++ cs⟩ = some (l.chars, ⟨o + l.chars.length, cs⟩) :=
    Cursor.eat_number_iff.mpr ⟨l, hl, rfl, he, rfl, rfl⟩
  simp [word, h₁, h₂, Literal.ofChars?_chars hl]

theorem group_run {n o o' a : Nat} {w cs : List Char} {e : Expr} {c : Cursor} (hs : w.head? ≠ some ' ')
    (h : (operandWithin n).sum.run ⟨o + (1 + a), w⟩ = .ok (e, c))
    (hc : c.skipSpaces = ⟨o', ')' :: cs⟩) :
    (operandWithin (n + 1)).run ⟨o, '(' :: (spaces a ++ w)⟩ = .ok (e, ⟨o' + 1, cs⟩) := by
  have h₁ : Cursor.eat .leftParen ⟨o, '(' :: (spaces a ++ w)⟩ = some (['('], ⟨o + 1, spaces a ++ w⟩) :=
    Cursor.eat_only TokenKind.only_leftParen
  have h₂ : Cursor.eat .rightParen ⟨o', ')' :: cs⟩ = some ([')'], ⟨o' + 1, cs⟩) :=
    Cursor.eat_only TokenKind.only_rightParen
  rw [← Nat.add_assoc] at h
  simp [operandWithin, operand, h₁, closed, Cursor.skipSpaces_spaces hs, h, hc, h₂]

theorem chain_run {p : Production} {level : Level} {c c' : Cursor} {e : Expr} (h : p.run c = .ok (e, c')) :
    (p.chain level).run c = p.more level e c'.skipSpaces := by
  simp [chain, h, bind, Except.bind]

theorem chain_run_error {p : Production} {level : Level} {c : Cursor} {e : SyntaxError} (h : p.run c = .error e) :
    (p.chain level).run c = .error e := by
  simp [chain, h, bind, Except.bind]

/-- What a chain yields is a first operand and what its operators make of it. -/
theorem exists_of_chain {p : Production} {level : Level} {c c' : Cursor} {e : Expr}
    (h : (p.chain level).run c = .ok (e, c')) :
    ∃ left c₁, p.run c = .ok (left, c₁) ∧ p.more level left c₁.skipSpaces = .ok (e, c') := by
  cases h₁ : p.run c with
  | error =>
    rw [chain_run_error h₁] at h
    cases h
  | ok r =>
    obtain ⟨left, c₁⟩ := r
    exact ⟨left, c₁, rfl, chain_run h₁ ▸ h⟩

end Production

namespace Phrase

open Production (ofRank ofRank_chain)

/-- The reader takes the phrase, whatever follows that does not belong to it. A
chain is taken with the spaces behind it, and its operators may still go on. -/
def Taken (n : Nat) : {r : Rank} → Phrase r → Prop
  | .value, p => ∀ o cs, p.Ends cs →
      (ofRank n .value).run ⟨o, p.text ++ cs⟩ = .ok (p.expr, ⟨o + p.text.length, cs⟩)
  | .chain level, p => ∀ o k cs, p.Ends (spaces k ++ cs) → level.operand.Stops cs →
      (ofRank n (.chain level)).run ⟨o, p.text ++ (spaces k ++ cs)⟩ =
        (ofRank n level.operand).more level p.expr ⟨o + (p.text.length + k), cs⟩

theorem Taken.run {n : Nat} {r : Rank} {p : Phrase r} (h : p.Taken n) {o k : Nat} {cs : List Char}
    (he : p.Ends (spaces k ++ cs)) (hs : r.Stops cs) :
    ∃ c', (ofRank n r).run ⟨o, p.text ++ (spaces k ++ cs)⟩ = .ok (p.expr, c') ∧
      c'.skipSpaces = ⟨o + (p.text.length + k), cs⟩ := by
  cases r with
  | value =>
    refine ⟨_, h o _ he, ?_⟩
    rw [Cursor.skipSpaces_spaces hs.head_ne, Nat.add_assoc]
  | chain level =>
    refine ⟨_, (h o k cs he hs.operand).trans (Production.more_of_stops hs), ?_⟩
    exact Cursor.skipSpaces_of_head hs.head_ne

theorem taken {r : Rank} (p : Phrase r) {n : Nat} (hn : p.nesting ≤ n) : p.Taken n := by
  induction p generalizing n with
  | name x h =>
    intro o cs he
    refine (Production.operandWithin_word n ?_).trans (Production.word_name h he)
    obtain ⟨c, w, rfl, hc⟩ := h.head
    intro e
    cases e
    exact absurd hc (by decide)
  | literal l h =>
    intro o cs he
    refine (Production.operandWithin_word n ?_).trans (Production.word_literal h he)
    obtain ⟨c, w, e, hc⟩ := Literal.head_chars h
    rw [text, e]
    intro e
    cases e
    exact absurd hc (by decide)
  | group a p b ih =>
    intro o cs _
    cases n with
    | zero => exact absurd hn (Nat.not_succ_le_zero _)
    | succ n =>
      have hp : p.Taken n := ih (Nat.le_of_succ_le_succ hn)
      obtain ⟨c', hr, hc⟩ := hp.run (p.ends_parenthesis b cs) (Rank.stops_parenthesis .sum cs)
      have := Production.group_run (o := o) (a := a) (p.head_ne_space _) hr hc
      simp only [text, List.cons_append, List.append_assoc, List.nil_append]
      refine this.trans (congrArg (fun o => Except.ok (p.expr, Cursor.mk o cs)) ?_)
      simp [spaces]
      omega
  | single p ih =>
    rename_i level
    intro o k cs he hs
    obtain ⟨c', hr, hc⟩ := (ih hn).run he hs
    rw [ofRank_chain]
    exact (Production.chain_run hr).trans (by rw [hc]; rfl)
  | more p m op h k q ih₁ ih₂ =>
    subst h
    intro o j cs he hs
    have h₁ := ih₁ (Nat.le_trans (Nat.le_max_left _ _) hn)
    have h₂ := ih₂ (Nat.le_trans (Nat.le_max_right _ _) hn)
    have hleft := h₁ o m (op.symbol :: (spaces k ++ (q.text ++ (spaces j ++ cs))))
      (p.ends_symbol m op _) (Rank.stops_symbol op _)
    obtain ⟨c', hr, hc⟩ := h₂.run he hs
    rw [Production.more_symbol (q.head_ne_space _) hr, hc] at hleft
    simp only [text, List.append_assoc, List.cons_append]
    refine hleft.trans ?_
    simp only [expr, spaces, List.length_append, List.length_cons, List.length_replicate]
    congr 2
    omega

end Phrase
/-! ## Soundness -/

/-- The phrase stands at `c`, and behind it and the spaces after it stands `c'`,
where nothing follows that would belong to a phrase of the rank `stop`. -/
def Phrase.Spans {r : Rank} (p : Phrase r) (stop : Rank) (c c' : Cursor) : Prop :=
  ∃ k, c.rest = p.text ++ (spaces k ++ c'.rest) ∧ c'.offset = c.offset + (p.text.length + k) ∧
    p.Ends (spaces k ++ c'.rest) ∧ stop.Stops c'.rest

namespace Production

/-- Whatever the reader takes is a phrase of the rank. -/
def Sound (n : Nat) (r : Rank) (reader : Production) : Prop :=
  ∀ c c' e, reader.run c = .ok (e, c') →
    ∃ p : Phrase r, p.nesting ≤ n ∧ p.expr = e ∧ p.Spans r c c'.skipSpaces

/-- A phrase that ends at `c`, and the spaces that are skipped there. -/
theorem spans_skipSpaces {p : Phrase .value} {c c' : Cursor} (h₁ : c.rest = p.text ++ c'.rest)
    (h₂ : c'.offset = c.offset + p.text.length) (h₃ : p.Ends c'.rest) :
    p.Spans .value c c'.skipSpaces := by
  obtain ⟨k, hk, ho, hs⟩ := c'.exists_spaces
  have hr : c'.rest = spaces k ++ c'.skipSpaces.rest := congrArg Cursor.rest hk
  refine ⟨k, by rw [h₁, ← hr], by rw [ho, h₂, Nat.add_assoc], hr ▸ h₃, fun x hx => ⟨?_, ?_⟩⟩
  · intro e
    exact hs (e ▸ hx)
  · intro op h
    cases op <;> exact absurd h (by decide)

theorem phrase_of_word {c c' : Cursor} {e : Expr} (h : word c = .ok (e, c')) :
    ∃ p : Phrase .value, p.nesting = 0 ∧ p.expr = e ∧ p.Spans .value c c'.skipSpaces := by
  unfold word at h
  split at h
  · rename_i w c₁ he
    cases h
    obtain ⟨h₁, h₂, h₃, h₄⟩ := Cursor.eat_identifier_iff.mp he
    exact ⟨.name w h₁, rfl, rfl, spans_skipSpaces h₃ h₄ h₂⟩
  · split at h
    · rename_i l c₁ he
      cases h
      obtain ⟨⟨w, c₂⟩, h₁, h₂⟩ := Option.bind_eq_some_iff.mp he
      obtain ⟨l, hl, rfl, h₃, h₄, h₅⟩ := Cursor.eat_number_iff.mp h₁
      simp only [Literal.ofChars?_chars hl, Option.map_some] at h₂
      cases h₂
      exact ⟨.literal l hl, rfl, rfl, spans_skipSpaces h₄ h₅ h₃⟩
    · cases h

theorem phrase_of_closed {n : Nat} {inner : Production} (hi : inner.Sound n .sum) {c c₁ c' : Cursor}
    {w : List Char} {start : Nat} {e : Expr} (hl : c.eat .leftParen = some (w, c₁))
    (h : closed inner start c₁ = .ok (e, c')) :
    ∃ p : Phrase .value, p.nesting ≤ n + 1 ∧ p.expr = e ∧ p.Spans .value c c'.skipSpaces := by
  obtain ⟨hopen, hopen'⟩ := Cursor.rest_of_eat_only TokenKind.only_leftParen hl
  unfold closed at h
  split at h
  · cases h
  · rename_i c₂ hr
    split at h
    · rename_i c₃ hp
      cases h
      obtain ⟨p, h₁, h₂, k, h₃, h₄, -, -⟩ := hi _ _ _ hr
      obtain ⟨a, ha, ho, -⟩ := c₁.exists_spaces
      obtain ⟨hclose, hclose'⟩ := Cursor.rest_of_eat_only TokenKind.only_rightParen hp
      have hrest : c.rest = (Phrase.group a p k).text ++ c'.rest := by
        have e : c₁.rest = spaces a ++ c₁.skipSpaces.rest := congrArg Cursor.rest ha
        rw [hopen, e, h₃, hclose]
        simp [Phrase.text]
      have hoffset : c'.offset = c.offset + (Phrase.group a p k).text.length := by
        simp [Phrase.text, spaces]
        omega
      exact ⟨.group a p k, Nat.succ_le_succ h₁, h₂, spans_skipSpaces hrest hoffset trivial⟩
    · cases h

/-- A chain read so far, with the spaces behind it, goes on with an operator and an operand. -/
theorem spans_more {n : Nat} {level : Level} {reader : Production} (hr : reader.Sound n level.operand)
    {left right : Expr} {c₀ c c₁ c₂ : Cursor} {w : List Char} (q : Phrase (.chain level)) (hn : q.nesting ≤ n)
    (he : q.expr = left) (hq : q.Spans level.operand c₀ c) (h₁ : c.eat level.token = some (w, c₁))
    (h₂ : reader.run c₁.skipSpaces = .ok (right, c₂)) :
    ∃ q' : Phrase (.chain level), q'.nesting ≤ n ∧ q'.expr = .binary (level.op w) left right ∧
      q'.Spans level.operand c₀ c₂.skipSpaces := by
  obtain ⟨x, rfl, hx, hc, hc₁⟩ := Cursor.symbol_of_eat level.single_token h₁
  obtain ⟨op, rfl, rfl⟩ := Level.exists_op hx
  obtain ⟨p, hp, rfl, k, h₃, h₄, h₅, h₆⟩ := hr _ _ _ h₂
  obtain ⟨m, hm, ho, -⟩ := c₁.exists_spaces
  obtain ⟨j, h₇, h₈, -, -⟩ := hq
  refine ⟨.more q j op rfl m p, Nat.max_le.mpr ⟨hn, hp⟩, ?_, k, ?_, ?_, h₅, h₆⟩
  · rw [Level.op_symbol, ← he]; rfl
  · have e₁ : c.rest = op.symbol :: c₁.rest := congrArg Cursor.rest hc
    have e₂ : c₁.rest = spaces m ++ c₁.skipSpaces.rest := congrArg Cursor.rest hm
    rw [h₇, e₁, e₂, h₃]
    simp [Phrase.text]
  · have e₁ : c₁.offset = c.offset + 1 := congrArg Cursor.offset hc₁
    simp [Phrase.text, spaces]
    omega

/-- A chain read so far, with the spaces behind it, and what the reader makes of it. -/
theorem phrase_of_more {n : Nat} {level : Level} {reader : Production} (hr : reader.Sound n level.operand)
    {left e : Expr} {c c' : Cursor} (h : reader.more level left c = .ok (e, c')) {c₀ : Cursor}
    (q : Phrase (.chain level)) (hn : q.nesting ≤ n) (he : q.expr = left) (hq : q.Spans level.operand c₀ c) :
    ∃ p : Phrase (.chain level), p.nesting ≤ n ∧ p.expr = e ∧ p.Spans (.chain level) c₀ c' := by
  fun_induction reader.more level left c generalizing q with
  | case1 left c hnone =>
    cases h
    obtain ⟨k, h₁, h₂, h₃, h₄⟩ := hq
    exact ⟨q, hn, he, k, h₁, h₂, h₃, h₄.chain ((Cursor.eat_symbol_none_iff level.single_token).mp hnone)⟩
  | case2 => cases h
  | case3 left c w c₁ h₁ right c₂ h₂ ih =>
    obtain ⟨q', hn', he', hq'⟩ := spans_more hr q hn he hq h₁ h₂
    exact ih h q' hn' he' hq'

theorem Sound.chain {n : Nat} {level : Level} {reader : Production} (hr : reader.Sound n level.operand) :
    (reader.chain level).Sound n (.chain level) := by
  intro c c' e h
  obtain ⟨left, c₁, h₁, h₂⟩ := exists_of_chain h
  obtain ⟨q, hn, he, hq⟩ := hr _ _ _ h₁
  obtain ⟨p, hp, hpe, hs⟩ := phrase_of_more hr h₂ (.single q) hn he hq
  obtain ⟨k, -, -, -, hstop⟩ := id hs
  exact ⟨p, hp, hpe, (Cursor.skipSpaces_of_head (o := c'.offset) hstop.head_ne).symm ▸ hs⟩

theorem sound_sum {n : Nat} {reader : Production} (hr : reader.Sound n .value) : reader.sum.Sound n .sum :=
  @Sound.chain n .additive _ (@Sound.chain n .multiplicative _ (@Sound.chain n .exponential _ hr))

theorem sound_operandWithin (n : Nat) : (operandWithin n).Sound n .value := by
  induction n with
  | zero =>
    intro c c' e h
    simp only [operandWithin, operand] at h
    split at h
    · cases h
    · obtain ⟨p, hp, h₁, h₂⟩ := phrase_of_word h
      exact ⟨p, Nat.le_of_eq hp, h₁, h₂⟩
  | succ n ih =>
    intro c c' e h
    simp only [operandWithin, operand] at h
    split at h
    · rename_i hl
      exact phrase_of_closed (sound_sum ih) hl h
    · obtain ⟨p, hp, h₁, h₂⟩ := phrase_of_word h
      exact ⟨p, hp ▸ Nat.zero_le _, h₁, h₂⟩

end Production

/-! ## Sums -/

namespace Expr

variable {c c' : Cursor} {e : Expr}

theorem read_of_spans {p : Phrase .sum} (hn : p.nesting ≤ maxNesting) (h : p.Spans .sum c c') :
    Expr.read c = .ok (p.expr, c') := by
  obtain ⟨o, r⟩ := c
  obtain ⟨o', r'⟩ := c'
  obtain ⟨k, h₁, h₂, h₃, h₄⟩ := h
  simp only at h₁ h₂ h₃ h₄
  subst h₁ h₂
  exact ((p.taken hn) o k r' h₃ h₄.operand).trans (Production.more_of_stops h₄)

theorem read_iff : Expr.read c = .ok (e, c') ↔
    ∃ p : Phrase .sum, p.nesting ≤ maxNesting ∧ p.expr = e ∧ p.Spans .sum c c' := by
  constructor
  · intro h
    obtain ⟨p, hn, rfl, hs⟩ := Production.sound_sum (Production.sound_operandWithin maxNesting) _ _ _ h
    -- the reader has skipped the spaces already
    have := (read_of_spans hn hs).symm.trans h
    simp only [Except.ok.injEq, Prod.mk.injEq, true_and] at this
    exact ⟨p, hn, rfl, this ▸ hs⟩
  · intro h
    obtain ⟨p, hn, rfl, hs⟩ := h
    exact read_of_spans hn hs

end Expr

end DeskCalc
