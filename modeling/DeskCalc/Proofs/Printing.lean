import DeskCalc.Proofs.Evaluation
import DeskCalc.Proofs.Nesting

/-!
# Writing expressions down

`Expr.tokens` writes an expression with as few parentheses as its precedences
allow, and `spaced` puts any number of spaces behind each token.

Results:
* `exists_phrase`: what is written derives, whatever the spaces, and stands for
  the expression.
* `evaluate_spaced`: evaluating it yields the expression's own value.
-/
namespace DeskCalc

/-! ## The written form -/

namespace Expr

/-- How strongly the outermost operator binds; words hold together best. -/
def strength : Expr → Nat
  | .number _ | .var _ => 3
  | .binary op _ _ => op.level.strength

/-- The tokens, in parentheses if they have to be. -/
def bracketed (needed : Prop) [Decidable needed] (ts : List (List Char)) : List (List Char) :=
  if needed then ['('] :: (ts ++ [[')']]) else ts

/-- The tokens of an expression. A left operand is put in parentheses if its
operator binds more weakly than the one it belongs to, a right operand also if it
binds just as strongly. -/
def tokens : Expr → List (List Char)
  | .number l => [l.chars]
  | .var x => [x.toList]
  | .binary op a b =>
    bracketed (a.strength < op.level.strength) a.tokens ++
      [op.symbol] :: bracketed (b.strength ≤ op.level.strength) b.tokens

/-- All literals and names in the expression can be written down. -/
def Writable : Expr → Prop
  | .number l => l.WellFormed
  | .var x => IsIdentifier x.toList
  | .binary _ a b => a.Writable ∧ b.Writable

def decidableWritable : (e : Expr) → Decidable e.Writable
  | .number l => inferInstanceAs (Decidable l.WellFormed)
  | .var x => inferInstanceAs (Decidable (IsIdentifier x.toList))
  | .binary _ a b =>
    have := a.decidableWritable
    have := b.decidableWritable
    inferInstanceAs (Decidable (a.Writable ∧ b.Writable))

instance : DecidablePred Writable := decidableWritable

/-- The number that the expression comes to, by the operations of doubles themselves. -/
def valueIn (t : Table) : Expr → Float
  | .number l => l.value
  | .var x => t.get x
  | .binary .add a b => a.valueIn t + b.valueIn t
  | .binary .sub a b => a.valueIn t - b.valueIn t
  | .binary .mul a b => a.valueIn t * b.valueIn t
  | .binary .div a b => a.valueIn t / b.valueIn t
  | .binary .pow a b => (a.valueIn t).pow (b.valueIn t)

theorem valueIn_binary (t : Table) (op : Op) (a b : Expr) :
    (binary op a b).valueIn t = op.apply (a.valueIn t) (b.valueIn t) := by
  cases op <;> rfl

theorem number_eval (t : Table) (e : Expr) : (e.eval t).number = e.valueIn t := by
  induction e with
  | number | var => rfl
  | binary op a b ih₁ ih₂ =>
    rw [valueIn_binary, ← ih₁, ← ih₂]
    rfl

end Expr

/-- The tokens one after the other, with `gaps i` spaces behind the `i`th. -/
def spaced (gaps : Nat → Nat) : List (List Char) → List Char
  | [] => []
  | w :: ws => w ++ (spaces (gaps 0) ++ spaced (fun i => gaps (i + 1)) ws)

theorem spaced_append (gaps : Nat → Nat) (ws vs : List (List Char)) :
    spaced gaps (ws ++ vs) = spaced gaps ws ++ spaced (fun i => gaps (i + ws.length)) vs := by
  induction ws generalizing gaps with
  | nil => rfl
  | cons w ws ih => simp [spaced, ih, Nat.add_assoc]

/-! ## Derivations of the written form -/

/-- A phrase counts as one of each rank with weaker operators. -/
theorem Phrase.exists_weaker {r r' : Rank} (p : Phrase r) (h : r'.strength ≤ r.strength) :
    ∃ p' : Phrase r', p'.text = p.text ∧ p'.expr = p.expr := by
  induction hd : r.strength - r'.strength generalizing r' with
  | zero =>
    obtain rfl : r' = r := Rank.eq_of_strength (by omega)
    exact ⟨p, rfl, rfl⟩
  | succ d ih =>
    cases r' with
    | value =>
      have := r.strength_le
      have : Rank.value.strength = 3 := rfl
      omega
    | chain level =>
      have := Rank.strength_operand level
      have : (Rank.chain level).strength = level.strength := rfl
      obtain ⟨q, h₁, h₂⟩ := @ih level.operand (by omega) (by omega)
      exact ⟨.single q, h₁, h₂⟩

namespace Expr

/-- The rank that an expression is written in. -/
def rank : Expr → Rank
  | .number _ | .var _ => .value
  | .binary op _ _ => .chain op.level

theorem strength_rank (e : Expr) : e.rank.strength = e.strength := by cases e <;> rfl

/-- The text derives as the expression, up to spaces behind it. -/
def Derives (e : Expr) (r : Rank) (cs : List Char) : Prop :=
  ∃ (p : Phrase r) (k : Nat), cs = p.text ++ spaces k ∧ p.expr = e

theorem derives_bracketed {e : Expr} {r : Rank} (ih : ∀ gaps, e.Derives e.rank (spaced gaps e.tokens))
    {needed : Prop} [Decidable needed] (h : ¬ needed → r.strength ≤ e.strength) (gaps : Nat → Nat) :
    e.Derives r (spaced gaps (bracketed needed e.tokens)) := by
  unfold bracketed
  split
  · obtain ⟨p, k, hk, he⟩ := ih fun i => gaps (i + 1)
    obtain ⟨p, ht, hp⟩ := @Phrase.exists_weaker _ .sum p (Nat.zero_le _)
    obtain ⟨q, hq, hqe⟩ := (Phrase.group (gaps 0) p k).exists_weaker r.strength_le
    refine ⟨q, gaps (e.tokens.length + 1), ?_, ?_⟩
    · simp [spaced, spaced_append, hk, hq, Phrase.text, ht]
    · rw [hqe, Phrase.expr, hp, he]
  · rename_i hn
    obtain ⟨p, k, hk, he⟩ := ih gaps
    obtain ⟨q, hq, hqe⟩ := p.exists_weaker (e.strength_rank ▸ h hn)
    exact ⟨q, k, by rw [hk, hq], by rw [hqe, he]⟩

theorem exists_phrase (e : Expr) (h : e.Writable) (gaps : Nat → Nat) :
    e.Derives e.rank (spaced gaps e.tokens) := by
  induction e generalizing gaps with
  | number l => exact ⟨.literal l h, gaps 0, by simp [tokens, spaced, Phrase.text], rfl⟩
  | var x => exact ⟨.name x.toList h, gaps 0, by simp [tokens, spaced, Phrase.text], by simp [Phrase.expr]⟩
  | binary op a b ih₁ ih₂ =>
    have hs := Rank.strength_operand op.level
    let left := bracketed (a.strength < op.level.strength) a.tokens
    obtain ⟨p, k, hp, hpe⟩ := @derives_bracketed a (.chain op.level) (ih₁ h.1)
      (a.strength < op.level.strength) _ Nat.le_of_not_lt gaps
    obtain ⟨q, m, hq, hqe⟩ := @derives_bracketed b op.level.operand (ih₂ h.2)
      (b.strength ≤ op.level.strength) _ (fun hn => hs ▸ Nat.lt_of_not_le hn)
      fun i => gaps (i + 1 + left.length)
    refine ⟨.more p k op rfl (gaps (0 + left.length)) q, m, ?_, by simp only [Phrase.expr, hpe, hqe]⟩
    simp only [tokens, spaced_append, spaced, hp]
    simpa [Phrase.text, left] using hq

end Expr

/-! ## Evaluation of the written form -/

/-- Whatever spaces are put between the tokens of an expression, evaluating the
text yields the number that the expression comes to, as the answer. -/
theorem Session.evaluate_spaced (s : Session) (e : Expr) (he : e.Writable) (gaps : Nat → Nat)
    (hn : deepest 0 (spaced gaps e.tokens) ≤ maxNesting) :
    ∃ a, (s.evaluate (.ofList (spaced gaps e.tokens))).result = .ok a ∧
      a.binding = ⟨answerName, e.valueIn s.table⟩ := by
  obtain ⟨q, k, hq, hqe⟩ := e.exists_phrase he gaps
  obtain ⟨p, hp, hpe⟩ := @Phrase.exists_weaker _ .sum q (Nat.zero_le _)
  rw [hq, ← hp] at hn ⊢
  rw [p.deepest_text, Nat.zero_add] at hn
  obtain ⟨text, h⟩ := @evaluate_of_line s _ (.answer p k) rfl (Nat.le_trans (Nat.le_max_left _ _) hn)
  refine ⟨_, congrArg Evaluation.result h, ?_⟩
  rw [Line.name, Line.value, ← p.value_expr, hpe, hqe, e.number_eval]

/-- A right operand of the same precedence needs its parentheses. -/
theorem Session.evaluate_spaced_signs :
    ∃ a, (({} : Session).evaluate "1  - (-2- 3)").result = .ok a ∧ a.binding = ⟨"ans", 6⟩ := by
  let e : Expr := .binary .sub (.number ⟨none, ['1'], []⟩)
    (.binary .sub (.number ⟨some .minus, ['2'], []⟩) (.number ⟨none, ['3'], []⟩))
  let gaps (i : Nat) : Nat := [2, 1, 0, 0, 1].getD i 0
  obtain ⟨a, ha, hb⟩ := evaluate_spaced {} e (by decide) gaps (by decide)
  exact ⟨a, ha, hb.trans (by decide +kernel)⟩

end DeskCalc
