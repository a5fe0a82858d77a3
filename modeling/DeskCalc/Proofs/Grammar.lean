import Mathlib
import DeskCalc.Expr.Parser

/-!
# The grammar of lines

Which texts are lines, told without the reader. A derivation is a tree: a
`Phrase r` derives a text from the production of rank `r`, a `Line` derives a
whole line.

    value  ::= "(" SP sum SP ")" | name | literal
    factor ::= value (SP "^" SP value)*
    term   ::= factor (SP ("*" | "/") SP factor)*
    sum    ::= term (SP ("+" | "-") SP term)*
    target ::= name | "(" SP target SP ")"
    line   ::= sum SP | target SP "=" SP sum SP

`SP` is any run of spaces. A chain of operands is an operand, or a chain with an
operator and an operand behind it, so its derivation is folded to the left.

Results:
* `value_expr`: the value of a derivation is that of the expression it derives.
* `Target.text_toValue`: a target derives as an operand, too.
* `exists_target`: a sum that stands for a variable is a target.
-/
namespace DeskCalc

/-! ## Words -/

/-- A word of `[A-Za-z][A-Za-z0-9_]*`. -/
def IsIdentifier : List Char → Prop
  | [] => False
  | c :: r => c.isAlpha ∧ ∀ x ∈ r, TokenKind.isNameChar x

instance : DecidablePred IsIdentifier
  | [] => inferInstanceAs (Decidable False)
  | c :: r => decidable_of_iff (c.isAlpha ∧ r.all TokenKind.isNameChar) (by simp [IsIdentifier])

/-- The parts of a word of `[+-]?[0-9]+(\.[0-9]+)?`. -/
structure Literal.WellFormed (l : Literal) : Prop where
  whole_ne : l.whole ≠ []
  whole_digit : ∀ c ∈ l.whole, c.isDigit
  fraction_digit : ∀ c ∈ l.fraction, c.isDigit

instance (l : Literal) : Decidable l.WellFormed :=
  decidable_of_iff (l.whole ≠ [] ∧ l.whole.all Char.isDigit ∧ l.fraction.all Char.isDigit)
    ⟨fun ⟨h₁, h₂, h₃⟩ => ⟨h₁, List.all_eq_true.mp h₂, List.all_eq_true.mp h₃⟩,
      fun ⟨h₁, h₂, h₃⟩ => ⟨h₁, List.all_eq_true.mpr h₂, List.all_eq_true.mpr h₃⟩⟩

/-- `SP` with `n` spaces in it. -/
def spaces (n : Nat) : List Char := List.replicate n ' '

/-! ## Operators -/

def Op.level : Op → Level
  | .add | .sub => .additive
  | .mul | .div => .multiplicative
  | .pow => .exponential

def Op.symbol : Op → Char
  | .add => '+'
  | .sub => '-'
  | .mul => '*'
  | .div => '/'
  | .pow => '^'

/-- How strongly the operators of a level bind. -/
def Level.strength : Level → Nat
  | .additive => 0
  | .multiplicative => 1
  | .exponential => 2

/-- The productions of expressions. -/
inductive Rank where
  | value
  | chain (level : Level)
  deriving DecidableEq, Repr

abbrev Rank.sum : Rank := .chain .additive

/-- The rank of what stands between operators of a level. -/
def Level.operand : Level → Rank
  | .additive => .chain .multiplicative
  | .multiplicative => .chain .exponential
  | .exponential => .value

/-! ## Derivations of expressions -/

/-- A derivation from the production of the given rank. -/
inductive Phrase : Rank → Type where
  | group (before : Nat) (inner : Phrase .sum) (after : Nat) : Phrase .value
  | name (x : List Char) (h : IsIdentifier x) : Phrase .value
  | literal (l : Literal) (h : l.WellFormed) : Phrase .value
  | single {level : Level} (first : Phrase level.operand) : Phrase (.chain level)
  | more {level : Level} (left : Phrase (.chain level)) (before : Nat) (op : Op) (h : op.level = level)
      (after : Nat) (right : Phrase level.operand) : Phrase (.chain level)

namespace Phrase

/-- The text that is derived. -/
def text : {r : Rank} → Phrase r → List Char
  | _, .group n p m => '(' :: (spaces n ++ p.text ++ spaces m ++ [')'])
  | _, .name x _ => x
  | _, .literal l _ => l.chars
  | _, .single p => p.text
  | _, .more p n op _ m q => p.text ++ spaces n ++ op.symbol :: (spaces m ++ q.text)

/-- The most parentheses that are open at a time. -/
def nesting : {r : Rank} → Phrase r → Nat
  | _, .group _ p _ => p.nesting + 1
  | _, .name .. | _, .literal .. => 0
  | _, .single p => p.nesting
  | _, .more p _ _ _ _ q => max p.nesting q.nesting

/-- What the derivation comes to when the variables are as in the table. The operations
are those of doubles, spelled out here and not taken from `Op.apply`. -/
def value (t : Table) : {r : Rank} → Phrase r → Float
  | _, .group _ p _ => p.value t
  | _, .name x _ => t.get (.ofList x)
  | _, .literal l _ => l.value
  | _, .single p => p.value t
  | _, .more p _ op _ _ q =>
    match op with
    | .add => p.value t + q.value t
    | .sub => p.value t - q.value t
    | .mul => p.value t * q.value t
    | .div => p.value t / q.value t
    | .pow => (p.value t).pow (q.value t)

/-- The expression that the text stands for. -/
def expr : {r : Rank} → Phrase r → Expr
  | _, .group _ p _ => p.expr
  | _, .name x _ => .var (.ofList x)
  | _, .literal l _ => .number l
  | _, .single p => p.expr
  | _, .more p _ op _ _ q => .binary op p.expr q.expr

/-- Evaluation computes with the operations that the grammar means. -/
theorem value_more (t : Table) {level : Level} (p : Phrase (.chain level)) (n : Nat) (op : Op) (h : op.level = level)
    (m : Nat) (q : Phrase level.operand) : (more p n op h m q).value t = op.apply (p.value t) (q.value t) := by
  cases op <;> rfl

theorem value_expr (t : Table) {r : Rank} (p : Phrase r) : (p.expr.eval t).number = p.value t := by
  induction p with
  | group _ _ _ ih => exact ih
  | name | literal => rfl
  | single _ ih => exact ih
  | more _ _ op _ _ _ ih₁ ih₂ =>
    rw [value_more, ← ih₁, ← ih₂]
    rfl

end Phrase

/-! ## Targets of assignments -/

inductive Target where
  | name (x : List Char) (h : IsIdentifier x)
  | group (before : Nat) (inner : Target) (after : Nat)

namespace Target

def text : Target → List Char
  | .name x _ => x
  | .group n p m => '(' :: (spaces n ++ p.text ++ spaces m ++ [')'])

def nesting : Target → Nat
  | .name .. => 0
  | .group _ p _ => p.nesting + 1

/-- The variable that is assigned to. -/
def target : Target → List Char
  | .name x _ => x
  | .group _ p _ => p.target

theorem isIdentifier_target : (p : Target) → IsIdentifier p.target
  | .name _ h => h
  | .group _ p _ => p.isIdentifier_target

end Target

/-- An operand alone, as a sum. -/
def Phrase.ofValue (p : Phrase .value) : Phrase .sum :=
  @Phrase.single .additive (@Phrase.single .multiplicative (@Phrase.single .exponential p))

@[simp] theorem Phrase.text_ofValue (p : Phrase .value) : p.ofValue.text = p.text := rfl

@[simp] theorem Phrase.nesting_ofValue (p : Phrase .value) : p.ofValue.nesting = p.nesting := rfl

@[simp] theorem Phrase.expr_ofValue (p : Phrase .value) : p.ofValue.expr = p.expr := rfl

/-- Targets are operands. -/
def Target.toValue : Target → Phrase .value
  | .name x h => .name x h
  | .group n p m => .group n p.toValue.ofValue m

namespace Target

theorem text_toValue (p : Target) : p.toValue.text = p.text := by
  induction p with
  | name => rfl
  | group n p m ih => simp [toValue, text, Phrase.text, ih]

theorem nesting_toValue (p : Target) : p.toValue.nesting = p.nesting := by
  induction p with
  | name => rfl
  | group n p m ih => simp [toValue, nesting, Phrase.nesting, ih]

theorem expr_toValue (p : Target) : p.toValue.expr = .var (.ofList p.target) := by
  induction p with
  | name => rfl
  | group n p m ih => simpa [toValue, target, Phrase.expr] using ih

end Target

/-- A phrase that stands for a variable has no operator in it. -/
theorem Phrase.exists_target {r : Rank} {x : String} (p : Phrase r) (h : p.expr = .var x) :
    ∃ q : Target, q.text = p.text ∧ q.nesting = p.nesting ∧ .ofList q.target = x := by
  induction p with
  | group n _ m ih =>
    obtain ⟨q, h₁, h₂, h₃⟩ := ih h
    exact ⟨.group n q m, by simp [Target.text, Phrase.text, h₁],
      by simp [Target.nesting, Phrase.nesting, h₂], h₃⟩
  | name w hw => cases h; exact ⟨.name w hw, rfl, rfl, rfl⟩
  | literal => cases h
  | single _ ih => exact ih h
  | more => cases h

/-! ## Derivations of lines -/

inductive Line where
  | answer (body : Phrase .sum) (after : Nat)
  | assign (target : Target) (before after : Nat) (body : Phrase .sum) (behind : Nat)

namespace Line

def text : Line → List Char
  | .answer p n => p.text ++ spaces n
  | .assign q n m p k => q.text ++ spaces n ++ '=' :: (spaces m ++ p.text ++ spaces k)

def nesting : Line → Nat
  | .answer p _ => p.nesting
  | .assign q _ _ p _ => max q.nesting p.nesting

/-- The name that the line writes. -/
def name : Line → String
  | .answer .. => answerName
  | .assign q .. => .ofList q.target

/-- The number that the line writes. -/
def value (t : Table) : Line → Float
  | .answer p _ | .assign _ _ _ p _ => p.value t

end Line

end DeskCalc
