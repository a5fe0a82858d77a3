import DeskCalc.Number.Literal

/-!
# Tokens (SPEC_FULL §4.1)

The kinds of token and, for each, the longest token of that kind at the very
front of a text. All tokens are ASCII, so their length in characters is their
length in bytes.

Results:

* `lexeme_append_drop`: a lexeme is what the text starts with.
-/
namespace DeskCalc

/-- Stands for the program's `TokenKind`. -/
inductive TokenKind where
  | identifier | number | assign | addSub | mulDiv | exponent | leftParen | rightParen | space
  deriving DecidableEq, Repr

namespace TokenKind

/-- How messages name the kind.
Stands for the display of the program's `TokenKind`. -/
def describe : TokenKind → String
  | .identifier => "identifier"
  | .number => "number"
  | .assign => "\"=\""
  | .addSub => "\"+\" or \"-\""
  | .mulDiv => "\"*\" or \"/\""
  | .exponent => "\"^\""
  | .leftParen => "\"(\""
  | .rightParen => "\")\""
  | .space => "space"

/-- The characters of a kind whose tokens are single characters.
Stands for what the program's `scan` has `single` test. -/
def isSymbol : TokenKind → Char → Bool
  | .assign, c => c = '='
  | .addSub, c => c = '+' || c = '-'
  | .mulDiv, c => c = '*' || c = '/'
  | .exponent, c => c = '^'
  | .leftParen, c => c = '('
  | .rightParen, c => c = ')'
  | _, _ => false

/-- What an identifier goes on with after its first letter. -/
def isNameChar (c : Char) : Bool := c.isAlphanum || c = '_'

/-- The longest token of the kind in front of a text, empty if there is none.
Stands for the length that the program's `scan` computes, for a number by
`number_len`. -/
def lexeme (kind : TokenKind) (cs : List Char) : List Char :=
  match kind with
  | .identifier =>
    match cs with
    | c :: r => if c.isAlpha then c :: r.takeWhile isNameChar else []
    | [] => []
  | .number =>
    match Literal.split cs with
    | some (l, _) => l.chars
    | none => []
  | .space => cs.takeWhile (· = ' ')
  | kind => (cs.take 1).filter kind.isSymbol

/-! ## Lexemes and the text -/

theorem lexeme_append_drop (kind : TokenKind) (cs : List Char) :
    kind.lexeme cs ++ cs.drop (kind.lexeme cs).length = cs := by
  suffices h : kind.lexeme cs <+: cs by
    obtain ⟨r, hr⟩ := h
    conv => lhs; arg 2; arg 2; rw [← hr]
    rw [List.drop_left, hr]
  have one : ∀ k : TokenKind, (cs.take 1).filter k.isSymbol <+: cs := fun k => by
    cases cs with
    | nil => simp
    | cons c r => by_cases hc : k.isSymbol c <;> simp [hc]
  cases kind with
  | identifier =>
    cases cs with
    | nil => simp [lexeme]
    | cons c r =>
      simp only [lexeme]
      split
      · exact List.cons_prefix_cons.mpr ⟨rfl, List.takeWhile_prefix _⟩
      · exact List.nil_prefix
  | number =>
    simp only [lexeme]
    split
    · rename_i l r h; exact ⟨r, Literal.split_eq h⟩
    · exact List.nil_prefix
  | space => exact List.takeWhile_prefix _
  | assign | addSub | mulDiv | exponent | leftParen | rightParen => exact one _

end TokenKind

end DeskCalc
