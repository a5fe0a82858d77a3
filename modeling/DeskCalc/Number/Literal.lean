import DeskCalc.Number.Decimal

/-!
# Number literals (SPEC_FULL §4.1)

A literal is a sign or none, one digit or more, and optionally a point followed
by one digit or more. `Literal.split` takes the longest literal off the front of
a text; there is no shorter reading to fall back to, since every digit and a
fraction with a digit in it are taken as they come.

Results:

* `split_eq`: the literal's characters and what follows make up the text.
-/
namespace DeskCalc

inductive Sign where
  | plus | minus
  deriving DecidableEq, Repr

def Sign.char : Sign → Char
  | .plus => '+'
  | .minus => '-'

/-- A literal by its parts. An empty fraction is one without a point. -/
structure Literal where
  sign : Option Sign
  whole : List Char
  fraction : List Char
  deriving DecidableEq, Repr

namespace Literal

/-- The literal as it is written. -/
def chars (l : Literal) : List Char :=
  (l.sign.map Sign.char).toList ++ l.whole ++ if l.fraction = [] then [] else '.' :: l.fraction

/-- The literal's absolute value. -/
def decimal (l : Literal) : Decimal := ⟨numeralValue (l.whole ++ l.fraction), -l.fraction.length⟩

/-- The double nearest to the literal. A minus sign is kept on zero.
Stands for the conversion in the program's `Parser.value` (§4.2), which the standard
library makes. -/
def value (l : Literal) : Float :=
  Binary64.ofMagnitude (l.sign = some .minus) l.decimal.magnitude

/-! ## Reading -/

/-- The sign in front of a text, and the rest. -/
def splitSign : List Char → Option Sign × List Char
  | '+' :: cs => (some .plus, cs)
  | '-' :: cs => (some .minus, cs)
  | cs => (none, cs)

/-- The digits behind a point in front of a text, and the rest. A point without
a digit after it stays in the text. -/
def splitFraction (cs : List Char) : List Char × List Char :=
  match cs with
  | '.' :: ds =>
    if ds.takeWhile Char.isDigit = [] then ([], cs)
    else (ds.takeWhile Char.isDigit, ds.dropWhile Char.isDigit)
  | _ => ([], cs)

/-- The longest literal in front of a text, and the rest.
Stands for the program's `number_len`, but keeps the parts. -/
def split (cs : List Char) : Option (Literal × List Char) :=
  let (sign, ds) := splitSign cs
  match ds.takeWhile Char.isDigit with
  | [] => none
  | whole =>
    let (fraction, rest) := splitFraction (ds.dropWhile Char.isDigit)
    some (⟨sign, whole, fraction⟩, rest)

/-- The literal that a text is, if it is one from end to end. -/
def ofChars? (cs : List Char) : Option Literal :=
  match split cs with
  | some (l, []) => some l
  | _ => none

/-! ## Nothing is lost -/

theorem splitSign_eq (cs : List Char) :
    ((splitSign cs).1.map Sign.char).toList ++ (splitSign cs).2 = cs := by
  unfold splitSign
  split <;> simp [Sign.char]

theorem splitFraction_eq (cs : List Char) :
    (if (splitFraction cs).1 = [] then [] else '.' :: (splitFraction cs).1) ++ (splitFraction cs).2 = cs := by
  unfold splitFraction
  split
  · split
    · simp
    · rename_i ds h
      simp [List.takeWhile_append_dropWhile]
  · simp

theorem split_eq {cs r : List Char} {l : Literal} (h : split cs = some (l, r)) : l.chars ++ r = cs := by
  have h₁ := splitSign_eq cs
  have h₂ := List.takeWhile_append_dropWhile (p := Char.isDigit) (l := (splitSign cs).2)
  have h₃ := splitFraction_eq ((splitSign cs).2.dropWhile Char.isDigit)
  unfold split at h
  simp only at h
  split at h
  · cases h
  · cases h
    simp only [chars, List.append_assoc]
    rw [h₃, h₂, h₁]

end Literal

end DeskCalc
