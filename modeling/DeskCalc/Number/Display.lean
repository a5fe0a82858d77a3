import DeskCalc.Number.Shortest

/-!
# Texts of doubles (SPEC_FULL §6)

`displayNumber` is how a result is shown: an integer in full, anything else by
its shortest decimal, never with an exponent, so the text of a finite number can
be typed back in. `logNumber` is how the standard library writes the same numbers
for the log: always with a fraction digit or an exponent, and with the sign of zero.
-/
namespace DeskCalc

open Binary64

/-- The text of a double, given how a finite magnitude is written and when it
has a minus sign in front. A NaN has no sign. -/
def numberText (x : Float) (signed : Nat → Bool) (finite : Nat → List Char) : String :=
  let k := magnitude x
  if infinity < k then "NaN"
  else
    let sign := if negative x && signed k then ['-'] else []
    .ofList (sign ++ if k = infinity then ['i', 'n', 'f'] else finite k)

/-- The integer that a finite magnitude is, if it is one. -/
def integer? (k : Nat) : Option Nat :=
  if units k % 2 ^ places = 0 then some (units k / 2 ^ places) else none

/-- The digits that show a finite magnitude. -/
def displayMagnitude (k : Nat) : List Char :=
  match integer? k with
  | some n => numeral n
  | none => (Decimal.shortest k).positional

/-- A number as results show it. Zero has no sign.
Stands for the program's `write_number` and `number_to_string`. -/
def displayNumber (x : Float) : String := numberText x (· != 0) displayMagnitude

/-- Nonzero magnitudes the log writes without an exponent: from 10^-4 up to
10^16. -/
def logsPositional (k : Nat) : Bool :=
  decide (Decimal.magnitude ⟨1, -4⟩ ≤ k ∧ k < Decimal.magnitude ⟨1, 16⟩)

/-- The digits that log a finite magnitude. -/
def logMagnitude (k : Nat) : List Char :=
  let d := Decimal.shortest k
  if k = 0 ∨ logsPositional k then
    d.positional ++ if 0 ≤ d.exponent then ['.', '0'] else []
  else d.scientific

/-- A number as the log writes it. -/
def logNumber (x : Float) : String := numberText x (fun _ => true) logMagnitude

end DeskCalc
