import DeskCalc.Number.Display
import DeskCalc.Proofs.Bits
import DeskCalc.Proofs.Grammar

/-!
# Reading numbers back

What shows a finite double is a literal without a plus sign, and reading it yields
the double, but for the sign of zero.

Results:
* `Decimal.chars_literal`, `Decimal.magnitude_literal`: the positional notation of
  a decimal is a literal of the same magnitude.
* `exists_decimal`: what shows a finite magnitude is the notation of a decimal that
  reads back.
* `exists_literal`: what shows a finite double is a literal that reads back.
-/
namespace DeskCalc

open Binary64

/-! ## Numerals -/

theorem numeralValue_numeral (n : Nat) : numeralValue (numeral n) = n := Nat.ofDigitChars_ten_toDigits

theorem numeralValue_zeros (n : Nat) (cs : List Char) :
    numeralValue (List.replicate n '0' ++ cs) = numeralValue cs := by
  have h := @Nat.ofDigitChars_append 10 (List.replicate n '0') cs 0
  rwa [Nat.ofDigitChars_replicate_zero, Nat.mul_zero] at h

theorem numeralValue_append_zeros (cs : List Char) (n : Nat) :
    numeralValue (cs ++ List.replicate n '0') = numeralValue cs * 10 ^ n := by
  have h := @Nat.ofDigitChars_append 10 cs (List.replicate n '0') 0
  rwa [Nat.ofDigitChars_replicate_zero, Nat.mul_comm] at h

theorem isDigit_of_mem_numeral {n : Nat} {c : Char} (h : c ∈ numeral n) : c.isDigit :=
  Nat.isDigit_of_mem_toDigits (by decide) (by decide) h

theorem isDigit_of_mem_zeros {n : Nat} {c : Char} (h : c ∈ List.replicate n '0') : c.isDigit := by
  rw [List.eq_of_mem_replicate h]
  decide

/-! ## Decimals -/

namespace Decimal

/-- The digits that `pointed` puts a point into. -/
def padded (n places : Nat) : List Char :=
  List.replicate (places + 1 - (numeral n).length) '0' ++ numeral n

theorem length_padded (n places : Nat) : places < (padded n places).length := by
  rw [padded, List.length_append, List.length_replicate]
  omega

theorem isDigit_of_mem_padded {n places : Nat} {c : Char} (h : c ∈ padded n places) : c.isDigit := by
  rcases List.mem_append.mp h with h | h
  · exact isDigit_of_mem_zeros h
  · exact isDigit_of_mem_numeral h

theorem numeralValue_padded (n places : Nat) : numeralValue (padded n places) = n := by
  rw [padded, numeralValue_zeros, numeralValue_numeral]

/-- The literal that the positional notation is. -/
def literal (d : Decimal) : Literal :=
  if 0 ≤ d.exponent then ⟨none, numeral d.coefficient ++ List.replicate d.exponent.toNat '0', []⟩
  else
    let places := (-d.exponent).toNat
    let ds := padded d.coefficient places
    ⟨none, ds.take (ds.length - places), ds.drop (ds.length - places)⟩

theorem sign_literal (d : Decimal) : d.literal.sign = none := by
  unfold literal
  split <;> rfl

theorem literal_wellFormed (d : Decimal) : d.literal.WellFormed := by
  unfold literal
  split
  · refine ⟨?_, fun c h => ?_, by simp⟩
    · simp [numeral, Nat.toDigits_ne_nil]
    · rcases List.mem_append.mp h with h | h
      · exact isDigit_of_mem_numeral h
      · exact isDigit_of_mem_zeros h
  · refine ⟨?_, fun c h => isDigit_of_mem_padded (List.mem_of_mem_take h),
      fun c h => isDigit_of_mem_padded (List.mem_of_mem_drop h)⟩
    have := length_padded d.coefficient (-d.exponent).toNat
    intro h
    have := congrArg List.length h
    rw [List.length_take, List.length_nil] at this
    omega

theorem chars_literal (d : Decimal) : d.literal.chars = d.positional := by
  unfold literal positional
  split
  · simp [Literal.chars]
  · have hlen := length_padded d.coefficient (-d.exponent).toNat
    have hne : (padded d.coefficient (-d.exponent).toNat).drop
        ((padded d.coefficient (-d.exponent).toNat).length - (-d.exponent).toNat) ≠ [] := by
      intro h
      have := congrArg List.length h
      rw [List.length_drop, List.length_nil] at this
      omega
    simp only [Literal.chars, if_neg hne]
    rfl

theorem magnitude_literal (d : Decimal) : d.literal.decimal.magnitude = d.magnitude := by
  unfold literal
  split
  · rename_i h
    have hneg : (-d.exponent).toNat = 0 := by omega
    simp only [Literal.decimal, List.append_nil, numeralValue_append_zeros, numeralValue_numeral]
    simp [magnitude, hneg]
  · rename_i h
    have hlen := length_padded d.coefficient (-d.exponent).toNat
    simp only [Literal.decimal, List.take_append_drop, numeralValue_padded, List.length_drop]
    congr 2
    omega

/-- The literal that the positional notation is behind a minus sign, or behind none. -/
def signedLiteral (d : Decimal) (negative : Bool) : Literal :=
  { d.literal with sign := if negative then some .minus else none }

theorem signedLiteral_wellFormed (d : Decimal) (negative : Bool) : (d.signedLiteral negative).WellFormed :=
  ⟨d.literal_wellFormed.whole_ne, d.literal_wellFormed.whole_digit, d.literal_wellFormed.fraction_digit⟩

theorem chars_signedLiteral (d : Decimal) (negative : Bool) :
    (d.signedLiteral negative).chars = (if negative then ['-'] else []) ++ d.positional := by
  have hc := d.chars_literal
  rw [Literal.chars, sign_literal] at hc
  rw [← hc]
  cases negative <;> simp [signedLiteral, Literal.chars, Sign.char]

theorem value_signedLiteral (d : Decimal) (negative : Bool) :
    (d.signedLiteral negative).value = ofMagnitude negative d.magnitude := by
  have hs : decide ((d.signedLiteral negative).sign = some .minus) = negative := by cases negative <;> rfl
  rw [Literal.value, hs, ← d.magnitude_literal]
  rfl

end Decimal

/-! ## Magnitudes -/

/-- The definition as an equation of functions: with a variable for the magnitude
the kernel would evaluate `integer?` to compare the two sides. -/
theorem displayMagnitude_def : displayMagnitude = fun k =>
    match integer? k with
    | some n => numeral n
    | none => (Decimal.shortest k).positional := rfl

theorem displayMagnitude_of_some {k n : Nat} (h : integer? k = some n) : displayMagnitude k = numeral n := by
  rw [displayMagnitude_def]
  simp only [h]

theorem displayMagnitude_of_none {k : Nat} (h : integer? k = none) :
    displayMagnitude k = (Decimal.shortest k).positional := by
  rw [displayMagnitude_def]
  simp only [h]

theorem mul_of_integer? {k n : Nat} (h : integer? k = some n) : n * 2 ^ places = units k := by
  unfold integer? at h
  by_cases hm : units k % 2 ^ places = 0
  · rw [if_pos hm] at h
    rw [← Option.some.inj h, Nat.div_mul_cancel (Nat.dvd_of_mod_eq_zero hm)]
  · rw [if_neg hm] at h
    cases h

theorem magnitude_natural (n : Nat) {c : Nat} (hc : 0 < c) :
    (Decimal.mk n 0).magnitude = nearest (n * c) c := by
  calc (Decimal.mk n 0).magnitude
    _ = nearest n 1 := by
      rw [Decimal.magnitude, Int.toNat_zero, Int.neg_zero, Int.toNat_zero, Nat.pow_zero, Nat.mul_one]
    _ = nearest (n * c) (1 * c) := (nearest_mul_right _ _ hc).symm
    _ = nearest (n * c) c := by rw [Nat.one_mul]

theorem magnitude_integer {k n : Nat} (hk : k ≤ infinity) (h : integer? k = some n) :
    (Decimal.mk n 0).magnitude = k := by
  rw [magnitude_natural n (Nat.two_pow_pos places), mul_of_integer? h, nearest_units hk]

/-- A finite magnitude is shown as a decimal that reads back. -/
theorem exists_decimal {k : Nat} (hk : k ≤ infinity) :
    ∃ d : Decimal, displayMagnitude k = d.positional ∧ d.magnitude = k := by
  cases h : integer? k with
  | some n => exact ⟨⟨n, 0⟩, by simp [displayMagnitude_of_some h, Decimal.positional], magnitude_integer hk h⟩
  | none => exact ⟨.shortest k, displayMagnitude_of_none h, Decimal.magnitude_shortest hk⟩

/-! ## Doubles -/

/-- A double without the sign of zero. -/
def unsignedZero (x : Float) : Float := if x == 0 then 0 else x

theorem unsignedZero_beq {x : Float} (h : x.isFinite) : unsignedZero x == x := by
  unfold unsignedZero
  split
  · rename_i h₀
    exact zero_beq ((beq_zero_iff x).mp h₀)
  · exact beq_self h

/-- The sign that is shown puts the double together again, but for the sign of zero. -/
theorem ofMagnitude_shown (x : Float) :
    ofMagnitude (negative x && magnitude x != 0) (magnitude x) = unsignedZero x := by
  have hx := ofMagnitude_magnitude x
  rw [unsignedZero]
  by_cases h : magnitude x = 0
  · rw [if_pos ((beq_zero_iff x).mpr h), h, bne_self_eq_false, Bool.and_false]
    decide
  · rwa [if_neg (mt (beq_zero_iff x).mp h), bne_iff_ne.mpr h, Bool.and_true]

/-- The text of a finite double is its sign, unless it is zero, and its magnitude. -/
theorem displayNumber_eq {x : Float} (h : x.isFinite) :
    displayNumber x =
      .ofList ((if negative x && magnitude x != 0 then ['-'] else []) ++ displayMagnitude (magnitude x)) := by
  have hk := (isFinite_iff x).mp h
  simp only [displayNumber, numberText, if_neg (Nat.lt_asymm hk), if_neg (Nat.ne_of_lt hk)]

/-- The text of a finite double is a literal, and its value is the double. -/
theorem exists_literal {x : Float} (h : x.isFinite) :
    ∃ l : Literal, l.WellFormed ∧ l.sign ≠ some .plus ∧ displayNumber x = .ofList l.chars ∧
      l.value = unsignedZero x := by
  obtain ⟨d, hd, hm⟩ := exists_decimal (Nat.le_of_lt ((isFinite_iff x).mp h))
  refine ⟨d.signedLiteral (negative x && magnitude x != 0), d.signedLiteral_wellFormed _, ?_, ?_, ?_⟩
  · simp only [Decimal.signedLiteral]
    split <;> simp
  · rw [d.chars_signedLiteral, displayNumber_eq h, hd]
  · rw [d.value_signedLiteral, hm, ofMagnitude_shown]

end DeskCalc
