import DeskCalc.Proofs.Exact
import DeskCalc.Proofs.Fewest

/-!
# The text of a number

An integer is shown as its decimal numeral, however great, and anything else by the literal
of fewest digits that is rounded to it.

Results:
* `head_numeral`, `exists_numeral_eq`: the first and the last digit of a numeral.
* `Decimal.whole_literal`, `Decimal.fraction_literal`, `Decimal.significant_literal`: the
  digits of a decimal before the point, behind it, and from the first that counts.
* `integer?_eq_some_iff`: the magnitudes that are integers.
* `displayNumber_integer`: the text of an integer.
* `exists_canonical`: the text of anything else.
* `displayNumber_canonical`: the text of a finite double.
-/
namespace DeskCalc

open Binary64

/-! ## Numerals -/

/-- A numeral ends in the digit for what is left over by ten. -/
theorem exists_numeral_eq (n : ℕ) : ∃ ds, numeral n = ds ++ [(n % 10).digitChar] := by
  rcases Nat.lt_or_ge n 10 with hlt | hge
  · exact ⟨[], by rw [numeral, Nat.toDigits_of_lt_base hlt, Nat.mod_eq_of_lt hlt, List.nil_append]⟩
  · exact ⟨_, Nat.toDigits_of_base_le (by decide) hge⟩

theorem digitChar_ne_zero {n : ℕ} (h : n < 10) (hpos : 0 < n) : n.digitChar ≠ '0' := by
  interval_cases n <;> decide

/-- A numeral does not begin with a zero. -/
theorem head_numeral {n : ℕ} (hpos : 0 < n) : (numeral n).head? ≠ some '0' := by
  induction n using Nat.strongRecOn with
  | ind n ih =>
    rcases Nat.lt_or_ge n 10 with hlt | hge
    · rw [numeral, Nat.toDigits_of_lt_base hlt]
      simpa using digitChar_ne_zero hlt hpos
    · have hne : Nat.toDigits 10 (n / 10) ≠ [] := Nat.toDigits_ne_nil
      rw [numeral, Nat.toDigits_of_base_le (by decide) hge, List.head?_append_of_ne_nil _ hne]
      exact ih (n / 10) (by omega) (by omega)

/-- A number is written without superfluous zeros in front. -/
theorem dropWhile_numeral {n : ℕ} (hpos : 0 < n) : (numeral n).dropWhile (· == '0') = numeral n := by
  have hhead := head_numeral hpos
  cases h : numeral n with
  | nil => rfl
  | cons c cs =>
    rw [h, List.head?_cons] at hhead
    exact List.dropWhile_cons_of_neg (by simpa using hhead)

/-! ## Literals -/

/-- The digits of a literal from the first on that is not a zero. -/
def Literal.significant (l : Literal) : List Char := (l.whole ++ l.fraction).dropWhile (· == '0')

namespace Decimal

variable {d : Decimal}

theorem literal_of_neg (h : d.exponent < 0) :
    d.literal.whole ++ d.literal.fraction = padded d.coefficient (-d.exponent).toNat ∧
      d.literal.fraction.length = (-d.exponent).toNat := by
  have hlen := length_padded d.coefficient (-d.exponent).toNat
  rw [literal, if_neg (by omega)]
  exact ⟨List.take_append_drop _ _, by rw [List.length_drop]; omega⟩

/-- There is one zero before the point if there is nothing else, and otherwise none in front. -/
theorem whole_literal (h : d.exponent < 0) (hpos : 0 < d.coefficient) :
    d.literal.whole = ['0'] ∨ d.literal.whole.head? ≠ some '0' := by
  obtain ⟨happend, hlength⟩ := literal_of_neg h
  have hwhole := d.literal_wellFormed.whole_ne
  have hlen := congrArg List.length happend
  rw [List.length_append, hlength, padded, List.length_append, List.length_replicate] at hlen
  rcases Nat.lt_or_ge (-d.exponent).toNat (numeral d.coefficient).length with hlt | hge
  · -- no zeros are put in front
    rw [padded, show (-d.exponent).toNat + 1 - (numeral d.coefficient).length = 0 by omega,
      List.replicate_zero, List.nil_append] at happend
    have hhead := head_numeral hpos
    rw [← happend, List.head?_append_of_ne_nil _ hwhole] at hhead
    exact .inr hhead
  · obtain ⟨c, hc⟩ := List.length_eq_one_iff.mp (show d.literal.whole.length = 1 by omega)
    rw [hc, padded, show (-d.exponent).toNat + 1 - (numeral d.coefficient).length =
      (-d.exponent).toNat - (numeral d.coefficient).length + 1 by omega, List.replicate_succ] at happend
    rw [hc, (List.cons.inj happend).1]
    exact .inl rfl

/-- The fraction ends in the last digit of the coefficient. -/
theorem fraction_literal (h : d.exponent < 0) (hmod : d.coefficient % 10 ≠ 0) :
    d.literal.fraction ≠ [] ∧ d.literal.fraction.getLast? ≠ some '0' := by
  obtain ⟨happend, hlength⟩ := literal_of_neg h
  have hne : d.literal.fraction ≠ [] := List.ne_nil_of_length_pos (by omega)
  obtain ⟨ds, hds⟩ := exists_numeral_eq d.coefficient
  refine ⟨hne, ?_⟩
  rw [← List.getLast?_append_of_ne_nil d.literal.whole hne, happend, padded, hds, ← List.append_assoc,
    List.getLast?_concat]
  simpa using digitChar_ne_zero (Nat.mod_lt _ (by decide)) (by omega)

theorem significant_literal (h : d.exponent < 0) (hpos : 0 < d.coefficient) :
    d.literal.significant = numeral d.coefficient := by
  rw [Literal.significant, (literal_of_neg h).1, padded,
    List.dropWhile_append_of_pos fun c hc => by rw [List.eq_of_mem_replicate hc]; rfl, dropWhile_numeral hpos]

end Decimal

/-! ## Integers -/

variable {x : Float} {k n : ℕ}

theorem integer?_eq_some_iff : integer? k = some n ↔ units k = n * 2 ^ places := by
  refine ⟨fun h => (mul_of_integer? h).symm, fun h => ?_⟩
  rw [integer?, h, if_pos (Nat.mul_mod_left _ _), Nat.mul_div_cancel _ (Nat.two_pow_pos _)]

theorem abs_toRat (x : Float) : |toRat x| = units (magnitude x) / 2 ^ places := by
  rw [toRat_eq, abs_signed, abs_of_nonneg (units_div_nonneg _)]

theorem integer?_of_toRat {m : ℤ} (h : toRat x = m) : integer? (magnitude x) = some m.natAbs := by
  have habs := abs_toRat x
  rw [h, ← Int.cast_abs, ← Nat.cast_natAbs, eq_div_iff two_pow_places_pos.ne'] at habs
  refine integer?_eq_some_iff.mpr (Nat.cast_injective (R := ℚ) ?_)
  rw [Nat.cast_mul, Nat.cast_pow, Nat.cast_ofNat, habs]

theorem exists_toRat_eq_of_integer? (h : integer? (magnitude x) = some n) : ∃ m : ℤ, toRat x = m := by
  have hdiv : (units (magnitude x) / 2 ^ places : ℚ) = n := by
    rw [integer?_eq_some_iff.mp h, Nat.cast_mul, Nat.cast_pow, Nat.cast_ofNat,
      mul_div_cancel_right₀ _ two_pow_places_pos.ne']
  rw [toRat_eq, hdiv]
  cases negative x
  · exact ⟨n, rfl⟩
  · exact ⟨-n, by rw [Int.cast_neg, Int.cast_natCast]; rfl⟩

/-! ## The sign -/

theorem toRat_neg_iff (x : Float) : toRat x < 0 ↔ negative x ∧ magnitude x ≠ 0 := by
  have hpos : (0 : ℚ) < units (magnitude x) / 2 ^ places ↔ magnitude x ≠ 0 := by
    have := units_strictMono.lt_iff_lt (a := 0) (b := magnitude x)
    rw [units_zero] at this
    rw [div_pos_iff_of_pos_right two_pow_places_pos, Nat.cast_pos, this, Nat.pos_iff_ne_zero]
  have hnonneg := units_div_nonneg (magnitude x)
  rw [toRat_eq]
  cases negative x
  · simpa using hnonneg
  · simpa using hpos

/-- The minus sign is shown just if the number is negative. -/
theorem negative_shown (x : Float) : (negative x && magnitude x != 0) = decide (toRat x < 0) := by
  rw [Bool.eq_iff_iff, Bool.and_eq_true, bne_iff_ne, decide_eq_true_eq, toRat_neg_iff]

/-! ## The text -/

/-- An integer is shown as its numeral. -/
theorem displayNumber_integer (h : x.isFinite) {m : ℤ} (hm : toRat x = m) : displayNumber x = toString m := by
  have hneg : toRat x < 0 ↔ m < 0 := by rw [hm, Int.cast_lt_zero]
  rw [displayNumber_eq h, displayMagnitude_of_some (integer?_of_toRat hm), negative_shown]
  simp only [decide_eq_true_eq, hneg]
  cases m with
  | ofNat n => rfl
  | negSucc n =>
    rw [if_pos (Int.negSucc_lt_zero n), String.ofList_append]
    rfl

/-- The canonical literal of a double that is no integer. Before the point is a single zero or
digits that do not begin with one, the last digit behind it is not a zero, and a minus sign
stands in front just if the number is negative. The literal is rounded to the double, and so
read as it, and no decimal with fewer significant digits is. -/
structure Literal.Canonical (l : Literal) (x : Float) : Prop where
  wellFormed : l.WellFormed
  sign_eq : l.sign = if Binary64.toRat x < 0 then some .minus else none
  whole : l.whole = ['0'] ∨ l.whole.head? ≠ some '0'
  fraction_ne : l.fraction ≠ []
  fraction_last : l.fraction.getLast? ≠ some '0'
  value_eq : l.value = x
  rounds : RoundsTo l.toRat x
  fewest : ∀ c e : ℤ, RoundsTo (c * 10 ^ e) x → l.significant.length ≤ (numeral c.natAbs).length

/-- What is no integer is shown as its canonical literal. -/
theorem exists_canonical (h : x.isFinite) (hx : ¬ ∃ m : ℤ, toRat x = m) :
    ∃ l : Literal, l.Canonical x ∧ displayNumber x = .ofList l.chars := by
  have hk := (isFinite_iff x).mp h
  have hnone : integer? (magnitude x) = none := by
    cases hi : integer? (magnitude x) with
    | none => rfl
    | some n => exact absurd (exists_toRat_eq_of_integer? hi) hx
  have hpos : 0 < magnitude x := by
    refine Nat.pos_of_ne_zero fun hzero => ?_
    rw [hzero, integer?_eq_some_iff.mpr (show units 0 = 0 * 2 ^ places by rw [units_zero, Nat.zero_mul])] at hnone
    cases hnone
  have hmag := Decimal.magnitude_shortest hk.le
  have hexp := Decimal.exponent_shortest_neg hnone hk
  have hcoef := Decimal.coefficient_pos (hmag.symm ▸ hpos)
  have hvalue : ((Decimal.shortest (magnitude x)).signedLiteral (negative x)).value = x := by
    rw [Decimal.value_signedLiteral, hmag, ofMagnitude_magnitude]
  have hneg : negative x = decide (toRat x < 0) := by
    rw [← negative_shown, bne_iff_ne.mpr hpos.ne', Bool.and_true]
  refine ⟨(Decimal.shortest (magnitude x)).signedLiteral (negative x), ?_, ?_⟩
  · obtain ⟨hne, hlast⟩ := Decimal.fraction_literal hexp (Decimal.shortest_coefficient_mod hpos hk)
    refine ⟨Decimal.signedLiteral_wellFormed _ _, ?_, Decimal.whole_literal hexp hcoef, hne, hlast, hvalue, ?_,
      fun c e hround => ?_⟩
    · simp only [Decimal.signedLiteral, hneg, decide_eq_true_eq]
    · have := Literal.roundsTo_value (hvalue.symm ▸ h)
      rwa [hvalue] at this
    · have hsig := Decimal.significant_literal hexp hcoef
      change (Decimal.shortest (magnitude x)).literal.significant.length ≤ _
      rw [hsig]
      exact Decimal.length_shortest_le hpos hk (Decimal.magnitude_of_roundsTo hround)
  · rw [displayNumber_eq h, Decimal.chars_signedLiteral, displayMagnitude_of_none hnone, bne_iff_ne.mpr hpos.ne',
      Bool.and_true]

/-- A finite double that is an integer is shown as the numeral of the integer, both zeros as
`0`. Any other is shown as its canonical literal. So there is a point in the text just if the
double is no integer. -/
theorem displayNumber_canonical (x : Float) (h : x.isFinite) :
    ('.' ∉ (displayNumber x).toList ↔ ∃ m : ℤ, toRat x = m) ∧
    (∀ m : ℤ, toRat x = m → displayNumber x = toString m) ∧
    ((¬ ∃ m : ℤ, toRat x = m) → ∃ l : Literal, l.Canonical x ∧ displayNumber x = .ofList l.chars) := by
  refine ⟨⟨fun hpoint => ?_, fun hx => ?_⟩, fun m hm => displayNumber_integer h hm, exists_canonical h⟩
  · by_contra hx
    obtain ⟨l, hl, ht⟩ := exists_canonical h hx
    rw [ht, String.toList_ofList] at hpoint
    refine hpoint ?_
    simp [Literal.chars, hl.fraction_ne]
  · obtain ⟨m, hm⟩ := hx
    rw [displayNumber_eq h, displayMagnitude_of_some (integer?_of_toRat hm), String.toList_ofList]
    intro hpoint
    rcases List.mem_append.mp hpoint with hsign | hdigit
    · revert hsign
      split <;> decide
    · exact absurd (isDigit_of_mem_numeral hdigit) (by decide)

/-- The double nearest to 10^23 is not that number, the negative zero is shown without its
sign, and on the far side of -2^-44 the doubles lie twice as far apart as on the near one. -/
theorem displayNumber_canonical_of_three :
    toRat 1e23 = (99999999999999991611392 : ℤ) ∧ displayNumber 1e23 = "99999999999999991611392" ∧
    toRat (-0) = (0 : ℤ) ∧ displayNumber (-0) = "0" ∧
    toRat (-5.684341886080802e-14) = -1 / 2 ^ 44 ∧ (¬ ∃ m : ℤ, toRat (-5.684341886080802e-14) = m) ∧
    ∃ l : Literal, l.Canonical (-5.684341886080802e-14) ∧ .ofList l.chars = "-0.00000000000005684341886080802" := by
  obtain ⟨-, hbig, -⟩ := displayNumber_canonical 1e23 (by decide)
  obtain ⟨-, hzero, -⟩ := displayNumber_canonical (-0) (by decide)
  obtain ⟨hpoint, -, hrest⟩ := displayNumber_canonical (-5.684341886080802e-14) (by decide)
  have hbig' : toRat 1e23 = (99999999999999991611392 : ℤ) := by decide +kernel
  have hzero' : toRat (-0) = (0 : ℤ) := by decide +kernel
  have hpower : toRat (-5.684341886080802e-14) = -1 / 2 ^ 44 := by decide +kernel
  have htext : displayNumber (-5.684341886080802e-14) = "-0.00000000000005684341886080802" := by decide +kernel
  have hx : ¬ ∃ m : ℤ, toRat (-5.684341886080802e-14) = m := by
    rw [← hpoint, htext]
    decide
  obtain ⟨l, hl, ht⟩ := hrest hx
  exact ⟨hbig', hbig _ hbig', hzero', hzero _ hzero', hpower, hx, l, hl, ht.symm.trans htext⟩

end DeskCalc
