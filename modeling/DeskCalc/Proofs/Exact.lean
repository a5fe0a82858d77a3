import DeskCalc.Number.Literal
import DeskCalc.Proofs.Bits
import DeskCalc.Proofs.Rounding

/-!
# Doubles as rationals

The number that the bits of a double denote, and what it is for a number to be rounded to
a double, both said without the magnitudes; then what they are in terms of them.

Results:
* `toRat_eq`: a double is its sign and so many units.
* `roundsTo_iff`: a number is rounded to a double just if it has the double's sign and lies
  between the points half way to its neighbours.
* `Literal.roundsTo_value`: a literal is read by rounding.
* `Decimal.magnitude_of_roundsTo`: every decimal that is rounded to a double has its magnitude.
-/
namespace DeskCalc.Binary64

/-- The number that the bits of a finite double denote: by the sign bit, the exponent field
and the fraction field, which has a one in front of it unless the exponent field is zero. -/
def toRat (x : Float) : ℚ :=
  let bits := x.toBits.toNat
  let exponent : ℕ := bits / 2 ^ 52 % 2 ^ 11
  let fraction : ℚ := (bits % 2 ^ 52 : ℕ)
  (-1) ^ (bits / 2 ^ 63) *
    if exponent = 0 then fraction * (2 : ℚ) ^ (-1074 : ℤ)
    else (2 ^ 52 + fraction) * (2 : ℚ) ^ ((exponent : ℤ) - 1075)

/-- The number `q` is rounded to the double `x`: no finite double is nearer to it, and if
another one is as near, the significand of `x` is even. -/
structure RoundsTo (q : ℚ) (x : Float) : Prop where
  finite : x.isFinite
  /-- From half a step above the largest finite double on, numbers are rounded to infinity. -/
  in_range : |q| < 2 ^ 1024 - 2 ^ 970
  nearest : ∀ y : Float, y.isFinite → |q - toRat x| ≤ |q - toRat y|
  even_of_tie : ∀ y : Float, y.isFinite → |q - toRat x| = |q - toRat y| →
    toRat y = toRat x ∨ Even x.toBits.toNat

/-! ## By sign and magnitude -/

theorem units_zero : units 0 = 0 := units_of_lt (by decide)

theorem two_pow_places_pos : (0 : ℚ) < 2 ^ places := pow_pos two_pos places

theorem units_div_nonneg (k : ℕ) : (0 : ℚ) ≤ units k / 2 ^ places :=
  div_nonneg (Nat.cast_nonneg _) two_pow_places_pos.le

/-- What a sign does to a number. -/
def signed (negative : Bool) (q : ℚ) : ℚ := if negative then -q else q

@[simp] theorem signed_false (q : ℚ) : signed false q = q := rfl

@[simp] theorem signed_true (q : ℚ) : signed true q = -q := rfl

theorem toRat_eq (x : Float) : toRat x = signed (negative x) (units (magnitude x) / 2 ^ places) := by
  have hlt := x.toBits.toNat_lt
  have hplaces : (-1074 : ℤ) = -(places : ℤ) := rfl
  simp only [toRat, magnitude, negative, signed, decide_eq_true_eq]
  generalize x.toBits.toNat = b at hlt
  have habs : (if b / 2 ^ 52 % 2 ^ 11 = 0 then ((b % 2 ^ 52 : ℕ) : ℚ) * (2 : ℚ) ^ (-1074 : ℤ)
      else (2 ^ 52 + ((b % 2 ^ 52 : ℕ) : ℚ)) * (2 : ℚ) ^ (((b / 2 ^ 52 % 2 ^ 11 : ℕ) : ℤ) - 1075)) =
      units (b % 2 ^ 63) / 2 ^ places := by
    split
    · rw [units_of_lt (by omega), show b % 2 ^ 63 = b % 2 ^ 52 by omega, hplaces, zpow_neg, zpow_natCast,
        div_eq_mul_inv]
    · rename_i hexp
      obtain ⟨e, he⟩ : ∃ e, b / 2 ^ 52 % 2 ^ 11 = e + 1 := ⟨b / 2 ^ 52 % 2 ^ 11 - 1, by omega⟩
      have hk : b % 2 ^ 63 = e * 2 ^ 52 + (2 ^ 52 + b % 2 ^ 52) := by omega
      have hzpow : ((e + 1 : ℕ) - 1075 : ℤ) = (e : ℤ) - places := by simp [places]; omega
      rw [he, hk, units_step (by omega) (.inr (by omega)), hzpow, zpow_sub₀ two_ne_zero, zpow_natCast,
        zpow_natCast]
      push_cast
      ring
  rw [habs]
  split
  · rw [show b / 2 ^ 63 = 1 by omega, pow_one, neg_one_mul]
  · rw [show b / 2 ^ 63 = 0 by omega, pow_zero, one_mul]

theorem toBits_ofBits {b : UInt64} (h : b.toNat % 2 ^ 63 ≤ infinity) : (Float.ofBits b).toBits = b := by
  have hvalid : Float.Model.Format.binary64.Valid b.toBitVec := by
    refine ⟨fun hexp hman => absurd hman ?_⟩
    have hexp := congrArg BitVec.toNat hexp
    rw [toNat_unpackExponent, UInt64.toNat_toBitVec] at hexp
    change b.toNat / 2 ^ 52 % 2 ^ 11 = 2047 at hexp
    refine not_not_intro (BitVec.eq_of_toNat_eq ?_)
    rw [toNat_unpackMantissa, UInt64.toNat_toBitVec]
    change b.toNat % 2 ^ 52 = 0
    simp only [infinity] at h
    omega
  apply UInt64.toBitVec_inj.mp
  exact pack_unpack hvalid

theorem toNat_toBits_ofMagnitude (s : Bool) {k : ℕ} (h : k ≤ infinity) :
    (ofMagnitude s k).toBits.toNat = if s then 2 ^ 63 + k else k := by
  simp only [infinity] at h
  have hlt : (if s then 2 ^ 63 + k else k) < 2 ^ 64 := by split <;> omega
  have hnat : (UInt64.ofNat (if s then 2 ^ 63 + k else k)).toNat = if s then 2 ^ 63 + k else k :=
    UInt64.toNat_ofNat_of_lt' hlt
  rw [ofMagnitude, toBits_ofBits, hnat]
  rw [hnat]
  simp only [infinity]
  split <;> omega

theorem magnitude_ofMagnitude (s : Bool) {k : ℕ} (h : k ≤ infinity) : magnitude (ofMagnitude s k) = k := by
  rw [magnitude, toNat_toBits_ofMagnitude s h]
  simp only [infinity] at h
  split <;> omega

theorem negative_ofMagnitude (s : Bool) {k : ℕ} (h : k ≤ infinity) : negative (ofMagnitude s k) = s := by
  rw [negative, toNat_toBits_ofMagnitude s h]
  simp only [infinity] at h
  cases s <;> simp
  omega

theorem even_magnitude (x : Float) : Even (magnitude x) ↔ Even x.toBits.toNat := by
  rw [Nat.even_iff, Nat.even_iff, magnitude]
  omega

/-! ## Distances -/

section Distances

variable {q u p : ℚ} {s s' : Bool}

theorem signed_abs (q : ℚ) : q = signed (decide (q < 0)) |q| := by
  rcases lt_or_ge q 0 with h | h
  · simp [h, abs_of_neg h]
  · simp [not_lt.mpr h, abs_of_nonneg h]

@[simp] theorem signed_zero (s : Bool) : signed s 0 = 0 := by
  cases s <;> simp

theorem signed_inj : signed s q = signed s u ↔ q = u := by
  cases s <;> simp

theorem abs_signed (s : Bool) (q : ℚ) : |signed s q| = |q| := by
  cases s <;> simp

theorem signed_mul_signed_nonneg (hq : 0 ≤ q) (hu : 0 ≤ u) : 0 ≤ signed s q * signed s u := by
  cases s
  · exact mul_nonneg hq hu
  · simpa using mul_nonneg hq hu

theorem abs_sub_signed_self (hq : q = signed s |q|) (hp : 0 < p) :
    |q - signed s (u / p)| * p = |(|q| * p - u)| := by
  rw [← abs_of_pos hp, ← abs_mul, abs_of_pos hp]
  cases s
  · rw [show q = |q| from hq, abs_abs, signed_false, sub_mul, div_mul_cancel₀ _ hp.ne']
  · rw [show q = -|q| from hq, abs_neg, abs_abs, ← abs_neg, signed_true, ← neg_mul, neg_sub_neg, neg_sub, sub_mul,
      div_mul_cancel₀ _ hp.ne']

theorem abs_sub_signed_of_ne (hq : q = signed s |q|) (hs : s' ≠ s) (hp : 0 < p) (hu : 0 ≤ u) :
    |q - signed s' (u / p)| * p = |q| * p + u := by
  have hsum : 0 ≤ |q| * p + u := by positivity
  rw [← abs_of_pos hp, ← abs_mul, abs_of_pos hp]
  cases s <;> cases s' <;> simp only [ne_eq, not_true_eq_false] at hs
  · rw [show q = |q| from hq, abs_abs, signed_true, sub_neg_eq_add, add_mul, div_mul_cancel₀ _ hp.ne',
      abs_of_nonneg hsum]
  · rw [show q = -|q| from hq, abs_neg, abs_abs, ← abs_neg, signed_false, ← neg_mul, neg_sub, sub_neg_eq_add,
      add_comm, add_mul, div_mul_cancel₀ _ hp.ne', abs_of_nonneg hsum]

/-- Two numbers that are not of opposite signs have a sign in common, the sign of zero being
either. -/
theorem exists_sign (hu : 0 ≤ u) (h : 0 ≤ q * signed s u) : ∃ s', q = signed s' |q| ∧ signed s u = signed s' u := by
  rcases hu.eq_or_lt with rfl | hpos
  · exact ⟨decide (q < 0), signed_abs q, by rw [signed_zero, signed_zero]⟩
  · refine ⟨s, ?_, rfl⟩
    cases s
    · exact (abs_of_nonneg (nonneg_of_mul_nonneg_left h hpos)).symm
    · rw [signed_true, mul_neg, ← neg_mul] at h
      rw [signed_true, abs_of_nonpos (neg_nonneg.mp (nonneg_of_mul_nonneg_left h hpos)), neg_neg]

end Distances

/-! ## Rounding -/

variable {q : ℚ} {x : Float}

/-- The point half way from the largest finite double to what would follow it. -/
theorem limit_eq :
    (units (infinity - 1) + units infinity : ℚ) = 2 * ((2 ^ 1024 - 2 ^ 970) * 2 ^ places) := by
  have hlast : infinity - 1 = (970 + 1 + places) * 2 ^ 52 + (2 ^ 53 - 1) := rfl
  have hinf : infinity = (970 + 2 + places) * 2 ^ 52 + 2 ^ 52 := rfl
  rw [hlast, units_step (by decide) (.inr (by decide)), hinf, units_step (by decide) (.inr (by decide)),
    show 1024 = 54 + 970 from rfl]
  simp only [Nat.cast_mul, Nat.cast_pow, Nat.cast_ofNat, pow_add]
  generalize (2 : ℚ) ^ 970 = p
  generalize (2 : ℚ) ^ places = t
  ring

theorem toRat_zero : toRat 0 = 0 := by
  have : magnitude 0 = 0 := by decide
  rw [toRat_eq, this, units_zero, Nat.cast_zero, zero_div, signed_zero]

/-- A number that is rounded to a double is not of the opposite sign. -/
theorem RoundsTo.mul_nonneg (h : RoundsTo q x) : 0 ≤ q * toRat x := by
  by_contra hneg
  have hzero := h.nearest 0 (by decide)
  rw [toRat_zero, sub_zero, ← sq_le_sq] at hzero
  nlinarith [sq_nonneg (toRat x)]

/-- Among the doubles on one side of zero the distances are those of the magnitudes. -/
theorem RoundsTo.closest (h : RoundsTo q x) {k : ℕ} (hk : k < infinity) :
    |(|q| * 2 ^ places - units (magnitude x))| ≤ |(|q| * 2 ^ places - units k)| ∧
      (|(|q| * 2 ^ places - units (magnitude x))| = |(|q| * 2 ^ places - units k)| →
        k = magnitude x ∨ Even (magnitude x)) := by
  have hp := two_pow_places_pos
  obtain ⟨s, hq, hx⟩ := exists_sign (units_div_nonneg _) (toRat_eq x ▸ h.mul_nonneg)
  rw [← toRat_eq] at hx
  have hmag := magnitude_ofMagnitude s hk.le
  have hy : toRat (ofMagnitude s k) = signed s (units k / 2 ^ places) := by
    rw [toRat_eq, hmag, negative_ofMagnitude s hk.le]
  have hfinite : (ofMagnitude s k).isFinite := (isFinite_iff _).mpr (by rwa [hmag])
  have hnear := h.nearest _ hfinite
  have htie := h.even_of_tie _ hfinite
  rw [hx, hy] at hnear htie
  rw [← abs_sub_signed_self hq hp, ← abs_sub_signed_self hq hp, mul_le_mul_iff_left₀ hp, mul_left_inj' hp.ne',
    even_magnitude]
  refine ⟨hnear, fun heq => (htie heq).imp_left fun he => ?_⟩
  exact units_strictMono.injective (Nat.cast_injective ((div_left_inj' hp.ne').mp (signed_inj.mp he)))

/-- No double is nearer to a number than the one with its sign whose half steps it lies
between, and another one is as near only if that one is even. -/
theorem closest_toRat (hsign : 0 ≤ q * toRat x) (hbelow : NotBelow (magnitude x) (|q| * 2 ^ places))
    (habove : NotAbove (magnitude x) (|q| * 2 ^ places)) (y : Float) :
    |q - toRat x| ≤ |q - toRat y| ∧
      (|q - toRat x| = |q - toRat y| → toRat y = toRat x ∨ Even x.toBits.toNat) := by
  have hp := two_pow_places_pos
  obtain ⟨s, hq, hx⟩ := exists_sign (units_div_nonneg _) (toRat_eq x ▸ hsign)
  rw [← toRat_eq] at hx
  rw [← mul_le_mul_iff_left₀ hp, ← mul_left_inj' hp.ne', hx, toRat_eq y, abs_sub_signed_self hq hp,
    ← even_magnitude]
  by_cases hs : negative y = s
  · rw [hs, abs_sub_signed_self hq hp]
    obtain ⟨hle, htie⟩ := closest hbelow habove (magnitude y)
    refine ⟨hle, fun heq => (htie heq).imp_left fun he => ?_⟩
    rw [he]
  · -- on the other side of zero no double is nearer than zero
    rw [abs_sub_signed_of_ne hq hs hp (Nat.cast_nonneg _)]
    obtain ⟨hle, htie⟩ := closest hbelow habove 0
    have hv : 0 ≤ |q| * 2 ^ places := mul_nonneg (abs_nonneg q) hp.le
    have hy : (0 : ℚ) ≤ units (magnitude y) := Nat.cast_nonneg _
    rw [units_zero, Nat.cast_zero, sub_zero, abs_of_nonneg hv] at hle htie
    refine ⟨by linarith, fun heq => (htie (by linarith)).imp_left fun he => ?_⟩
    have hzero : (units (magnitude y) : ℚ) = 0 := by linarith
    rw [hzero, ← he, units_zero, Nat.cast_zero, zero_div, signed_zero, signed_zero]

/-- A number is rounded to a double just if it is not of the opposite sign and its absolute
value lies between the points half way to the neighbours of the double's magnitude. -/
theorem roundsTo_iff : RoundsTo q x ↔ x.isFinite ∧ 0 ≤ q * toRat x ∧
    NotBelow (magnitude x) (|q| * 2 ^ places) ∧ NotAbove (magnitude x) (|q| * 2 ^ places) := by
  have hp := two_pow_places_pos
  constructor
  · intro h
    refine ⟨h.finite, h.mul_nonneg, (notBelow_notAbove_iff ((isFinite_iff x).mp h.finite)).mpr
      ⟨?_, fun k hk => h.closest hk⟩⟩
    rw [limit_eq]
    exact mul_lt_mul_of_pos_left (mul_lt_mul_of_pos_right h.in_range hp) two_pos
  · intro h
    obtain ⟨hfinite, hsign, hbelow, habove⟩ := h
    have hnear := closest_toRat hsign hbelow habove
    refine ⟨hfinite, ?_, fun y _ => (hnear y).1, fun y _ => (hnear y).2⟩
    have hlimit := ((notBelow_notAbove_iff ((isFinite_iff x).mp hfinite)).mp ⟨hbelow, habove⟩).1
    rw [limit_eq] at hlimit
    exact lt_of_mul_lt_mul_right (lt_of_mul_lt_mul_left hlimit two_pos.le) hp.le

end DeskCalc.Binary64

namespace DeskCalc

open Binary64

/-- Every decimal that is rounded to a double is read as its magnitude. -/
theorem Decimal.magnitude_of_roundsTo {c e : ℤ} {x : Float} (h : RoundsTo (c * 10 ^ e) x) :
    (Decimal.mk c.natAbs e).magnitude = Binary64.magnitude x := by
  obtain ⟨hfinite, -, hround⟩ := roundsTo_iff.mp h
  have habs : |(c * 10 ^ e : ℚ)| = (Decimal.mk c.natAbs e).toRat := by
    have hpow : (0 : ℚ) < 10 ^ e := by positivity
    rw [abs_mul, abs_of_pos hpow, Decimal.toRat, Nat.cast_natAbs, Int.cast_abs]
  rw [habs] at hround
  exact (Decimal.magnitude_eq_iff _ ((isFinite_iff x).mp hfinite)).mpr hround

/-- The number that a literal is. -/
def Literal.toRat (l : Literal) : ℚ := signed (l.sign = some .minus) l.decimal.toRat

/-- A literal is read by rounding the number that it is. -/
theorem Literal.roundsTo_value {l : Literal} (h : l.value.isFinite) : RoundsTo l.toRat l.value := by
  have hle : l.decimal.magnitude ≤ infinity := nearest_le _ _
  have hmag : magnitude l.value = l.decimal.magnitude := magnitude_ofMagnitude _ hle
  have hneg : negative l.value = decide (l.sign = some .minus) := negative_ofMagnitude _ hle
  have hnonneg : 0 ≤ l.decimal.toRat := mul_nonneg (Nat.cast_nonneg _) (zpow_nonneg (by norm_num) _)
  have habs : |l.toRat| = l.decimal.toRat := by rw [toRat, abs_signed, abs_of_nonneg hnonneg]
  refine roundsTo_iff.mpr ⟨h, ?_, ?_⟩
  · rw [toRat, toRat_eq, hneg]
    exact signed_mul_signed_nonneg hnonneg (units_div_nonneg _)
  · rw [habs, hmag]
    exact (Decimal.magnitude_eq_iff _ (hmag ▸ (isFinite_iff _).mp h)).mp rfl

end DeskCalc
