/-!
# Doubles as exact numbers

The bit pattern of a double without its sign is its *magnitude*. A finite
magnitude `k` stands for `units k` times 2^-1074, so every finite double is an
integer in those units, and magnitudes are ordered as the numbers they stand
for. `nearest` goes the other way: from a quotient of two naturals to the
magnitude closest to it.

Results:

* `nearest_mul_right`: only the ratio of the quotient counts.
* `nearest_units`: a double is the one nearest to itself.
-/
namespace DeskCalc.Binary64

-- Powers are those of the core library, whatever is imported beside this module.
attribute [default_instance 20000, instance (high)] instPowNat

/-- The magnitude of the infinities. Finite magnitudes lie below it, NaNs above. -/
def infinity : Nat := 2047 * 2 ^ 52

/-- The bit pattern without the sign. -/
def magnitude (x : Float) : Nat := x.toBits.toNat % 2 ^ 63

/-- The sign bit. Zero and NaN have one too. -/
def negative (x : Float) : Bool := decide (2 ^ 63 ≤ x.toBits.toNat)

/-- The double with the given sign and magnitude. -/
def ofMagnitude (negative : Bool) (k : Nat) : Float :=
  .ofBits (.ofNat (if negative then 2 ^ 63 + k else k))

/-! ## From magnitudes to numbers -/

/-- A finite double has no more places than this behind the point, in binary and
so in decimal. -/
def places : Nat := 1074

/-- Consecutive magnitudes around `k` lie `2 ^ scale k` units apart. -/
def scale (k : Nat) : Nat := k / 2 ^ 52 - 1

/-- The number a finite magnitude stands for, in units of 2^-1074. The
significand is what is left of `k` once the scale is taken out of it. -/
def units (k : Nat) : Nat := (k - scale k * 2 ^ 52) * 2 ^ scale k

theorem units_of_lt {k : Nat} (h : k < 2 ^ 53) : units k = k := by
  have : scale k = 0 := by unfold scale; omega
  simp [units, this]

theorem significand_bounds {k : Nat} (h : 2 ^ 53 ≤ k) :
    2 ^ 52 ≤ k - scale k * 2 ^ 52 ∧ k - scale k * 2 ^ 52 < 2 ^ 53 := by
  unfold scale; omega

/-! ## From numbers to magnitudes -/

/-- The quotient rounded to the nearest natural, a half to the even one. -/
def roundQuotient (num den : Nat) : Nat :=
  if 2 * (num % den) < den then num / den
  else if den < 2 * (num % den) then num / den + 1
  else num / den + num / den % 2

/-- The magnitude nearest to `num / den`, a tie to the even significand, and
infinity from half a step above the largest finite number on. A significand
that rounds up to 2^53 carries into the scale, as it should. -/
def nearest (num den : Nat) : Nat :=
  let u := num * 2 ^ places
  let s := (u / den).log2 - 52
  min infinity (s * 2 ^ 52 + roundQuotient u (den * 2 ^ s))

theorem roundQuotient_mul_right (num den : Nat) {c : Nat} (hc : 0 < c) :
    roundQuotient (num * c) (den * c) = roundQuotient num den := by
  have h₁ : 2 * (num % den * c) < den * c ↔ 2 * (num % den) < den := by
    rw [← Nat.mul_assoc]; exact Nat.mul_lt_mul_right hc
  have h₂ : den * c < 2 * (num % den * c) ↔ den < 2 * (num % den) := by
    rw [← Nat.mul_assoc]; exact Nat.mul_lt_mul_right hc
  simp only [roundQuotient, Nat.mul_mod_mul_right, Nat.mul_div_mul_right _ _ hc, h₁, h₂]

theorem roundQuotient_mul_self (m : Nat) {d : Nat} (hd : 0 < d) : roundQuotient (m * d) d = m := by
  simp [roundQuotient, hd]

theorem nearest_mul_right (num den : Nat) {c : Nat} (hc : 0 < c) :
    nearest (num * c) (den * c) = nearest num den := by
  simp only [nearest, Nat.mul_right_comm num c, Nat.mul_div_mul_right _ _ hc, Nat.mul_right_comm den c,
    roundQuotient_mul_right _ _ hc]

theorem log2_mul_two_pow {m s : Nat} (h₁ : 2 ^ 52 ≤ m) (h₂ : m < 2 ^ 53) :
    (m * 2 ^ s).log2 = 52 + s := by
  have h₀ : m * 2 ^ s ≠ 0 := Nat.mul_ne_zero (by omega) (Nat.ne_of_gt (Nat.two_pow_pos s))
  refine (Nat.log2_eq_iff h₀).mpr ⟨?_, ?_⟩
  · rw [Nat.pow_add]; exact Nat.mul_le_mul_right _ h₁
  · rw [show 52 + s + 1 = 53 + s by omega, Nat.pow_add]
    exact Nat.mul_lt_mul_of_pos_right h₂ (Nat.two_pow_pos s)

theorem nearest_units {k : Nat} (h : k ≤ infinity) : nearest (units k) (2 ^ places) = k := by
  have hp := Nat.two_pow_pos places
  simp only [nearest, Nat.mul_div_cancel _ hp]
  refine (congrArg (min infinity) ?_).trans (Nat.min_eq_right h)
  by_cases hk : k < 2 ^ 53
  · have hs : k.log2 - 52 = 0 := by
      by_cases h₀ : k = 0
      · simp [h₀]
      · have := (Nat.log2_lt h₀).mpr hk; omega
    rw [units_of_lt hk, hs, Nat.pow_zero, Nat.mul_one, roundQuotient_mul_self _ hp, Nat.zero_mul, Nat.zero_add]
  · obtain ⟨h₁, h₂⟩ := significand_bounds (Nat.le_of_not_lt hk)
    have hs : (units k).log2 - 52 = scale k := by
      rw [units, log2_mul_two_pow h₁ h₂, Nat.add_sub_cancel_left]
    rw [hs, units, Nat.mul_assoc, Nat.mul_comm (2 ^ scale k),
      roundQuotient_mul_self _ (Nat.mul_pos hp (Nat.two_pow_pos _))]
    omega

end DeskCalc.Binary64
