import Mathlib
import DeskCalc.Number.Decimal

/-!
# Rounding to the nearest double

Magnitudes are numbers in steps: from `k` to `k + 1` the number grows by one step of its
scale. Half way between two of them lies the point where rounding changes from one to the
other, and the point itself goes to the even one.

Results:
* `units_strictMono`: magnitudes are in the order of their numbers.
* `exists_units_eq`: what is short enough in binary is a double.
* `nearest_spec`: where a number lies that is rounded to a magnitude.
* `nearest_eq_iff`: a number is rounded to a finite magnitude just if it lies between the
  points half way to its two neighbours.
* `Decimal.magnitude_mono`: reading a decimal keeps the order.
-/
namespace DeskCalc.Binary64

/-! ## Steps -/

theorem units_step {s m : ℕ} (hm : m ≤ 2 ^ 53) (hs : s = 0 ∨ 2 ^ 52 ≤ m) :
    units (s * 2 ^ 52 + m) = m * 2 ^ s := by
  rcases Nat.lt_or_eq_of_le hm with hlt | rfl
  · have hscale : scale (s * 2 ^ 52 + m) = s := by unfold scale; omega
    rw [units, hscale, Nat.add_sub_cancel_left]
  · -- the significand has carried into the scale
    have hscale : scale (s * 2 ^ 52 + 2 ^ 53) = s + 1 := by unfold scale; omega
    rw [units, hscale, show s * 2 ^ 52 + 2 ^ 53 - (s + 1) * 2 ^ 52 = 2 ^ 52 by omega, Nat.pow_succ]
    omega

/-- Every magnitude by its scale and its significand. -/
theorem exists_step (k : ℕ) : ∃ s m, k = s * 2 ^ 52 + m ∧ m < 2 ^ 53 ∧ (s = 0 ∨ 2 ^ 52 ≤ m) := by
  refine ⟨scale k, k - scale k * 2 ^ 52, ?_, ?_, ?_⟩ <;> unfold scale <;> omega

theorem units_succ (k : ℕ) : ∃ step, 0 < step ∧ units (k + 1) = units k + step ∧ (0 < k → step ≤ units k) := by
  obtain ⟨s, m, rfl, hm, hs⟩ := exists_step k
  refine ⟨2 ^ s, Nat.two_pow_pos s, ?_, fun hpos => ?_⟩
  · rw [Nat.add_assoc, units_step hm (hs.imp_right Nat.le_succ_of_le), units_step hm.le hs, Nat.succ_mul]
  · rw [units_step hm.le hs]
    exact Nat.le_mul_of_pos_left _ (by omega)

theorem units_strictMono : StrictMono units :=
  strictMono_nat_of_lt_succ fun k => by
    obtain ⟨step, hpos, hstep, -⟩ := units_succ k
    omega

theorem units_succ_le (k : ℕ) (h : 0 < k) : units (k + 1) ≤ 2 * units k := by
  obtain ⟨step, -, hstep, hle⟩ := units_succ k
  have := hle h
  omega

/-- A number of at most 53 binary digits is the number of a magnitude. -/
theorem exists_units_eq (s : ℕ) {m : ℕ} (hm : m ≤ 2 ^ 53) : ∃ k, units k = m * 2 ^ s := by
  induction s generalizing m with
  | zero => exact ⟨_, units_step hm (.inl rfl)⟩
  | succ s ih =>
    rcases Nat.lt_or_ge m (2 ^ 52) with hlt | hge
    · obtain ⟨k, hk⟩ := ih (m := 2 * m) (by omega)
      exact ⟨k, by rw [hk, Nat.pow_succ]; ring⟩
    · exact ⟨_, units_step hm (.inr hge)⟩

/-! ## The points half way -/

/-- So many units are not rounded below `k`: they are past the point half way up to it, or
on that point and `k` is even. -/
def NotBelow (k : ℕ) (v : ℚ) : Prop :=
  ∀ i, i + 1 = k → (units i + units k : ℚ) < 2 * v ∨ (units i + units k : ℚ) = 2 * v ∧ Even k

/-- So many units are not rounded above `k`: they fall short of the point half way to the
next magnitude, or are on that point and `k` is even. -/
def NotAbove (k : ℕ) (v : ℚ) : Prop :=
  2 * v < units k + units (k + 1) ∨ 2 * v = units k + units (k + 1) ∧ Even k

variable {k k' : ℕ} {v v' : ℚ}

theorem NotBelow.mono (h : NotBelow k v) (hv : v ≤ v') : NotBelow k v' := by
  intro i hi
  rcases h i hi with hlt | ⟨heq, heven⟩
  · exact .inl (by linarith)
  · rcases hv.lt_or_eq with hlt | rfl
    · exact .inl (by linarith)
    · exact .inr ⟨heq, heven⟩

theorem units_lt_cast (h : k < k') : (units k : ℚ) < units k' := by
  exact_mod_cast units_strictMono h

theorem units_le_cast (h : k ≤ k') : (units k : ℚ) ≤ units k' := by
  exact_mod_cast units_strictMono.monotone h

theorem notBelow_of_le (h : (units k : ℚ) ≤ v) : NotBelow k v := by
  intro i hi
  have := units_lt_cast (show i < k by omega)
  exact .inl (by linarith)

theorem notAbove_of_le (h : v ≤ units k) : NotAbove k v := by
  have := units_lt_cast (Nat.lt_add_one k)
  exact .inl (by linarith)

/-- The point half way between two neighbours belongs to one of them only. -/
theorem not_lt_of_notBelow (hk : NotAbove k v) (hk' : NotBelow k' v) : ¬ k < k' := by
  intro hlt
  obtain ⟨i, rfl⟩ : ∃ i, k' = i + 1 := ⟨k' - 1, by omega⟩
  have h₁ := units_le_cast (show k ≤ i by omega)
  have h₂ := units_le_cast (show k + 1 ≤ i + 1 by omega)
  rcases hk with habove | ⟨habove, heven⟩ <;> rcases hk' i rfl with hbelow | ⟨hbelow, heven'⟩
  all_goals try linarith
  rcases Nat.lt_or_eq_of_le (show k ≤ i by omega) with hlt | rfl
  · have := units_lt_cast hlt
    linarith
  · grind

/-! ## Being nearest -/

section Nearest

variable {a b w : ℚ}

theorem abs_sub_le_iff_of_lt (h : a < b) : |w - a| ≤ |w - b| ↔ 2 * w ≤ a + b := by
  rw [← sq_le_sq]
  constructor <;> intro <;> nlinarith

theorem abs_sub_le_iff_of_gt (h : a < b) : |w - b| ≤ |w - a| ↔ a + b ≤ 2 * w := by
  rw [← sq_le_sq]
  constructor <;> intro <;> nlinarith

theorem abs_sub_eq_iff_of_lt (h : a < b) : |w - a| = |w - b| ↔ 2 * w = a + b := by
  rw [le_antisymm_iff, abs_sub_le_iff_of_lt h, abs_sub_le_iff_of_gt h, ← le_antisymm_iff]

end Nearest

theorem NotAbove.mono (h : NotAbove k v) (hk : k ≤ k') : NotAbove k' v := by
  rcases Nat.lt_or_eq_of_le hk with hlt | rfl
  · have h₁ := units_lt_cast hlt
    have h₂ := units_lt_cast (show k + 1 < k' + 1 by omega)
    exact .inl (by rcases h with h | ⟨h, -⟩ <;> linarith)
  · exact h

theorem NotAbove.le (h : NotAbove k v) : 2 * v ≤ units k + units (k + 1) := by
  rcases h with h | ⟨h, -⟩
  · exact h.le
  · exact h.le

theorem NotBelow.le {i : ℕ} (h : NotBelow (i + 1) v) : (units i + units (i + 1) : ℚ) ≤ 2 * v := by
  rcases h i rfl with h | ⟨h, -⟩
  · exact h.le
  · exact h.le

/-- No magnitude is nearer to a number than the one whose half steps it lies between, and
another one is as near only if that one is even. -/
theorem closest (hbelow : NotBelow k v) (habove : NotAbove k v) (k' : ℕ) :
    |v - units k| ≤ |v - units k'| ∧ (|v - units k| = |v - units k'| → k' = k ∨ Even k) := by
  rcases Nat.lt_trichotomy k' k with hlt | rfl | hlt
  · obtain ⟨i, rfl⟩ : ∃ i, k = i + 1 := ⟨k - 1, by omega⟩
    have hi := units_le_cast (show k' ≤ i by omega)
    have hk := units_lt_cast hlt
    refine ⟨(abs_sub_le_iff_of_gt hk).mpr (by linarith [hbelow.le]), fun heq => .inr ?_⟩
    have heq := (abs_sub_eq_iff_of_lt hk).mp heq.symm
    rcases hbelow i rfl with h | ⟨-, heven⟩
    · linarith
    · exact heven
  · exact ⟨le_rfl, fun _ => .inl rfl⟩
  · have hi := units_le_cast (show k + 1 ≤ k' by omega)
    have hk := units_lt_cast hlt
    refine ⟨(abs_sub_le_iff_of_lt hk).mpr (by linarith [habove.le]), fun heq => .inr ?_⟩
    have heq := (abs_sub_eq_iff_of_lt hk).mp heq
    rcases habove with h | ⟨-, heven⟩
    · linarith
    · exact heven

theorem notBelow_of_nearer {i : ℕ} (hle : |v - units (i + 1)| ≤ |v - units i|)
    (htie : |v - units (i + 1)| = |v - units i| → Even (i + 1)) : NotBelow (i + 1) v := by
  intro i' hi
  obtain rfl : i' = i := Nat.succ.inj hi
  have hlt := units_lt_cast (Nat.lt_add_one i')
  rcases ((abs_sub_le_iff_of_gt hlt).mp hle).lt_or_eq with h | heq
  · exact .inl h
  · exact .inr ⟨heq, htie ((abs_sub_eq_iff_of_lt hlt).mpr heq.symm).symm⟩

theorem notAbove_of_nearer (hle : |v - units k| ≤ |v - units (k + 1)|)
    (htie : |v - units k| = |v - units (k + 1)| → Even k) : NotAbove k v := by
  have hlt := units_lt_cast (Nat.lt_add_one k)
  rcases ((abs_sub_le_iff_of_lt hlt).mp hle).lt_or_eq with h | heq
  · exact .inl h
  · exact .inr ⟨heq, htie ((abs_sub_eq_iff_of_lt hlt).mpr heq)⟩

/-- The half steps around a finite magnitude, said by distances: below the point half way to
infinity, no finite magnitude is nearer and none is as near unless this one is even. -/
theorem notBelow_notAbove_iff (hk : k < infinity) :
    NotBelow k v ∧ NotAbove k v ↔
      2 * v < units (infinity - 1) + units infinity ∧
        ∀ k' < infinity, |v - units k| ≤ |v - units k'| ∧
          (|v - units k| = |v - units k'| → k' = k ∨ Even k) := by
  have hlast : infinity - 1 + 1 = infinity := rfl
  constructor
  · intro h
    obtain ⟨hbelow, habove⟩ := h
    refine ⟨?_, fun k' _ => closest hbelow habove k'⟩
    -- the largest finite magnitude is odd, so a tie between it and infinity leaves the range
    rcases habove.mono (show k ≤ infinity - 1 by omega) with hlt | ⟨-, heven⟩
    · rwa [hlast] at hlt
    · exact absurd heven (by decide)
  · intro h
    obtain ⟨hlimit, hnear⟩ := h
    constructor
    · rintro i rfl
      obtain ⟨hle, htie⟩ := hnear i (by omega)
      exact notBelow_of_nearer hle (fun heq => (htie heq).resolve_left (by omega)) i rfl
    · rcases Nat.lt_or_eq_of_le (Nat.succ_le_of_lt hk) with hlt | heq
      · obtain ⟨hle, htie⟩ := hnear (k + 1) hlt
        exact notAbove_of_nearer hle fun heq => (htie heq).resolve_left (by omega)
      · obtain rfl : k = infinity - 1 := by omega
        exact .inl hlimit

/-! ## Rounding -/

/-- The digits of a number that the significand has room for. -/
theorem significand_quotient (n : ℕ) :
    n / 2 ^ (n.log2 - 52) < 2 ^ 53 ∧ (n.log2 - 52 = 0 ∨ 2 ^ 52 ≤ n / 2 ^ (n.log2 - 52)) := by
  have hpow := Nat.two_pow_pos (n.log2 - 52)
  constructor
  · rw [Nat.div_lt_iff_lt_mul hpow, ← Nat.pow_add]
    exact Nat.lt_of_lt_of_le Nat.lt_log2_self (Nat.pow_le_pow_right (by decide) (by omega))
  · rcases Nat.eq_zero_or_pos (n.log2 - 52) with hzero | hpos
    · exact .inl hzero
    · refine .inr ?_
      rw [Nat.le_div_iff_mul_le hpow, ← Nat.pow_add, show 52 + (n.log2 - 52) = n.log2 by omega]
      refine Nat.log2_self_le fun hn => ?_
      rw [hn, Nat.log2_zero] at hpos
      omega

/-- The two magnitudes around a number, and which of them it is rounded to. -/
theorem exists_bracket (num : ℕ) {den : ℕ} (hden : 0 < den) :
    ∃ a, units a * den ≤ num * 2 ^ places ∧ num * 2 ^ places < units (a + 1) * den ∧
      nearest num den = min infinity
        (if 2 * (num * 2 ^ places) < (units a + units (a + 1)) * den then a
          else if (units a + units (a + 1)) * den < 2 * (num * 2 ^ places) then a + 1
          else a + a % 2) := by
  simp only [nearest]
  generalize num * 2 ^ places = u
  obtain ⟨hlt, hge⟩ := significand_quotient (u / den)
  rw [Nat.div_div_eq_div_mul] at hlt hge
  generalize (u / den).log2 - 52 = s at hlt hge
  have hdiv := Nat.div_add_mod u (den * 2 ^ s)
  have hmod := Nat.mod_lt u (Nat.mul_pos hden (Nat.two_pow_pos s))
  generalize hm : u / (den * 2 ^ s) = m at hlt hge hdiv
  have hunits : units (s * 2 ^ 52 + m) = m * 2 ^ s := units_step hlt.le hge
  have hunits' : units (s * 2 ^ 52 + m + 1) = m * 2 ^ s + 2 ^ s := by
    rw [Nat.add_assoc, units_step hlt (hge.imp_right Nat.le_succ_of_le), Nat.succ_mul]
  have hlow : m * 2 ^ s * den = den * 2 ^ s * m := by ring
  have hhigh : (m * 2 ^ s + 2 ^ s) * den = den * 2 ^ s * m + den * 2 ^ s := by ring
  have hsum : (m * 2 ^ s + (m * 2 ^ s + 2 ^ s)) * den = 2 * (den * 2 ^ s * m) + den * 2 ^ s := by ring
  refine ⟨s * 2 ^ 52 + m, ?_, ?_, ?_⟩
  · rw [hunits, hlow]
    omega
  · rw [hunits', hhigh]
    omega
  · rw [hunits, hunits', hsum, roundQuotient, hm]
    congr 1
    split_ifs <;> omega

/-- The same with the number as a rational. -/
theorem exists_bracket_cast (num : ℕ) {den : ℕ} (hden : 0 < den) (hv : (num * 2 ^ places / den : ℚ) = v) :
    ∃ a, (units a : ℚ) ≤ v ∧ v < units (a + 1) ∧
      nearest num den = min infinity
        (if 2 * v < units a + units (a + 1) then a
          else if (units a + units (a + 1) : ℚ) < 2 * v then a + 1
          else a + a % 2) := by
  obtain ⟨a, hlow, hhigh, hnearest⟩ := exists_bracket num hden
  have hden' : (0 : ℚ) < den := by exact_mod_cast hden
  have hu : ((num * 2 ^ places : ℕ) : ℚ) = v * den := by
    rw [← hv, div_mul_cancel₀ _ hden'.ne', Nat.cast_mul, Nat.cast_pow, Nat.cast_ofNat]
  generalize num * 2 ^ places = u at hu hlow hhigh hnearest
  have half₁ : 2 * v < units a + units (a + 1) ↔ 2 * u < (units a + units (a + 1)) * den := by
    rw [← mul_lt_mul_iff_left₀ hden', mul_assoc, ← hu]
    exact_mod_cast Iff.rfl
  have half₂ : (units a + units (a + 1) : ℚ) < 2 * v ↔ (units a + units (a + 1)) * den < 2 * u := by
    rw [← mul_lt_mul_iff_left₀ hden', mul_assoc 2, ← hu]
    exact_mod_cast Iff.rfl
  refine ⟨a, ?_, ?_, ?_⟩
  · refine le_of_mul_le_mul_right ?_ hden'
    rw [← hu]
    exact_mod_cast hlow
  · refine lt_of_mul_lt_mul_right ?_ hden'.le
    rw [← hu]
    exact_mod_cast hhigh
  · simp only [half₁, half₂, hnearest]

/-- Where a number lies that is rounded to a magnitude. -/
theorem nearest_spec (num : ℕ) {den : ℕ} (hden : 0 < den) :
    NotBelow (nearest num den) (num * 2 ^ places / den) ∧
      (nearest num den < infinity → NotAbove (nearest num den) (num * 2 ^ places / den)) := by
  generalize hv : (num * 2 ^ places / den : ℚ) = v
  obtain ⟨a, hlow, hhigh, hnearest⟩ := exists_bracket_cast num hden hv
  rw [hnearest]
  rcases Nat.lt_or_ge a infinity with hfinite | hinfinite
  · -- one of the two neighbours, and the number lies on its side of the point half way
    have stays (h : NotAbove a v) :
        NotBelow (min infinity a) v ∧ (min infinity a < infinity → NotAbove (min infinity a) v) := by
      rw [Nat.min_eq_right hfinite.le]
      exact ⟨notBelow_of_le hlow, fun _ => h⟩
    have goes (h : (units a + units (a + 1) : ℚ) < 2 * v ∨ (units a + units (a + 1) : ℚ) = 2 * v ∧ Even (a + 1)) :
        NotBelow (min infinity (a + 1)) v ∧
          (min infinity (a + 1) < infinity → NotAbove (min infinity (a + 1)) v) := by
      rw [Nat.min_eq_right hfinite]
      refine ⟨fun i hi => ?_, fun _ => notAbove_of_le hhigh.le⟩
      obtain rfl : i = a := by omega
      exact h
    split_ifs with h₁ h₂
    · exact stays (.inl h₁)
    · exact goes (.inl h₂)
    · have htie : 2 * v = units a + units (a + 1) := le_antisymm (not_lt.mp h₂) (not_lt.mp h₁)
      rcases Nat.mod_two_eq_zero_or_one a with heven | hodd
      · rw [heven]
        exact stays (.inr ⟨htie, Nat.even_iff.mpr heven⟩)
      · rw [hodd]
        exact goes (.inr ⟨htie.symm, Nat.even_iff.mpr (by omega)⟩)
  · rw [Nat.min_eq_left (by split_ifs <;> omega)]
    exact ⟨notBelow_of_le ((units_le_cast hinfinite).trans hlow), fun h => absurd h (lt_irrefl _)⟩

theorem nearest_le (num den : ℕ) : nearest num den ≤ infinity := Nat.min_le_left _ _

/-- A number is rounded to a finite magnitude just if it is on the magnitude's side of the
points half way to the two next to it. -/
theorem nearest_eq_iff (num : ℕ) {den k : ℕ} (hden : 0 < den) (hk : k < infinity) :
    nearest num den = k ↔
      NotBelow k (num * 2 ^ places / den) ∧ NotAbove k (num * 2 ^ places / den) := by
  obtain ⟨hbelow, habove⟩ := nearest_spec num hden
  refine ⟨?_, fun h => ?_⟩
  · rintro rfl
    exact ⟨hbelow, habove hk⟩
  · obtain ⟨hbelow', habove'⟩ := h
    have hle := not_lt_of_notBelow habove' hbelow
    exact Nat.le_antisymm (Nat.le_of_not_lt hle)
      (Nat.le_of_not_lt fun hlt => not_lt_of_notBelow (habove (hlt.trans hk)) hbelow' hlt)

theorem nearest_mono {num num' den den' : ℕ} (hden : 0 < den) (hden' : 0 < den')
    (h : (num / den : ℚ) ≤ num' / den') : nearest num den ≤ nearest num' den' := by
  refine Nat.le_of_not_lt fun hlt => ?_
  have hle : (num * 2 ^ places / den : ℚ) ≤ num' * 2 ^ places / den' := by
    rw [mul_div_right_comm, mul_div_right_comm]
    exact mul_le_mul_of_nonneg_right h (by positivity)
  exact not_lt_of_notBelow ((nearest_spec num' hden').2 (hlt.trans_le (nearest_le _ _)))
    ((nearest_spec num hden).1.mono hle) hlt

end DeskCalc.Binary64

namespace DeskCalc.Decimal

open Binary64

/-- The number that a decimal is. -/
def toRat (d : Decimal) : ℚ := d.coefficient * 10 ^ d.exponent

theorem toRat_eq (d : Decimal) :
    d.toRat = (d.coefficient * 10 ^ d.exponent.toNat : ℕ) / (10 ^ (-d.exponent).toNat : ℕ) := by
  rw [toRat, ← Int.toNat_sub_toNat_neg d.exponent, zpow_sub₀ (by norm_num), zpow_natCast, zpow_natCast,
    Int.toNat_sub_toNat_neg, mul_div_assoc']
  push_cast
  rfl

/-- A decimal is read as a finite magnitude just if it is on the magnitude's side of the
points half way to the two next to it. -/
theorem magnitude_eq_iff (d : Decimal) {k : ℕ} (hk : k < infinity) :
    d.magnitude = k ↔ NotBelow k (d.toRat * 2 ^ places) ∧ NotAbove k (d.toRat * 2 ^ places) := by
  rw [magnitude, nearest_eq_iff _ (Nat.pow_pos (by decide)) hk, toRat_eq, div_mul_eq_mul_div]

/-- Reading a decimal keeps the order. -/
theorem magnitude_mono {d d' : Decimal} (h : d.toRat ≤ d'.toRat) : d.magnitude ≤ d'.magnitude := by
  rw [toRat_eq, toRat_eq] at h
  exact nearest_mono (Nat.pow_pos (by decide)) (Nat.pow_pos (by decide)) h

/-- What lies between two decimals that are read alike is read as they are. -/
theorem magnitude_eq_of_between {d₁ d d₂ : Decimal} {k : ℕ} (h₁ : d₁.magnitude = k) (h₂ : d₂.magnitude = k)
    (hle₁ : d₁.toRat ≤ d.toRat) (hle₂ : d.toRat ≤ d₂.toRat) : d.magnitude = k :=
  Nat.le_antisymm (h₂ ▸ magnitude_mono hle₂) (h₁ ▸ magnitude_mono hle₁)

end DeskCalc.Decimal
