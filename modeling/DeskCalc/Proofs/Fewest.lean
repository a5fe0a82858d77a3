import DeskCalc.Proofs.Readback
import DeskCalc.Proofs.Rounding

/-!
# The fewest digits

Reading keeps the order, so what is read as one magnitude lies together. A grid that has a
point read as the magnitude therefore has one next to it, and the search finds it there. So
the grid that it ends on is the coarsest one of all that has such a point.

Results:
* `search_spec`: no grid that the search has passed has a point that is read as the magnitude.
* `magnitude_ne_of_coarser`: nor has any other grid above the one it ends on.
* `length_shortest_le`: no decimal of fewer digits is read as the magnitude.
* `shortest_coefficient_mod`: the last digit is not a zero.
* `exponent_shortest_neg`: what is no integer has digits behind the point.
-/
namespace DeskCalc.Decimal

open Binary64

variable {k w j : ℕ} {d : Decimal}

/-! ## Grids -/

theorem toRat_onGrid (c j : ℕ) : (onGrid c j).toRat = (c * 10 ^ j : ℕ) / 10 ^ places := by
  rw [toRat, onGrid, zpow_sub₀ (by norm_num), zpow_natCast, zpow_natCast, mul_div_assoc', Nat.cast_mul,
    Nat.cast_pow, Nat.cast_ofNat]

theorem toRat_onGrid_le {c c' j j' : ℕ} (h : c * 10 ^ j ≤ c' * 10 ^ j') :
    (onGrid c j).toRat ≤ (onGrid c' j').toRat := by
  rw [toRat_onGrid, toRat_onGrid]
  exact div_le_div_of_nonneg_right (by exact_mod_cast h) (by positivity)

/-- If a point of a grid is read as `w` units are, so is one of the two around them. -/
theorem neighbour?_ne_none {c : ℕ} (hw : (onGrid w 0).magnitude = k) (hc : (onGrid c j).magnitude = k) :
    neighbour? k w j ≠ none := by
  have hdiv := Nat.div_add_mod w (10 ^ j)
  have hmod := Nat.mod_lt w (Nat.pow_pos (n := j) (show 0 < 10 by decide))
  rcases Nat.lt_or_ge (w / 10 ^ j) c with hlt | hge
  · have habove : (onGrid (w / 10 ^ j + 1) j).magnitude = k := by
      refine magnitude_eq_of_between hw hc (toRat_onGrid_le ?_) (toRat_onGrid_le (Nat.mul_le_mul_right _ hlt))
      rw [Nat.pow_zero, Nat.mul_one, Nat.add_mul, Nat.one_mul, Nat.mul_comm (w / 10 ^ j)]
      omega
    simp only [neighbour?]
    split_ifs <;> simp
  · have hbelow : (onGrid (w / 10 ^ j) j).magnitude = k := by
      refine magnitude_eq_of_between hc hw (toRat_onGrid_le (Nat.mul_le_mul_right _ hge)) (toRat_onGrid_le ?_)
      rw [Nat.pow_zero, Nat.mul_one, Nat.mul_comm (w / 10 ^ j)]
      omega
    simp only [neighbour?, if_pos hbelow]
    split_ifs <;> simp

theorem exists_of_neighbour? (h : neighbour? k w j = some d) : ∃ c, d = onGrid c j := by
  simp only [neighbour?] at h
  split_ifs at h <;> cases h <;> exact ⟨_, rfl⟩

/-- The grid that the search ends on, and that none it has passed has a point that is read as
the magnitude. -/
theorem search_spec (hw : (onGrid w 0).magnitude = k) (top : ℕ) :
    ∃ c j, search k w top = onGrid c j ∧ j ≤ top ∧
      ∀ c' j', j < j' → j' ≤ top → (onGrid c' j').magnitude ≠ k := by
  induction top with
  | zero => exact ⟨w, 0, rfl, le_rfl, fun _ _ h h' => absurd h (by omega)⟩
  | succ top ih =>
    rw [search]
    cases hn : neighbour? k w (top + 1) with
    | some d =>
      obtain ⟨c, hc⟩ := exists_of_neighbour? hn
      exact ⟨c, top + 1, hc, le_rfl, fun _ _ h h' => absurd h (by omega)⟩
    | none =>
      obtain ⟨c, j, hs, hj, hnone⟩ := ih
      refine ⟨c, j, hs, by omega, fun c' j' hlt hle hc' => ?_⟩
      rcases Nat.lt_or_eq_of_le hle with h | rfl
      · exact hnone c' j' hlt (by omega) hc'
      · exact neighbour?_ne_none hw hc' hn

/-! ## Grids above the coarsest one tried -/

theorem coefficient_pos (h : 0 < d.magnitude) : 0 < d.coefficient := by
  refine Nat.pos_of_ne_zero fun hzero => ?_
  have : d.magnitude = 0 := by
    rw [magnitude, hzero, Nat.zero_mul, nearest, Nat.zero_mul]
    simp [roundQuotient]
  omega

/-- Twice a number is not read as the number is. -/
theorem toRat_lt (hd : d.magnitude = k) (hk : 0 < k) (hfinite : k < infinity) :
    d.toRat * 10 ^ places < 2 * decimalUnits k := by
  have habove := ((magnitude_eq_iff d hfinite).mp hd).2.le
  have hunits : (units (k + 1) : ℚ) ≤ 2 * units k := by exact_mod_cast units_succ_le k hk
  have hpos : (0 : ℚ) < units k := (Nat.cast_nonneg _).trans_lt (units_lt_cast hk)
  have hlt : d.toRat * 2 ^ places < 2 * units k := by linarith
  have hfive : (0 : ℚ) < 5 ^ places := by positivity
  have hten : (10 : ℚ) ^ places = 2 ^ places * 5 ^ places := by rw [← mul_pow]; norm_num
  calc d.toRat * 10 ^ places
    _ = d.toRat * 2 ^ places * 5 ^ places := by rw [hten, mul_assoc]
    _ < 2 * units k * 5 ^ places := mul_lt_mul_of_pos_right hlt hfive
    _ = 2 * decimalUnits k := by rw [decimalUnits, Nat.cast_mul, Nat.cast_pow, Nat.cast_ofNat, mul_assoc]

theorem lt_two_mul_coarsest (w : ℕ) : w < 2 * 10 ^ coarsest w := by
  have hpow : (2 ^ w.log2) ^ 28 < (10 ^ coarsest w) ^ 28 := by
    calc (2 ^ w.log2) ^ 28
      _ = 2 ^ (w.log2 * 28) := (Nat.pow_mul 2 w.log2 28).symm
      _ < 2 ^ (93 * coarsest w) := Nat.pow_lt_pow_right (by decide) (by unfold coarsest; omega)
      _ = (2 ^ 93) ^ coarsest w := Nat.pow_mul 2 93 _
      _ ≤ (10 ^ 28) ^ coarsest w := Nat.pow_le_pow_left (by decide) _
      _ = (10 ^ coarsest w) ^ 28 := by rw [← Nat.pow_mul, Nat.mul_comm, Nat.pow_mul]
  have hlt := lt_of_pow_lt_pow_left₀ 28 (Nat.zero_le _) hpow
  have hlog := @Nat.lt_log2_self w
  rw [Nat.pow_succ] at hlog
  omega

theorem shortest_eq (hk : 0 < k) : shortest k = search k (decimalUnits k) (coarsest (decimalUnits k)) :=
  if_neg (Nat.ne_of_gt hk)

/-- No decimal of a greater exponent is read as the magnitude. -/
theorem magnitude_ne_of_coarser (hk : 0 < k) (hfinite : k < infinity)
    (h : (shortest k).exponent < d.exponent) : d.magnitude ≠ k := by
  intro hd
  rw [shortest_eq hk] at h
  obtain ⟨c, j, hs, hj, hnone⟩ := search_spec (magnitude_onGrid_zero hfinite.le) (coarsest (decimalUnits k))
  obtain ⟨i, hi⟩ : ∃ i : ℕ, d = onGrid d.coefficient i := by
    rw [hs] at h
    refine ⟨(d.exponent + places).toNat, ?_⟩
    simp only [onGrid] at h ⊢
    rw [Int.toNat_of_nonneg (by omega), Int.add_sub_cancel]
  rw [hs, hi] at h
  have hlt : j < i := by
    simp only [onGrid] at h
    omega
  rcases Nat.lt_or_ge (coarsest (decimalUnits k)) i with hgt | hle
  · -- a step of such a grid is more than twice the number
    have hup := toRat_lt hd hk hfinite
    have hpos := coefficient_pos (hd ▸ hk)
    rw [hi, toRat_onGrid, div_mul_cancel₀ _ (by positivity)] at hup
    have hup : d.coefficient * 10 ^ i < 2 * decimalUnits k := by exact_mod_cast hup
    have hstep : 10 ^ (coarsest (decimalUnits k) + 1) ≤ d.coefficient * 10 ^ i :=
      (Nat.pow_le_pow_right (by decide) hgt).trans (Nat.le_mul_of_pos_left _ hpos)
    have hw := lt_two_mul_coarsest (decimalUnits k)
    rw [Nat.pow_succ] at hstep
    omega
  · exact hnone _ i hlt hle (hi ▸ hd)

/-! ## Digits -/

/-- The last digit of the shortest decimal is not a zero. -/
theorem shortest_coefficient_mod (hk : 0 < k) (hfinite : k < infinity) : (shortest k).coefficient % 10 ≠ 0 := by
  intro hzero
  refine magnitude_ne_of_coarser (d := ⟨(shortest k).coefficient / 10, (shortest k).exponent + 1⟩) hk hfinite
    (Int.lt_add_one_of_le le_rfl) ?_
  have hmag := magnitude_shortest hfinite.le
  have heq : (mk ((shortest k).coefficient / 10) ((shortest k).exponent + 1)).toRat = (shortest k).toRat := by
    have hc : (shortest k).coefficient = (shortest k).coefficient / 10 * 10 := by omega
    simp only [toRat]
    rw [zpow_add_one₀ (by norm_num)]
    conv => rhs; rw [hc]
    push_cast
    ring
  exact magnitude_eq_of_between hmag hmag heq.ge heq.le

theorem length_numeral_pos (n : ℕ) : 0 < (numeral n).length := Nat.length_toDigits_pos

theorem length_numeral_le_iff {n m : ℕ} (hm : 0 < m) : (numeral n).length ≤ m ↔ n < 10 ^ m :=
  Nat.length_toDigits_le_iff (by decide) hm

/-- No decimal of fewer digits is read as the magnitude. -/
theorem length_shortest_le (hk : 0 < k) (hfinite : k < infinity) (hd : d.magnitude = k) :
    (numeral (shortest k).coefficient).length ≤ (numeral d.coefficient).length := by
  by_contra hlt
  have hmag := magnitude_shortest hfinite.le
  generalize hs : shortest k = s at hlt hmag
  generalize hn : (numeral d.coefficient).length = n at hlt
  have hpos : 0 < n := hn ▸ length_numeral_pos _
  -- a power of ten lies between the two, on a coarser grid than the one with the fewest digits
  have hlow : d.coefficient < 10 ^ n := (length_numeral_le_iff hpos).mp hn.le
  have hhigh : 10 ^ n ≤ s.coefficient := Nat.le_of_not_lt fun h => hlt ((length_numeral_le_iff hpos).mpr h)
  have hexp : d.exponent ≤ s.exponent := by
    by_contra h
    exact magnitude_ne_of_coarser hk hfinite (hs ▸ Int.lt_of_not_ge h) hd
  have htoRat : (mk 1 (s.exponent + n)).toRat = 10 ^ n * 10 ^ s.exponent := by
    simp only [toRat]
    rw [Nat.cast_one, one_mul, add_comm, zpow_add₀ (by norm_num), zpow_natCast]
  refine magnitude_ne_of_coarser (d := ⟨1, s.exponent + n⟩) hk hfinite (by rw [hs]; simp only; omega)
    (magnitude_eq_of_between hd hmag ?_ ?_)
  · rw [htoRat]
    exact mul_le_mul (by exact_mod_cast hlow.le) (zpow_le_zpow_right₀ (by norm_num) hexp) (by positivity)
      (by positivity)
  · rw [htoRat]
    exact mul_le_mul_of_nonneg_right (by exact_mod_cast hhigh) (by positivity)

/-! ## Integers -/

theorem le_scale {s : ℕ} (h : s * 2 ^ 52 + 2 ^ 52 ≤ k) : s ≤ scale k := by
  unfold scale
  omega

/-- What an integer is read as is an integer: below 2^53 the integers are doubles, and from
2^52 on the doubles are integers. -/
theorem dvd_units {n : ℕ} (h : (mk n 0).magnitude = k) (hfinite : k < infinity) : 2 ^ places ∣ units k := by
  have hone : units (places * 2 ^ 52 + 2 ^ 52) = 2 ^ 52 * 2 ^ places := units_step (by decide) (.inr le_rfl)
  rcases Nat.lt_or_ge k (places * 2 ^ 52 + 2 ^ 52) with hlt | hge
  · have habove := ((magnitude_eq_iff _ hfinite).mp h).2.le
    have hk := units_lt_cast hlt
    have hk' := units_le_cast (Nat.succ_le_of_lt hlt)
    have hn : n < 2 ^ 52 := by
      have : (n * 2 ^ places : ℚ) < 2 ^ 52 * 2 ^ places := by
        rw [hone, Nat.cast_mul, Nat.cast_pow, Nat.cast_pow, Nat.cast_ofNat] at hk hk'
        simp only [toRat, zpow_zero, mul_one] at habove
        linarith
      exact_mod_cast lt_of_mul_lt_mul_right this (pow_nonneg zero_le_two places)
    obtain ⟨k', hk'⟩ := exists_units_eq places (m := n) (by omega)
    have hlt' : k' < places * 2 ^ 52 + 2 ^ 52 := by
      apply units_strictMono.lt_iff_lt.mp
      rw [hk', hone]
      exact Nat.mul_lt_mul_of_pos_right hn (Nat.two_pow_pos _)
    rw [magnitude_natural n (Nat.two_pow_pos places), ← hk',
      nearest_units (hlt'.le.trans (by decide))] at h
    exact ⟨n, by rw [← h, hk', Nat.mul_comm]⟩
  · exact Dvd.dvd.mul_left (Nat.pow_dvd_pow 2 (le_scale hge)) _

/-- What is no integer has digits behind the point. -/
theorem exponent_shortest_neg (h : integer? k = none) (hfinite : k < infinity) : (shortest k).exponent < 0 := by
  by_contra hge
  have hmag := magnitude_shortest hfinite.le
  obtain ⟨e, he⟩ := Int.eq_ofNat_of_zero_le (Int.not_lt.mp hge)
  have hdvd : 2 ^ places ∣ units k := by
    refine dvd_units (n := (shortest k).coefficient * 10 ^ e) ?_ hfinite
    have heq : (mk ((shortest k).coefficient * 10 ^ e) 0).toRat = (shortest k).toRat := by
      simp only [toRat]
      rw [he, zpow_zero, mul_one]
      push_cast
      rfl
    exact magnitude_eq_of_between hmag hmag heq.ge heq.le
  rw [integer?, if_pos (Nat.mod_eq_zero_of_dvd hdvd)] at h
  cases h

end DeskCalc.Decimal
