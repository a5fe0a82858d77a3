import DeskCalc.Number.Decimal

/-!
# The fewest digits that read back

Every finite double is an integer number of units of 10^-1074, so each grid from
there up holds two neighbours of it, the one below and the one above. Coarse
grids are tried first; the first neighbour that reads back as the double is its
shortest decimal. The finest grid holds the double itself, so the search always
ends in one. The program leaves it to the standard library, which promises the
result and not the way.

Results:

* `magnitude_shortest`: the decimal reads back.
-/
namespace DeskCalc.Decimal

open Binary64

/-- A finite magnitude in units of 10^-1074. -/
def decimalUnits (k : Nat) : Nat := units k * 5 ^ places

/-- The point `c` of the grid that takes `10 ^ j` units for a step. -/
def onGrid (c j : Nat) : Decimal := ⟨c, (j : Int) - places⟩

/-- The neighbour of `w` units on grid `j` that reads back as the magnitude `k`:
of two the nearer, and the upper one if they are equally near. -/
def neighbour? (k w j : Nat) : Option Decimal :=
  let below := onGrid (w / 10 ^ j) j
  let above := onGrid (w / 10 ^ j + 1) j
  if below.magnitude = k then
    if above.magnitude = k ∧ 10 ^ j ≤ 2 * (w % 10 ^ j) then some above else some below
  else if above.magnitude = k then some above
  else none

/-- The neighbour on the first grid from `j` down to 1 that has one, or else `w`
units as they are. -/
def search (k w : Nat) : Nat → Decimal
  | 0 => onGrid w 0
  | j + 1 => (neighbour? k w (j + 1)).getD (search k w j)

/-- A grid with steps above half of `w` units: 28 decimal digits hold any 93
binary ones. -/
def coarsest (w : Nat) : Nat := w.log2 * 28 / 93 + 1

/-- The decimal with the fewest digits that reads back as the finite magnitude
`k`, and of those the nearest. -/
def shortest (k : Nat) : Decimal :=
  if k = 0 then ⟨0, 0⟩ else search k (decimalUnits k) (coarsest (decimalUnits k))

/-! ## Reading back -/

theorem magnitude_onGrid_zero {k : Nat} (h : k ≤ infinity) :
    (onGrid (decimalUnits k) 0).magnitude = k := by
  have tens (n : Nat) : 10 ^ n = 2 ^ n * 5 ^ n := Nat.mul_pow 2 5 n
  have : (onGrid (decimalUnits k) 0).magnitude = nearest (decimalUnits k * 10 ^ 0) (10 ^ places) := rfl
  rw [this, Nat.pow_zero, Nat.mul_one, tens, decimalUnits,
    nearest_mul_right _ _ (Nat.pow_pos (by decide)), nearest_units h]

theorem magnitude_neighbour {k w j : Nat} {d : Decimal} (h : neighbour? k w j = some d) :
    d.magnitude = k := by
  simp only [neighbour?] at h
  split at h
  · split at h
    · rename_i h'; cases h; exact h'.1
    · rename_i h' _; cases h; exact h'
  · split at h
    · rename_i h'; cases h; exact h'
    · cases h

theorem magnitude_search {k : Nat} (h : k ≤ infinity) (j : Nat) :
    (search k (decimalUnits k) j).magnitude = k := by
  induction j with
  | zero => exact magnitude_onGrid_zero h
  | succ j ih =>
    rw [search]
    cases hn : neighbour? k (decimalUnits k) (j + 1) with
    | none => exact ih
    | some d => exact magnitude_neighbour hn

theorem magnitude_shortest {k : Nat} (h : k ≤ infinity) : (shortest k).magnitude = k := by
  unfold shortest
  split
  · rename_i h₀; subst h₀; decide +kernel
  · exact magnitude_search h _

end DeskCalc.Decimal
