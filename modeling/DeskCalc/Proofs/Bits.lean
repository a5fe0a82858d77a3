import Mathlib
import DeskCalc.Number.Binary64

/-!
# Doubles and their bits

`Float` is modelled by its bits, in which every NaN is the same one, and is taken
apart into sign, exponent and significand. Here the parts are read off the
magnitude.

Results:
* `pack_unpack`: bits that are taken apart are put together again as they were.
* `ofMagnitude_magnitude`: a double is its sign and its magnitude.
* `isFinite_iff`, `beq_zero_iff`: what the magnitude says about a double.
-/
namespace DeskCalc.Binary64

open Float.Model (Format)
open Float.Model.UnpackedFloat

/-! ## Fields -/

/-- The bits of a double, as the model of `Float` takes them apart. -/
abbrev Word : Type := BitVec Format.binary64.numBits

theorem toNat_unpackMantissa (b : Word) : (unpackMantissa b).toNat = b.toNat % 2 ^ 52 := by
  simp [unpackMantissa]

theorem toNat_unpackExponent (b : Word) : (unpackExponent b).toNat = b.toNat / 2 ^ 52 % 2 ^ 11 := by
  simp [unpackExponent, Nat.shiftRight_eq_div_pow]

theorem toNat_unpackSign (b : Word) : (unpackSign b).toNat = b.toNat / 2 ^ 63 := by
  have : b.toNat < 2 ^ 64 := b.isLt
  simp [unpackSign, Nat.shiftRight_eq_div_pow]
  omega

theorem toBitVec_ofBitVec (s : BitVec 1) : (Sign.ofBitVec s).toBitVec = s := by
  revert s; decide

theorem toNat_append {n m : Nat} (a : BitVec n) (b : BitVec m) :
    (a ++ b).toNat = a.toNat * 2 ^ m + b.toNat := by
  rw [BitVec.toNat_append, Nat.shiftLeft_eq, Nat.mul_comm, Nat.two_pow_add_eq_or_of_lt b.isLt]

theorem packComponents_fields (b : Word) :
    packComponents .binary64 (.ofBitVec (unpackSign b)) (unpackExponent b) (unpackMantissa b) = b := by
  apply BitVec.eq_of_toNat_eq
  have : b.toNat < 2 ^ 64 := b.isLt
  rw [packComponents, toNat_append, toNat_append, toBitVec_ofBitVec, toNat_unpackSign, toNat_unpackExponent,
    toNat_unpackMantissa]
  change (b.toNat / 2 ^ 63 * 2 ^ 11 + b.toNat / 2 ^ 52 % 2 ^ 11) * 2 ^ 52 + b.toNat % 2 ^ 52 = b.toNat
  omega

/-- What a double can be, told by its fields. -/
theorem unpack_cases (b : Word) :
    (unpackExponent b = -1#11 ∧ unpackMantissa b = 0#52 ∧
      unpack .binary64 b = .infinity (.ofBitVec (unpackSign b))) ∨
    (unpackExponent b = -1#11 ∧ unpackMantissa b ≠ 0#52 ∧ unpack .binary64 b = .notANumber) ∨
    (unpackExponent b = 0#11 ∧ unpackMantissa b = 0#52 ∧
      unpack .binary64 b = .zero (.ofBitVec (unpackSign b))) ∨
    (unpackExponent b = 0#11 ∧ unpackMantissa b ≠ 0#52 ∧ ∃ h,
      unpack .binary64 b = .finite (.ofBitVec (unpackSign b)) (unpackMantissa b).toNat (-1074) h) ∨
    (unpackExponent b ≠ 0#11 ∧ unpackExponent b ≠ -1#11 ∧ ∃ h,
      unpack .binary64 b = .finite (.ofBitVec (unpackSign b)) (1#1 ++ unpackMantissa b).toNat
        ((unpackExponent b).toNat - 1075) h) := by
  simp only [unpack]
  by_cases h₁ : unpackExponent b = -1#11
  · by_cases hm : unpackMantissa b = 0#52
    · exact .inl ⟨h₁, hm, by rw [if_pos h₁, if_pos hm]⟩
    · exact .inr (.inl ⟨h₁, hm, by rw [if_pos h₁, if_neg hm]⟩)
  · rw [if_neg h₁]
    by_cases h₀ : unpackExponent b = 0#11
    · rw [if_pos h₀]
      by_cases hm : unpackMantissa b = 0#52
      · exact .inr (.inr (.inl ⟨h₀, hm, dif_pos hm⟩))
      · have hpos : 0 < (unpackMantissa b).toNat := Nat.pos_of_ne_zero fun e => hm (BitVec.eq_of_toNat_eq e)
        refine .inr (.inr (.inr (.inl ⟨h₀, hm, hpos, ?_⟩)))
        rw [dif_neg hm, h₀]
        rfl
    · rw [if_neg h₀]
      have hpos : 0 < (1#1 ++ unpackMantissa b).toNat := by
        rw [toNat_append]
        exact Nat.add_pos_left (by decide) _
      exact .inr (.inr (.inr (.inr ⟨h₀, h₁, hpos, rfl⟩)))

/-! ## Taking apart and putting together -/

theorem pack_subnormal (s : Float.Model.UnpackedFloat.Sign) (m : BitVec 52) (h : 0 < m.toNat) :
    pack .binary64 (.finite s m.toNat (-1074) h) = packComponents .binary64 s 0#11 m := by
  have hl : m.toNat.log2 < 52 := (Nat.log2_lt (Nat.ne_of_gt h)).mpr m.isLt
  rw [pack, if_neg (by decide), if_neg, BitVec.ofNat_toNat, BitVec.setWidth_eq]
  change ¬ m.toNat.log2 + 1 = 53
  omega

theorem pack_normal (s : Float.Model.UnpackedFloat.Sign) (e : BitVec 11) (m : BitVec 52)
    (h : 0 < (1#1 ++ m).toNat) (h₁ : e ≠ -1#11) :
    pack .binary64 (.finite s (1#1 ++ m).toNat (e.toNat - 1075) h) = packComponents .binary64 s e m := by
  have hm : (1#1 ++ m).toNat = 2 ^ 52 + m.toNat := by rw [toNat_append]; rfl
  have hl : (1#1 ++ m).toNat.log2 = 52 := by
    have := m.isLt
    exact (Nat.log2_eq_iff (by omega)).mpr ⟨by omega, by omega⟩
  have he : ((e.toNat : Int) - 1075 + Format.binary64.exponentBias
      + Format.binary64.mantissaBitsWithoutImplicit).toNat = e.toNat := by
    change ((e.toNat : Int) - 1075 + 1023 + 52).toNat = e.toNat
    omega
  have hlt : ¬ 2 ^ Format.binary64.exponentBits ≤ e.toNat + 1 := by
    intro hge
    change 2048 ≤ e.toNat + 1 at hge
    have := e.isLt
    exact h₁ (BitVec.eq_of_toNat_eq (by change e.toNat = 2047; omega))
  rw [pack, he, if_neg hlt, if_pos (by rw [hl]; rfl), BitVec.ofNat_toNat, BitVec.setWidth_eq]
  congr 1
  apply BitVec.eq_of_toNat_eq
  have := m.isLt
  rw [BitVec.toNat_ofNat, hm]
  change (2 ^ 52 + m.toNat) % 2 ^ 52 = m.toNat
  omega

theorem pack_unpack {b : Word} (h : Format.binary64.Valid b) : pack .binary64 (unpack .binary64 b) = b := by
  have hb := packComponents_fields b
  rcases unpack_cases b with ⟨he, hm, hu⟩ | ⟨he, hm, hu⟩ | ⟨he, hm, hu⟩ | ⟨he, -, _, hu⟩ | ⟨-, he, _, hu⟩
  · rw [hu]
    rwa [he, hm] at hb
  · exact hu ▸ (h.eq_packedNaN he hm).symm
  · rw [hu]
    rwa [he, hm] at hb
  · rw [hu, pack_subnormal]
    rwa [he] at hb
  · rw [hu, pack_normal _ _ _ _ he, hb]

theorem ofBits_toBits (x : Float) : Float.ofBits x.toBits = x := by
  obtain ⟨bits, h⟩ := x
  have := pack_unpack h
  simp only [Float.ofBits, Float.toBits, Float.Model.ofBits, Float.Model.pack, this]

/-- A double is its sign and its magnitude. -/
theorem ofMagnitude_magnitude (x : Float) : ofMagnitude (negative x) (magnitude x) = x := by
  have hx := x.toBits.toNat_lt
  have : (if negative x then 2 ^ 63 + magnitude x else magnitude x) = x.toBits.toNat := by
    simp only [negative, magnitude, decide_eq_true_eq]
    split <;> omega
  rw [ofMagnitude, this, UInt64.ofNat_toNat, ofBits_toBits]

/-! ## Kinds of doubles -/

theorem exponent_eq (x : Float) :
    (@unpackExponent .binary64 x.toBits.toBitVec).toNat = magnitude x / 2 ^ 52 := by
  have := x.toBits.toNat_lt
  rw [toNat_unpackExponent, UInt64.toNat_toBitVec, magnitude]
  omega

theorem mantissa_eq (x : Float) :
    (@unpackMantissa .binary64 x.toBits.toBitVec).toNat = magnitude x % 2 ^ 52 := by
  rw [toNat_unpackMantissa, UInt64.toNat_toBitVec, magnitude]
  omega

/-- What a double can be, told by its magnitude. -/
theorem kinds (x : Float) :
    (magnitude x = infinity ∧ ∃ s, x.toModel.unpack = .infinity s) ∨
    (infinity < magnitude x ∧ x.toModel.unpack = .notANumber) ∨
    (magnitude x = 0 ∧ ∃ s, x.toModel.unpack = .zero s) ∨
    (0 < magnitude x ∧ magnitude x < infinity ∧ ∃ s m e h, x.toModel.unpack = .finite s m e h) := by
  have he := exponent_eq x
  have hm := mantissa_eq x
  have hx : magnitude x < 2 ^ 63 := Nat.mod_lt _ (by decide)
  have ne {n : Nat} {a b : BitVec n} (h : a ≠ b) : a.toNat ≠ b.toNat := fun e => h (BitVec.eq_of_toNat_eq e)
  simp only [infinity]
  rcases unpack_cases x.toBits.toBitVec with
    ⟨h, h', hu⟩ | ⟨h, h', hu⟩ | ⟨h, h', hu⟩ | ⟨h, h', _, hu⟩ | ⟨h₀, h₁, _, hu⟩
  · rw [h, show (-1#11).toNat = 2047 from rfl] at he
    rw [h', show (0#52).toNat = 0 from rfl] at hm
    exact .inl ⟨by omega, _, hu⟩
  · rw [h, show (-1#11).toNat = 2047 from rfl] at he
    have h' : _ ≠ 0 := ne h'
    exact .inr (.inl ⟨by omega, hu⟩)
  · rw [h, show (0#11).toNat = 0 from rfl] at he
    rw [h', show (0#52).toNat = 0 from rfl] at hm
    exact .inr (.inr (.inl ⟨by omega, _, hu⟩))
  · rw [h, show (0#11).toNat = 0 from rfl] at he
    have h' : _ ≠ 0 := ne h'
    exact .inr (.inr (.inr ⟨by omega, by omega, _, _, _, _, hu⟩))
  · have h₀ : _ ≠ 0 := ne h₀
    have h₁ : _ ≠ 2047 := ne h₁
    exact .inr (.inr (.inr ⟨by omega, by omega, _, _, _, _, hu⟩))

theorem isFinite_iff (x : Float) : x.isFinite ↔ magnitude x < infinity := by
  have hu : x.isFinite = x.toModel.unpack.isFinite := rfl
  rw [hu]
  rcases kinds x with ⟨h, _, hx⟩ | ⟨h, hx⟩ | ⟨h, _, hx⟩ | ⟨-, h, _, _, _, _, hx⟩
  · simp [hx, isFinite, h]
  · simpa [hx, isFinite] using Nat.le_of_lt h
  · simp [hx, isFinite, h, infinity]
  · simp [hx, isFinite, h]

theorem beq_zero_iff (x : Float) : x == 0 ↔ magnitude x = 0 := by
  have hu : (x == 0) = x.toModel.unpack.beq (.zero .positive) := rfl
  rw [hu]
  rcases kinds x with ⟨h, s, hx⟩ | ⟨h, hx⟩ | ⟨h, _, hx⟩ | ⟨h, -, s, _, _, _, hx⟩
  · cases s <;> simp [hx, Float.Model.UnpackedFloat.beq, Float.Model.UnpackedFloat.compare, h, infinity]
  · have := Nat.ne_of_gt (Nat.zero_lt_of_lt h)
    simp [hx, Float.Model.UnpackedFloat.beq, Float.Model.UnpackedFloat.compare, this]
  · simp [hx, Float.Model.UnpackedFloat.beq, Float.Model.UnpackedFloat.compare, h]
  · cases s <;> simp [hx, Float.Model.UnpackedFloat.beq, Float.Model.UnpackedFloat.compare, Nat.ne_of_gt h]

/-- Zeros are equal, whatever their signs. -/
theorem zero_beq {x : Float} (h : magnitude x = 0) : (0 : Float) == x := by
  have hu : ((0 : Float) == x) = (Float.Model.UnpackedFloat.zero .positive).beq x.toModel.unpack := rfl
  rw [hu]
  rcases kinds x with ⟨hx, -⟩ | ⟨hx, -⟩ | ⟨-, _, hx⟩ | ⟨hx, -⟩
  · exact absurd (hx.symm.trans h) (by decide)
  · omega
  · rw [hx]
    rfl
  · omega

theorem beq_self {x : Float} (h : x.isFinite) : x == x := by
  have hu : (x == x) = x.toModel.unpack.beq x.toModel.unpack := rfl
  have hf : x.isFinite = x.toModel.unpack.isFinite := rfl
  rw [hf] at h
  rw [hu]
  cases hx : x.toModel.unpack with
  | infinity => rw [hx] at h; cases h
  | notANumber => rw [hx] at h; cases h
  | zero => rfl
  | finite s m e => cases s <;> simp [Float.Model.UnpackedFloat.beq, Float.Model.UnpackedFloat.compare]

end DeskCalc.Binary64
