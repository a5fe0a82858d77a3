import DeskCalc.Proofs.Effect
import DeskCalc.Proofs.Restore

/-!
# Typing in what is shown

The text that shows a finite double is one literal from end to end, so it can be typed in
as a line or on the right of an equals sign, and the double is back.

Results:
* `scan_chars`: a literal is scanned whole.
* `recovers_unsignedZero`: what reading a shown number back changes is the sign of zero.
* `beq_of_displayNumber_eq`: numbers that are shown alike are equal.
* `displayNumber_typed`: a shown number as input.
-/
namespace DeskCalc

open Binary64

/-! ## Literals -/

namespace Literal

variable {l l' : Literal}

theorem utf8ByteSize_chars (h : l.WellFormed) : (String.ofList l.chars).utf8ByteSize = l.chars.length :=
  utf8ByteSize_ofList fun c hc => utf8Size_of_isPhraseChar ((Phrase.literal l h).isPhraseChar c hc)

/-- A literal alone is scanned whole. -/
theorem scan_chars (h : l.WellFormed) :
    scan .number (.ofList l.chars) 0 = some ⟨.ofList l.chars, (String.ofList l.chars).utf8ByteSize⟩ := by
  have he : Cursor.eat .number ⟨0, l.chars⟩ = some (l.chars, ⟨0 + l.chars.length, []⟩) :=
    Cursor.eat_number_iff.mpr ⟨l, h, rfl, Delimited.nil.literalEnds l, (List.append_nil _).symm, rfl⟩
  rw [utf8ByteSize_chars h]
  simp [scan, Cursor.seek, Cursor.dropBytes, he]

/-- The parts of a literal can be told from its text. -/
theorem eq_of_chars_eq (h : l.WellFormed) (h' : l'.WellFormed) (he : l.chars = l'.chars) : l = l' := by
  have hl := ofChars?_chars h
  rw [he, ofChars?_chars h'] at hl
  exact (Option.some.inj hl).symm

end Literal

/-! ## Doubles -/

/-- `y` is the same number as `x`, and it has the same bits unless `x` is the negative
zero, which has become the positive one. -/
def Recovers (y x : Float) : Prop :=
  y == x ∧ y.toBits = if x.toBits = 0x8000000000000000 then 0 else x.toBits

theorem recovers_unsignedZero {x : Float} (h : x.isFinite) : Recovers (unsignedZero x) x := by
  refine ⟨unsignedZero_beq h, ?_⟩
  have hbits : (0x8000000000000000 : UInt64).toNat = 2 ^ 63 := rfl
  have hlt := x.toBits.toNat_lt
  unfold unsignedZero
  split
  · -- of the two zeros the other one has no bits set
    rename_i hzero
    have hm : x.toBits.toNat % 2 ^ 63 = 0 := (beq_zero_iff x).mp hzero
    split
    · rfl
    · rename_i hne
      have hne : x.toBits.toNat ≠ 2 ^ 63 := fun e => hne (UInt64.toNat_inj.mp (e.trans hbits.symm))
      apply UInt64.toNat_inj.mp
      change 0 = x.toBits.toNat
      omega
  · rename_i hzero
    have hm : x.toBits.toNat % 2 ^ 63 ≠ 0 := mt (beq_zero_iff x).mpr hzero
    rw [if_neg]
    intro e
    rw [e] at hm
    exact hm rfl

theorem beq_of_magnitude_zero {x y : Float} (hx : magnitude x = 0) (hy : magnitude y = 0) : x == y := by
  have hx' := ofMagnitude_magnitude x
  have hy' := ofMagnitude_magnitude y
  rw [hx] at hx'
  rw [hy] at hy'
  rw [← hx', ← hy']
  cases negative x <;> cases negative y <;> decide

theorem beq_of_unsignedZero_eq {x y : Float} (hy : y.isFinite) (h : unsignedZero x = unsignedZero y) :
    x == y := by
  by_cases hzero : magnitude x = 0
  · have hx₀ : unsignedZero x = 0 := if_pos ((beq_zero_iff x).mpr hzero)
    rw [hx₀] at h
    by_cases hzero' : magnitude y = 0
    · exact beq_of_magnitude_zero hzero hzero'
    · have hy₀ : unsignedZero y = y := if_neg (mt (beq_zero_iff y).mp hzero')
      rw [hy₀] at h
      exact absurd (h ▸ rfl) hzero'
  · have hx₁ : unsignedZero x = x := if_neg (mt (beq_zero_iff x).mp hzero)
    rw [← hx₁, h]
    exact unsignedZero_beq hy

/-- Numbers that are shown alike are equal. -/
theorem beq_of_displayNumber_eq {x y : Float} (hx : x.isFinite) (hy : y.isFinite)
    (h : displayNumber x = displayNumber y) : x == y := by
  obtain ⟨l, hl, -, ht, hv⟩ := exists_literal hx
  obtain ⟨l', hl', -, ht', hv'⟩ := exists_literal hy
  obtain rfl : l = l' := Literal.eq_of_chars_eq hl hl' (String.ofList_injective (ht.symm.trans (h.trans ht')))
  exact beq_of_unsignedZero_eq hy (hv.symm.trans hv')

/-! ## Lines -/

/-- A shown number derives as a line. -/
theorem exists_line_displayNumber {x : Float} (h : x.isFinite) :
    ∃ d : Line, .ofList d.text = displayNumber x ∧ d.nesting = 0 ∧ d.name = answerName ∧
      ∀ t, d.value t = unsignedZero x := by
  obtain ⟨l, hl, -, ht, hv⟩ := exists_literal h
  refine ⟨.answer (Phrase.literal l hl).ofValue 0, ?_, rfl, rfl, fun t => hv⟩
  rw [ht]
  simp [Line.text, Phrase.text, spaces]

namespace Session

/-- A line that derives as the given number under the given name writes it. -/
theorem evaluate_recovers (s : Session) {line : String} {d : Line} {x : Float} (h : x.isFinite)
    (ht : .ofList d.text = line) (hn : d.nesting = 0) (hv : d.value s.table = unsignedZero x) :
    ∃ a, (s.evaluate line).result = .ok a ∧ a.binding.name = d.name ∧ Recovers a.binding.value x ∧
      (s.evaluate line).session.table = s.table.write a.binding := by
  obtain ⟨hr, hw⟩ := s.evaluate_line ht (hn ▸ Nat.zero_le _)
  rw [hv] at hr hw
  exact ⟨_, hr, rfl, recovers_unsignedZero h, hw⟩

end Session

/-- What shows a finite double is a literal without a plus sign and without an exponent. It
is scanned whole, and it is a line that has the double for its result in every session, but
for the sign of zero; behind an identifier and an equals sign it is written there. So
numbers that are shown alike are equal. -/
theorem displayNumber_typed (x : Float) (h : x.isFinite) :
    (∃ l : Literal, l.WellFormed ∧ l.sign ≠ some .plus ∧ displayNumber x = .ofList l.chars) ∧
    scan .number (displayNumber x) 0 = some ⟨displayNumber x, (displayNumber x).utf8ByteSize⟩ ∧
    (∀ s : Session, ∃ a, (s.evaluate (displayNumber x)).result = .ok a ∧ a.binding.name = answerName ∧
      Recovers a.binding.value x ∧ (s.evaluate (displayNumber x)).session.table = s.table.write a.binding) ∧
    (∀ (s : Session) (name : String), IsIdentifier name.toList →
      ∃ a, (s.evaluate (name ++ " = " ++ displayNumber x)).result = .ok a ∧ a.binding.name = name ∧
        Recovers a.binding.value x ∧
        (s.evaluate (name ++ " = " ++ displayNumber x)).session.table = s.table.write a.binding) ∧
    ∀ y : Float, y.isFinite → displayNumber y = displayNumber x → y == x := by
  obtain ⟨l, hl, hsign, ht, -⟩ := exists_literal h
  refine ⟨⟨l, hl, hsign, ht⟩, ?_, fun s => ?_, fun s name hname => ?_, fun y hy => beq_of_displayNumber_eq hy h⟩
  · rw [ht]
    exact Literal.scan_chars hl
  · obtain ⟨d, hd, hn, hname, hv⟩ := exists_line_displayNumber h
    rw [← hname]
    exact s.evaluate_recovers h hd hn (hv _)
  · obtain ⟨d, hd, hn, hd', hv⟩ := Binding.exists_line (b := ⟨name, x⟩) hname h
    obtain ⟨a, hr, ha, hrest⟩ := s.evaluate_recovers h hd hn (hv _)
    exact ⟨a, hr, ha.trans hd', hrest⟩

/-- The negative zero is shown without its sign, and a small number without an exponent. -/
theorem displayNumber_typed_of_two :
    displayNumber (-0) = "0" ∧ displayNumber (-2.5e-7) = "-0.00000025" ∧
    (∃ a, (({} : Session).evaluate "0").result = .ok a ∧ a.binding.value.toBits = 0) ∧
    scan .number "-0.00000025" 0 = some ⟨"-0.00000025", 11⟩ ∧
    ∃ a, (({} : Session).evaluate ("x_1" ++ " = " ++ "-0.00000025")).result = .ok a ∧ a.binding.name = "x_1" ∧
      Recovers a.binding.value (-2.5e-7) := by
  have hzero : displayNumber (-0) = "0" := by decide +kernel
  have hsmall : displayNumber (-2.5e-7) = "-0.00000025" := by decide +kernel
  obtain ⟨-, -, hline, -⟩ := displayNumber_typed (-0) (by decide)
  obtain ⟨-, hscan, -, hassign, -⟩ := displayNumber_typed (-2.5e-7) (by decide)
  obtain ⟨a, hr, -, ⟨-, hbits⟩, -⟩ := hline {}
  obtain ⟨b, hr', hb, hb', -⟩ := hassign {} "x_1" (by decide)
  rw [hzero] at hr
  rw [hsmall] at hscan hr'
  exact ⟨hzero, hsmall, ⟨a, hr, hbits.trans (by decide)⟩, hscan, b, hr', hb, hb'⟩

end DeskCalc
