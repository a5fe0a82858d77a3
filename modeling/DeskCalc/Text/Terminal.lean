import DeskCalc.Text.Escape

/-!
# Texts that a terminal only shows

Whoever reads the log on a terminal must not have it ring, step back or take
orders because of what somebody typed. An inert text spells out the characters
that a terminal obeys. The log library makes messages inert, which is no part of
the program; the characters are those that it is seen to spell out.

Results:
* `not_isTerminalControl_of_mem_inert`: none of them is left in it.
* `inert_eq_self`: a text without them stands as it is.
-/
namespace DeskCalc.Text

/-- The characters that a terminal obeys: bell, backspace, form feed, escape,
delete and the eight-bit controls. NUL, tabs and line ends are harmless. -/
def isTerminalControl (c : Char) : Bool :=
  c ∈ ['\x07', '\x08', '\x0c', '\x1b', '\x7f'] || ('\x80' ≤ c && c ≤ '\x9f')

/-- A character as it stands in an inert text: a seven-bit control by its byte,
an eight-bit one by its code point. -/
def inertChar (c : Char) : List Char :=
  if isTerminalControl c then
    if c ≤ '\x7f' then byteEscape c else codePointEscape c
  else [c]

/-- The text with nothing in it that a terminal obeys. -/
def inert (s : String) : String := .ofList (s.toList.flatMap inertChar)

theorem toNat_lt_of_isTerminalControl {c : Char} (h : isTerminalControl c) : c.toNat < 160 := by
  by_cases hc : c ≤ '\x9f'
  · exact Nat.lt_succ_of_le (Char.le_def.mp hc)
  · have hne (d : Char) (hd : d ≤ '\x9f') : c ≠ d := fun e => hc (e ▸ hd)
    simp [isTerminalControl, hc, hne] at h

theorem inertChar_eq_self {c : Char} (h : isTerminalControl c = false) : inertChar c = [c] := by
  simp [inertChar, h]

theorem not_isTerminalControl_of_mem_inertChar {c d : Char} (h : d ∈ inertChar c) :
    isTerminalControl d = false := by
  cases hc : isTerminalControl c with
  | false => rw [inertChar_eq_self hc, List.mem_singleton] at h; rw [h, hc]
  | true =>
    have small : (List.range 160).all fun n =>
        (inertChar (Char.ofNat n)).all fun x => !isTerminalControl x := by
      decide +kernel
    have hs := List.all_eq_true.mp small c.toNat
      (List.mem_range.mpr (toNat_lt_of_isTerminalControl hc))
    rw [Char.ofNat_toNat] at hs
    simpa using List.all_eq_true.mp hs d h

theorem not_isTerminalControl_of_mem_inert {s : String} {d : Char} (h : d ∈ (inert s).toList) :
    isTerminalControl d = false := by
  rw [inert, String.toList_ofList, List.mem_flatMap] at h
  obtain ⟨_, _, hd⟩ := h
  exact not_isTerminalControl_of_mem_inertChar hd

theorem inert_eq_self {s : String} (h : ∀ c ∈ s.toList, isTerminalControl c = false) : inert s = s := by
  have key (l : List Char) (hl : ∀ c ∈ l, isTerminalControl c = false) : l.flatMap inertChar = l := by
    induction l with
    | nil => rfl
    | cons c l ih =>
      rw [List.flatMap_cons, inertChar_eq_self (hl c List.mem_cons_self),
        ih fun d hd => hl d (List.mem_cons_of_mem c hd), List.singleton_append]
  rw [inert, key _ h, String.ofList_toList]

end DeskCalc.Text
