/-!
# Lines of a byte stream

A line feed ends a line, together with a carriage return right before it. What
follows the last line feed is a line too unless it is empty, and a carriage
return at its end belongs to it. The standard library reads lines in this way for
`main` (SPEC_FULL §10.6).

Results:

* `split_append_lf`: what a line feed ends is one line.
* `split_last`: what no line feed ends is one too.
* `split_crlf`: a line feed may stand alone or behind a carriage return.
-/
namespace DeskCalc.Lines

def lineFeed : UInt8 := 10

def carriageReturn : UInt8 := 13

/-- Puts a byte in front of the first line. -/
def consByte (b : UInt8) : List (List UInt8) → List (List UInt8)
  | [] => [[b]]
  | l :: ls => (b :: l) :: ls

/-- The lines of a stream without what ends them. -/
def split : List UInt8 → List (List UInt8)
  | [] => []
  | b :: bs =>
    if b = lineFeed then [] :: split bs
    else if b = carriageReturn ∧ bs.head? = some lineFeed then split bs
    else consByte b (split bs)

/-- What a line feed ends is one line, without the carriage return at its end. -/
theorem split_append_lf {l : List UInt8} (h : lineFeed ∉ l) (bs : List UInt8) :
    split (l ++ lineFeed :: bs) =
      (if l.getLast? = some carriageReturn then l.dropLast else l) :: split bs := by
  induction l with
  | nil => simp [split]
  | cons b r ih =>
    obtain ⟨hb, hr⟩ : lineFeed ≠ b ∧ lineFeed ∉ r := by simpa using h
    cases r with
    | nil =>
      by_cases hc : b = carriageReturn
      · simp [split, hc, carriageReturn, lineFeed]
      · simp [split, consByte, Ne.symm hb, hc]
    | cons c r =>
      have hc : c ≠ lineFeed := fun e => hr (e ▸ List.mem_cons_self)
      rw [List.cons_append, split, ih hr, if_neg (Ne.symm hb), if_neg (by simp [hc]), consByte,
        List.getLast?_cons_cons, List.dropLast_cons_cons]
      split <;> rfl

/-- What no line feed ends is a line as it stands, unless it is empty. -/
theorem split_last {l : List UInt8} (h : lineFeed ∉ l) (hl : l ≠ []) : split l = [l] := by
  induction l with
  | nil => exact absurd rfl hl
  | cons b r ih =>
    obtain ⟨hb, hr⟩ : lineFeed ≠ b ∧ lineFeed ∉ r := by simpa using h
    have hnext : r.head? ≠ some lineFeed := fun e => hr (List.mem_of_mem_head? e)
    rw [split, if_neg (Ne.symm hb), if_neg fun e => hnext e.2]
    cases r with
    | nil => rfl
    | cons c r => rw [ih hr (List.cons_ne_nil c r), consByte]

/-- A carriage return in front of a line feed makes no difference, unless there is one
already. -/
theorem split_crlf {l : List UInt8} (h : l.getLast? ≠ some carriageReturn) (bs : List UInt8) :
    split (l ++ carriageReturn :: lineFeed :: bs) = split (l ++ lineFeed :: bs) := by
  induction l with
  | nil => simp [split, lineFeed, carriageReturn]
  | cons b r ih =>
    cases r with
    | nil =>
      have hb : b ≠ 13 := fun e => h (congrArg some e)
      simp [split, hb, lineFeed, carriageReturn]
    | cons c r =>
      -- what follows the first byte is the same in both
      have hr := ih h
      simp only [List.cons_append] at hr ⊢
      rw [split, hr, split]
      rfl

end DeskCalc.Lines
