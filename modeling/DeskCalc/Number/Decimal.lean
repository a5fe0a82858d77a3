import DeskCalc.Number.Binary64

/-!
# Decimals

A decimal is a natural coefficient times a power of ten. `Decimal.magnitude`
reads it as a double; `Decimal.positional` and `Decimal.scientific` write it. The
program leaves both to the standard library.
-/
namespace DeskCalc

/-- The number `coefficient * 10 ^ exponent`. -/
structure Decimal where
  coefficient : Nat
  exponent : Int
  deriving DecidableEq, Repr

/-- The decimal numeral of a natural, without leading zeros. -/
def numeral (n : Nat) : List Char := Nat.toDigits 10 n

/-- The number a run of digits stands for. -/
def numeralValue (cs : List Char) : Nat :=
  cs.foldl (fun n c => 10 * n + (c.toNat - '0'.toNat)) 0

namespace Decimal

/-- The magnitude of the double nearest to the decimal. -/
def magnitude (d : Decimal) : Nat :=
  Binary64.nearest (d.coefficient * 10 ^ d.exponent.toNat) (10 ^ (-d.exponent).toNat)

/-- The digits of `n` with a point before the last `places` of them, and zeros
in front where there are too few. -/
def pointed (n places : Nat) : List Char :=
  let ds := numeral n
  let ds := List.replicate (places + 1 - ds.length) '0' ++ ds
  ds.take (ds.length - places) ++ '.' :: ds.drop (ds.length - places)

/-- Positional notation: no point and filled up with zeros from the units on,
otherwise just the places that the exponent asks for. -/
def positional (d : Decimal) : List Char :=
  if 0 ≤ d.exponent then numeral d.coefficient ++ List.replicate d.exponent.toNat '0'
  else pointed d.coefficient (-d.exponent).toNat

/-- Scientific notation: one digit before the point, no point if there is no
digit after it, and a bare exponent. -/
def scientific (d : Decimal) : List Char :=
  let ds := numeral d.coefficient
  let point := d.exponent + (ds.length - 1 : Nat)
  let fraction := match ds.drop 1 with
    | [] => []
    | cs => '.' :: cs
  ds.take 1 ++ fraction ++ 'e' :: (if point < 0 then ['-'] else []) ++ numeral point.natAbs

end Decimal

end DeskCalc
