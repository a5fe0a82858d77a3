/-!
# Escapes

A character that is not to stand in a text, written by its number in lower-case
hexadecimal.
-/
namespace DeskCalc.Text

/-- A backslash, `x` and two digits; for a character below U+0100. -/
def byteEscape (c : Char) : List Char :=
  '\\' :: 'x' :: (Nat.toDigits 16 c.toNat).leftpad 2 '0'

/-- A backslash, `u` and the code point between braces, in no more digits than
it needs. -/
def codePointEscape (c : Char) : List Char :=
  '\\' :: 'u' :: '\x7b' :: Nat.toDigits 16 c.toNat ++ ['\x7d']

end DeskCalc.Text
