import DeskCalc.Text.Escape
import DeskCalc.Text.Unprintable

/-!
# Quoted texts

A text between double quotes in which nothing is ambiguous: the quote and the
backslash are escaped, four control characters have a letter, and any other
character that does not show is written by its code point. This is the quoted form
of the standard library; the program uses it for the name of an unknown level
(SPEC_FULL §10.4), the log library for the texts in the fields of events.
-/
namespace DeskCalc.Text

/-- A character as it stands between the quotes. -/
def quoteChar (c : Char) : List Char :=
  match c with
  | '"' => ['\\', '"']
  | '\\' => ['\\', '\\']
  | '\x00' => ['\\', '0']
  | '\t' => ['\\', 't']
  | '\n' => ['\\', 'n']
  | '\r' => ['\\', 'r']
  | c => if isUnprintable c then codePointEscape c else [c]

/-- The text in quotes. -/
def quote (s : String) : String := .ofList ('"' :: s.toList.flatMap quoteChar ++ ['"'])

end DeskCalc.Text
