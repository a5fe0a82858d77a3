import DeskCalc.Token

/-!
# Cursors (SPEC_FULL §3, §4.1)

A cursor is a place in a line: its offset in UTF-8 bytes and the text from there
on. `Cursor.seek` finds the place at a byte offset, `Cursor.eat` moves past one
token, and `scan` does both.

Results:

* `eat_eq`: a token and the text behind it make up the text at the cursor.
* `skipSpaces_le`: past spaces there is no more text than before.
-/
namespace DeskCalc

/-- What stands at a place in a line.
Stands for the program's `Found` (§10.2). -/
inductive Found where
  | char (c : Char)
  | endOfInput
  deriving DecidableEq, Repr

/-- A character is shown between quotes as it is.
Stands for the display of the program's `Found`. -/
def Found.describe : Found → String
  | .char c => .ofList ['"', c, '"']
  | .endOfInput => "end of input"

/-- Stands for the program's `Parser.input` and `position`. -/
structure Cursor where
  offset : Nat
  rest : List Char
  deriving DecidableEq, Repr

namespace Cursor

def start (line : String) : Cursor := ⟨0, line.toList⟩

/-- The text from a byte offset on. There is none past the end, nor inside a
character. -/
def dropBytes : Nat → List Char → Option (List Char)
  | 0, cs => some cs
  | _ + 1, [] => none
  | n + 1, c :: cs => if c.utf8Size ≤ n + 1 then dropBytes (n + 1 - c.utf8Size) cs else none

/-- The place at a byte offset. -/
def seek (line : String) (offset : Nat) : Option Cursor :=
  (dropBytes offset line.toList).map (⟨offset, ·⟩)

/-- Stands for the program's `Parser.found`. -/
def found (c : Cursor) : Found :=
  match c.rest with
  | ch :: _ => .char ch
  | [] => .endOfInput

/-- The token of the given kind at the cursor and the place behind it.
Stands for the program's `Parser.eat`. -/
def eat (kind : TokenKind) (c : Cursor) : Option (List Char × Cursor) :=
  match kind.lexeme c.rest with
  | [] => none
  | w => some (w, ⟨c.offset + w.length, c.rest.drop w.length⟩)

/-- Stands for the program's `Parser.space`. -/
def skipSpaces (c : Cursor) : Cursor :=
  match c.eat .space with
  | some (_, c') => c'
  | none => c

/-! ## Progress -/

theorem eat_eq {kind : TokenKind} {c c' : Cursor} {w : List Char} (h : c.eat kind = some (w, c')) :
    w ≠ [] ∧ c.rest = w ++ c'.rest ∧ c'.offset = c.offset + w.length := by
  unfold eat at h
  split at h
  · cases h
  · rename_i hn
    cases h
    exact ⟨hn, (TokenKind.lexeme_append_drop kind c.rest).symm, rfl⟩

theorem eat_shrinks {kind : TokenKind} {c c' : Cursor} {w : List Char}
    (h : c.eat kind = some (w, c')) : c'.rest.length < c.rest.length := by
  obtain ⟨hw, hr, -⟩ := eat_eq h
  have := List.length_pos_iff.mpr hw
  rw [hr, List.length_append]
  omega

theorem skipSpaces_le (c : Cursor) : c.skipSpaces.rest.length ≤ c.rest.length := by
  unfold skipSpaces
  split
  · rename_i h; exact Nat.le_of_lt (eat_shrinks h)
  · exact Nat.le_refl _

end Cursor

/-! ## Scanning at an offset -/

/-- A token found by `scan`: its text and the byte offset just past it.
Stands for the program's `Match` (§10.1). -/
structure Match where
  text : String
  stop : Nat
  deriving DecidableEq, Repr

/-- The token of the given kind at a byte offset, if there is one just there.
Stands for the program's `scan`. -/
def scan (kind : TokenKind) (input : String) (offset : Nat) : Option Match :=
  (Cursor.seek input offset).bind fun c =>
    (c.eat kind).map fun (w, c') => ⟨.ofList w, c'.offset⟩

/-- What stands at a byte offset. No character starts past the end or inside
another one.
Stands for the program's `Found.at`. -/
def Found.at (input : String) (offset : Nat) : Found :=
  match Cursor.seek input offset with
  | some c => c.found
  | none => .endOfInput

end DeskCalc
