import DeskCalc.Cursor

/-!
# Errors (SPEC_FULL §7, §10.2)

Why a line was refused, and the one text for each cause.
-/
namespace DeskCalc

/-- A line that the grammar does not derive. Offsets are in bytes.
Stands for the program's `SyntaxError`. -/
inductive SyntaxError where
  /-- An operand was due. -/
  | unexpected (position : Nat) (found : Found) (expected : List TokenKind)
  /-- The parenthesis at `opened` was not closed where it had to be. -/
  | unmatchedParen (opened position : Nat) (found : Found)
  /-- Text is left over behind the statement. -/
  | trailing (position : Nat) (found : Found)
  /-- One more parenthesis than may be open at a time. -/
  | tooDeep (position limit : Nat)
  deriving DecidableEq, Repr

namespace SyntaxError

/-- Stands for the program's `SyntaxError.position`. -/
def position : SyntaxError → Nat
  | .unexpected p _ _ | .unmatchedParen _ p _ | .trailing p _ | .tooDeep p _ => p

/-- What stands at the position: nesting can only be too deep at a parenthesis.
Stands for the program's `SyntaxError.found`. -/
def found : SyntaxError → Found
  | .unexpected _ f _ | .unmatchedParen _ _ f | .trailing _ f => f
  | .tooDeep _ _ => .char '('

/-- Stands for the display of the program's `SyntaxError`. -/
def message : SyntaxError → String
  | .unexpected p f ks =>
    "unexpected " ++ f.describe ++ " at " ++ toString p ++ ", expected " ++
      ", ".intercalate (ks.map TokenKind.describe)
  | .unmatchedParen o p f =>
    "unmatched left parenthesis at " ++ toString o ++ ": found " ++ f.describe ++ " at " ++ toString p
  | .trailing p f => "unexpected character at " ++ toString p ++ ": " ++ f.describe
  | .tooDeep p n => "parentheses nested deeper than " ++ toString n ++ " at " ++ toString p

end SyntaxError

/-- Why a line has no result.
Stands for the program's `EvalError`. -/
inductive EvalError where
  | malformed (error : SyntaxError)
  /-- The left side of the equals sign at `position` is no variable. -/
  | notAssignable (position : Nat)
  deriving DecidableEq, Repr

namespace EvalError

/-- Stands for the program's `EvalError.kind`. -/
def kind : EvalError → String
  | .malformed _ => "SyntaxError"
  | .notAssignable _ => "AssignmentError"

def position : EvalError → Nat
  | .malformed e => e.position
  | .notAssignable p => p

/-- What went wrong, without the kind. -/
def detail : EvalError → String
  | .malformed e => e.message
  | .notAssignable p => "value cannot be assigned (\"=\" at " ++ toString p ++ ")"

/-- Stands for the display of the program's `EvalError`. -/
def message (e : EvalError) : String := e.kind ++ ": " ++ e.detail

end EvalError

end DeskCalc
