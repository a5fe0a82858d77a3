import DeskCalc.Error
import DeskCalc.Expr

/-!
# Reading expressions (SPEC_FULL §4.2)

Three levels of operators over operands, from weakest to strongest `+ -`, `* /`
and `^`, each folding to the left. An operand is a literal, a variable or an
expression in parentheses, and at most `maxNesting` parentheses are open at a
time. Spaces may follow any token, but none is skipped in front.

A `Production` reads one phrase at a cursor and takes at least one character, so
the chain of operands at each level ends with the text.

Results:

* `Production.more_le`: a chain never ends before where it starts.
-/
namespace DeskCalc

/-- The most parentheses that may be open at a time.
Stands for the program's `MAX_DEPTH` (§10.9). -/
def maxNesting : Nat := 128

/-- A reader of one phrase, which is never empty. -/
structure Production where
  run : Cursor → Except SyntaxError (Expr × Cursor)
  shrinks {c c' : Cursor} {e : Expr} : run c = .ok (e, c') → c'.rest.length < c.rest.length

/-- Levels of operators that bind equally strongly. -/
inductive Level where
  | additive | multiplicative | exponential
  deriving DecidableEq, Repr

namespace Level

def token : Level → TokenKind
  | .additive => .addSub
  | .multiplicative => .mulDiv
  | .exponential => .exponent

/-- The operator that a token of the level stands for.
Stands for the choice of the operator in the program's `Parser.sum`, `term` and
`factor`. -/
def op : Level → List Char → Op
  | .additive, w => if w = ['+'] then .add else .sub
  | .multiplicative, w => if w = ['*'] then .mul else .div
  | .exponential, _ => .pow

end Level

namespace Production

/-! ## Chains of operands -/

/-- The operators and operands that follow a left operand.
Stands for the loop in the program's `Parser.sum`, `term` and `factor`. -/
def more (p : Production) (level : Level) (left : Expr) (c : Cursor) :
    Except SyntaxError (Expr × Cursor) :=
  match _h : c.eat level.token with
  | none => .ok (left, c)
  | some (w, c₁) =>
    match _h' : p.run c₁.skipSpaces with
    | .error e => .error e
    | .ok (right, c₂) => p.more level (.binary (level.op w) left right) c₂.skipSpaces
termination_by c.rest.length
decreasing_by
  have := Cursor.eat_shrinks _h
  have := p.shrinks _h'
  have := c₁.skipSpaces_le
  have := c₂.skipSpaces_le
  omega

theorem more_le {p : Production} {level : Level} {left e : Expr} {c c' : Cursor}
    (h : p.more level left c = .ok (e, c')) : c'.rest.length ≤ c.rest.length := by
  fun_induction p.more level left c with
  | case1 => cases h; exact Nat.le_refl _
  | case2 => cases h
  | case3 left c w c₁ h₁ right c₂ h₂ ih =>
    have := ih h
    have := Cursor.eat_shrinks h₁
    have := p.shrinks h₂
    have := c₁.skipSpaces_le
    have := c₂.skipSpaces_le
    omega

/-- One operand or more, with operators of one level between them.
Stands for what the program's `Parser.sum`, `term` and `factor` have in common. -/
def chain (p : Production) (level : Level) : Production where
  run c := do
    let (left, c') ← p.run c
    p.more level left c'.skipSpaces
  shrinks {c c' e} h := by
    cases h₁ : p.run c with
    | error => simp [h₁, bind, Except.bind] at h
    | ok r =>
      obtain ⟨left, c₁⟩ := r
      simp only [h₁, bind, Except.bind] at h
      have := more_le h
      have := p.shrinks h₁
      have := c₁.skipSpaces_le
      omega

/-- Stands for the program's `Parser.factor`. -/
def factor (operand : Production) : Production := operand.chain .exponential

/-- Stands for the program's `Parser.term`. -/
def term (operand : Production) : Production := operand.factor.chain .multiplicative

/-- A whole expression over the given operands, the strongest operators inmost.
Stands for the program's `Parser.sum`. -/
def sum (operand : Production) : Production := operand.term.chain .additive

/-! ## Operands -/

/-- What follows an opening parenthesis at `start`, through the closing one.
Stands for the program's `Parser.value` behind a parenthesis. -/
def closed (inner : Production) (start : Nat) (c : Cursor) : Except SyntaxError (Expr × Cursor) :=
  match inner.run c.skipSpaces with
  | .error e => .error e
  | .ok (e, c₁) =>
    match c₁.skipSpaces.eat .rightParen with
    | some (_, c₂) => .ok (e, c₂)
    | none => .error (.unmatchedParen start c₁.skipSpaces.offset c₁.skipSpaces.found)

theorem closed_le {inner : Production} {start : Nat} {c c' : Cursor} {e : Expr}
    (h : closed inner start c = .ok (e, c')) : c'.rest.length ≤ c.rest.length := by
  unfold closed at h
  split at h
  · cases h
  · rename_i c₁ h₁
    split at h
    · rename_i h₂
      cases h
      have := Cursor.eat_shrinks h₂
      have := inner.shrinks h₁
      have := c.skipSpaces_le
      have := c₁.skipSpaces_le
      omega
    · cases h

/-- What can start an operand. -/
def operandStarts : List TokenKind := [.leftParen, .identifier, .number]

/-- A variable or a literal.
Stands for the program's `Parser.value` where no parenthesis stands. -/
def word (c : Cursor) : Except SyntaxError (Expr × Cursor) :=
  match c.eat .identifier with
  | some (w, c') => .ok (.var (.ofList w), c')
  | none =>
    match (c.eat .number).bind fun (w, c') => (Literal.ofChars? w).map (·, c') with
    | some (l, c') => .ok (.number l, c')
    | none => .error (.unexpected c.offset c.found operandStarts)

theorem word_shrinks {c c' : Cursor} {e : Expr} (h : word c = .ok (e, c')) :
    c'.rest.length < c.rest.length := by
  unfold word at h
  split at h
  · rename_i h₁; cases h; exact Cursor.eat_shrinks h₁
  · split at h
    · rename_i h₁
      obtain ⟨⟨w, c₁⟩, h₂, h₃⟩ := Option.bind_eq_some_iff.mp h₁
      obtain ⟨_, -, h₄⟩ := Option.map_eq_some_iff.mp h₃
      cases h; cases h₄
      exact Cursor.eat_shrinks h₂
    · cases h

/-- An operand, given the expressions that may stand in parentheses, if one more
may be opened at all.
Stands for the program's `Parser.value`. -/
def operand (inner : Option Production) : Production where
  run c :=
    match c.eat .leftParen with
    | some (_, c') =>
      match inner with
      | some p => closed p c.offset c'
      | none => .error (.tooDeep c.offset maxNesting)
    | none => word c
  shrinks {c c' e} h := by
    split at h
    · rename_i h₁
      split at h
      · exact Nat.lt_of_le_of_lt (closed_le h) (Cursor.eat_shrinks h₁)
      · cases h
    · exact word_shrinks h

/-- The operands that open at most `n` parentheses at a time.
Stands for the program's `Parser.value` with `depth` at `maxNesting - n`. -/
def operandWithin : Nat → Production
  | 0 => operand none
  | n + 1 => operand (some (operandWithin n).sum)

end Production

/-- Reads an expression at the cursor.
Stands for the program's `Parser.sum` as `assign` calls it. -/
def Expr.read (c : Cursor) : Except SyntaxError (Expr × Cursor) :=
  (Production.operandWithin maxNesting).sum.run c

end DeskCalc
