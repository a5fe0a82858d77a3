import DeskCalc.Proofs.Consumption
import DeskCalc.Proofs.Diagnosis
import DeskCalc.Proofs.Scanning

/-!
# Readers at work

A reader at work has a place in the line, so many parentheses open and the variables before
it, and each call moves it on. Calls go down from a production to that of its operands, and in
parentheses back up to a sum; between operands a chain goes round. A call or a turn costs one
unit of fuel, and it gives no outcome only when there is none left.

Four units for each byte that is left, and four more, are always enough: a production costs
one more than that of its operands, and what is in parentheses or behind an operator is
shorter. So every call comes to an end, and its outcome is that of the production. The
variables stay as they were, whatever the outcome is.

Results:
* `run_mono`: more fuel does not change an outcome.
* `agrees`: with enough fuel the outcome is that of the production.
* `run_progress`: what a call leaves behind.
-/
namespace DeskCalc

/-- Stands for the program's `Parser` (SPEC_FULL §10.1). -/
structure Reader where
  /-- In bytes. -/
  position : Nat
  /-- Parentheses open in front of the position. -/
  depth : Nat
  table : Table

namespace Reader

/-- What becomes of a call, and the reader as it is left. -/
abbrev Outcome := Except SyntaxError Value × Reader

/-! ## Steps -/

def moveTo (n : Nat) (r : Reader) : Reader := { r with position := n }

/-- Behind an opening parenthesis. -/
def enter (r : Reader) : Reader := { r with depth := r.depth + 1 }

def leave (r : Reader) : Reader := { r with depth := r.depth - 1 }

section

variable (input : String)

/-- Stands for the program's `Parser.eat`. -/
def eat (kind : TokenKind) (r : Reader) : Option (String × Reader) :=
  (scan kind input r.position).map fun m => (m.text, r.moveTo m.stop)

/-- Stands for the program's `Parser.space`. -/
def skipSpaces (r : Reader) : Reader :=
  match r.eat input .space with
  | some (_, r') => r'
  | none => r

/-- Stands for the program's `Parser.found`. -/
def found (r : Reader) : Found := Found.at input r.position

/-- A variable or a literal. A literal that were not to convert would be behind the reader
already.
Stands for the program's `Parser.value` where no parenthesis stands. -/
def word (r : Reader) : Outcome :=
  let unexpected : SyntaxError := .unexpected r.position (r.found input) Production.operandStarts
  match r.eat input .identifier with
  | some (name, r₁) => (.ok (.lookup r.table name), r₁)
  | none =>
    match r.eat input .number with
    | some (text, r₁) =>
      match Literal.ofChars? text.toList with
      | some l => (.ok (.bare l.value), r₁)
      | none => (.error unexpected, r₁)
    | none => (.error unexpected, r)

/-- Behind the sum in parentheses that were opened at `start`.
Stands for the end of the program's `Parser.value`. -/
def close (start : Nat) : Outcome → Outcome
  | (.error e, r) => (.error e, r)
  | (.ok v, r) =>
    let r := r.leave.skipSpaces input
    match r.eat input .rightParen with
    | some (_, r₁) => (.ok v, r₁)
    | none => (.error (.unmatchedParen start r.position (r.found input)), r)

mutual

/-- Calls a production.
Stands for the program's `Parser.value`, and `factor`, `term` and `sum` up to the loop. -/
def run : Nat → Rank → Reader → Option Outcome
  | 0, _, _ => none
  | n + 1, .value, r =>
    match r.eat input .leftParen with
    | some (_, r₁) =>
      if r.depth = maxNesting then some (.error (.tooDeep r.position maxNesting), r₁)
      else (run n .sum (r₁.enter.skipSpaces input)).map (close input r.position)
    | none => some (word input r)
  | n + 1, .chain level, r =>
    match run n level.operand r with
    | none => none
    | some (.error e, r₁) => some (.error e, r₁)
    | some (.ok left, r₁) => loop n level left (r₁.skipSpaces input)

/-- Goes round a chain: operators of the level, with an operand behind each.
Stands for the loop in the program's `Parser.factor`, `term` and `sum`. -/
def loop : Nat → Level → Value → Reader → Option Outcome
  | 0, _, _, _ => none
  | n + 1, level, left, r =>
    match r.eat input level.token with
    | none => some (.ok left, r)
    | some (op, r₁) =>
      match run n level.operand (r₁.skipSpaces input) with
      | none => none
      | some (.error e, r₂) => some (.error e, r₂)
      | some (.ok right, r₂) =>
        loop n level (.combine (level.op op.toList) left right) (r₂.skipSpaces input)

end

end

/-! ## Fuel -/

variable {input : String}

theorem mono_succ (n : Nat) :
    (∀ rank r out, run input n rank r = some out → run input (n + 1) rank r = some out) ∧
    ∀ level left r out, loop input n level left r = some out → loop input (n + 1) level left r = some out := by
  induction n with
  | zero => exact ⟨fun _ _ _ h => (by cases h), fun _ _ _ _ h => (by cases h)⟩
  | succ n ih =>
    obtain ⟨ihRun, ihLoop⟩ := ih
    refine ⟨fun rank r out h => ?_, fun level left r out h => ?_⟩
    · cases rank with
      | value =>
        rw [run] at h ⊢
        cases he : r.eat input .leftParen with
        | none => rwa [he] at h
        | some w =>
          obtain ⟨_, r₁⟩ := w
          simp only [he] at h ⊢
          split at h
          · rename_i hd
            rwa [if_pos hd]
          · rename_i hd
            obtain ⟨out₁, h₁, h₂⟩ := Option.map_eq_some_iff.mp h
            rw [if_neg hd, ihRun _ _ _ h₁, ← h₂]
            rfl
      | chain level =>
        rw [run] at h ⊢
        cases h₁ : run input n level.operand r with
        | none => simp [h₁] at h
        | some out₁ =>
          obtain ⟨res, r₁⟩ := out₁
          rw [h₁] at h
          rw [ihRun _ _ _ h₁]
          cases res with
          | error e => exact h
          | ok left => exact ihLoop _ _ _ _ h
    · rw [loop] at h ⊢
      cases he : r.eat input level.token with
      | none => rwa [he] at h
      | some w =>
        obtain ⟨op, r₁⟩ := w
        simp only [he] at h ⊢
        cases h₁ : run input n level.operand (r₁.skipSpaces input) with
        | none => simp [h₁] at h
        | some out₁ =>
          obtain ⟨res, r₂⟩ := out₁
          rw [h₁] at h
          rw [ihRun _ _ _ h₁]
          cases res with
          | error e => exact h
          | ok right => exact ihLoop _ _ _ _ h

/-- More fuel does not change an outcome. -/
theorem run_mono {n m : Nat} {rank : Rank} {r : Reader} {out : Outcome} (h : run input n rank r = some out)
    (hnm : n ≤ m) : run input m rank r = some out := by
  induction hnm with
  | refl => exact h
  | step _ ih => exact (mono_succ _).1 _ _ _ ih

/-! ## Readers and cursors -/

/-- The reader is at the cursor, which is a place in the line. -/
def At (input : String) (r : Reader) (c : Cursor) : Prop := Cursor.seek input r.position = some c

section

variable {r : Reader} {c c' : Cursor} {kind : TokenKind} {w : List Char}

theorem At.offset_eq (h : At input r c) : c.offset = r.position := (seek_eq_some_iff.mp h).1

theorem At.found_eq (h : At input r c) : r.found input = c.found := by
  have h : Cursor.seek input r.position = some c := h
  simp only [found, Found.at, h]

theorem At.isValid (h : At input r c) : (⟨r.position⟩ : String.Pos.Raw).IsValid input := by
  obtain ⟨-, before, hi, hn⟩ := seek_eq_some_iff.mp h
  exact isValid_iff.mpr ⟨before, c.rest, hi, hn⟩

theorem exists_at (h : (⟨r.position⟩ : String.Pos.Raw).IsValid input) : ∃ c, At input r c := by
  obtain ⟨before, after, hi, hn⟩ := isValid_iff.mp h
  exact ⟨⟨r.position, after⟩, seek_eq_some_iff.mpr ⟨rfl, before, hi, hn⟩⟩

/-- No more characters are left than bytes. -/
theorem At.length_rest_le (h : At input r c) : r.position + c.rest.length ≤ input.utf8ByteSize := by
  obtain ⟨-, before, hi, hn⟩ := seek_eq_some_iff.mp h
  have hsize : input.utf8ByteSize = (String.ofList before).utf8ByteSize + (String.ofList c.rest).utf8ByteSize := by
    rw [← String.utf8ByteSize_append, ← String.ofList_append, ← hi, String.ofList_toList]
  have hrest : c.rest.length ≤ (String.ofList c.rest).utf8ByteSize := by
    induction c.rest with
    | nil => exact Nat.zero_le _
    | cons x cs ih =>
      have := x.utf8Size_pos
      rw [List.length_cons, utf8ByteSize_cons]
      omega
  omega

theorem At.eat_eq (h : At input r c) (kind : TokenKind) :
    r.eat input kind = (c.eat kind).map fun (w, c') => (.ofList w, r.moveTo c'.offset) := by
  have h : Cursor.seek input r.position = some c := h
  simp only [eat, scan, h, Option.bind_some, Option.map_map]
  rfl

theorem At.eat_none (h : At input r c) (he : c.eat kind = none) : r.eat input kind = none := by
  rw [h.eat_eq, he]
  rfl

theorem At.eat (h : At input r c) (he : c.eat kind = some (w, c')) :
    r.eat input kind = some (.ofList w, r.moveTo c'.offset) ∧ At input (r.moveTo c'.offset) c' := by
  refine ⟨by rw [h.eat_eq, he]; rfl, ?_⟩
  obtain ⟨ho, before, hi, hn⟩ := seek_eq_some_iff.mp h
  obtain ⟨hw, hr, ho'⟩ := Cursor.eat_eq he
  have hl := Cursor.lexeme_of_eat he
  have hsize : (String.ofList w).utf8ByteSize = w.length := hl ▸ utf8ByteSize_lexeme (hl.symm ▸ hw)
  refine seek_eq_some_iff.mpr ⟨rfl, before ++ w, by rw [hi, hr, List.append_assoc], ?_⟩
  rw [String.ofList_append, String.utf8ByteSize_append, hn, hsize, ← ho, ← ho']
  rfl

theorem At.skipSpaces (h : At input r c) : r.skipSpaces input = r.moveTo c.skipSpaces.offset ∧
    At input (r.moveTo c.skipSpaces.offset) c.skipSpaces := by
  unfold Reader.skipSpaces Cursor.skipSpaces
  cases he : c.eat .space with
  | none =>
    have hr : r.moveTo c.offset = r := by rw [h.offset_eq]; rfl
    simp only [h.eat_none he, hr]
    exact ⟨trivial, h⟩
  | some out =>
    obtain ⟨w, c'⟩ := out
    obtain ⟨hs, hat⟩ := h.eat he
    simp only [hs]
    exact ⟨trivial, hat⟩

end

/-! ## Outcomes -/

/-- The outcome is that of a production, the variables are as they were, and the number of open
parentheses is so if there is a value. Where an operand was due, the reader still is. -/
inductive Agrees (input : String) (r : Reader) : Except SyntaxError (Expr × Cursor) → Outcome → Prop where
  | ok {e : Expr} {c' : Cursor} (h : At input (r.moveTo c'.offset) c') :
      Agrees input r (.ok (e, c')) (.ok (e.eval r.table), r.moveTo c'.offset)
  | error {e : SyntaxError} {r' : Reader} (ht : r'.table = r.table)
      (hp : ∀ p f ks, e = .unexpected p f ks → r'.position = p) : Agrees input r (.error e) (.error e, r')

section

variable {r : Reader} {c : Cursor}

theorem word_agrees (h : At input r c) : Agrees input r (Production.word c) (word input r) := by
  have herror (r' : Reader) (ht : r'.table = r.table) (hp : r'.position = r.position) :
      Agrees input r (.error (.unexpected c.offset c.found Production.operandStarts))
        (.error (.unexpected r.position (r.found input) Production.operandStarts), r') := by
    rw [h.offset_eq, h.found_eq]
    exact .error ht fun p f ks e => by cases e; exact hp
  unfold word Production.word
  cases hi : c.eat .identifier with
  | some out =>
    obtain ⟨w, c'⟩ := out
    obtain ⟨hs, hat⟩ := h.eat hi
    simp only [hs]
    exact .ok (e := .var (.ofList w)) hat
  | none =>
    have hi' := h.eat_none hi
    cases hn : c.eat .number with
    | some out =>
      -- what is eaten as a literal is one, so it converts
      obtain ⟨w, c'⟩ := out
      obtain ⟨hs, hat⟩ := h.eat hn
      obtain ⟨l, hl, rfl, -⟩ := Cursor.eat_number_iff.mp hn
      simp only [hi', hs, Option.bind_some, String.toList_ofList, Literal.ofChars?_chars hl, Option.map_some]
      exact .ok (e := .number l) hat
    | none =>
      simp only [hi', h.eat_none hn, Option.bind_none]
      exact herror r rfl rfl

/-- What is in parentheses is read one level down. -/
theorem close_agrees {inner : Production} {start : Nat} {out : Outcome}
    (h : Agrees input ((r.moveTo c.offset).enter.moveTo c.skipSpaces.offset) (inner.run c.skipSpaces) out) :
    Agrees input r (Production.closed inner start c) (close input start out) := by
  unfold Production.closed
  generalize inner.run c.skipSpaces = res at h
  cases h with
  | error ht hp => exact .error ht hp
  | @ok e c' hat =>
    have hat' : At input (r.moveTo c'.offset) c' := hat
    obtain ⟨hskip, hat''⟩ := hat'.skipSpaces
    change Agrees input r _ (close input start (.ok (e.eval r.table), (r.moveTo c'.offset).enter))
    have hleave : (r.moveTo c'.offset).enter.leave = r.moveTo c'.offset := rfl
    simp only [close, hleave, hskip]
    cases hc : c'.skipSpaces.eat .rightParen with
    | some out =>
      obtain ⟨w, c₂⟩ := out
      obtain ⟨hs, hat₂⟩ := hat''.eat hc
      simp only [hs]
      exact .ok hat₂
    | none =>
      simp only [hat''.eat_none hc, hat''.found_eq]
      exact .error rfl fun _ _ _ he => by cases he

/-- Where the reader stood does not count any more. -/
theorem Agrees.of_moveTo {n : Nat} {res : Except SyntaxError (Expr × Cursor)} {out : Outcome}
    (h : Agrees input (r.moveTo n) res out) : Agrees input r res out := by
  cases h with
  | ok h => exact .ok h
  | error ht hp => exact .error ht hp

/-! ## Calls come to an end -/

/-- With enough fuel for the call, and `n` units are there, the outcome is that of the
production. The fuel that a production needs in front of a text is four units for each
character, one more, and one for each production between it and operands. -/
def RunAgrees (input : String) (n : Nat) : Prop :=
  ∀ (rank : Rank) (r : Reader) (c : Cursor), At input r c → r.depth ≤ maxNesting →
    4 * c.rest.length + 4 ≤ n + rank.strength →
    ∃ out, run input n rank r = some out ∧
      Agrees input r ((Production.ofRank (maxNesting - r.depth) rank).run c) out

def LoopAgrees (input : String) (n : Nat) : Prop :=
  ∀ (level : Level) (left : Expr) (r : Reader) (c : Cursor), At input r c → r.depth ≤ maxNesting →
    4 * c.rest.length + 1 ≤ n →
    ∃ out, loop input n level (left.eval r.table) r = some out ∧
      Agrees input r ((Production.ofRank (maxNesting - r.depth) level.operand).more level left c) out

theorem agrees_value {n : Nat} (ih : RunAgrees input n) (hat : At input r c) (hd : r.depth ≤ maxNesting)
    (hn : 4 * c.rest.length ≤ n) : ∃ out, run input (n + 1) .value r = some out ∧
      Agrees input r ((Production.operandWithin (maxNesting - r.depth)).run c) out := by
  rw [run]
  cases he : c.eat .leftParen with
  | none =>
    have hword : (Production.operandWithin (maxNesting - r.depth)).run c = Production.word c :=
      Production.operandWithin_word _ ((Cursor.eat_only_none_iff TokenKind.only_leftParen).mp he)
    simp only [hat.eat_none he, hword]
    exact ⟨_, rfl, word_agrees hat⟩
  | some out =>
    obtain ⟨w, c₁⟩ := out
    obtain ⟨hs, hat₁⟩ := hat.eat he
    simp only [hs]
    by_cases hfull : r.depth = maxNesting
    · have hprod : (Production.operandWithin (maxNesting - r.depth)).run c =
          .error (.tooDeep r.position maxNesting) := by
        rw [hfull, Nat.sub_self]
        simp [Production.operandWithin, Production.operand, he, hat.offset_eq]
      rw [if_pos hfull, hprod]
      exact ⟨_, rfl, .error rfl fun _ _ _ h => by cases h⟩
    · obtain ⟨m, hm⟩ : ∃ m, maxNesting - r.depth = m + 1 := ⟨maxNesting - (r.depth + 1), by omega⟩
      have hm' : maxNesting - (r.depth + 1) = m := by omega
      have hprod : (Production.operandWithin (maxNesting - r.depth)).run c =
          Production.closed (Production.operandWithin m).sum r.position c₁ := by
        rw [hm]
        simp [Production.operandWithin, Production.operand, he, hat.offset_eq]
      obtain ⟨hskip, hat₂⟩ := At.skipSpaces (r := (r.moveTo c₁.offset).enter) hat₁
      have hlt := Cursor.eat_shrinks he
      have hle := c₁.skipSpaces_le
      have hd' : r.depth + 1 ≤ maxNesting := by omega
      obtain ⟨out, hrun, hagrees⟩ := ih .sum _ _ hat₂ hd' (by omega)
      have hagrees : Agrees input ((r.moveTo c₁.offset).enter.moveTo c₁.skipSpaces.offset)
        ((Production.ofRank (maxNesting - (r.depth + 1)) .sum).run c₁.skipSpaces) out := hagrees
      rw [hm'] at hagrees
      rw [if_neg hfull, hprod, hskip, hrun]
      exact ⟨_, rfl, close_agrees hagrees⟩

theorem agrees_chain {n : Nat} (ihRun : RunAgrees input n) (ihLoop : LoopAgrees input n) {level : Level}
    (hat : At input r c) (hd : r.depth ≤ maxNesting) (hn : 4 * c.rest.length + 3 ≤ n + level.strength) :
    ∃ out, run input (n + 1) (.chain level) r = some out ∧
      Agrees input r ((Production.ofRank (maxNesting - r.depth) (.chain level)).run c) out := by
  rw [run, Production.ofRank_chain]
  have hoperand := Rank.strength_operand level
  have hstrength := level.operand.strength_le
  obtain ⟨out, hrun, hagrees⟩ := ihRun level.operand r c hat hd (by omega)
  rw [hrun]
  generalize hres : (Production.ofRank (maxNesting - r.depth) level.operand).run c = res at hagrees
  cases hagrees with
  | error ht hp =>
    rw [Production.chain_run_error hres]
    exact ⟨_, rfl, .error ht hp⟩
  | @ok e c₁ hat₁ =>
    rw [Production.chain_run hres]
    obtain ⟨hskip, hat₂⟩ := hat₁.skipSpaces
    have hlt := Production.shrinks _ hres
    have hle := c₁.skipSpaces_le
    obtain ⟨out, hloop, hagrees'⟩ := ihLoop level e _ _ hat₂ hd (by omega)
    simp only [hskip]
    exact ⟨out, hloop, hagrees'.of_moveTo.of_moveTo⟩

theorem agrees_loop {n : Nat} (ihRun : RunAgrees input n) (ihLoop : LoopAgrees input n) {level : Level}
    {left : Expr} (hat : At input r c) (hd : r.depth ≤ maxNesting) (hn : 4 * c.rest.length ≤ n) :
    ∃ out, loop input (n + 1) level (left.eval r.table) r = some out ∧
      Agrees input r ((Production.ofRank (maxNesting - r.depth) level.operand).more level left c) out := by
  rw [loop]
  cases he : c.eat level.token with
  | none =>
    have hr : r.moveTo c.offset = r := by rw [hat.offset_eq]; rfl
    have hdone : Agrees input r (.ok (left, c)) (.ok (left.eval r.table), r.moveTo c.offset) :=
      .ok (hr.symm ▸ hat)
    rw [hat.eat_none he, Production.more_none he]
    exact ⟨_, rfl, hr ▸ hdone⟩
  | some out =>
    obtain ⟨w, c₁⟩ := out
    obtain ⟨hs, hat₁⟩ := hat.eat he
    obtain ⟨hskip, hat₂⟩ := hat₁.skipSpaces
    have hlt := Cursor.eat_shrinks he
    have hle := c₁.skipSpaces_le
    have hoperand := Rank.strength_operand level
    obtain ⟨out, hrun, hagrees⟩ := ihRun level.operand _ _ hat₂ hd (by omega)
    have hagrees : Agrees input r
      ((Production.ofRank (maxNesting - r.depth) level.operand).run c₁.skipSpaces) out := hagrees.of_moveTo.of_moveTo
    simp only [hs, hskip, hrun, String.toList_ofList]
    generalize hres : (Production.ofRank (maxNesting - r.depth) level.operand).run c₁.skipSpaces = res at hagrees
    cases hagrees with
    | error ht hp =>
      rw [Production.more_error he hres]
      exact ⟨_, rfl, .error ht hp⟩
    | @ok right c₂ hat₃ =>
      rw [Production.more_ok he hres]
      obtain ⟨hskip', hat₄⟩ := hat₃.skipSpaces
      have hlt' := Production.shrinks _ hres
      have hle' := c₂.skipSpaces_le
      obtain ⟨out, hloop, hagrees'⟩ := ihLoop level (.binary (level.op w) left right) _ _ hat₄ hd (by omega)
      simp only [hskip']
      exact ⟨out, hloop, hagrees'.of_moveTo.of_moveTo⟩

theorem agrees (input : String) (n : Nat) : RunAgrees input n ∧ LoopAgrees input n := by
  induction n with
  | zero =>
    refine ⟨fun rank r c _ _ hn => ?_, fun _ _ _ _ _ _ hn => (by omega)⟩
    have := rank.strength_le
    omega
  | succ n ih =>
    obtain ⟨ihRun, ihLoop⟩ := ih
    refine ⟨fun rank r c hat hd hn => ?_, fun level left r c hat hd hn =>
      agrees_loop ihRun ihLoop hat hd (by omega)⟩
    cases rank with
    | value =>
      have hstrength : Rank.value.strength = 3 := rfl
      exact agrees_value ihRun hat hd (by omega)
    | chain level =>
      have hstrength : (Rank.chain level).strength = level.strength := rfl
      exact agrees_chain ihRun ihLoop hat hd (by omega)

end

/-! ## What calls leave behind -/

/-- From one byte offset to another the line is tokens, each found right behind the one
before, and no equals sign among them. -/
inductive Tokens (input : String) : Nat → Nat → Prop where
  | done (p : Nat) : Tokens input p p
  | token {kind : TokenKind} {m : Match} {p q : Nat} (hk : kind ≠ .assign) (h : scan kind input p = some m)
      (hr : Tokens input m.stop q) : Tokens input p q

theorem tokens_of_consumed {c c' : Cursor} (h : Consumed c c') {r : Reader} (hat : At input r c) :
    Tokens input r.position c'.offset := by
  induction h generalizing r with
  | done c => exact hat.offset_eq ▸ .done _
  | @token kind w c c₁ c' hk he _ ih =>
    obtain ⟨hs, hat₁⟩ := hat.eat he
    obtain ⟨m, hm, hout⟩ := Option.map_eq_some_iff.mp hs
    have hstop : m.stop = c₁.offset := congrArg (fun out => out.2.position) hout
    exact .token hk hm (hstop ▸ ih hat₁)

/-- What is left behind with a value: something has been read, and that is tokens; the
parentheses opened in it are closed, and no space is left where operators were looked for. -/
structure Progress (input : String) (rank : Rank) (r r' : Reader) : Prop where
  forward : r.position < r'.position
  within : r'.position ≤ input.utf8ByteSize
  isValid : (⟨r'.position⟩ : String.Pos.Raw).IsValid input
  depth_eq : r'.depth = r.depth
  tokens : Tokens input r.position r'.position
  found_ne : rank ≠ .value → r'.found input ≠ .char ' '

theorem progress_of_run {rank : Rank} {r : Reader} {c c' : Cursor} {e : Expr} {n : Nat} (hat : At input r c)
    (h : (Production.ofRank n rank).run c = .ok (e, c')) (hat' : At input (r.moveTo c'.offset) c') :
    Progress input rank r (r.moveTo c'.offset) := by
  have hconsumed := Production.consumes_ofRank n rank _ _ _ h
  refine ⟨?_, ?_, hat'.isValid, rfl, tokens_of_consumed hconsumed hat, fun hrank => ?_⟩
  · have hsum := hconsumed.offset_add_length
    have hlt := Production.shrinks _ h
    have hoffset := hat.offset_eq
    change r.position < c'.offset
    omega
  · exact Nat.le_trans (Nat.le_add_right _ _) hat'.length_rest_le
  · rw [hat'.found_eq, ne_eq, Cursor.found_eq_char_iff]
    cases rank with
    | value => exact absurd rfl hrank
    | chain level => exact Production.head_chain (Production.ofRank_chain n level ▸ h)

/-- A call has one outcome, however much fuel there is beyond what is enough. -/
theorem exists_run {r : Reader} {c : Cursor} (hat : At input r c) (hd : r.depth ≤ maxNesting) (rank : Rank) :
    ∃ out, (∀ n, 4 * (input.utf8ByteSize - r.position) + 4 ≤ n → run input n rank r = some out) ∧
      Agrees input r ((Production.ofRank (maxNesting - r.depth) rank).run c) out := by
  have hle := hat.length_rest_le
  obtain ⟨out, hrun, hagrees⟩ := (agrees input (4 * (input.utf8ByteSize - r.position) + 4)).1 rank r c hat hd
    (by omega)
  exact ⟨out, fun n hn => run_mono hrun hn, hagrees⟩

/-- A turn of a chain takes two bytes at least. -/
theorem position_turn {n : Nat} {level : Level} {op : String} {right : Value} {r r₁ r₂ : Reader} {c : Cursor}
    (hat : At input r c) (hd : r.depth ≤ maxNesting) (h₁ : r.eat input level.token = some (op, r₁))
    (h₂ : run input n level.operand (r₁.skipSpaces input) = some (.ok right, r₂)) :
    r.position + 2 ≤ (r₂.skipSpaces input).position := by
  cases he : c.eat level.token with
  | none => rw [hat.eat_none he] at h₁; cases h₁
  | some out =>
    obtain ⟨w, c₁⟩ := out
    obtain ⟨hs, hat₁⟩ := hat.eat he
    obtain ⟨hskip, hat₂⟩ := hat₁.skipSpaces
    rw [hs] at h₁
    cases h₁
    rw [hskip] at h₂
    obtain ⟨out, hrun, hagrees⟩ := exists_run hat₂ hd level.operand
    -- the fuel of this call was enough, since it has an outcome
    have hmax := hrun _ (Nat.le_max_right n _)
    rw [run_mono h₂ (Nat.le_max_left n _)] at hmax
    cases hmax
    generalize hres : (Production.ofRank _ level.operand).run c₁.skipSpaces = res at hagrees
    cases hagrees with
    | @ok e c₂ hat₃ =>
      have hturn := Production.offset_turn (Production.consumes_ofRank _ _) he hres
      have hat₃ : At input (r.moveTo c₂.offset) c₂ := hat₃
      have hoffset := hat.offset_eq
      change r.position + 2 ≤ ((r.moveTo c₂.offset).skipSpaces input).position
      rw [hat₃.skipSpaces.1]
      change r.position + 2 ≤ c₂.skipSpaces.offset
      omega

/-- What is scanned as a number converts. -/
theorem exists_literal_of_scan {p : Nat} {m : Match} (h : scan .number input p = some m) :
    ∃ l : Literal, l.WellFormed ∧ m.text = .ofList l.chars ∧ Literal.ofChars? m.text.toList = some l := by
  obtain ⟨before, after, -, -, hw, rfl⟩ := exists_of_scan_eq_some h
  obtain ⟨l, hl, hchars⟩ := TokenKind.word_lexeme hw
  refine ⟨l, hl, congrArg String.ofList hchars, ?_⟩
  rw [String.toList_ofList, hchars, Literal.ofChars?_chars hl]

/-- Wherever a call starts between two characters of a line, with no more parentheses open
than may be, it comes to an end, and all the fuel it takes is four units for each byte left and
four more. Its outcome is that of the production, and the variables are as they were. With a
value the reader has moved on over tokens, it has as many parentheses open as before, and
unless it has read an operand, no space stands where it is. Where an operand was due it is
still in front of what stands there, since every number that is scanned converts. Each turn
of a chain takes two bytes or more. -/
theorem run_progress (input : String) (r : Reader) (hr : (⟨r.position⟩ : String.Pos.Raw).IsValid input)
    (hd : r.depth ≤ maxNesting) :
    (∀ rank : Rank, ∃ (o : Except SyntaxError Value) (r' : Reader),
      (∀ n, 4 * (input.utf8ByteSize - r.position) + 4 ≤ n → run input n rank r = some (o, r')) ∧
      (∀ c, Cursor.seek input r.position = some c →
        o = ((Production.ofRank (maxNesting - r.depth) rank).run c).map fun (e, _) => e.eval r.table) ∧
      r'.table = r.table ∧
      (∀ v, o = .ok v → Progress input rank r r') ∧
      ∀ p f ks, o = .error (.unexpected p f ks) → r'.position = p) ∧
    (∀ (n : Nat) (level : Level) (op : String) (right : Value) (r₁ r₂ : Reader),
      r.eat input level.token = some (op, r₁) →
      run input n level.operand (r₁.skipSpaces input) = some (.ok right, r₂) →
      r.position + 2 ≤ (r₂.skipSpaces input).position) ∧
    ∀ m, scan .number input r.position = some m → ∃ l : Literal, l.WellFormed ∧ m.text = .ofList l.chars ∧
      Literal.ofChars? m.text.toList = some l := by
  obtain ⟨c, hat⟩ := exists_at hr
  refine ⟨fun rank => ?_, fun n level op right r₁ r₂ h₁ h₂ => position_turn hat hd h₁ h₂,
    fun m hm => exists_literal_of_scan hm⟩
  obtain ⟨out, hrun, hagrees⟩ := exists_run hat hd rank
  generalize hres : (Production.ofRank (maxNesting - r.depth) rank).run c = res at hagrees
  have hseek {c₁ : Cursor} (h : Cursor.seek input r.position = some c₁) : c₁ = c :=
    Option.some.inj (h.symm.trans hat)
  cases hagrees with
  | @ok e c' hat' =>
    refine ⟨_, _, hrun, fun c₁ hc₁ => ?_, rfl, fun _ _ => progress_of_run hat hres hat', fun _ _ _ h => by cases h⟩
    rw [hseek hc₁, hres]
    rfl
  | @error e r' ht hp =>
    refine ⟨_, _, hrun, fun c₁ hc₁ => ?_, ht, fun _ h => (by cases h), fun p f ks h => ?_⟩
    · rw [hseek hc₁, hres]
      rfl
    · exact hp p f ks (Except.error.inj h)

/-- With the last parenthesis that may be opened an operand ends in front of a space, and a
factor behind it. -/
theorem run_progress_of_space :
    ∃ r₁ r₂ : Reader,
      (∃ v, run "é(1 + 2) " 36 .value ⟨2, 127, {}⟩ = some (.ok v, r₁)) ∧
      Progress "é(1 + 2) " .value ⟨2, 127, {}⟩ r₁ ∧ r₁.found "é(1 + 2) " = .char ' ' ∧
      (∃ v, run "é(1 + 2) " 36 (.chain .exponential) ⟨2, 127, {}⟩ = some (.ok v, r₂)) ∧
      Progress "é(1 + 2) " (.chain .exponential) ⟨2, 127, {}⟩ r₂ ∧ r₂.position = 10 := by
  have hvalid : (⟨2⟩ : String.Pos.Raw).IsValid "é(1 + 2) " := isValid_iff.mpr ⟨['é'], _, rfl, rfl⟩
  obtain ⟨hcalls, -⟩ := run_progress "é(1 + 2) " ⟨2, 127, {}⟩ hvalid (by decide)
  have hrun₁ : (run "é(1 + 2) " 36 .value ⟨2, 127, {}⟩).map (fun out => (out.1.isOk, out.2.position)) =
      some (true, 9) := by decide +kernel
  have hrun₂ : (run "é(1 + 2) " 36 (.chain .exponential) ⟨2, 127, {}⟩).map
      (fun out => (out.1.isOk, out.2.position)) = some (true, 10) := by decide +kernel
  obtain ⟨o₁, r₁, h₁, -, -, hprogress₁, -⟩ := hcalls .value
  obtain ⟨o₂, r₂, h₂, -, -, hprogress₂, -⟩ := hcalls (.chain .exponential)
  have hspace : Found.at "é(1 + 2) " 9 = .char ' ' := by decide
  rw [h₁ 36 (by decide)] at hrun₁
  rw [h₂ 36 (by decide)] at hrun₂
  cases o₁ with
  | error => cases hrun₁
  | ok v₁ =>
    cases o₂ with
    | error => cases hrun₂
    | ok v₂ =>
      obtain ⟨p₁, d₁, t₁⟩ := r₁
      obtain ⟨p₂, d₂, t₂⟩ := r₂
      cases hrun₁
      cases hrun₂
      exact ⟨_, _, ⟨v₁, h₁ 36 (by decide)⟩, hprogress₁ v₁ rfl, hspace, ⟨v₂, h₂ 36 (by decide)⟩,
        hprogress₂ v₂ rfl, rfl⟩

end Reader

end DeskCalc
