import DeskCalc.Proofs.Diagnosis

/-!
# The nesting limit

The reader goes one level down with each parenthesis it opens and one up with each it
closes, on either side of an equals sign. So how deep it is at a place is told by the
parentheses in the text that it has read: it is never below `maxNesting`, and it
complains where it would have to be.

Results:
* `Breaks.shallow`: in front of any error no more parentheses are open than may be.
* `Breaks.full_of_tooDeep`: where the nesting is too deep, exactly as many are.
* `Phrase.exists_tooDeep`: a phrase that nests too deep breaks off at such a place.
* `evaluate_nesting`: which lines nest too deep, and where.
-/
namespace DeskCalc

/-! ## Shallow texts -/

theorem count_open (cs : List Char) :
    ('(' :: cs).count '(' = cs.count '(' + 1 ∧ ('(' :: cs).count ')' = cs.count ')' :=
  ⟨List.count_cons_self, List.count_cons_of_ne (by decide)⟩

theorem count_close (cs : List Char) :
    (')' :: cs).count '(' = cs.count '(' ∧ (')' :: cs).count ')' = cs.count ')' + 1 :=
  ⟨List.count_cons_of_ne (by decide), List.count_cons_self⟩

/-- Nowhere in the text are more than `n` parentheses open. -/
def Shallow (n : Nat) (cs : List Char) : Prop := ∀ u, u <+: cs → u.count '(' ≤ u.count ')' + n

namespace Shallow

variable {n : Nat} {u v w : List Char}

theorem of_plain (h : Plain w) : Shallow n w := fun u hu => by
  rw [List.count_eq_zero.mpr fun hc => (h _ (hu.subset hc)).1 rfl]
  exact Nat.zero_le _

/-- Behind balanced text the count starts again. -/
theorem append (hb : Balanced u) (hu : Shallow n u) (hv : Shallow n v) : Shallow n (u ++ v) := by
  intro x hx
  rcases List.prefix_or_prefix_of_prefix hx (List.prefix_append u v) with h | ⟨y, rfl⟩
  · exact hu x h
  · have hy := hv y ((List.prefix_append_right_inj u).mp hx)
    have := hb.closed
    simp only [List.count_append]
    omega

theorem plain_append (h : Plain u) (hv : Shallow n v) : Shallow n (u ++ v) :=
  (of_plain h).append (.of_plain h) hv

theorem opened (h : Shallow n w) : Shallow (n + 1) ('(' :: w) := by
  intro x hx
  rcases List.prefix_cons_iff.mp hx with rfl | ⟨y, rfl, hy⟩
  · exact Nat.zero_le _
  · have := h y hy
    have := count_open y
    omega

theorem closing : Shallow n [')'] := by
  intro x hx
  rcases List.prefix_cons_iff.mp hx with rfl | ⟨y, rfl, hy⟩
  · exact Nat.zero_le _
  · rw [List.prefix_nil.mp hy]
    exact Nat.zero_le _

/-- A parenthesis that stands behind a front part of a shallow text finds fewer open
than may be. -/
theorem lt_of_prefix (h : Shallow n w) (hu : u ++ ['('] <+: w) : u.count '(' < u.count ')' + n := by
  have hcount := h _ hu
  obtain ⟨hopen, hclose⟩ := count_open []
  simp only [List.count_append, hopen, hclose, List.count_nil] at hcount
  omega

end Shallow

/-- Balanced text in front does not change how many parentheses are open. -/
theorem Balanced.count_append {n : Nat} {u w : List Char} (hu : Balanced u) (hw : w.count '(' = w.count ')' + n) :
    (u ++ w).count '(' = (u ++ w).count ')' + n := by
  simp only [List.count_append, hu.closed, hw]
  omega

/-! ## Derivations -/

theorem Phrase.shallow_text {r : Rank} (p : Phrase r) {n : Nat} (h : p.nesting ≤ n) : Shallow n p.text := by
  induction p generalizing n with
  | name x hx => exact .of_plain (plain_of_isNameChar hx.isNameChar)
  | literal l hl => exact .of_plain hl.plain
  | single _ ih => exact ih h
  | group a p b ih =>
    obtain ⟨n, rfl⟩ := Nat.exists_eq_add_of_le' h
    have hclose : Shallow (n + p.nesting) (spaces b ++ [')']) := .plain_append (plain_spaces b) .closing
    have hinner := (ih (Nat.le_add_left _ n)).append p.balanced_text hclose
    have hbefore := Shallow.plain_append (plain_spaces a) hinner
    simpa [text, nesting, Nat.add_assoc] using hbefore.opened
  | more p a op _ b q ih₁ ih₂ =>
    have hright := Shallow.plain_append (plain_spaces b) (ih₂ (Nat.le_trans (Nat.le_max_right _ _) h))
    have hmiddle := Shallow.plain_append (plain_spaces a) (.plain_append (plain_symbol op) hright)
    have hleft := (ih₁ (Nat.le_trans (Nat.le_max_left _ _) h)).append p.balanced_text hmiddle
    simpa [text] using hleft

namespace Clause

theorem balanced_text (d : Clause) : Balanced d.text := by
  cases d with
  | answer p k => exact p.balanced_text.append (.of_plain (plain_spaces k))
  | equation p n m q k =>
    have hright := (Balanced.of_plain (plain_spaces m)).append (q.balanced_text.append (.of_plain (plain_spaces k)))
    have hequals := (Balanced.of_plain plain_equals).append hright
    exact p.balanced_text.append ((Balanced.of_plain (plain_spaces n)).append hequals)

theorem shallow_text (d : Clause) {n : Nat} (h : d.nesting ≤ n) : Shallow n d.text := by
  cases d with
  | answer p k => exact (p.shallow_text h).append p.balanced_text (.of_plain (plain_spaces k))
  | equation p a b q k =>
    have hq := (q.shallow_text (Nat.le_trans (Nat.le_max_right _ _) h)).append q.balanced_text
      (.of_plain (plain_spaces k))
    have hequals := Shallow.plain_append plain_equals (.plain_append (plain_spaces b) hq)
    exact (p.shallow_text (Nat.le_trans (Nat.le_max_left _ _) h)).append p.balanced_text
      (.plain_append (plain_spaces a) hequals)

end Clause

/-! ## Where reading breaks off -/

namespace Breaks

variable {n o p k : Nat} {r : Rank} {w cs : List Char} {e : SyntaxError}

theorem shallow (h : Breaks n r o w cs e) : Shallow n w := by
  induction h with
  | operand | nested => exact .of_plain (by simp [Plain])
  | first _ ih => exact ih
  | @inside _ _ a _ _ _ _ _ ih => exact (Shallow.plain_append (plain_spaces a) ih).opened
  | @unclosed _ _ a b _ p hn =>
    have hinner := (p.shallow_text hn).append p.balanced_text (.of_plain (plain_spaces b))
    exact (Shallow.plain_append (plain_spaces a) hinner).opened
  | @right _ _ a b op _ _ _ q hn _ _ ih =>
    have hmiddle := Shallow.plain_append (plain_symbol op) (.plain_append (plain_spaces b) ih)
    exact (q.shallow_text hn).append q.balanced_text (.plain_append (plain_spaces a) hmiddle)

/-- Too deep is where as many parentheses are open as may be. -/
theorem full_of_tooDeep (h : Breaks n r o w cs (.tooDeep p k)) :
    k = maxNesting ∧ w.count '(' = w.count ')' + n := by
  generalize he : SyntaxError.tooDeep p k = e at h
  induction h with
  | operand | unclosed => cases he
  | nested =>
    cases he
    exact ⟨rfl, rfl⟩
  | first _ ih => exact ih he
  | @inside _ _ a w _ _ _ _ ih =>
    obtain ⟨hk, hw⟩ := ih he
    have hinner := (Balanced.of_plain (plain_spaces a)).count_append hw
    have := count_open (spaces a ++ w)
    refine ⟨hk, ?_⟩
    omega
  | @right _ _ a b op _ _ _ q _ _ _ ih =>
    obtain ⟨hk, hw⟩ := ih he
    have hright := (Balanced.of_plain (plain_spaces b)).count_append hw
    have hsymbol := (Balanced.of_plain (plain_symbol op)).count_append hright
    exact ⟨hk, q.balanced_text.count_append ((Balanced.of_plain (plain_spaces a)).count_append hsymbol)⟩

end Breaks

/-- The operand in `n` pairs of parentheses. -/
def Phrase.enclosed (p : Phrase .value) : Nat → Phrase .value
  | 0 => p
  | n + 1 => .group 0 (p.enclosed n).ofValue 0

theorem Phrase.nesting_enclosed (p : Phrase .value) (n : Nat) : (p.enclosed n).nesting = p.nesting + n := by
  induction n with
  | zero => rfl
  | succ n ih => exact congrArg (· + 1) ih

/-- A phrase that nests deeper than may be breaks off at a parenthesis, whatever stands
behind it. -/
theorem Phrase.exists_tooDeep {r : Rank} (p : Phrase r) {n : Nat} (h : n < p.nesting) (o : Nat) (rest : List Char) :
    ∃ w cs, p.text = w ++ '(' :: cs ∧ Breaks n r o w ('(' :: (cs ++ rest)) (.tooDeep (o + w.length) maxNesting) := by
  induction p generalizing n o rest with
  | name | literal => exact absurd h (Nat.not_lt_zero n)
  | single p ih =>
    obtain ⟨w, cs, ht, hb⟩ := ih h o rest
    exact ⟨w, cs, ht, .first hb⟩
  | group a p b ih =>
    cases n with
    | zero => exact ⟨[], _, rfl, .nested⟩
    | succ n =>
      obtain ⟨w, cs, ht, hb⟩ := ih (Nat.lt_of_succ_lt_succ h) (o + (1 + a)) (spaces b ++ ')' :: rest)
      have hs := p.head_ne_space (spaces b ++ ')' :: rest)
      refine ⟨'(' :: (spaces a ++ w), cs ++ (spaces b ++ [')']), by simp [text, ht], ?_⟩
      rw [ht, List.append_assoc, List.cons_append] at hs
      have hinside := Breaks.inside hs hb
      have ho : o + (1 + a) + w.length = o + ('(' :: (spaces a ++ w)).length := by
        simp [spaces]
        omega
      rw [ho] at hinside
      simpa using hinside
  | @more level p a op hop b q ih₁ ih₂ =>
    by_cases hp : p.nesting ≤ n
    · have hq : n < q.nesting := (lt_max_iff.mp h).resolve_left (Nat.not_lt_of_le hp)
      obtain ⟨w, cs, ht, hb⟩ := ih₂ hq (o + (p.text.length + (a + (1 + b)))) rest
      subst hop
      have hs := q.head_ne_space rest
      refine ⟨p.text ++ (spaces a ++ op.symbol :: (spaces b ++ w)), cs, by simp [text, ht], ?_⟩
      rw [ht, List.append_assoc, List.cons_append] at hs
      have hright := Breaks.right (a := a) p hp hs hb
      have ho : o + (p.text.length + (a + (1 + b))) + w.length =
          o + (p.text ++ (spaces a ++ op.symbol :: (spaces b ++ w))).length := by
        simp [spaces]
        omega
      rwa [ho] at hright
    · -- the left operand is too deep already
      obtain ⟨w, cs, ht, hb⟩ := ih₁ (Nat.lt_of_not_le hp) o (spaces a ++ op.symbol :: (spaces b ++ q.text) ++ rest)
      exact ⟨w, cs ++ (spaces a ++ op.symbol :: (spaces b ++ q.text)), by simp [text, ht], by simpa using hb⟩

/-! ## Lines -/

namespace LineBreaks

variable {p k : Nat} {w cs : List Char} {e : SyntaxError}

theorem shallow (h : LineBreaks w cs e) : Shallow maxNesting w := by
  cases h with
  | left h => exact h.shallow
  | @right n m _ _ _ q hn _ h =>
    have hequals := Shallow.plain_append plain_equals (.plain_append (plain_spaces m) h.shallow)
    exact (q.shallow_text hn).append q.balanced_text (.plain_append (plain_spaces n) hequals)

theorem full_of_tooDeep (h : LineBreaks w cs (.tooDeep p k)) :
    k = maxNesting ∧ w.count '(' = w.count ')' + maxNesting := by
  cases h with
  | left h => exact h.full_of_tooDeep
  | @right n m _ _ _ q _ _ h =>
    obtain ⟨hk, hw⟩ := h.full_of_tooDeep
    have hright := (Balanced.of_plain (plain_spaces m)).count_append hw
    have hequals := (Balanced.of_plain plain_equals).count_append hright
    exact ⟨hk, q.balanced_text.count_append ((Balanced.of_plain (plain_spaces n)).count_append hequals)⟩

end LineBreaks

theorem Clause.exists_tooDeep (d : Clause) (h : maxNesting < d.nesting) :
    ∃ w cs, d.text = w ++ '(' :: cs ∧ LineBreaks w ('(' :: cs) (.tooDeep w.length maxNesting) := by
  cases d with
  | answer p k =>
    obtain ⟨w, cs, ht, hb⟩ := p.exists_tooDeep h 0 (spaces k)
    rw [Nat.zero_add] at hb
    exact ⟨w, cs ++ spaces k, by simp [text, ht], .left hb⟩
  | equation p n m q k =>
    by_cases hp : p.nesting ≤ maxNesting
    · have hq : maxNesting < q.nesting := (lt_max_iff.mp h).resolve_left (Nat.not_lt_of_le hp)
      obtain ⟨w, cs, ht, hb⟩ := q.exists_tooDeep hq (p.text.length + (n + (1 + m))) (spaces k)
      have hs := q.head_ne_space (spaces k)
      rw [ht, List.append_assoc, List.cons_append] at hs
      have ho : p.text.length + (n + (1 + m)) + w.length = (p.text ++ (spaces n ++ '=' :: (spaces m ++ w))).length := by
        simp [spaces]
        omega
      rw [ho] at hb
      exact ⟨p.text ++ (spaces n ++ '=' :: (spaces m ++ w)), cs ++ spaces k, by simp [text, ht], .right p hp hs hb⟩
    · obtain ⟨w, cs, ht, hb⟩ :=
        p.exists_tooDeep (Nat.lt_of_not_le hp) 0 (spaces n ++ '=' :: (spaces m ++ (q.text ++ spaces k)))
      rw [Nat.zero_add] at hb
      exact ⟨w, cs ++ (spaces n ++ '=' :: (spaces m ++ (q.text ++ spaces k))), by simp [text, ht], .left hb⟩

/-- Where the reader stops: behind the statement in front of the line, or where it breaks
off. -/
def Statement.stop (line : String) : Nat :=
  match read line with
  | .ok (_, c) => c.offset
  | .error e => e.position

/-- What the reader has gone through is shallow. -/
theorem Statement.exists_shallow (line : String) : ∃ before after, line.toList = before ++ after ∧
    (String.ofList before).utf8ByteSize = stop line ∧ Shallow maxNesting before := by
  unfold stop
  cases h : read line with
  | error e =>
    obtain ⟨w, cs, hw, hb⟩ := exists_breaks h
    exact ⟨w, cs, hw, hb.utf8ByteSize_eq, hb.shallow⟩
  | ok r =>
    obtain ⟨st, c⟩ := r
    obtain ⟨d, -, hd⟩ := exists_heads h
    exact ⟨d.text, c.rest, hd.toList_eq, d.utf8ByteSize_text.trans hd.offset_eq.symm, d.shallow_text hd.nesting_le⟩

/-! ## Open parentheses -/

/-- As long as only opened parentheses are closed, those left open are the difference. -/
theorem unclosed_add_count {n : Nat} {u : List Char} (h : ∀ v, v <+: u → v.count ')' ≤ v.count '(' + n) :
    unclosed n u + u.count ')' = u.count '(' + n := by
  induction u generalizing n with
  | nil => simp [unclosed]
  | cons c u ih =>
    have hcons (v : List Char) (hv : v <+: u) : c :: v <+: c :: u := List.cons_prefix_cons.mpr ⟨rfl, hv⟩
    by_cases hopen : c = '('
    · subst hopen
      have hcount := @ih (n + 1) fun v hv => by
        have := h _ (hcons v hv)
        have := count_open v
        omega
      have := count_open u
      rw [unclosed_open]
      omega
    · by_cases hclose : c = ')'
      · subst hclose
        have hfirst := h [')'] (hcons [] List.nil_prefix)
        have hcount := @ih (n - 1) fun v hv => by
          have := h _ (hcons v hv)
          have := count_close v
          omega
        have := count_close u
        have : 1 ≤ n := by simpa using hfirst
        rw [unclosed_close]
        omega
      · have hcount := @ih n fun v hv => by
          have := h _ (hcons v hv)
          rwa [List.count_cons_of_ne hopen, List.count_cons_of_ne hclose] at this
        rw [List.count_cons_of_ne hopen, List.count_cons_of_ne hclose, ← hcount]
        simp [unclosed, hopen, hclose]

theorem Balanced.unclosed_add_count {u w : List Char} (h : Balanced w) (hu : u <+: w) :
    unclosed 0 u + u.count ')' = u.count '(' :=
  DeskCalc.unclosed_add_count fun v hv => h.opened v (hv.trans hu)

/-- The first parenthesis that finds as many open as may be is where a shallow text
ends. -/
theorem Shallow.prefix_of_full {n : Nat} {w before after u v : List Char} (hw : Balanced w)
    (hbefore : Shallow n before) (hsplit : w = before ++ '(' :: after) (h : w = u ++ '(' :: v) (hu : unclosed 0 u = n) :
    before <+: u := by
  have hprefix : u ++ ['('] <+: w := ⟨v, by simp [h]⟩
  rcases List.prefix_or_prefix_of_prefix ⟨_, hsplit.symm⟩ hprefix with hle | hle
  · rcases List.prefix_concat_iff.mp hle with rfl | hle
    · have := hbefore.lt_of_prefix (List.prefix_refl _)
      have := hw.unclosed_add_count ⟨'(' :: v, h.symm⟩
      omega
    · exact hle
  · have := hbefore.lt_of_prefix hle
    have := hw.unclosed_add_count ⟨'(' :: v, h.symm⟩
    omega

/-! ## Sessions -/

namespace Session

/-- A statement that nests deeper than 128 parentheses is refused at the first one that
finds as many open, and does nothing; one that does not is never refused for that,
however many it has. Whatever the line is, where it is refused for its nesting stands a
parenthesis, in front of it 128 more have been opened than closed, and nowhere in the
text that has been read are more than 128 open. -/
theorem evaluate_nesting (s : Session) :
    (∀ d : Clause, 128 < d.nesting → ∃ before after, d.text = before ++ '(' :: after ∧ unclosed 0 before = 128 ∧
      (∀ u v, d.text = u ++ '(' :: v → unclosed 0 u = 128 → before <+: u) ∧
      (s.evaluate (.ofList d.text)).result =
        .error (.malformed (.tooDeep (String.ofList before).utf8ByteSize 128)) ∧
      (s.evaluate (.ofList d.text)).session.table = s.table) ∧
    (∀ d : Clause, d.nesting ≤ 128 → ∀ p k,
      (s.evaluate (.ofList d.text)).result ≠ .error (.malformed (.tooDeep p k))) ∧
    (∀ line p k, (s.evaluate line).result = .error (.malformed (.tooDeep p k)) → k = 128 ∧
      ∃ before after, line.toList = before ++ '(' :: after ∧ (String.ofList before).utf8ByteSize = p ∧
        before.count '(' = before.count ')' + 128 ∧ Shallow 128 before) ∧
    ∀ line, ∃ before after, line.toList = before ++ after ∧
      (String.ofList before).utf8ByteSize = Statement.stop line ∧ Shallow 128 before := by
  refine ⟨fun d h => ?_, fun d h p k => evaluate_ne_malformed h _, fun line p k h => ?_, Statement.exists_shallow⟩
  · obtain ⟨w, cs, ht, hb⟩ := d.exists_tooDeep h
    obtain ⟨-, hw⟩ := hb.full_of_tooDeep
    obtain ⟨hresult, hsession⟩ := evaluate_of_breaks (s := s) hb
    have hopen := d.balanced_text.unclosed_add_count ⟨_, ht.symm⟩
    have hfull : unclosed 0 w = 128 := by
      have : maxNesting = 128 := rfl
      omega
    rw [← ht] at hresult hsession
    refine ⟨w, cs, ht, hfull, fun u v => hb.shallow.prefix_of_full d.balanced_text ht, ?_, congrArg table hsession⟩
    rw [hb.utf8ByteSize_eq]
    exact hresult
  · rcases malformed_cases h with ⟨w, cs, hw, hb, -⟩ | ⟨d, b, x, r, -, -, he, -⟩
    · obtain ⟨hk, hcount⟩ := hb.full_of_tooDeep
      obtain ⟨cs, rfl⟩ : ∃ cs', cs = '(' :: cs' := by
        have hhead : cs.head? = some '(' := hb.truthful
        exact ⟨cs.tail, List.eq_cons_of_mem_head? hhead⟩
      exact ⟨hk, w, cs, hw, hb.utf8ByteSize_eq, hcount, hb.shallow⟩
    · cases he

/-- One pair of parentheses more than may be, as many as may be, and one more in front of
what is no operand. -/
theorem evaluate_nesting_around_128 :
    let d (n : Nat) : Clause := .answer (Phrase.zero.enclosed n).ofValue 0
    (∃ before after, (d 129).text = before ++ '(' :: after ∧ unclosed 0 before = 128 ∧
      (({} : Session).evaluate (.ofList (d 129).text)).result =
        .error (.malformed (.tooDeep (String.ofList before).utf8ByteSize 128))) ∧
    (∀ p k, (({} : Session).evaluate (.ofList (d 128).text)).result ≠ .error (.malformed (.tooDeep p k))) ∧
    ∃ before after, List.replicate 129 '(' ++ ['é'] = before ++ '(' :: after ∧
      (String.ofList before).utf8ByteSize = 128 ∧ before.count '(' = before.count ')' + 128 := by
  intro d
  have hd (n : Nat) : (d n).nesting = n := (Phrase.zero.nesting_enclosed n).trans (Nat.zero_add n)
  have hline : (({} : Session).evaluate (.ofList (List.replicate 129 '(' ++ ['é']))).result =
      .error (.malformed (.tooDeep 128 128)) := by decide +kernel
  obtain ⟨hdeep, hfits, hany, -⟩ := evaluate_nesting {}
  obtain ⟨w, cs, ht, hw, -, hr, -⟩ := hdeep (d 129) (by rw [hd]; decide)
  obtain ⟨-, u, v, hu, hsize, hcount, -⟩ := hany _ _ _ hline
  exact ⟨⟨w, cs, ht, hw, hr⟩, hfits (d 128) (by rw [hd]), u, v, by rwa [String.toList_ofList] at hu, hsize, hcount⟩

end Session

end DeskCalc
