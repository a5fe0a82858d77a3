import DeskCalc.Proofs.Readback
import DeskCalc.Proofs.Words

/-!
# What messages tell

An error can be told from its message. A character stands in it as it is, also a quote, a
digit or a comma, and so do the names of token kinds with their quotes and spaces. Still
nothing is ambiguous: what stands for a part of the error can be told from what it starts
with, whatever follows, and a number ends where its digits do.

Results:
* `prefixCode_kind`, `prefixCode_found`, `prefixCode_numeral`: the parts of messages.
* `PrefixCode.intercalate_injective`: lists of such parts.
* `SyntaxError.message_inj`: what a complaint about the form of a line tells.
* `EvalError.message_injective`: errors of one message are the same.
-/
namespace DeskCalc

/-! ## Parts of messages -/

/-- The texts can be told apart by what they start with, whatever follows. -/
def PrefixCode {α : Type} (text : α → List Char) : Prop :=
  ∀ ⦃a b r r'⦄, text a ++ r = text b ++ r' → a = b ∧ r = r'

theorem PrefixCode.of_front_eq {α : Type} {text : α → List Char} (h : ∀ a b, text a <+: text b → a = b) :
    PrefixCode text := by
  intro a b r r' he
  have hb : text b <+: text a ++ r := ⟨r', he.symm⟩
  obtain rfl : a = b := by
    rcases List.prefix_or_prefix_of_prefix (List.prefix_append (text a) r) hb with hab | hba
    · exact h a b hab
    · exact (h b a hba).symm
  exact ⟨rfl, List.append_cancel_left he⟩

/-- The name of a kind is not the beginning of another one. -/
theorem prefixCode_kind : PrefixCode fun k : TokenKind => k.describe.toList :=
  .of_front_eq fun a b => by cases a <;> cases b <;> decide

/-- A character in quotes is known by where it stands, so it may be a quote itself. -/
theorem prefixCode_found : PrefixCode fun f : Found => f.describe.toList := by
  intro a b r r' h
  cases a with
  | char c =>
    cases b with
    | char d => simpa [Found.describe] using h
    | endOfInput => simp [Found.describe] at h
  | endOfInput =>
    cases b with
    | char d => simp [Found.describe] at h
    | endOfInput => exact ⟨rfl, List.append_cancel_left h⟩

theorem numeral_injective {n m : Nat} (h : numeral n = numeral m) : n = m := by
  rw [← numeralValue_numeral n, h, numeralValue_numeral]

/-- A number is told apart by its digits and what ends them. -/
theorem prefixCode_numeral (stop : Char) (hs : stop.isDigit = false) : PrefixCode fun n => numeral n ++ [stop] := by
  intro n m r r' h
  have ends (n : Nat) (r : List Char) := takeWhile_append_of_stop (p := Char.isDigit) (w := numeral n)
    (r := stop :: r) (fun c hc => isDigit_of_mem_numeral hc) (fun c hc => by cases hc; exact hs)
  simp only [List.append_assoc, List.singleton_append] at h
  have hn : numeral n = numeral m := by rw [← (ends n r).1, h, (ends m r').1]
  rw [hn] at h
  exact ⟨numeral_injective hn, (List.cons.inj (List.append_cancel_left h)).2⟩

theorem PrefixCode.flatMap_injective {α : Type} {text : α → List Char} (h : PrefixCode text)
    (hne : ∀ a, text a ≠ []) {l l' : List α} (he : l.flatMap text = l'.flatMap text) : l = l' := by
  induction l generalizing l' with
  | nil =>
    cases l' with
    | nil => rfl
    | cons b l' => exact absurd (List.append_eq_nil_iff.mp he.symm).1 (hne b)
  | cons a l ih =>
    cases l' with
    | nil => exact absurd (List.append_eq_nil_iff.mp he).1 (hne a)
    | cons b l' =>
      obtain ⟨rfl, hrest⟩ := h he
      rw [ih hrest]

theorem intercalate_cons (sep w : List Char) (ws : List (List Char)) :
    sep.intercalate (w :: ws) = w ++ ws.flatMap (sep ++ ·) := by
  induction ws generalizing w with
  | nil => simp
  | cons v ws ih => rw [List.intercalate_cons_cons, ih, List.flatMap_cons, List.append_assoc, List.append_assoc]

/-- A list of such texts can be told from them with anything between them. -/
theorem PrefixCode.intercalate_injective {α : Type} {text : α → List Char} (h : PrefixCode text)
    (hne : ∀ a, text a ≠ []) (sep : List Char) {l l' : List α}
    (he : sep.intercalate (l.map text) = sep.intercalate (l'.map text)) : l = l' := by
  have hsep : PrefixCode fun a => sep ++ text a := fun a b r r' he => by
    rw [List.append_assoc, List.append_assoc] at he
    exact h (List.append_cancel_left he)
  cases l with
  | nil =>
    cases l' with
    | nil => rfl
    | cons b l' =>
      rw [List.map_cons, intercalate_cons] at he
      exact absurd (List.append_eq_nil_iff.mp he.symm).1 (hne b)
  | cons a l =>
    cases l' with
    | nil =>
      rw [List.map_cons, intercalate_cons] at he
      exact absurd (List.append_eq_nil_iff.mp he).1 (hne a)
    | cons b l' =>
      rw [List.map_cons, List.map_cons, intercalate_cons, intercalate_cons, List.flatMap_map, List.flatMap_map] at he
      obtain ⟨rfl, hrest⟩ := h he
      rw [hsep.flatMap_injective (fun a => List.append_ne_nil_of_right_ne_nil _ (hne a)) hrest]

/-! ## Messages -/

theorem toList_toString (n : Nat) : (toString n).toList = numeral n := Nat.toList_repr

namespace SyntaxError

section

variable (p o n : Nat) (f : Found) (ks : List TokenKind)

/-! The messages by their parts, each number with the character that ends it. -/

theorem message_unexpected : (unexpected p f ks).message.toList =
    "unexpected ".toList ++ (f.describe.toList ++ (" at ".toList ++ ((numeral p ++ [',']) ++ (" expected ".toList ++
      ", ".toList.intercalate (ks.map fun k => k.describe.toList))))) := by
  have h : (unexpected p f ks).message = "unexpected " ++ f.describe ++ " at " ++ toString p ++ ", expected " ++
    ", ".intercalate (ks.map TokenKind.describe) := rfl
  have hstop : ", expected ".toList = [','] ++ " expected ".toList := by simp
  simp only [h, hstop, String.toList_append, toList_toString, String.toList_intercalate, List.map_map,
    List.append_assoc]
  rfl

theorem message_unmatchedParen : (unmatchedParen o p f).message.toList =
    "unmatched left parenthesis at ".toList ++ ((numeral o ++ [':']) ++ (" found ".toList ++ (f.describe.toList ++
      (" at ".toList ++ numeral p)))) := by
  have h : (unmatchedParen o p f).message =
    "unmatched left parenthesis at " ++ toString o ++ ": found " ++ f.describe ++ " at " ++ toString p := rfl
  have hstop : ": found ".toList = [':'] ++ " found ".toList := by simp
  simp only [h, hstop, String.toList_append, toList_toString, List.append_assoc]

theorem message_trailing : (trailing p f).message.toList =
    "unexpected character at ".toList ++ ((numeral p ++ [':']) ++ (" ".toList ++ f.describe.toList)) := by
  have h : (trailing p f).message = "unexpected character at " ++ toString p ++ ": " ++ f.describe := rfl
  have hstop : ": ".toList = [':'] ++ " ".toList := by simp
  simp only [h, hstop, String.toList_append, toList_toString, List.append_assoc]

theorem message_tooDeep : (tooDeep p n).message.toList =
    "parentheses nested deeper than ".toList ++ ((numeral n ++ [' ']) ++ ("at ".toList ++ numeral p)) := by
  have h : (tooDeep p n).message = "parentheses nested deeper than " ++ toString n ++ " at " ++ toString p := rfl
  have hstop : " at ".toList = [' '] ++ "at ".toList := by simp
  simp only [h, hstop, String.toList_append, toList_toString, List.append_assoc]

end

section

variable {p p' o o' n n' : Nat} {f f' : Found} {ks ks' : List TokenKind}

theorem unexpected_inj (h : (unexpected p f ks).message.toList = (unexpected p' f' ks').message.toList) :
    unexpected p f ks = unexpected p' f' ks' := by
  rw [message_unexpected, message_unexpected] at h
  obtain ⟨hf, h₁⟩ := prefixCode_found (List.append_cancel_left h)
  obtain ⟨hp, h₂⟩ := prefixCode_numeral ',' (by decide) (List.append_cancel_left h₁)
  have hks := prefixCode_kind.intercalate_injective (fun k => by cases k <;> decide) _ (List.append_cancel_left h₂)
  rw [hf, hp, hks]

theorem unmatchedParen_inj (h : (unmatchedParen o p f).message.toList = (unmatchedParen o' p' f').message.toList) :
    unmatchedParen o p f = unmatchedParen o' p' f' := by
  rw [message_unmatchedParen, message_unmatchedParen] at h
  obtain ⟨ho, h₁⟩ := prefixCode_numeral ':' (by decide) (List.append_cancel_left h)
  obtain ⟨hf, h₂⟩ := prefixCode_found (List.append_cancel_left h₁)
  have hp := numeral_injective (List.append_cancel_left h₂)
  rw [ho, hf, hp]

theorem trailing_inj (h : (trailing p f).message.toList = (trailing p' f').message.toList) :
    trailing p f = trailing p' f' := by
  rw [message_trailing, message_trailing] at h
  obtain ⟨hp, h₁⟩ := prefixCode_numeral ':' (by decide) (List.append_cancel_left h)
  obtain ⟨hf, -⟩ := prefixCode_found (congrArg (· ++ []) (List.append_cancel_left h₁))
  rw [hp, hf]

theorem tooDeep_inj (h : (tooDeep p n).message.toList = (tooDeep p' n').message.toList) :
    tooDeep p n = tooDeep p' n' := by
  rw [message_tooDeep, message_tooDeep] at h
  obtain ⟨hn, h₁⟩ := prefixCode_numeral ' ' (by decide) (List.append_cancel_left h)
  have hp := numeral_injective (List.append_cancel_left h₁)
  rw [hn, hp]

end

/-- Two of the causes start with the same word. There the next one tells a character in quotes
or the end of the input from the word `character`. -/
theorem message_inj {e e' : SyntaxError} (h : e.message.toList = e'.message.toList) : e = e' := by
  cases e with
  | unexpected p f ks =>
    cases e' with
    | unexpected => exact unexpected_inj h
    | unmatchedParen => simp [message_unexpected, message_unmatchedParen] at h
    | trailing => cases f <;> simp [message_unexpected, message_trailing, Found.describe] at h
    | tooDeep => simp [message_unexpected, message_tooDeep] at h
  | unmatchedParen =>
    cases e' with
    | unexpected => simp [message_unexpected, message_unmatchedParen] at h
    | unmatchedParen => exact unmatchedParen_inj h
    | trailing => simp [message_trailing, message_unmatchedParen] at h
    | tooDeep => simp [message_unmatchedParen, message_tooDeep] at h
  | trailing =>
    cases e' with
    | unexpected _ f => cases f <;> simp [message_unexpected, message_trailing, Found.describe] at h
    | unmatchedParen => simp [message_trailing, message_unmatchedParen] at h
    | trailing => exact trailing_inj h
    | tooDeep => simp [message_trailing, message_tooDeep] at h
  | tooDeep =>
    cases e' with
    | unexpected => simp [message_unexpected, message_tooDeep] at h
    | unmatchedParen => simp [message_unmatchedParen, message_tooDeep] at h
    | trailing => simp [message_trailing, message_tooDeep] at h
    | tooDeep => exact tooDeep_inj h

end SyntaxError

namespace EvalError

theorem message_malformed (e : SyntaxError) :
    (malformed e).message.toList = "SyntaxError: ".toList ++ e.message.toList := by
  have h : (malformed e).message = "SyntaxError" ++ ": " ++ e.message := rfl
  simp only [h, String.toList_append]
  rfl

theorem message_notAssignable (p : Nat) : (notAssignable p).message.toList =
    "AssignmentError: value cannot be assigned (\"=\" at ".toList ++ ((numeral p ++ [')']) ++ []) := by
  have h : (notAssignable p).message =
    "AssignmentError" ++ ": " ++ ("value cannot be assigned (\"=\" at " ++ toString p ++ ")") := rfl
  simp only [h, String.toList_append, toList_toString, List.append_assoc]
  rfl

/-- The message of an error tells its kind and its cause, all offsets, what was found, what was
expected and the limit, whatever these are: errors of one message are the same. -/
theorem message_injective : Function.Injective message := by
  intro e e' h
  have h := congrArg String.toList h
  cases e with
  | malformed e =>
    cases e' with
    | malformed e' =>
      rw [message_malformed, message_malformed] at h
      rw [SyntaxError.message_inj (List.append_cancel_left h)]
    | notAssignable p => simp [message_malformed, message_notAssignable] at h
  | notAssignable p =>
    cases e' with
    | malformed e' => simp [message_malformed, message_notAssignable] at h
    | notAssignable p' =>
      rw [message_notAssignable, message_notAssignable] at h
      obtain ⟨hp, -⟩ := prefixCode_numeral ')' (by decide) (List.append_cancel_left h)
      rw [hp]

/-- A quote and a comma are found as they are, and nothing is expected. -/
example : (malformed (.unexpected 3 (.char '"') [])).message = "SyntaxError: unexpected \"\"\" at 3, expected " ∧
    (malformed (.unexpected 3 (.char ',') [.addSub])).message =
      "SyntaxError: unexpected \",\" at 3, expected \"+\" or \"-\"" := by
  decide +kernel

end EvalError

end DeskCalc
