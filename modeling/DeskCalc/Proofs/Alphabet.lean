import DeskCalc.Proofs.Clause

/-!
# The characters of clauses

Results:
* `Phrase.isPhraseChar`: what characters a phrase consists of; an equals sign is
  not among them.
* `Clause.utf8ByteSize_text`: a clause has as many bytes as characters, so offsets
  of the reader count bytes.
-/
namespace DeskCalc

/-- The characters that phrases consist of. -/
def isPhraseChar (c : Char) : Bool :=
  TokenKind.isNameChar c || c ∈ [' ', '(', ')', '+', '-', '*', '/', '^', '.']

theorem isPhraseChar_of_isNameChar {c : Char} (h : TokenKind.isNameChar c) : isPhraseChar c := by
  simp [isPhraseChar, h]

theorem isPhraseChar_spaces {n : Nat} : ∀ c ∈ spaces n, isPhraseChar c := by
  intro c hc
  obtain rfl := List.eq_of_mem_replicate hc
  decide

theorem Phrase.isPhraseChar {r : Rank} (p : Phrase r) : ∀ c ∈ p.text, isPhraseChar c := by
  induction p with
  | name x h => exact fun c hc => isPhraseChar_of_isNameChar (h.isNameChar c hc)
  | literal l h =>
    intro c hc
    rcases h.mem_chars hc with rfl | rfl | rfl | hd
    · decide
    · decide
    · decide
    · exact isPhraseChar_of_isNameChar (isNameChar_of_isDigit hd)
  | single _ ih => exact ih
  | group n p m ih =>
    intro c hc
    simp only [text, List.mem_cons, List.mem_append, List.not_mem_nil, or_false] at hc
    rcases hc with rfl | ((hc | hc) | hc) | rfl
    · decide
    · exact isPhraseChar_spaces c hc
    · exact ih c hc
    · exact isPhraseChar_spaces c hc
    · decide
  | more p n op _ m q ih₁ ih₂ =>
    intro c hc
    simp only [text, List.mem_cons, List.mem_append] at hc
    rcases hc with (hc | hc) | rfl | hc | hc
    · exact ih₁ c hc
    · exact isPhraseChar_spaces c hc
    · cases op <;> decide
    · exact isPhraseChar_spaces c hc
    · exact ih₂ c hc

theorem Phrase.equals_not_mem {r : Rank} (p : Phrase r) : '=' ∉ p.text := fun h =>
  absurd (p.isPhraseChar '=' h) (by decide)

theorem equals_not_mem_spaces (n : Nat) : '=' ∉ spaces n := fun h =>
  absurd (isPhraseChar_spaces '=' h) (by decide)

namespace Line

theorem equals_not_mem_answer (p : Phrase .sum) (k : Nat) : '=' ∉ p.text ++ spaces k := fun h => by
  rcases List.mem_append.mp h with h | h
  · exact p.equals_not_mem h
  · exact equals_not_mem_spaces k h

theorem equals_not_mem_target (q : Target) (n : Nat) : '=' ∉ q.text ++ spaces n := fun h => by
  rcases List.mem_append.mp h with h | h
  · exact q.toValue.equals_not_mem (q.text_toValue ▸ h)
  · exact equals_not_mem_spaces n h

end Line

/-! ## Bytes -/

theorem utf8Size_of_isNameChar {c : Char} (h : TokenKind.isNameChar c) : c.utf8Size = 1 := by
  rw [Char.utf8Size_eq_one_iff]
  simp only [TokenKind.isNameChar, Char.isAlphanum, Char.isAlpha, Char.isUpper, Char.isLower, Char.isDigit,
    Bool.or_eq_true, Bool.and_eq_true, decide_eq_true_eq, ge_iff_le, UInt32.le_iff_toNat_le] at h
  rcases h with ((⟨-, h⟩ | ⟨-, h⟩) | ⟨-, h⟩) | rfl
  · exact UInt32.le_iff_toNat_le.mpr (Nat.le_trans h (by decide))
  · exact UInt32.le_iff_toNat_le.mpr (Nat.le_trans h (by decide))
  · exact UInt32.le_iff_toNat_le.mpr (Nat.le_trans h (by decide))
  · decide

theorem utf8Size_of_isPhraseChar {c : Char} (h : isPhraseChar c) : c.utf8Size = 1 := by
  rcases Bool.or_eq_true_iff.mp h with h | h
  · exact utf8Size_of_isNameChar h
  · have hall : [' ', '(', ')', '+', '-', '*', '/', '^', '.'].all (·.utf8Size == 1) := by decide
    simpa using List.all_eq_true.mp hall c (by simpa using h)

theorem utf8ByteSize_cons (c : Char) (cs : List Char) :
    (String.ofList (c :: cs)).utf8ByteSize = c.utf8Size + (String.ofList cs).utf8ByteSize := by
  have hcons : String.ofList (c :: cs) = String.singleton c ++ String.ofList cs := by
    rw [String.singleton_eq_ofList, ← String.ofList_append, List.singleton_append]
  rw [hcons, String.utf8ByteSize_append, String.utf8ByteSize_singleton]

theorem utf8ByteSize_ofList {cs : List Char} (h : ∀ c ∈ cs, c.utf8Size = 1) :
    (String.ofList cs).utf8ByteSize = cs.length := by
  induction cs with
  | nil => rfl
  | cons c cs ih =>
    rw [utf8ByteSize_cons, h c (by simp), ih fun x hx => h x (by simp [hx]), List.length_cons, Nat.add_comm]

theorem Clause.utf8Size_of_mem {d : Clause} {c : Char} (hc : c ∈ d.text) : c.utf8Size = 1 := by
  have hspaces {n : Nat} (h : c ∈ spaces n) : c.utf8Size = 1 :=
    utf8Size_of_isPhraseChar (isPhraseChar_spaces c h)
  have hphrase {p : Phrase .sum} (h : c ∈ p.text) : c.utf8Size = 1 :=
    utf8Size_of_isPhraseChar (p.isPhraseChar c h)
  cases d with
  | answer p k =>
    rcases List.mem_append.mp hc with h | h
    · exact hphrase h
    · exact hspaces h
  | equation p n m q k =>
    simp only [text, List.mem_append, List.mem_cons] at hc
    rcases hc with h | h | rfl | h | h | h
    · exact hphrase h
    · exact hspaces h
    · decide
    · exact hspaces h
    · exact hphrase h
    · exact hspaces h

theorem Clause.utf8ByteSize_text (d : Clause) : (String.ofList d.text).utf8ByteSize = d.text.length :=
  utf8ByteSize_ofList fun _ => utf8Size_of_mem

end DeskCalc
