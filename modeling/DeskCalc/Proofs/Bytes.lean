import DeskCalc.Proofs.Alphabet

/-!
# Texts as bytes

Two dictionaries between the characters of a text and its bytes in UTF-8. A character below
U+0080 is one byte, and that byte is below 128; no other character starts with such a byte.
So a run of these characters is as long as its bytes. And a byte offset is between two
characters just if the text in front of it has that many bytes; at the others there is no
byte below 128.

Results:
* `takeWhile_encode`: a run of characters below U+0080 as a run of bytes.
* `isPrefix_of_encode`: what stands in front in bytes does so in characters.
* `isValid_iff`, `seek_eq_some_iff`: the places between characters.
* `exists_high_of_not_isValid`: the other places.
-/
namespace DeskCalc

/-- The bytes of a text in UTF-8. -/
def encode (cs : List Char) : List UInt8 := cs.flatMap String.utf8EncodeChar

/-- The byte is a character below U+0080 with the property. -/
def onByte (p : Char → Bool) (b : UInt8) : Bool := b < 128 && p (Char.ofUInt8 b)

/-- Every character with the property is encoded as one byte. -/
def OneByte (p : Char → Bool) : Prop := ∀ c, p c → c.utf8Size = 1

/-! ## Characters and bytes -/

section

variable {p : Char → Bool} {c : Char} {b : UInt8} {w cs : List Char}

theorem encode_append (w cs : List Char) : encode (w ++ cs) = encode w ++ encode cs := List.flatMap_append

theorem encode_toList (s : String) : encode s.toList = s.toUTF8.data.toList := by
  have h : s.toUTF8 = (encode s.toList).toByteArray := by
    conv => lhs; rw [← s.ofList_toList]
    exact String.toByteArray_ofList
  rw [h, List.data_toByteArray, List.toList_toArray]

theorem length_encode (cs : List Char) : (encode cs).length = (String.ofList cs).utf8ByteSize := by
  induction cs with
  | nil => rfl
  | cons c cs ih =>
    rw [utf8ByteSize_cons, ← ih]
    simp [encode]

/-- A character of one byte is that byte. -/
theorem encode_cons (h : c.utf8Size = 1) (cs : List Char) : encode (c :: cs) = c.toUInt8 :: encode cs := by
  rw [encode, List.flatMap_cons, String.utf8EncodeChar_eq_singleton h]
  rfl

theorem toUInt8_lt (h : c.utf8Size = 1) : c.toUInt8 < 128 ∧ Char.ofUInt8 c.toUInt8 = c := by
  have hc : c.toNat ≤ 127 := UInt32.le_iff_toNat_le.mp (Char.utf8Size_eq_one_iff.mp h)
  have hb : c.toUInt8.toNat = c.toNat := Nat.mod_eq_of_lt (Nat.lt_of_le_of_lt hc (by decide))
  exact ⟨UInt8.lt_iff_toNat_lt.mpr (hb ▸ Nat.lt_succ_of_le hc), Char.ext (UInt32.toNat_inj.mp hb)⟩

theorem onByte_toUInt8 (h : c.utf8Size = 1) : onByte p c.toUInt8 = p c := by
  obtain ⟨hlt, he⟩ := toUInt8_lt h
  simp [onByte, hlt, he]

theorem onByte_of_high (h : 128 ≤ b) : onByte p b = false := by
  simp [onByte, UInt8.not_lt.mpr h]

/-- A character of several bytes has none below 128 in front. -/
theorem exists_encode_cons (h : c.utf8Size ≠ 1) (cs : List Char) :
    ∃ b bytes, encode (c :: cs) = b :: bytes ∧ 128 ≤ b := by
  have hc : ¬ c.val.toNat ≤ 127 := fun hle => h (Char.utf8Size_eq_one_iff.mpr (UInt32.le_iff_toNat_le.mpr hle))
  have high {n : Nat} (h₁ : 128 ≤ n) (h₂ : n < 256) : 128 ≤ UInt8.ofNat n := by
    rw [UInt8.le_iff_toNat_le, UInt8.toNat_ofNat', Nat.mod_eq_of_lt h₂]
    exact h₁
  rw [encode, List.flatMap_cons, String.utf8EncodeChar]
  simp only [hc, if_false]
  split
  · exact ⟨_, _, rfl, high (by omega) (by omega)⟩
  · split
    · exact ⟨_, _, rfl, high (by omega) (by omega)⟩
    · exact ⟨_, _, rfl, high (by omega) (by omega)⟩

theorem takeWhile_encode (hp : OneByte p) (cs : List Char) :
    (encode cs).takeWhile (onByte p) = encode (cs.takeWhile p) := by
  induction cs with
  | nil => rfl
  | cons c cs ih =>
    by_cases hc : c.utf8Size = 1
    · rw [encode_cons hc, List.takeWhile_cons, List.takeWhile_cons, onByte_toUInt8 hc, ih]
      split
      · rw [encode_cons hc]
      · rfl
    · obtain ⟨b, bytes, he, hb⟩ := exists_encode_cons hc cs
      have hpc : ¬ p c := fun h => hc (hp c h)
      rw [he, List.takeWhile_cons, onByte_of_high hb, List.takeWhile_cons, if_neg hpc]
      rfl

theorem isPrefix_of_encode (h : encode w <+: encode cs) : w <+: cs := by
  obtain ⟨bytes, h⟩ := h
  refine List.isPrefix_of_utf8Encode_append_eq_utf8Encode bytes.toByteArray ?_
  exact List.toByteArray_append.symm.trans (congrArg List.toByteArray h)

/-- A byte below 128 stands just where its character does. -/
theorem getElem?_encode (hw : ∀ c ∈ w, c.utf8Size = 1) (hc : c.utf8Size = 1) (cs : List Char) :
    (encode (w ++ cs))[w.length]? = some c.toUInt8 ↔ cs.head? = some c := by
  have hl : (encode w).length = w.length := (length_encode w).trans (utf8ByteSize_ofList hw)
  rw [encode_append, List.getElem?_append_right (Nat.le_of_eq hl), hl, Nat.sub_self]
  obtain ⟨hlt, hc'⟩ := toUInt8_lt hc
  cases cs with
  | nil => simp [encode]
  | cons d cs =>
    by_cases hd : d.utf8Size = 1
    · have hd' := (toUInt8_lt hd).2
      rw [encode_cons hd]
      simp only [List.getElem?_cons_zero, List.head?_cons, Option.some.injEq]
      exact ⟨fun e => by rw [← hd', e, hc'], fun e => by rw [e]⟩
    · obtain ⟨b, bytes, he, hb⟩ := exists_encode_cons hd cs
      have hbc : b ≠ c.toUInt8 := fun e => UInt8.not_lt.mpr hb (e ▸ hlt)
      have hdc : d ≠ c := fun e => hd (e ▸ hc)
      simp [he, hbc, hdc]

end

/-! ## Characters of one byte -/

theorem oneByte_isNameChar : OneByte TokenKind.isNameChar := fun _ h => utf8Size_of_isNameChar h

theorem oneByte_isAlpha : OneByte Char.isAlpha := fun c h =>
  oneByte_isNameChar c (by simp [TokenKind.isNameChar, Char.isAlphanum, h])

theorem oneByte_isDigit : OneByte Char.isDigit := fun c h => oneByte_isNameChar c (isNameChar_of_isDigit h)

theorem oneByte_isSymbol (kind : TokenKind) : OneByte kind.isSymbol := by
  intro c h
  cases kind with
  | identifier | number | space => cases h
  | assign | exponent | leftParen | rightParen =>
    rw [of_decide_eq_true h]
    decide
  | addSub | mulDiv =>
    rcases Bool.or_eq_true_iff.mp h with h | h <;>
    · rw [of_decide_eq_true h]
      decide

/-! ## Places in a text -/

theorem isValid_iff {s : String} {n : Nat} : (⟨n⟩ : String.Pos.Raw).IsValid s ↔
    ∃ before after : List Char, s.toList = before ++ after ∧ (String.ofList before).utf8ByteSize = n := by
  rw [String.Pos.Raw.isValid_iff_exists_append]
  constructor
  · rintro ⟨a, b, rfl, h⟩
    exact ⟨a.toList, b.toList, by simp, by simpa using (congrArg String.Pos.Raw.byteIdx h).symm⟩
  · rintro ⟨a, b, h, rfl⟩
    exact ⟨.ofList a, .ofList b, by rw [← String.ofList_append, ← h, String.ofList_toList], rfl⟩

theorem dropBytes_eq_some_iff {n : Nat} {cs r : List Char} :
    Cursor.dropBytes n cs = some r ↔ ∃ w, cs = w ++ r ∧ (String.ofList w).utf8ByteSize = n := by
  induction cs generalizing n with
  | nil =>
    cases n with
    | zero => simp [Cursor.dropBytes, eq_comm]
    | succ n =>
      simp only [Cursor.dropBytes, reduceCtorEq, false_iff]
      rintro ⟨w, h, hw⟩
      obtain rfl : w = [] := (List.append_eq_nil_iff.mp h.symm).1
      cases hw
  | cons c cs ih =>
    constructor
    · intro h
      cases n with
      | zero => exact ⟨[], Option.some.inj h, rfl⟩
      | succ n =>
        rw [Cursor.dropBytes] at h
        split at h
        · rename_i hc
          obtain ⟨w, rfl, hw⟩ := ih.mp h
          exact ⟨c :: w, rfl, by rw [utf8ByteSize_cons, hw]; omega⟩
        · cases h
    · rintro ⟨w, h, hw⟩
      cases w with
      | nil =>
        rw [← show 0 = n from hw]
        exact congrArg some h
      | cons d w =>
        obtain ⟨rfl, rfl⟩ := List.cons.inj h
        rw [utf8ByteSize_cons] at hw
        obtain ⟨m, rfl⟩ := Nat.exists_eq_succ_of_ne_zero (Nat.ne_of_gt (hw ▸ Nat.add_pos_left c.utf8Size_pos _))
        rw [Cursor.dropBytes, if_pos (by omega)]
        exact ih.mpr ⟨w, rfl, by omega⟩

theorem seek_eq_some_iff {input : String} {n : Nat} {c : Cursor} : Cursor.seek input n = some c ↔
    c.offset = n ∧ ∃ w, input.toList = w ++ c.rest ∧ (String.ofList w).utf8ByteSize = n := by
  rw [Cursor.seek, Option.map_eq_some_iff]
  constructor
  · rintro ⟨r, h, rfl⟩
    exact ⟨rfl, dropBytes_eq_some_iff.mp h⟩
  · rintro ⟨rfl, h⟩
    exact ⟨c.rest, dropBytes_eq_some_iff.mpr h, rfl⟩

theorem isUTF8FirstByte_of_lt {b : UInt8} (h : b < 128) : b.IsUTF8FirstByte := by
  refine .inl (UInt8.toNat_inj.mp ?_)
  have hbit : b.toNat.testBit 7 = false := Nat.testBit_lt_two_pow (UInt8.lt_iff_toNat_lt.mp h)
  rw [UInt8.toNat_and]
  exact (Nat.and_two_pow b.toNat 7).trans (by rw [hbit]; rfl)

/-- Inside a character there is none of the bytes below 128. -/
theorem exists_high_of_not_isValid {input : String} {n : Nat} (h : ¬ (⟨n⟩ : String.Pos.Raw).IsValid input)
    (hn : n ≤ (encode input.toList).length) : ∃ b bytes, (encode input.toList).drop n = b :: bytes ∧ 128 ≤ b := by
  have hl : (encode input.toList).length = input.utf8ByteSize := by rw [length_encode, String.ofList_toList]
  rw [String.Pos.Raw.isValid_iff_isUTF8FirstByte, not_or, not_exists] at h
  obtain ⟨hne, hfirst⟩ := h
  have hlt : n < input.utf8ByteSize := Nat.lt_of_le_of_ne (hl ▸ hn) fun e => hne (String.Pos.Raw.ext e)
  refine ⟨_, _, List.drop_eq_getElem_cons (hl ▸ hlt), UInt8.not_lt.mp fun hb => hfirst hlt ?_⟩
  have hget : (encode input.toList).get ⟨n, hl ▸ hlt⟩ = input.getUTF8Byte ⟨n⟩ hlt :=
    List.getElem_of_eq (encode_toList input) _
  exact hget ▸ isUTF8FirstByte_of_lt hb

end DeskCalc
